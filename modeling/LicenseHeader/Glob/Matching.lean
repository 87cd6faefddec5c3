import LicenseHeader.Glob.Pattern

/-!
# Matching

A pattern has to match the whole of a text. The tokens are taken from the last one to the first.
For the tokens taken so far there is a table that tells of every suffix of the text, the longest one
first, whether these tokens match all of it; each token turns the table of the tokens behind it into
its own. The work is the number of tokens times the length of the text.
-/

namespace LicenseHeader.Glob

def Token.accepts : Token → Char → Bool
  | .literal a, c => a == c
  | .anyChar, _ => true
  | .oneOf ranges, c => ranges.any (·.contains c)
  | .noneOf ranges, c => !ranges.any (·.contains c)
  | _, _ => false

/-- The table of no token: only the empty suffix is matched. -/
def endTable : List Char → List Bool
  | [] => [true]
  | _ :: cs => false :: endTable cs

/-- The table of a token that takes one character with the property `p`. -/
def charTable (p : Char → Bool) : List Char → List Bool → List Bool
  | c :: cs, _ :: next => (p c && next.headD false) :: charTable p cs next
  | _, _ => [false]

/-- The table of a token that takes any sequence. -/
def sequenceTable : List Bool → List Bool
  | [] => []
  | b :: next =>
    let rest := sequenceTable next
    (b || rest.headD false) :: rest

/-- For every suffix, whether the table `next` holds behind one of its separators. -/
def behindSeparator : List Char → List Bool → List Bool
  | c :: cs, _ :: next =>
    let rest := behindSeparator cs next
    ((c == '/' && next.headD false) || rest.headD false) :: rest
  | _, _ => [false]

/-- The table of a token that takes any directories. -/
def directoriesTable (cs : List Char) (next : List Bool) : List Bool :=
  (next.zip (behindSeparator cs next)).map fun b => b.1 || b.2 || next.getLastD false

/-- The table of a token in front of tokens with the table `next`. -/
def Token.table (cs : List Char) (token : Token) (next : List Bool) : List Bool :=
  match token with
  | .anySequence => sequenceTable next
  | .anyDirectories => directoriesTable cs next
  | token => charTable token.accepts cs next

def matchesAll (tokens : List Token) (cs : List Char) : Bool :=
  (tokens.foldr (Token.table cs) (endTable cs)).headD false

def Pattern.isMatch (p : Pattern) (text : String) : Bool :=
  matchesAll p.tokens text.toList

end LicenseHeader.Glob
