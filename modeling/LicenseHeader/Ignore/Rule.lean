import LicenseHeader.FileTree.Access
import LicenseHeader.Ignore.Pattern

/-!
# Ignore rules

A line of an ignore file is a rule, unless it is empty or a comment. `!` in front takes back what
earlier rules ignore, a separator at the end restricts the rule to directories, and any other
separator makes the rule one about the whole way from the directory of the file; without such a
separator it is about the last name alone. The last rule that covers an entry decides. Files and
ways are looked at octet by octet.
-/

namespace LicenseHeader.Ignore

open Text

structure Rule where
  /-- The pattern, without the marks in front of it and behind it. -/
  text : List Char
  tokens : List Token
  /-- Whether the rule takes back what earlier rules ignore. -/
  negated : Bool
  /-- Whether the rule is about directories only. -/
  directoriesOnly : Bool
  /-- Whether the rule is about the whole way and not about the last name. -/
  anchored : Bool
deriving DecidableEq, Repr

/-- A line, read backwards, without the blanks at its end; a blank behind a backslash stays. -/
def dropBlanks : List Char → List Char
  | [] => []
  | c :: cs =>
    if (c == ' ' || c == '\t') && (cs.takeWhile (· == '\\')).length % 2 == 0 then dropBlanks cs
    else c :: cs

/-- A line without the carriage return and the blanks at its end. -/
def trimLine (line : List Char) : List Char :=
  let backwards := match line.reverse with
    | '\r' :: cs => cs
    | cs => cs
  (dropBlanks backwards).reverse

namespace Rule

/-- The rules that a line states: none, or one for each form of its pattern. -/
def ofLine (d : Dialect) (line : List Char) : List Rule :=
  let line := trimLine line
  let negated := line.head? == some '!'
  let body := if negated then line.drop 1 else line
  let rooted := body.head? == some '/'
  let body := if rooted then body.drop 1 else body
  let directoriesOnly := body.getLast? == some '/'
  let text := if directoriesOnly then body.dropLast else body
  let ruleOf := fun form => (tokenize? d none form).map fun tokens : List Token =>
    ({ text := form, tokens, negated, directoriesOnly, anchored := rooted || text.contains '/' } : Rule)
  if line.head? == some '#' || text.isEmpty then []
  else (((d.forms text).getD []).mapM ruleOf).getD []

/-- A mark of the encoding, in octets, at the start of a text. -/
def encodingMark : List Char :=
  octetText ['\uFEFF']

/-- The rules that a file states; a mark of the encoding at its start does not count. In the dialect
with braces the file ends in front of the first line that is no text. -/
def ofContent (d : Dialect) (content : ByteArray) : List Rule :=
  let octets := octetsOf content
  let octets := if encodingMark.isPrefixOf octets then octets.drop encodingMark.length else octets
  let lines := fields '\n' octets
  let lines := match d with
    | .plain => lines
    | .braces => lines.takeWhile fun line => (decoded? line).isSome
  lines.flatMap (ofLine d)

/-- The rules in the file that a path leads to, none if there is no such file. -/
def ofFile (d : Dialect) (t : FileTree) (p : Path) : List Rule :=
  match t.read p with
  | .ok content => ofContent d content
  | .error _ => []

/-- Whether the rule is about an entry, given by the way from the directory of the rule. -/
def covers (r : Rule) (way : Location) (isDirectory : Bool) : Bool :=
  (isDirectory || !r.directoriesOnly) &&
    matchesAll (!r.anchored) r.tokens
      (octetText (if r.anchored then "/".intercalate way else way.getLastD "").toList)

/-- What some rules say about an entry: whether it is ignored, or nothing. -/
def verdict (rules : List Rule) (way : Location) (isDirectory : Bool) : Option Bool :=
  (rules.reverse.find? fun r => r.covers way isDirectory).map fun r => !r.negated

/-! ### Idle rules -/

/-- Whether a pattern holds a wildcard that is not behind a backslash. -/
def hasWildcard : List Char → Bool
  | [] => false
  | '\\' :: _ :: cs => hasWildcard cs
  | c :: cs => c == '*' || c == '?' || c == '[' || hasWildcard cs

/-- Whether `shorter` is the last name of the pattern `longer`. -/
def isLastName (shorter longer : List Char) : Bool :=
  !shorter.contains '/' && ('/' :: shorter).isSuffixOf longer

/-- Whether the negated rule `r` takes back something that `earlier` ignores, as far as the two
patterns tell. -/
def takesBack (r earlier : Rule) : Bool :=
  if hasWildcard earlier.text then matchesAll (!earlier.anchored) earlier.tokens r.text
  else !earlier.negated &&
    (earlier.text == r.text || isLastName earlier.text r.text || isLastName r.text earlier.text)

/-- Whether a rule has an effect behind the rules in front of it. A negated rule without wildcards
has one only if it takes back something. -/
def isEffective (before : List Rule) (r : Rule) : Bool :=
  !r.negated || hasWildcard r.text || before.any r.takesBack

def effective (rules : List Rule) : List Rule :=
  rules.foldl (fun kept r => if r.isEffective kept then kept ++ [r] else kept) []

end Rule

end LicenseHeader.Ignore
