import LicenseHeader.Glob.Matching

/-!
# Ignore patterns

The patterns of ignore files. A backslash takes the meaning from the character after it. `*` and `?`
stand for a part of a name; `**` as a whole path component stands for any directories or, at the
end, for everything below. A pattern may also be matched in such a way that separators are like any
other character. The characters of patterns and of the texts that they are matched with are octets.

Who lists a repository reads ignore files in another way than who walks a directory. There are two
dialects: they differ in the meaning of braces and in the way in which character sets are written.
-/

namespace LicenseHeader.Ignore

open Glob (CharRange endTable charTable sequenceTable behindSeparator)

/-- How an ignore file is read. -/
inductive Dialect where
  /-- Braces have no meaning of their own. Sets may name classes, and a backslash takes the meaning
  from a character in a set. -/
  | plain
  /-- Braces list alternatives. A backslash in a set stands for itself. -/
  | braces
deriving DecidableEq, Repr

/-! ### Alternatives

`{a,b}c` stands for `ac` and `bc`. Alternatives may be nested, and a backslash takes the meaning
from a brace or a comma. -/

/-- A list of alternatives that is still open. -/
structure OpenGroup where
  /-- What stands in front of it, in all forms. -/
  before : List (List Char)
  /-- Its alternatives so far, in all forms. -/
  closed : List (List Char)
deriving DecidableEq, Repr

/-- The forms of a pattern, of which the part that was read has the forms `read` inside the groups
`groups`, the innermost one first. There are none if braces do not pair up. -/
def expand (groups : List OpenGroup) (read : List (List Char)) :
    List Char → Option (List (List Char))
  | [] => if groups.isEmpty then some read else none
  | '\\' :: c :: cs => expand groups (read.map (· ++ ['\\', c])) cs
  | '\x7b' :: cs => expand (⟨read, []⟩ :: groups) [[]] cs
  | '\x7d' :: cs =>
    match groups with
    | [] => none
    | g :: groups =>
      expand groups (g.before.flatMap fun front => (g.closed ++ read).map (front ++ ·)) cs
  | ',' :: cs =>
    match groups with
    | [] => expand [] (read.map (· ++ [','])) cs
    | g :: groups => expand ({ g with closed := g.closed ++ read } :: groups) [[]] cs
  | c :: cs => expand groups (read.map (· ++ [c])) cs

def Dialect.forms (d : Dialect) (text : List Char) : Option (List (List Char)) :=
  match d with
  | plain => some [text]
  | braces => expand [] [[]] text

example : Dialect.braces.forms "\x7ba,b\x7dc".toList = some ["ac".toList, "bc".toList] := by
  decide

/-! ### Character sets -/

/-- The classes that a set can name, with the characters in them. -/
def charClasses : List (String × List CharRange) :=
  let digits : CharRange := ⟨'0', '9'⟩
  let lower : CharRange := ⟨'a', 'z'⟩
  let upper : CharRange := ⟨'A', 'Z'⟩
  [("alnum", [digits, lower, upper]), ("alpha", [lower, upper]),
    ("blank", [⟨' ', ' '⟩, ⟨'\t', '\t'⟩]), ("cntrl", [⟨'\x00', '\x1f'⟩, ⟨'\x7f', '\x7f'⟩]),
    ("digit", [digits]), ("graph", [⟨'!', '~'⟩]), ("lower", [lower]), ("print", [⟨' ', '~'⟩]),
    ("punct", [⟨'!', '/'⟩, ⟨':', '@'⟩, ⟨'[', '\x60'⟩, ⟨'\x7b', '~'⟩]),
    ("space", [⟨'\t', '\r'⟩, ⟨' ', ' '⟩]), ("upper", [upper]),
    ("xdigit", [digits, ⟨'a', 'f'⟩, ⟨'A', 'F'⟩])]

/-- The class whose name stands behind `[:`, and the number of characters up to and with the next
closing bracket; no class if what stands in front of that bracket is no colon. -/
def charClass? (cs : List Char) : Option (Option (List CharRange) × Nat) :=
  let name := cs.takeWhile (· ≠ ']')
  if ']' ∉ cs then none
  else if name.getLast? ≠ some ':' then some (none, name.length + 1)
  else (charClasses.lookup (String.ofList name.dropLast)).map fun c => (some c, name.length + 1)

/-- The ranges of a set in the plain dialect, and the number of characters up to and with its
closing bracket. `previous` is the character with which a range can begin; a bracket that comes
`first` does not close the set. -/
def plainRanges? (first : Bool) (previous : Option Char) :
    List Char → Option (List CharRange × Nat)
  | [] => none
  | '\\' :: cs =>
    match cs with
    | [] => none
    | c :: cs => (plainRanges? false (some c) cs).map fun r => (⟨c, c⟩ :: r.1, r.2 + 2)
  | '-' :: cs =>
    match previous, cs with
    | some low, '\\' :: high :: cs =>
      (plainRanges? false none cs).map fun r => (⟨low, high⟩ :: r.1, r.2 + 3)
    | some low, high :: cs =>
      if high = ']' then (plainRanges? false (some '-') (high :: cs)).map fun r =>
        (⟨'-', '-'⟩ :: r.1, r.2 + 1)
      else if high = '\\' then none
      else (plainRanges? false none cs).map fun r => (⟨low, high⟩ :: r.1, r.2 + 2)
    | _, cs => (plainRanges? false (some '-') cs).map fun r => (⟨'-', '-'⟩ :: r.1, r.2 + 1)
  | '[' :: ':' :: cs =>
    match charClass? cs with
    | none => none
    | some (some ranges, n) =>
      (plainRanges? false none (cs.drop n)).map fun r => (ranges ++ r.1, r.2 + n + 2)
    | some (none, _) =>
      (plainRanges? false (some '[') (':' :: cs)).map fun r => (⟨'[', '['⟩ :: r.1, r.2 + 1)
  | c :: cs =>
    if c = ']' ∧ !first then some ([], 1)
    else (plainRanges? false (some c) cs).map fun r => (⟨c, c⟩ :: r.1, r.2 + 1)
termination_by cs => cs.length

/-- A range that goes on to another character; there is none if it would run backwards. -/
def extendRange? (ranges : List CharRange) (high : Char) : Option (List CharRange) :=
  match ranges with
  | r :: ranges => if high < r.low then none else some ({ r with high } :: ranges)
  | [] => none

/-- The ranges of a set in the dialect with braces, and the number of characters up to and with its
closing bracket. Of the ranges read so far the last one comes first; it goes on if it is `open_`. -/
def bracesRanges? (read : List CharRange) (open_ : Bool) : List Char → Option (List CharRange × Nat)
  | [] => none
  | c :: cs =>
    if c = ']' ∧ read ≠ [] then some (if open_ then ⟨'-', '-'⟩ :: read else read, 1)
    else if c = '-' ∧ read ≠ [] ∧ !open_ then
      (bracesRanges? read true cs).map fun r => (r.1, r.2 + 1)
    else if open_ then
      (extendRange? read c).bind fun read =>
        (bracesRanges? read false cs).map fun r => (r.1, r.2 + 1)
    else (bracesRanges? (⟨c, c⟩ :: read) false cs).map fun r => (r.1, r.2 + 1)

/-- The ranges of a set, and the number of characters up to and with its closing bracket. -/
def Dialect.setRanges? (d : Dialect) (cs : List Char) : Option (List CharRange × Nat) :=
  match d with
  | plain => plainRanges? true none cs
  | braces => bracesRanges? [] false cs

example : Dialect.plain.setRanges? "[:digit:]_\\]]".toList =
    some ([⟨'0', '9'⟩, ⟨'_', '_'⟩, ⟨']', ']'⟩], 13) := by decide +kernel

/-! ### Tokens -/

inductive Token where
  | literal (c : Char)
  /-- Any character of a name. -/
  | anyChar
  /-- A character of a name in one of the ranges. -/
  | oneOf (ranges : List CharRange)
  /-- A character of a name in none of the ranges. -/
  | noneOf (ranges : List CharRange)
  /-- Any part of a name. -/
  | anyName
  /-- Any part of a path. -/
  | anyPath
  /-- Any directories, none included. -/
  | directories
deriving DecidableEq, Repr

/-- The token of a character set whose opening bracket was read, and the number of characters up to
and with the closing bracket. -/
def set? (d : Dialect) : List Char → Option (Token × Nat)
  | '!' :: cs | '^' :: cs => (d.setRanges? cs).map fun r => (.noneOf r.1, r.2 + 1)
  | cs => (d.setRanges? cs).map fun r => (.oneOf r.1, r.2)

/-- The tokens of a pattern of which `previous` was read last. There are none if a set is not closed
or a backslash comes last. -/
def tokenize? (d : Dialect) (previous : Option Char) : List Char → Option (List Token)
  | [] => some []
  | ['\\'] => none
  | '\\' :: c :: cs => (tokenize? d (some c) cs).map (.literal c :: ·)
  | '?' :: cs => (tokenize? d (some '?') cs).map (.anyChar :: ·)
  | '*' :: '*' :: '*' :: cs => tokenize? d previous ('*' :: '*' :: cs)
  | '*' :: '*' :: '/' :: cs =>
    if previous.all (· == '/') then (tokenize? d (some '/') cs).map (.directories :: ·)
    else (tokenize? d (some '*') ('/' :: cs)).map (.anyName :: ·)
  | ['*', '*'] => some [if previous.all (· == '/') then .anyPath else .anyName]
  | '*' :: cs => (tokenize? d (some '*') cs).map (.anyName :: ·)
  | '[' :: cs =>
    match set? d cs with
    | some (token, n) => (tokenize? d (some ']') (cs.drop n)).map (token :: ·)
    | none => none
  | c :: cs => (tokenize? d (some c) cs).map (.literal c :: ·)
termination_by cs => cs.length

/-- Whether a token for a single character accepts it. With `crossing`, a separator is like any
other character. -/
def Token.accepts (crossing : Bool) (token : Token) (c : Char) : Bool :=
  match token with
  | .literal a => c == a
  | .anyChar => crossing || c != '/'
  | .oneOf ranges => (crossing || c != '/') && ranges.any (·.contains c)
  | .noneOf ranges => (crossing || c != '/') && !ranges.any (·.contains c)
  | _ => false

/-- The table of a token that takes any part of a name, in front of tokens with the table `next`. -/
def nameTable : List Char → List Bool → List Bool
  | c :: cs, b :: next =>
    let rest := nameTable cs next
    (b || (c != '/' && rest.headD false)) :: rest
  | _, next => next

/-- The table of a token in front of tokens with the table `next`. -/
def Token.table (crossing : Bool) (cs : List Char) (token : Token) (next : List Bool) : List Bool :=
  match token with
  | .anyName => if crossing then sequenceTable next else nameTable cs next
  | .anyPath => sequenceTable next
  | .directories => (next.zip (behindSeparator cs next)).map fun b => b.1 || b.2
  | token => charTable (token.accepts crossing) cs next

def matchesAll (crossing : Bool) (tokens : List Token) (cs : List Char) : Bool :=
  (tokens.foldr (Token.table crossing cs) (endTable cs)).headD false

end LicenseHeader.Ignore
