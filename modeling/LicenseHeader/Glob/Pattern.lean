/-!
# Glob patterns

A pattern is compiled, from left to right, into tokens. `?` stands for any character, `*` for any
sequence, `**` as a whole path component for any directories, and `[…]` for one character inside or,
after `!`, outside a set. Backslashes and braces have no meaning of their own.
-/

namespace LicenseHeader.Glob

/-- The characters from `low` to `high`, bounds included. -/
structure CharRange where
  low : Char
  high : Char
deriving DecidableEq, Repr

def CharRange.contains (r : CharRange) (c : Char) : Bool :=
  r.low ≤ c && c ≤ r.high

inductive Token where
  | literal (c : Char)
  | anyChar
  | oneOf (ranges : List CharRange)
  | noneOf (ranges : List CharRange)
  /-- Any sequence of characters, separators included. -/
  | anySequence
  /-- Nothing, a sequence that ends with a separator, or all that is left. -/
  | anyDirectories
deriving DecidableEq, Repr

/-- What is wrong with a pattern. -/
inductive Fault where
  /-- Three or more stars in a row. -/
  | wildcards
  /-- Two stars that are not a whole path component. -/
  | recursiveWildcards
  /-- A character set that is not closed. -/
  | invalidRange
deriving DecidableEq, Repr

/-- A fault and the number of characters before it. -/
structure PatternError where
  /-- The number of characters before the fault. -/
  position : Nat
  fault : Fault
deriving DecidableEq, Repr

def Fault.explanation : Fault → String
  | .wildcards => "wildcards are either regular `*` or recursive `**`"
  | .recursiveWildcards => "recursive wildcards must form a single path component"
  | .invalidRange => "invalid range pattern"

def PatternError.message (e : PatternError) : String :=
  s!"Pattern syntax error near position {e.position}: {e.fault.explanation}"

structure Pattern where
  /-- The pattern as it was written. -/
  text : String
  tokens : List Token
deriving DecidableEq, Repr

/-- The ranges that the inside of a character set lists. -/
def setRanges : List Char → List CharRange
  | a :: '-' :: b :: cs => ⟨a, b⟩ :: setRanges cs
  | a :: cs => ⟨a, a⟩ :: setRanges cs
  | [] => []

/-- The inside of a character set whose opening bracket was read: at least one character, then
everything before the next closing bracket. -/
def setInside? : List Char → Option (List Char)
  | [] => none
  | c :: cs => if ']' ∈ cs then some (c :: cs.takeWhile (· ≠ ']')) else none

/-- The token of a character set whose opening bracket was read, and the number of characters up to
and with the closing bracket. -/
def set? : List Char → Option (Token × Nat)
  | '!' :: cs => (setInside? cs).map fun inside => (.noneOf (setRanges inside), inside.length + 2)
  | cs => (setInside? cs).map fun inside => (.oneOf (setRanges inside), inside.length + 1)

/-- The tokens of a pattern of which `position` characters, `previous` last, were read. -/
def tokenize (position : Nat) (previous : Option Char) :
    List Char → Except PatternError (List Token)
  | [] => .ok []
  | '?' :: cs => (tokenize (position + 1) (some '?') cs).map (.anyChar :: ·)
  | '*' :: '*' :: '*' :: _ => .error ⟨position + 2, .wildcards⟩
  | '*' :: '*' :: cs =>
    if previous.all (· == '/') then
      match cs with
      | [] => .ok [.anyDirectories]
      | '/' :: cs => (tokenize (position + 3) (some '/') cs).map (.anyDirectories :: ·)
      | _ => .error ⟨position + 2, .recursiveWildcards⟩
    else .error ⟨position - 1, .recursiveWildcards⟩
  | '*' :: cs => (tokenize (position + 1) (some '*') cs).map (.anySequence :: ·)
  | '[' :: cs =>
    match set? cs with
    | some (token, n) => (tokenize (position + 1 + n) (some ']') (cs.drop n)).map (token :: ·)
    | none => .error ⟨position, .invalidRange⟩
  | c :: cs => (tokenize (position + 1) (some c) cs).map (.literal c :: ·)
termination_by cs => cs.length

def compile (text : String) : Except PatternError Pattern :=
  (tokenize 0 none text.toList).map fun tokens => { text, tokens }

end LicenseHeader.Glob
