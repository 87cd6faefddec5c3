import LicenseHeader.Toml.Basic

/-!
# Texts in a document

The four ways to write a text: on one line or on several, with or without escapes. In a text on
several lines a line end right after the opening quotes does not count, and up to two quotes may
stand before the closing ones.
-/

namespace LicenseHeader.Toml

/-- Whether a character may stand for itself in a text or a comment: all but the control characters
other than the tab. -/
def isPlain (c : Char) : Bool :=
  c == '\t' || (0x20 ≤ c.toNat && c.toNat != 0x7F)

def hexValue? (c : Char) : Option Nat :=
  if '0' ≤ c ∧ c ≤ '9' then some (c.toNat - '0'.toNat)
  else if 'a' ≤ c ∧ c ≤ 'f' then some (c.toNat - 'a'.toNat + 10)
  else if 'A' ≤ c ∧ c ≤ 'F' then some (c.toNat - 'A'.toNat + 10)
  else none

/-- The character whose number the hexadecimal digits write. -/
def charOfHex? (digits : List Char) : Option Char := do
  let n ← digits.foldlM (fun n c => (hexValue? c).map (16 * n + ·)) 0
  if n.isValidChar then some (Char.ofNat n) else none

/-- The character that an escape of one letter stands for. -/
def escapedChar? : Char → Option Char
  | 'b' => some '\x08'
  | 't' => some '\t'
  | 'n' => some '\n'
  | 'f' => some '\x0c'
  | 'r' => some '\r'
  | 'e' => some '\x1b'
  | '"' => some '"'
  | '\\' => some '\\'
  | _ => none

/-- The number of hexadecimal digits that an escape takes. -/
def escapeLength? : Char → Option Nat
  | 'x' => some 2
  | 'u' => some 4
  | 'U' => some 8
  | _ => none

/-- Reads an escape whose backslash was read. -/
def readEscape : Reader Char
  | [] => none
  | c :: cs =>
    match escapeLength? c with
    | some n =>
      if cs.length < n then none
      else (charOfHex? (cs.take n)).map fun e => (e, cs.drop n)
    | none => (escapedChar? c).map fun e => (e, cs)

theorem length_readEscape {cs rest : List Char} {c : Char} (h : readEscape cs = some (c, rest)) :
    rest.length < cs.length := by
  cases cs with
  | nil => simp [readEscape] at h
  | cons a as =>
    simp only [readEscape] at h
    split at h
    · split at h
      · simp at h
      · obtain ⟨_, _, he⟩ := Option.map_eq_some_iff.1 h
        cases he
        simp only [List.length_drop, List.length_cons]
        omega
    · obtain ⟨_, _, he⟩ := Option.map_eq_some_iff.1 h
      cases he
      simp

/-- Reads a text on one line with escapes, its opening quote and the characters `read`, last one
first, being read. -/
def readBasic (read : List Char) : Reader String
  | [] => none
  | '"' :: cs => some (String.ofList read.reverse, cs)
  | '\\' :: cs =>
    match _h : readEscape cs with
    | some (c, rest) => readBasic (c :: read) rest
    | none => none
  | c :: cs => if isPlain c then readBasic (c :: read) cs else none
termination_by cs => cs.length
decreasing_by
  · have := length_readEscape _h
    simp only [List.length_cons]
    omega
  · simp

def readLiteral (read : List Char) : Reader String
  | [] => none
  | '\'' :: cs => some (String.ofList read.reverse, cs)
  | c :: cs => if isPlain c then readLiteral (c :: read) cs else none

/-- Whether only blanks stand before the next line end. -/
def endsLine (cs : List Char) : Bool :=
  match cs.dropWhile (fun c => c == ' ' || c == '\t') with
  | '\n' :: _ => true
  | '\r' :: '\n' :: _ => true
  | _ => false

def dropLineEnd : List Char → List Char
  | '\n' :: cs => cs
  | '\r' :: '\n' :: cs => cs
  | cs => cs

/-- Reads a text on several lines with escapes. After a backslash at the end of a line the text goes
on at the next character that is neither a blank nor a line end; until there `folding` holds. -/
def readBasicLines (folding : Bool) (read : List Char) : Reader String
  | [] => none
  | '"' :: '"' :: '"' :: '"' :: '"' :: cs => some (String.ofList ('"' :: '"' :: read).reverse, cs)
  | '"' :: '"' :: '"' :: '"' :: cs => some (String.ofList ('"' :: read).reverse, cs)
  | '"' :: '"' :: '"' :: cs => some (String.ofList read.reverse, cs)
  | '\r' :: '\n' :: cs =>
    readBasicLines folding (if folding then read else '\n' :: '\r' :: read) cs
  | '\\' :: cs =>
    if endsLine cs then readBasicLines true read cs
    else match _h : readEscape cs with
      | some (c, rest) => readBasicLines false (c :: read) rest
      | none => none
  | c :: cs =>
    if folding && (c == ' ' || c == '\t' || c == '\n') then readBasicLines true read cs
    else if isPlain c || c == '\n' then readBasicLines false (c :: read) cs
    else none
termination_by cs => cs.length
decreasing_by
  · simp only [List.length_cons]
    omega
  · simp
  · have := length_readEscape _h
    simp only [List.length_cons]
    omega
  · simp
  · simp

def readLiteralLines (read : List Char) : Reader String
  | [] => none
  | '\'' :: '\'' :: '\'' :: '\'' :: '\'' :: cs =>
    some (String.ofList ('\'' :: '\'' :: read).reverse, cs)
  | '\'' :: '\'' :: '\'' :: '\'' :: cs => some (String.ofList ('\'' :: read).reverse, cs)
  | '\'' :: '\'' :: '\'' :: cs => some (String.ofList read.reverse, cs)
  | '\r' :: '\n' :: cs => readLiteralLines ('\n' :: '\r' :: read) cs
  | c :: cs => if isPlain c || c == '\n' then readLiteralLines (c :: read) cs else none

/-- Reads a text in any of the four ways, its quotes included. -/
def readText : Reader String
  | '"' :: '"' :: '"' :: cs => readBasicLines false [] (dropLineEnd cs)
  | '"' :: cs => readBasic [] cs
  | '\'' :: '\'' :: '\'' :: cs => readLiteralLines [] (dropLineEnd cs)
  | '\'' :: cs => readLiteral [] cs
  | _ => none

end LicenseHeader.Toml
