/-!
# Texts

A text is a list of characters. It can be taken apart into lines, each of which keeps its
terminator, or into the fields between the occurrences of a separator; white space can be removed
from its ends, and another text can be looked for in it.
-/

namespace LicenseHeader.Text

/-! ### Lines

Only a line feed ends a line, so that a carriage return before it belongs to the line. The last line
has no terminator when the text does not end with one. -/

/-- A line with its terminator, if it has one. -/
abbrev Line := List Char

def splitLines (text : List Char) : List Line :=
  go [] text
where
  /-- Splits what follows the characters `read` of the current line, the last of them first. -/
  go (read : List Char) : List Char → List Line
    | [] => if read.isEmpty then [] else [read.reverse]
    | c :: cs => if c = '\n' then (c :: read).reverse :: go [] cs else go (c :: read) cs

def joinLines (lines : List Line) : List Char :=
  lines.flatten

@[simp] theorem splitLines_nil : splitLines [] = [] := rfl

@[simp] theorem joinLines_nil : joinLines [] = [] := rfl

@[simp] theorem joinLines_cons (l : Line) (ls : List Line) :
    joinLines (l :: ls) = l ++ joinLines ls := by simp [joinLines]

@[simp] theorem joinLines_append (ls ms : List Line) :
    joinLines (ls ++ ms) = joinLines ls ++ joinLines ms := by simp [joinLines]

theorem splitLines.joinLines_go (read cs : List Char) :
    joinLines (splitLines.go read cs) = read.reverse ++ cs := by
  induction cs generalizing read with
  | nil => by_cases h : read = [] <;> simp [splitLines.go, h]
  | cons c cs ih => by_cases h : c = '\n' <;> simp [splitLines.go, h, ih]

/-- Splitting a text into lines loses nothing. -/
@[simp] theorem joinLines_splitLines (text : List Char) : joinLines (splitLines text) = text := by
  simp [splitLines, splitLines.joinLines_go]

/-! ### Fields -/

/-- The parts of a text between the occurrences of a separator; there is always at least one. -/
def fields (separator : Char) : List Char → List (List Char)
  | [] => [[]]
  | c :: cs =>
    match fields separator cs with
    | [] => [[c]]
    | f :: fs => if c = separator then [] :: f :: fs else (c :: f) :: fs

theorem fields_ne_nil (separator : Char) (cs : List Char) : fields separator cs ≠ [] := by
  induction cs with
  | nil => simp [fields]
  | cons c cs ih =>
    cases h : fields separator cs with
    | nil => simp [fields, h]
    | cons f fs => by_cases hc : c = separator <;> simp [fields, h, hc]

/-! ### White space -/

/-- The ranges of the Unicode property `White_Space`, bounds included, in increasing order.
`U+200B`, `U+FEFF` and the information separators `U+001C` to `U+001F` do not have the property. -/
def blankRanges : List (Nat × Nat) :=
  [(0x09, 0x0D), (0x20, 0x20), (0x85, 0x85), (0xA0, 0xA0), (0x1680, 0x1680), (0x2000, 0x200A),
    (0x2028, 0x2029), (0x202F, 0x202F), (0x205F, 0x205F), (0x3000, 0x3000)]

def isBlank (c : Char) : Bool :=
  blankRanges.any fun r => r.1 ≤ c.toNat && c.toNat ≤ r.2

def trimStart (cs : List Char) : List Char :=
  cs.dropWhile isBlank

def trimEnd (cs : List Char) : List Char :=
  (cs.reverse.dropWhile isBlank).reverse

def trim (cs : List Char) : List Char :=
  trimEnd (trimStart cs)

def allBlank (cs : List Char) : Bool :=
  (trim cs).isEmpty

theorem isBlank_newline : isBlank '\n' = true := by decide

@[simp] theorem trim_nil : trim [] = [] := rfl

@[simp] theorem allBlank_nil : allBlank [] = true := rfl

/-! ### Numerals -/

/-- The number that decimal digits write. -/
def digitsValue (cs : List Char) : Nat :=
  cs.foldl (fun n c => 10 * n + (c.toNat - '0'.toNat)) 0

/-- The number that a text writes in decimal digits, after a plus sign or not, if it is at most
`limit`. -/
def count? (limit : Nat) (cs : List Char) : Option Nat :=
  let digits := match cs with
    | '+' :: cs => cs
    | cs => cs
  if digits.isEmpty || !digits.all Char.isDigit || limit < digitsValue digits then none
  else some (digitsValue digits)

/-! ### Occurrences -/

/-- The number of elements before the first occurrence of `needle`, if it occurs at all. -/
def firstOccurrence? {α : Type} [BEq α] (needle : List α) (hay : List α) : Option Nat :=
  go 0 hay
where
  /-- Searches what follows the first `n` elements. -/
  go (n : Nat) : List α → Option Nat
    | [] => if needle.isEmpty then some n else none
    | c :: cs => if needle.isPrefixOf (c :: cs) then some n else go (n + 1) cs

/-! ### Octets

An octet is treated as the character with its number. -/

/-- The octets of a file. -/
def octetsOf (content : ByteArray) : List Char :=
  content.data.toList.map fun octet => Char.ofNat octet.toNat

/-- The octets of a text. -/
def octetText (cs : List Char) : List Char :=
  octetsOf (String.ofList cs).toUTF8

/-- The text that has some octets, if there is one. -/
def decoded? (octets : List Char) : Option String :=
  String.fromUTF8? ⟨(octets.map fun c => c.toNat.toUInt8).toArray⟩

end LicenseHeader.Text
