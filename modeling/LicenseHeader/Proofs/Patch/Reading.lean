import LicenseHeader.Patch.Render
import LicenseHeader.Proofs.Text.Digits

/-!
# Reading patches

A patch read by somebody who knows nothing about the way it was made. The header of a hunk tells
where the hunk stands in the old and in the new text, and how many lines of each it holds. Lines
that the hunk keeps or deletes have to be the next ones of the old text. Whatever does not agree
with the old text, with the lines written so far, or with the numbers in the header, makes the patch
void.
-/

namespace LicenseHeader.Patch

open Text

/-! ### Headers -/

/-- The number at the start of a text, and what follows. -/
def readNumber (cs : List Char) : Option (Nat × List Char) :=
  let digits := cs.takeWhile Char.isDigit
  if digits = [] then none else some (Nat.ofDigitChars 10 digits 0, cs.dropWhile Char.isDigit)

/-- The length of a range, which is one if it is not given. -/
def readSize : List Char → Option (Nat × List Char)
  | ',' :: cs => readNumber cs
  | cs => some (1, cs)

/-- The range at the start of a text, and what follows. Lines are counted from one; an empty range
is given by the line in front of it. -/
def readRange (cs : List Char) : Option (Extent × List Char) := do
  let (number, cs) ← readNumber cs
  let (size, cs) ← readSize cs
  if size = 0 then return (⟨number, 0⟩, cs)
  if number = 0 then none
  return (⟨number - 1, size⟩, cs)

def readHeader (line : Line) : Option (Extent × Extent) := do
  let cs ← "@@ -".toList.isPrefixOf? line
  let (old, cs) ← readRange cs
  let cs ← " +".toList.isPrefixOf? cs
  let (new, cs) ← readRange cs
  if cs = " @@\n".toList then return (old, new)
  none

/-! ### Lines -/

/-- What a reader has made of a patch so far. -/
structure Reader where
  /-- The old lines that are still to come. -/
  rest : List Line
  /-- The number of old lines in front of these. -/
  passed : Nat
  /-- The new lines so far. -/
  written : List Line
  /-- How many old lines of the hunk are still to come. -/
  oldLeft : Nat
  /-- How many new lines of the hunk are still to come. -/
  newLeft : Nat

namespace Reader

/-- A hunk begins: the lines in front of it are the same in both texts. -/
def beginHunk (r : Reader) (line : Line) : Option Reader := do
  let (old, new) ← readHeader line
  let gap := old.start - r.passed
  if r.passed ≤ old.start ∧ gap ≤ r.rest.length ∧ new.start = r.written.length + gap then
    return ⟨r.rest.drop gap, old.start, r.written ++ r.rest.take gap, old.size, new.size⟩
  none

def continueHunk (r : Reader) : Line → Option Reader
  | ' ' :: line =>
    if 0 < r.oldLeft ∧ 0 < r.newLeft ∧ r.rest.head? = some line then
      some ⟨r.rest.tail, r.passed + 1, r.written ++ [line], r.oldLeft - 1, r.newLeft - 1⟩
    else none
  | '-' :: line =>
    if 0 < r.oldLeft ∧ r.rest.head? = some line then
      some ⟨r.rest.tail, r.passed + 1, r.written, r.oldLeft - 1, r.newLeft⟩
    else none
  | '+' :: line =>
    if 0 < r.newLeft then some ⟨r.rest, r.passed, r.written ++ [line], r.oldLeft, r.newLeft - 1⟩
    else none
  | _ => none

def readLine (r : Reader) (line : Line) : Option Reader :=
  if r.oldLeft = 0 ∧ r.newLeft = 0 then r.beginHunk line else r.continueHunk line

/-- Reads all lines; what is left of the old text in the end is the same in the new one. -/
def readLines (r : Reader) : List Line → Option (List Line)
  | [] => if r.oldLeft = 0 ∧ r.newLeft = 0 then some (r.written ++ r.rest) else none
  | line :: lines => (r.readLine line).bind fun r => r.readLines lines

end Reader

/-- What follows a line without a line end. -/
def note : Line :=
  "\\ No newline at end of file\n".toList

/-- The lines of a patch, where those with a note behind them have no line end. -/
def withoutNotes : List Line → List Line
  | line :: next :: lines =>
    if next = note then line.dropLast :: withoutNotes lines else line :: withoutNotes (next :: lines)
  | lines => lines

/-- The text into which a patch for the file at `path` turns an old one. -/
def patched? (path : Path) (patch old : List Char) : Option (List Char) :=
  match withoutNotes (splitLines patch) with
  | first :: second :: third :: lines =>
    if first = s!"diff a/{path.text} b/{path.text}\n".toList ∧
        second = s!"--- a/{path.text}\n".toList ∧ third = s!"+++ b/{path.text}\n".toList then
      (Reader.readLines ⟨splitLines old, 0, [], 0, 0⟩ lines).map joinLines
    else none
  | _ => none

/-! ### Written numbers are read -/

lemma isPrefixOf?_append (xs ys : List Char) : xs.isPrefixOf? (xs ++ ys) = some ys := by
  induction xs with
  | nil => simp [List.isPrefixOf?]
  | cons x xs ih => simp [List.isPrefixOf?, ih]

lemma readNumber_append (n : Nat) (cs : List Char) (h : ∀ c ∈ cs.head?, ¬ c.isDigit) :
    readNumber ((toString n).toList ++ cs) = some (n, cs) := by
  have hdigits : ∀ c ∈ Nat.toDigits 10 n, c.isDigit := fun _ => isDigit_of_mem_toDigits
  rw [readNumber, toList_toString, takeWhile_isDigit hdigits h, dropWhile_isDigit hdigits h,
    if_neg Nat.toDigits_ne_nil, Nat.ofDigitChars_ten_toDigits]

@[simp] lemma toString_string (s : String) : toString s = s := rfl

lemma readRange_pair (a n : Nat) (cs : List Char) :
    readRange ((toString a).toList ++ ',' :: ((toString n).toList ++ ' ' :: cs)) =
      if n = 0 then some (⟨a, 0⟩, ' ' :: cs)
      else if a = 0 then none else some (⟨a - 1, n⟩, ' ' :: cs) := by
  have ha := readNumber_append a (',' :: ((toString n).toList ++ ' ' :: cs)) (by simp)
  have hn := readNumber_append n (' ' :: cs) (by simp)
  simp only [readRange, readSize, ha, hn, Option.bind_eq_bind, Option.bind_some, Option.pure_def]
  split_ifs <;> rfl

lemma readRange_single (a : Nat) (cs : List Char) :
    readRange ((toString a).toList ++ ' ' :: cs) =
      if a = 0 then none else some (⟨a - 1, 1⟩, ' ' :: cs) := by
  have ha := readNumber_append a (' ' :: cs) (by simp)
  simp only [readRange, readSize, ha, Option.bind_eq_bind, Option.bind_some, Option.pure_def]
  split_ifs <;> simp_all

/-- A range is read as it was written. -/
lemma readRange_renderRange (start stop : Nat) (cs : List Char) :
    readRange ((renderRange start stop).toList ++ ' ' :: cs) =
      some (⟨start, stop - start⟩, ' ' :: cs) := by
  rw [renderRange]
  split
  case h_1 hsize =>
    have hpair := readRange_pair start 0 cs
    rw [if_pos rfl] at hpair
    rw [hsize, ← hpair]
    simp
  case h_2 hsize =>
    have hsingle := readRange_single (start + 1) cs
    rw [if_neg (Nat.succ_ne_zero start)] at hsingle
    rw [hsize]
    simpa using hsingle
  case h_3 hzero hone =>
    have hpair := readRange_pair (start + 1) (stop - start) cs
    rw [if_neg hzero, if_neg (Nat.succ_ne_zero start)] at hpair
    simpa using hpair

/-- The header of a hunk is read as it was written. -/
lemma readHeader_renderHunkHeader (first last : Block) :
    readHeader (renderHunkHeader first last).toList =
      some (⟨first.old.start, last.old.stop - first.old.start⟩,
        ⟨first.new.start, last.new.stop - first.new.start⟩) := by
  have htext : (renderHunkHeader first last).toList =
      "@@ -".toList ++ ((renderRange first.old.start last.old.stop).toList ++
        ' ' :: ('+' :: ((renderRange first.new.start last.new.stop).toList ++
          ' ' :: "@@\n".toList))) := by
    simp [renderHunkHeader]
  have hplus : " +".toList.isPrefixOf? (' ' :: ('+' ::
      ((renderRange first.new.start last.new.stop).toList ++ ' ' :: "@@\n".toList))) =
        some ((renderRange first.new.start last.new.stop).toList ++ ' ' :: "@@\n".toList) :=
    isPrefixOf?_append " +".toList _
  rw [readHeader, htext, isPrefixOf?_append]
  simp only [Option.bind_eq_bind, Option.bind_some, readRange_renderRange, hplus]
  rfl

end LicenseHeader.Patch
