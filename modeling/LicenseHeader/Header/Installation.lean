import LicenseHeader.Header.Basic

/-!
# Finding and installing the header

Every line is reduced: the marker and the white space around the rest are removed, and a line
without the marker becomes empty. The header is looked for in the text of the reduced lines. Space
inside a comment therefore does not matter, while a header that is worded differently is not found.

A header that is found is replaced where it stands. Otherwise the header goes to the top of the
file, or below the first line if that line names an interpreter.
-/

namespace LicenseHeader.Header

open Text

/-- What a line says behind its marker; nothing if it does not start with the marker. -/
def reduceLine (marker : List Char) (line : Line) : List Char :=
  if marker.isPrefixOf line then trim (line.drop marker.length) else []

/-- The reduced lines as one text, separated by line feeds. -/
def reducedText (marker : List Char) (lines : List Line) : List Char :=
  ['\n'].intercalate (lines.map (reduceLine marker))

/-- The number of blank lines that `lines` starts with. -/
def leadingBlanks (lines : List Line) : Nat :=
  (lines.takeWhile allBlank).length

/-- The lines that the header occupies, together with the blank lines after it. -/
def locate (marker : List Char) (lines : List Line) : Option Range :=
  (firstOccurrence? bareText (reducedText marker lines)).map fun before =>
    let start := ((reducedText marker lines).take before).count '\n'
    let textEnd := min (start + headerLines.length) lines.length
    { start, stop := textEnd + leadingBlanks (lines.drop textEnd) }

/-! ### Installation -/

/-- How a line starts that names the interpreter of a script. -/
def interpreterMark : List Char :=
  ['#', '!', '/']

/-- The index at which a missing header is inserted. -/
def insertionIndex (lines : List Line) : Nat :=
  match lines.head? with
  | some first => if interpreterMark.isPrefixOf first then 1 else 0
  | none => 0

/-- The lines that make room for the header: those of the header that is there, or no line at the
place where it is missing. -/
def target (marker : List Char) (lines : List Line) : Range :=
  (locate marker lines).getD ⟨insertionIndex lines, insertionIndex lines⟩

/-- The lines with the header installed; all other lines stay as they are. -/
def install (marker : List Char) (lines : List Line) : List Line :=
  let range := target marker lines
  lines.take range.start ++ block marker ++ lines.drop range.stop

/-- The elements of a list in front of an index, which may not lie behind its end. -/
def front? (n : Nat) (lines : List Line) : Option (List Line) :=
  if n ≤ lines.length then some (lines.take n) else none

/-- The elements of a list from an index on, which may not lie behind its end. -/
def back? (n : Nat) (lines : List Line) : Option (List Line) :=
  if n ≤ lines.length then some (lines.drop n) else none

/-- `install` for lists of any texts. Where an element holds several lines, the header may be found
behind the end of the list; then there is no result. -/
def install? (marker : List Char) (lines : List Line) : Option (List Line) := do
  let range := target marker lines
  let size ← range.size?
  -- the number of the lines to come is computed before they are put together
  guard (size ≤ lines.length)
  let above ← front? range.start lines
  let below ← back? range.stop lines
  return above ++ block marker ++ below

/-- The text of a file with the header installed. -/
def installText (marker text : List Char) : List Char :=
  joinLines (install marker (splitLines text))

end LicenseHeader.Header
