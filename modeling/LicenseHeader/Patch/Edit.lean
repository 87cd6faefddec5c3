import LicenseHeader.Text.Basic

/-!
# Edits

The lines that a comparison works with, and the edits that lead from one sequence of lines to
another. A line of a comparison ends after a line feed, after a carriage return, or after both in
this order. An edit names the places it is about in the old and in the new sequence.
-/

namespace LicenseHeader.Patch

open Text

/-- The lines that two texts are compared by. -/
def compareLines (text : List Char) : List Line :=
  go [] text
where
  /-- Splits what follows the characters `read` of the current line, the last of them first. -/
  go (read : List Char) : List Char → List Line
    | [] => if read.isEmpty then [] else [read.reverse]
    | '\r' :: '\n' :: cs => ('\n' :: '\r' :: read).reverse :: go [] cs
    | c :: cs =>
      if c = '\n' ∨ c = '\r' then (c :: read).reverse :: go [] cs else go (c :: read) cs

inductive EditKind where
  /-- The lines are in both sequences. -/
  | keep
  /-- The lines are in the old sequence only. -/
  | delete
  /-- The lines are in the new sequence only. -/
  | insert
deriving DecidableEq, Repr

/-- A run of lines that are treated alike. -/
structure Edit where
  kind : EditKind
  /-- The number of old lines in front of the run. -/
  oldStart : Nat
  /-- The number of new lines in front of the run. -/
  newStart : Nat
  size : Nat
deriving DecidableEq, Repr

/-- The `size` elements of a list after the first `start` ones. -/
def slice {α : Type} (l : List α) (start size : Nat) : List α :=
  (l.drop start).take size

namespace Edit

def oldSize (e : Edit) : Nat :=
  if e.kind = .insert then 0 else e.size

def newSize (e : Edit) : Nat :=
  if e.kind = .delete then 0 else e.size

def oldLines (old : List Line) (e : Edit) : List Line :=
  slice old e.oldStart e.oldSize

def newLines (new : List Line) (e : Edit) : List Line :=
  slice new e.newStart e.newSize

/-- The edit, begun `n` lines earlier. -/
def shiftUp (e : Edit) (n : Nat) : Edit :=
  { e with oldStart := e.oldStart - n, newStart := e.newStart - n }

def shiftDown (e : Edit) (n : Nat) : Edit :=
  { e with oldStart := e.oldStart + n, newStart := e.newStart + n }

/-- The edit with `n` lines more at its end. -/
def grow (e : Edit) (n : Nat) : Edit :=
  { e with size := e.size + n }

/-- The edit without its last `n` lines. -/
def shrink (e : Edit) (n : Nat) : Edit :=
  { e with size := e.size - n }

end Edit

/-- The number of elements that two lists have in common at their starts. -/
def commonStart {α : Type} [BEq α] : List α → List α → Nat
  | a :: as, b :: bs => if a == b then commonStart as bs + 1 else 0
  | _, _ => 0

def commonEnd {α : Type} [BEq α] (as bs : List α) : Nat :=
  commonStart as.reverse bs.reverse

end LicenseHeader.Patch
