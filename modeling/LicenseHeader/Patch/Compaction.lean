import LicenseHeader.Patch.Edit

/-!
# Compaction

An insertion between equal lines may often stand a few lines higher or lower with the same effect.
Every deletion, and after that every insertion, is moved up as far as it goes and then down as far
as it goes. On its way it changes places with edits of the other kind and takes up edits of its own
kind. An edit that changes places keeps the place in the other sequence with which it was found.
-/

namespace LicenseHeader.Patch

open Text

/-- A script with one edit in focus. -/
structure Focus where
  /-- The edits in front of the focus, the nearest one first. -/
  before : List Edit
  edit : Edit
  /-- The edits behind the focus, the nearest one first. -/
  after : List Edit

variable (old new : List Line)

/-- The number of lines in some edits, and the number of these edits. -/
def extent (edits : List Edit) : Nat :=
  edits.foldr (fun e n => e.size + 1 + n) 0

@[simp] theorem extent_nil : extent [] = 0 := rfl

@[simp] theorem extent_cons (e : Edit) (es : List Edit) : extent (e :: es) = e.size + 1 + extent es :=
  rfl

/-- The edit in front of `edits` if it has lines. -/
def consNonempty (e : Edit) (edits : List Edit) : List Edit :=
  if e.size = 0 then edits else e :: edits

theorem extent_consNonempty_le (e : Edit) (es : List Edit) :
    extent (consNonempty e es) ≤ e.size + 1 + extent es := by
  unfold consNonempty
  split
  · omega
  · simp

/-- Some kept lines in front of `edits`, as a part of the first edit if that keeps lines too. -/
def keepBefore (oldStart newStart n : Nat) (edits : List Edit) : List Edit :=
  match edits with
  | e :: es => if e.kind = .keep then (e.shiftUp n).grow n :: es else ⟨.keep, oldStart, newStart, n⟩ :: e :: es
  | [] => [⟨.keep, oldStart, newStart, n⟩]

/-- Some kept lines behind edits listed from the last to the first, as a part of the last edit if
that keeps lines too. -/
def keepBehind (oldStart newStart n : Nat) (edits : List Edit) : List Edit :=
  match edits with
  | e :: es => if e.kind = .keep then e.grow n :: es else ⟨.keep, oldStart, newStart, n⟩ :: e :: es
  | [] => [⟨.keep, oldStart, newStart, n⟩]

/-- Moves the edit in focus up as far as it goes. -/
def moveUp (before : List Edit) (edit : Edit) (after : List Edit) : Focus :=
  match before with
  | [] => ⟨[], edit, after⟩
  | e :: es =>
    if e.kind = .keep then
      let n := commonEnd (e.oldLines old) (edit.newLines new)
      if 0 < n ∧ 0 < e.size then
        moveUp (consNonempty (e.shrink n) es) (edit.shiftUp n)
          (keepBefore (e.oldStart + e.size - n) (edit.newStart + edit.newSize - n) n after)
      else if e.size = 0 then moveUp es edit after
      else ⟨e :: es, edit, after⟩
    else if e.kind = edit.kind then moveUp es (e.grow edit.size) after
    else moveUp es edit (e :: after)
termination_by extent before
decreasing_by
  · refine Nat.lt_of_le_of_lt (extent_consNonempty_le _ _) ?_
    simp only [Edit.shrink, extent_cons]
    omega
  · simp only [extent_cons]
    omega
  · simp only [extent_cons]
    omega
  · simp only [extent_cons]
    omega

/-- Moves the edit in focus down as far as it goes. -/
def moveDown (before : List Edit) (edit : Edit) (after : List Edit) : Focus :=
  match after with
  | [] => ⟨before, edit, []⟩
  | e :: es =>
    if e.kind = .keep then
      let n := commonStart (e.oldLines old) (edit.newLines new)
      if 0 < n ∧ 0 < e.size then
        moveDown (keepBehind e.oldStart edit.newStart n before) (edit.shiftDown n)
          (consNonempty ((e.shiftDown n).shrink n) es)
      else if e.size = 0 then moveDown before edit es
      else ⟨before, edit, e :: es⟩
    else if e.kind = edit.kind then moveDown before (edit.grow e.size) es
    else moveDown (e :: before) edit es
termination_by extent after
decreasing_by
  · refine Nat.lt_of_le_of_lt (extent_consNonempty_le _ _) ?_
    simp only [Edit.shrink, Edit.shiftDown, extent_cons]
    omega
  · simp only [extent_cons]
    omega
  · simp only [extent_cons]
    omega
  · simp only [extent_cons]
    omega

/-- Moves every edit of a kind, from the first to the last. The number of moves is bounded, since a
move either takes up another edit or ends below the place where it began. -/
def moveAll (kind : EditKind) (before : List Edit) (after : List Edit) : (moves : Nat) → List Edit
  | 0 => before.reverse ++ after
  | moves + 1 =>
    match after with
    | [] => before.reverse
    | e :: es =>
      if e.kind = kind then
        let up := moveUp old new before e es
        let down := moveDown old new up.before up.edit up.after
        moveAll kind (down.edit :: down.before) down.after moves
      else moveAll kind (e :: before) es moves

def compact (edits : List Edit) : List Edit :=
  let moves := (extent edits + 1) * (extent edits + 1)
  let edits := moveAll old new .delete [] edits moves
  moveAll old new .insert [] edits moves

end LicenseHeader.Patch
