import LicenseHeader.Proofs.Patch.Returns

/-!
# Patches of whole texts

The patch that removes a whole text, and the one that puts it in, are a single hunk in which every
line of the text stands behind the same tag.
-/

namespace LicenseHeader.Patch

open Text

variable {text : List Char} {old new : List Line} {e : Edit}

/-! ### Scripts of a single edit -/

/-- A single edit has no place to go to. -/
lemma moveAll_singleton (old new : List Line) (kind : EditKind) (e : Edit) (moves : Nat) :
    moveAll old new kind [] [e] moves = [e] := by
  have hend : ∀ moves, moveAll old new kind [e] [] moves = [e] := by
    rintro (_ | moves) <;> rfl
  cases moves with
  | zero => rfl
  | succ moves =>
    rw [moveAll]
    split_ifs
    · simp only [moveUp, moveDown, hend]
    · exact hend moves

lemma compact_singleton (old new : List Line) (e : Edit) : compact old new [e] = [e] := by
  rw [compact, moveAll_singleton, moveAll_singleton]

lemma hunks_of_script (h : script 0 0 old new = [e]) (he : e.kind ≠ .keep) :
    hunks old new = [[Block.ofEdit e]] := by
  have hkept : (Block.ofEdit e).isKept = false := by simpa [Block.ofEdit] using he
  rw [hunks, h, compact_singleton]
  simp [Block.ofScript, Block.ofScript.go, trimFirst, trimLast, groupBlocks, hkept]

/-- A text is removed by one deletion. -/
lemma script_nil_right (hne : old ≠ []) : script 0 0 old [] = [⟨.delete, 0, 0, old.length⟩] := by
  have hstart : ∀ l : List Line, commonStart l [] = 0 := by
    rintro (_ | _) <;> rfl
  rw [script]
  simp [commonEnd, hstart, editOf, hne]

/-- A text is put in by one insertion. -/
lemma script_nil_left (hne : new ≠ []) : script 0 0 [] new = [⟨.insert, 0, 0, new.length⟩] := by
  have hstart : ∀ l : List Line, commonStart [] l = 0 := by
    rintro (_ | _) <;> rfl
  rw [script]
  simp [commonEnd, hstart, editOf, hne]

/-! ### The patch -/

/-- The hunk of a single edit is its header and the lines behind the tag of the edit. -/
lemma exists_toList_render_eq (path : Path) {old new : List Char} (hne : old ≠ new)
    (he : e.kind ≠ .keep) (h : script 0 0 (compareLines old) (compareLines new) = [e]) :
    ∃ header, Terminated header ∧
      (render path old new).toList = joinLines (nameLines path ++ [header]) ++
        ((e.oldLines (compareLines old)).flatMap (renderLine '-') ++
          (e.newLines (compareLines new)).flatMap (renderLine '+')) := by
  have hkept : (Block.ofEdit e).isKept = false := by simpa [Block.ofEdit] using he
  have hnames : (renderNames path).toList = joinLines (nameLines path) := by
    simp [nameLines, renderNames]
  have hblock : renderBlock (compareLines old) (compareLines new) (Block.ofEdit e) =
      (e.oldLines (compareLines old)).flatMap (renderLine '-') ++
        (e.newLines (compareLines new)).flatMap (renderLine '+') := by
    rw [renderBlock, hkept]
    rfl
  refine ⟨_, terminated_header (Block.ofEdit e) (Block.ofEdit e), ?_⟩
  simp only [render, if_neg hne, hunks_of_script h he, List.flatMap_singleton, renderHunk,
    List.head?_cons, List.getLast?_singleton, hblock, String.toList_append, hnames,
    String.toList_ofList, joinLines_append, joinLines_cons, joinLines_nil, List.append_nil,
    List.append_assoc]

/-- The patch in which a whole text stands behind one tag. -/
def wholePatch (path : Path) (header : Line) (tag : Char) (text : List Char) : List Char :=
  joinLines (nameLines path ++ [header]) ++ (compareLines text).flatMap (renderLine tag)

/-- In the patch that removes a whole text, it stands behind one tag. -/
lemma exists_render_eq_removal (path : Path) (hne : text ≠ []) :
    ∃ header, Terminated header ∧
      (render path text []).toList = wholePatch path header '-' text := by
  obtain ⟨header, hheader, h⟩ :=
    exists_toList_render_eq path hne (by simp) (script_nil_right (compareLines_ne_nil hne))
  refine ⟨header, hheader, ?_⟩
  rw [h, wholePatch]
  simp [Edit.oldLines, Edit.oldSize, Edit.newLines, Edit.newSize, slice]

/-- In the patch that installs a whole text, it stands behind one tag. -/
lemma exists_render_eq_installation (path : Path) (hne : text ≠ []) :
    ∃ header, Terminated header ∧
      (render path [] text).toList = wholePatch path header '+' text := by
  obtain ⟨header, hheader, h⟩ :=
    exists_toList_render_eq path hne.symm (by simp) (script_nil_left (compareLines_ne_nil hne))
  refine ⟨header, hheader, ?_⟩
  rw [h, wholePatch]
  simp [Edit.oldLines, Edit.oldSize, Edit.newLines, Edit.newSize, slice]

end LicenseHeader.Patch
