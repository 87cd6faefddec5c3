import LicenseHeader.Patch.Render
import LicenseHeader.Proofs.Patch.Hunks
import LicenseHeader.Proofs.Patch.Lines
import LicenseHeader.Proofs.Patch.SingleChange

/-!
# Correctness of patches

A patch is the text of its lines. Who reads it gets from the old text to the new one, unless the
header of a hunk is wrong: then the patch cannot be applied at all.
-/

namespace LicenseHeader.Patch

open Text

variable {path : Path} {old new : List Line} {b : Block} {blocks : List Block} {l : Line}

/-! ### A patch as a sequence of lines -/

def nameLines (path : Path) : List Line :=
  [s!"diff a/{path.text} b/{path.text}\n".toList, s!"--- a/{path.text}\n".toList,
    s!"+++ b/{path.text}\n".toList]

/-- The lines of a patch, without the notes. -/
def patchLines (path : Path) (old new : List Line) : List Line :=
  nameLines path ++ (hunks old new).flatMap (hunkLines old new)

/-- A line of a text that may be patched. -/
structure Patchable (l : Line) : Prop where
  nonempty : l ≠ []
  isLine : IsLine l
  last : l.getLast? ≠ some '\r'

lemma patchable_splitLines {text : List Char} (h : ReturnsFed text) :
    ∀ l ∈ splitLines text, Patchable l := by
  intro l hl
  have hcanonical := canonical_splitLines text
  exact ⟨hcanonical.ne_nil l hl, hcanonical.isLine l hl, getLast?_ne_return h l hl⟩

lemma flatMap_renderLine (tag : Char) {ls : List Line} (h : ∀ l ∈ ls, Patchable l) :
    ls.flatMap (renderLine tag) = written (ls.map (tag :: ·)) := by
  rw [written, List.flatMap_map]
  exact List.flatMap_congr fun l hl => renderLine_eq tag (h l hl).nonempty (h l hl).last

lemma mem_of_mem_lines {e : Extent} {all : List Line} (h : l ∈ e.lines all) : l ∈ all :=
  List.mem_of_mem_drop (List.mem_of_mem_take h)

lemma newline_notMem_toDigits (n : Nat) : '\n' ∉ Nat.toDigits 10 n := by
  intro hmem
  have hdigit := isDigit_of_mem_toDigits hmem
  exact absurd hdigit (by decide)

lemma newline_notMem_renderRange (start stop : Nat) : '\n' ∉ (renderRange start stop).toList := by
  rw [renderRange]
  split <;> simp [newline_notMem_toDigits]

lemma terminated_header (first last : Block) :
    Terminated (renderHunkHeader first last).toList := by
  refine ⟨"@@ -".toList ++ ((renderRange first.old.start last.old.stop).toList ++
    " +".toList ++ ((renderRange first.new.start last.new.stop).toList ++ " @@".toList)), ?_, ?_⟩
  · simp [newline_notMem_renderRange]
  · simp [renderHunkHeader]

/-- A tag in front of a proper line makes it one of a patch. -/
lemma writable_cons {tag : Char} (hfeed : tag ≠ '\n') (hnote : tag ≠ '\\') (hl : IsLine l) :
    Writable (tag :: l) where
  isLine := by
    cases l with
    | nil => simp [IsLine]
    | cons c l =>
      rw [IsLine, List.dropLast_cons_cons, List.mem_cons, not_or]
      exact ⟨hfeed.symm, hl⟩
  head := by simpa using hnote
  nonempty := List.cons_ne_nil tag l

section Lines

variable (hold : ∀ l ∈ old, Patchable l) (hnew : ∀ l ∈ new, Patchable l)

include hold hnew

/-- What is printed for a block are its lines, with the notes behind those that need one. -/
lemma renderBlock_eq (b : Block) : renderBlock old new b = written (blockLines old new b) := by
  have hold' : ∀ l ∈ b.old.lines old, Patchable l := fun l hl => hold l (mem_of_mem_lines hl)
  have hnew' : ∀ l ∈ b.new.lines new, Patchable l := fun l hl => hnew l (mem_of_mem_lines hl)
  rw [renderBlock, blockLines]
  split_ifs
  · exact flatMap_renderLine ' ' hold'
  · rw [flatMap_renderLine '-' hold', flatMap_renderLine '+' hnew', written_append]

/-- What is printed for a hunk are its header and its lines. -/
lemma renderHunk_eq (blocks : List Block) :
    renderHunk old new blocks = written (hunkLines old new blocks) := by
  have hblocks : renderBlock old new = fun b => written (blockLines old new b) :=
    funext (renderBlock_eq hold hnew)
  by_cases hne : blocks = []
  · simp [hne, renderHunk, hunkLines]
  · obtain ⟨first, last, hfirst, hlast⟩ := exists_ends hne
    simp only [renderHunk, hunkLines, hfirst, hlast, written_cons,
      joinLines_writtenLine (terminated_header first last), written_flatMap, hblocks]

lemma writable_blockLines (b : Block) : ∀ l ∈ blockLines old new b, Writable l := by
  have hold' : ∀ l ∈ b.old.lines old, IsLine l := fun l hl => (hold l (mem_of_mem_lines hl)).isLine
  have hnew' : ∀ l ∈ b.new.lines new, IsLine l := fun l hl => (hnew l (mem_of_mem_lines hl)).isLine
  intro m hm
  rw [blockLines] at hm
  split_ifs at hm
  · obtain ⟨l, hl, rfl⟩ := List.mem_map.mp hm
    exact writable_cons (by decide) (by decide) (hold' l hl)
  · rcases List.mem_append.mp hm with hm | hm
    · obtain ⟨l, hl, rfl⟩ := List.mem_map.mp hm
      exact writable_cons (by decide) (by decide) (hold' l hl)
    · obtain ⟨l, hl, rfl⟩ := List.mem_map.mp hm
      exact writable_cons (by decide) (by decide) (hnew' l hl)

lemma writable_hunkLines (blocks : List Block) : ∀ l ∈ hunkLines old new blocks, Writable l := by
  rw [hunkLines]
  split
  case h_1 first last _ _ =>
    intro l hl
    rcases List.mem_cons.mp hl with rfl | hl
    · exact ⟨(terminated_header first last).isLine, by simp [renderHunkHeader],
        (terminated_header first last).ne_nil⟩
    · obtain ⟨b, -, hlb⟩ := List.mem_flatMap.mp hl
      exact writable_blockLines hold hnew b l hlb
  case h_2 => simp

end Lines

lemma terminated_nameLines (hpath : '\n' ∉ path.text.toList) :
    ∀ l ∈ nameLines path, Terminated l := by
  simp only [nameLines, List.forall_mem_cons]
  refine ⟨⟨("diff a/".toList ++ path.text.toList) ++ (" b/".toList ++ path.text.toList), ?_, ?_⟩,
    ⟨"--- a/".toList ++ path.text.toList, ?_, ?_⟩, ⟨"+++ b/".toList ++ path.text.toList, ?_, ?_⟩,
    by simp⟩ <;> simp [hpath]

lemma writable_nameLines (hpath : '\n' ∉ path.text.toList) :
    ∀ l ∈ nameLines path, Writable l := by
  intro l hl
  have hterminated := terminated_nameLines hpath l hl
  refine ⟨hterminated.isLine, ?_, hterminated.ne_nil⟩
  simp only [nameLines, List.mem_cons, List.not_mem_nil, or_false] at hl
  rcases hl with rfl | rfl | rfl <;> simp

/-- No line of a patch breaks, and none is mistaken for a note. -/
lemma writable_patchLines (hpath : '\n' ∉ path.text.toList) (hold : ∀ l ∈ old, Patchable l)
    (hnew : ∀ l ∈ new, Patchable l) : ∀ l ∈ patchLines path old new, Writable l := by
  intro l hl
  rcases List.mem_append.mp hl with hl | hl
  · exact writable_nameLines hpath l hl
  · obtain ⟨blocks, -, hlines⟩ := List.mem_flatMap.mp hl
    exact writable_hunkLines hold hnew blocks l hlines

/-- A patch is the text of its lines. -/
lemma toList_render {old new : List Char} (hpath : '\n' ∉ path.text.toList) (hne : old ≠ new)
    (hold : ReturnsFed old) (hnew : ReturnsFed new) :
    (render path old new).toList =
      written (patchLines path (splitLines old) (splitLines new)) := by
  have hhunks : renderHunk (splitLines old) (splitLines new) =
      fun blocks => written (hunkLines (splitLines old) (splitLines new) blocks) :=
    funext (renderHunk_eq (patchable_splitLines hold) (patchable_splitLines hnew))
  rw [render, if_neg hne, compareLines_eq_splitLines hold, compareLines_eq_splitLines hnew,
    patchLines, written_append, written_of_terminated (terminated_nameLines hpath), written_flatMap,
    ← hhunks]
  simp [nameLines, renderNames]

/-- Whoever splits a patch gets its lines and the notes behind them. -/
lemma splitLines_render {old new : List Char} (hpath : '\n' ∉ path.text.toList) (hne : old ≠ new)
    (hold : ReturnsFed old) (hnew : ReturnsFed new) :
    splitLines (render path old new).toList =
      nameLines path ++ ((hunks (splitLines old) (splitLines new)).flatMap
        (hunkLines (splitLines old) (splitLines new))).flatMap writtenLine := by
  have hwritable := writable_patchLines hpath (patchable_splitLines hold)
    (patchable_splitLines hnew)
  rw [toList_render hpath hne hold hnew, splitLines_written hwritable, patchLines,
    List.flatMap_append, flatMap_writtenLine_of_terminated (terminated_nameLines hpath)]

/-- Every line of a patch has a line feed. -/
lemma terminated_of_mem_splitLines_render {old new : List Char}
    (hpath : '\n' ∉ path.text.toList) (hne : old ≠ new) (hold : ReturnsFed old)
    (hnew : ReturnsFed new) : ∀ l ∈ splitLines (render path old new).toList, Terminated l := by
  have hwritable := writable_patchLines hpath (patchable_splitLines hold)
    (patchable_splitLines hnew)
  rw [toList_render hpath hne hold hnew, splitLines_written hwritable]
  exact terminated_of_mem_flatMap_writtenLine hwritable

/-- The reader turns the old text into the new one if the patch spans both texts, and rejects it
otherwise. -/
lemma patched?_render (path : Path) {old new : List Char} (hpath : '\n' ∉ path.text.toList)
    (hne : old ≠ new) (hold : ReturnsFed old) (hnew : ReturnsFed new) :
    patched? path (render path old new).toList old =
      if Spans (splitLines old) (splitLines new) then some new else none := by
  have hwritable := writable_patchLines hpath (patchable_splitLines hold)
    (patchable_splitLines hnew)
  obtain ⟨extents, hhunks, hspans⟩ := exists_hunks (splitLines old) (splitLines new)
  have hread := readLines_hunks hhunks (Nat.zero_le _)
  have hstart : Reader.midway (splitLines old) (splitLines new) 0 0 0 0 =
      ⟨splitLines old, 0, [], 0, 0⟩ := rfl
  rw [hstart] at hread
  rw [patched?, toList_render hpath hne hold hnew, withoutNotes_splitLines hwritable]
  simp [patchLines, nameLines, hread, hspans, apply_ite]

/-- A patch turns the old text into the new one if the change spans both of them, and cannot be
applied if it does not. Carriage returns stand in front of line feeds only. -/
theorem patched_render (path : Path) {old new : List Char} (hpath : '\n' ∉ path.text.toList)
    (hne : old ≠ new) (hold : ReturnsFed old) (hnew : ReturnsFed new) :
    (patched? path (render path old new).toList old = some new ↔
        Spans (splitLines old) (splitLines new)) ∧
      (patched? path (render path old new).toList old = none ↔
        ¬ Spans (splitLines old) (splitLines new)) := by
  rw [patched?_render path hpath hne hold hnew]
  split_ifs with hspans
  · simp [hspans]
  · simp [hspans]

/-- The digits without zero, with no line feed behind the last one. -/
def digits : List Char :=
  "1\n2\n3\n4\n5\n6\n7\n8\n9".toList

/-- All digits, each on its line. -/
def allDigits : List Char :=
  "0\n1\n2\n3\n4\n5\n6\n7\n8\n9\n".toList

/-- Two hunks, of which the second one ends the last line. -/
theorem patched_render_digits :
    '\n' ∉ "a.rs".toList ∧ digits ≠ allDigits ∧ ReturnsFed digits ∧ ReturnsFed allDigits ∧
      patched? ⟨"a.rs"⟩ (render ⟨"a.rs"⟩ digits allDigits).toList digits = some allDigits :=
  have hne : digits ≠ allDigits := by decide
  have hold : ReturnsFed digits := returnsFed_of_notMem (by decide)
  have hnew : ReturnsFed allDigits := returnsFed_of_notMem (by decide)
  have hspans : Spans (splitLines digits) (splitLines allDigits) := by decide +kernel
  ⟨by decide, hne, hold, hnew, (patched_render ⟨"a.rs"⟩ (by decide) hne hold hnew).1.mpr hspans⟩

/-- A deletion that has changed places with an insertion still names the place with which it was
found: the hunk holds five new lines, and its header names three. -/
theorem patched_render_moved :
    '\n' ∉ "f".toList ∧ "e\nd\n".toList ≠ "a\nc\ne\nb\ne\n".toList ∧
      ReturnsFed "e\nd\n".toList ∧ ReturnsFed "a\nc\ne\nb\ne\n".toList ∧
      render ⟨"f"⟩ "e\nd\n".toList "a\nc\ne\nb\ne\n".toList =
        "diff a/f b/f\n--- a/f\n+++ b/f\n@@ -1,2 +1,3 @@\n+a\n+c\n+e\n+b\n e\n-d\n" ∧
      patched? ⟨"f"⟩ (render ⟨"f"⟩ "e\nd\n".toList "a\nc\ne\nb\ne\n".toList).toList
        "e\nd\n".toList = none := by
  refine ⟨by decide, by decide, returnsFed_of_notMem (by decide), returnsFed_of_notMem (by decide),
    ?_, ?_⟩
  · decide +kernel
  · decide +kernel

/-- A patch that inserts lines in a row is always right. -/
theorem patched?_render_insertion (path : Path) {above inserted below : List Line}
    (hpath : '\n' ∉ path.text.toList) (hne : inserted ≠ [])
    (habove : ∀ l ∈ above, Terminated l) (hinserted : ∀ l ∈ inserted, Terminated l)
    (hbelow : Canonical below) (hold : ReturnsFed (joinLines (above ++ below)))
    (hnew : ReturnsFed (joinLines (above ++ inserted ++ below))) :
    patched? path
        (render path (joinLines (above ++ below)) (joinLines (above ++ inserted ++ below))).toList
        (joinLines (above ++ below)) =
      some (joinLines (above ++ inserted ++ below)) := by
  have holdLines : splitLines (joinLines (above ++ below)) = above ++ below :=
    splitLines_joinLines_of_canonical (Canonical.append habove hbelow)
  have hterminated : ∀ l ∈ above ++ inserted, Terminated l := fun l hl =>
    (List.mem_append.mp hl).elim (habove l) (hinserted l)
  have hnewLines : splitLines (joinLines (above ++ inserted ++ below)) = above ++ inserted ++ below :=
    splitLines_joinLines_of_canonical (Canonical.append hterminated hbelow)
  have hchange : joinLines (above ++ below) ≠ joinLines (above ++ inserted ++ below) := by
    intro heq
    have hlines := congrArg splitLines heq
    rw [holdLines, hnewLines] at hlines
    have hlength := congrArg List.length hlines
    simp only [List.length_append] at hlength
    exact hne (List.eq_nil_of_length_eq_zero (by omega))
  rw [patched?_render path hpath hchange hold hnew, holdLines, hnewLines]
  exact if_pos (spans_insertion above inserted below)

end LicenseHeader.Patch
