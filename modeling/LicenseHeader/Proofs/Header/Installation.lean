import LicenseHeader.Header.Installation
import LicenseHeader.Proofs.Header.Block

/-!
# The place of an installed header

After the header is installed it is found where it was installed: neither the lines that are kept
above it nor these together with its own lines look like a header.
-/

namespace LicenseHeader.Header

open Text

variable {marker : List Char} {lines : List Line}

/-! ### The lines that make room -/

lemma insertionIndex_of_interpreter {first : Line} (hf : first ∈ lines.head?)
    (h : interpreterMark <+: first) : insertionIndex lines = 1 := by
  rw [insertionIndex, Option.mem_def.mp hf]
  exact if_pos (List.isPrefixOf_iff_prefix.mpr h)

lemma insertionIndex_of_no_interpreter (h : ∀ l ∈ lines.head?, ¬ interpreterMark <+: l) :
    insertionIndex lines = 0 := by
  rw [insertionIndex]
  split
  case h_1 first hf => exact if_neg fun hp => h first hf (List.isPrefixOf_iff_prefix.mp hp)
  case h_2 => rfl

lemma insertionIndex_le_length (lines : List Line) : insertionIndex lines ≤ lines.length := by
  cases lines with
  | nil => exact Nat.le_refl 0
  | cons first rest =>
    rw [insertionIndex, List.head?_cons, List.length_cons]
    show (if interpreterMark.isPrefixOf first then 1 else 0) ≤ rest.length + 1
    split_ifs <;> omega

lemma target_of_locate_eq_some {r : Range} (h : locate marker lines = some r) :
    target marker lines = r := by
  rw [target, h, Option.getD_some]

lemma target_of_locate_eq_none (h : locate marker lines = none) :
    target marker lines = ⟨insertionIndex lines, insertionIndex lines⟩ := by
  rw [target, h, Option.getD_none]

/-- In proper lines the header is installed inside the text. -/
lemma target_start_le_length (hl : ∀ l ∈ lines, IsLine l) :
    (target marker lines).start ≤ lines.length := by
  cases h : locate marker lines with
  | none =>
    rw [target_of_locate_eq_none h]
    exact insertionIndex_le_length lines
  | some r =>
    rw [target_of_locate_eq_some h]
    exact Nat.le_of_add_right_le ((locate_eq_some_iff hl).mp h).1.1.fits

/-- No header stands above the place where one is installed. -/
lemma not_headerAt_of_lt_target (hl : ∀ l ∈ lines, IsLine l) :
    ∀ j < (target marker lines).start, ¬ HeaderAt marker lines j := by
  intro j hj hat
  cases h : locate marker lines with
  | none => exact (locate_eq_none_iff hl).mp h j hat
  | some r =>
    rw [target_of_locate_eq_some h] at hj
    have hle : r.start ≤ j := ((locate_eq_some_iff hl).mp h).1.2 hat
    omega

/-! ### The installed header -/

lemma install_eq (marker : List Char) (lines : List Line) :
    install marker lines = lines.take (target marker lines).start ++
      (block marker ++ lines.drop (target marker lines).stop) := by
  rw [install, List.append_assoc]

/-- With the header installed, all lines are lines still. -/
lemma isLine_of_mem_install (hm : '\n' ∉ marker) (hl : ∀ l ∈ lines, IsLine l) :
    ∀ l ∈ install marker lines, IsLine l := by
  intro l h
  rw [install_eq, List.mem_append, List.mem_append] at h
  rcases h with h | h | h
  · exact hl l (List.mem_of_mem_take h)
  · exact (terminated_of_mem_block hm l h).isLine
  · exact hl l (List.mem_of_mem_drop h)

lemma length_take_target (marker : List Char) (hl : ∀ l ∈ lines, IsLine l) :
    (lines.take (target marker lines).start).length = (target marker lines).start := by
  rw [List.length_take, Nat.min_eq_left (target_start_le_length hl)]

/-- Above the place of the header there is no other one. -/
lemma not_headerAt_above_target (hl : ∀ l ∈ lines, IsLine l) (j : Nat) :
    ¬ HeaderAt marker (lines.take (target marker lines).start) j := by
  intro hat
  have hfits := hat.fits
  rw [length_take_target marker hl] at hfits
  rw [← List.append_nil (lines.take _)] at hat
  have hat := hat.of_append_left (by rwa [length_take_target marker hl])
    (lines.drop (target marker lines).start)
  rw [List.take_append_drop] at hat
  exact not_headerAt_of_lt_target hl j (by omega) hat

lemma isLeast_headerAt_install (marker : List Char) (hl : ∀ l ∈ lines, IsLine l) :
    IsLeast {j | HeaderAt marker (install marker lines) j} (target marker lines).start := by
  have hleast := (saysHeader_commentLines marker).isLeast_headerAt (not_headerAt_above_target hl)
    (['\n'] :: lines.drop (target marker lines).stop)
  rwa [← block_append, ← install_eq, length_take_target marker hl] at hleast

/-- The range in which an installed header is found. -/
lemma exists_locate_install (hm : '\n' ∉ marker) (hl : ∀ l ∈ lines, IsLine l) :
    ∃ r, locate marker (install marker lines) = some r ∧
      r.start = (target marker lines).start := by
  have hl' := isLine_of_mem_install hm hl
  have hleast := isLeast_headerAt_install marker hl
  cases h : locate marker (install marker lines) with
  | none => exact absurd hleast.1 ((locate_eq_none_iff hl').mp h _)
  | some r => exact ⟨r, rfl, ((locate_eq_some_iff hl').mp h).1.unique hleast⟩

/-- An installed header is found where the old one was found or, if there was none, below the first
line if that line names an interpreter and at the top otherwise. -/
theorem locate_install (marker : List Char) (lines : List Line) (hm : '\n' ∉ marker)
    (hl : ∀ l ∈ lines, IsLine l) :
    ∃ r, locate marker (install marker lines) = some r ∧
      (∀ old, locate marker lines = some old → r.start = old.start) ∧
      (locate marker lines = none →
        ((∃ l ∈ lines.head?, interpreterMark <+: l) → r.start = 1) ∧
          ((∀ l ∈ lines.head?, ¬ interpreterMark <+: l) → r.start = 0)) ∧
      r.headerEnd - r.start = 7 ∧
      ((install marker lines).drop r.start).take 8 = block marker ∧
      ∀ j < r.start, ¬ HeaderAt marker (install marker lines) j := by
  obtain ⟨r, hr, hstart⟩ := exists_locate_install hm hl
  obtain ⟨hleast, hstop⟩ := (locate_eq_some_iff (isLine_of_mem_install hm hl)).mp hr
  refine ⟨r, hr, fun old hold => ?_, fun hnone => ⟨?_, fun h => ?_⟩, ?_, ?_, fun j hj hat => ?_⟩
  · rw [hstart, target_of_locate_eq_some hold]
  · rintro ⟨first, hf, h⟩
    rw [hstart, target_of_locate_eq_none hnone]
    exact insertionIndex_of_interpreter hf h
  · rw [hstart, target_of_locate_eq_none hnone]
    exact insertionIndex_of_no_interpreter h
  · rw [Range.headerEnd, length_headerLines, Nat.min_eq_left hstop.le, Nat.add_sub_cancel_left]
  · rw [hstart, install_eq, List.drop_left' (length_take_target marker hl), take_block_append]
  · exact absurd (hleast.2 hat) (by omega)

/-- The header is found below the only line of a script, although that line is not ended. -/
theorem locate_install_bare_script :
    '\n' ∉ ['#'] ∧ (∀ l ∈ ["#!/bin/sh".toList], IsLine l) ∧
      ∃ r, locate ['#'] (install ['#'] ["#!/bin/sh".toList]) = some r ∧ r.start = 1 ∧
        r.headerEnd - r.start = 7 := by
  have hm : '\n' ∉ ['#'] := by decide
  have hl : ∀ l ∈ ["#!/bin/sh".toList], IsLine l := by decide +kernel
  have hnone : locate ['#'] ["#!/bin/sh".toList] = none := by decide +kernel
  have hfirst : ∃ l ∈ ["#!/bin/sh".toList].head?, interpreterMark <+: l :=
    ⟨_, rfl, by decide +kernel⟩
  obtain ⟨r, hr, -, hstart, hend, -⟩ := locate_install ['#'] ["#!/bin/sh".toList] hm hl
  exact ⟨hm, hl, r, hr, (hstart hnone).1 hfirst, hend⟩

end LicenseHeader.Header
