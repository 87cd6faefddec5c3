import LicenseHeader.Proofs.Header.Stability

/-!
# One installation or two

Installing the header twice gives the same lines as installing it once, with a single exception: a
header that is put in front of blank lines, where none was found. The second installation finds the
header together with these lines and removes them.
-/

namespace LicenseHeader.Header

open Text

variable {marker : List Char} {lines : List Line}

/-! ### The blank lines at the start -/

lemma trim_eq_nil_of_mem_takeWhile {l : Line} (h : l ∈ lines.takeWhile allBlank) : trim l = [] :=
  allBlank_iff.mp (List.mem_takeWhile_imp h)

lemma trim_ne_nil_of_mem_head?_dropWhile {l : Line} (h : l ∈ (lines.dropWhile allBlank).head?) :
    trim l ≠ [] := by
  have hnot := List.head?_dropWhile_not allBlank lines
  rw [Option.mem_def.mp h] at hnot
  exact fun hblank => by simp [allBlank_iff.mpr hblank] at hnot

/-- No blank line is dropped exactly if there is none at the start. -/
lemma dropWhile_allBlank_eq_self_iff :
    lines.dropWhile allBlank = lines ↔ ∀ l ∈ lines.head?, trim l ≠ [] := by
  constructor
  · intro h l hl
    rw [← h] at hl
    exact trim_ne_nil_of_mem_head?_dropWhile hl
  · intro h
    cases lines with
    | nil => rfl
    | cons first rest =>
      apply List.dropWhile_cons_of_neg
      rw [allBlank_iff]
      exact h first rfl

/-! ### The second installation -/

/-- The second installation changes nothing exactly if there is no blank line to remove. -/
lemma install_install_eq_iff_head? (hm : '\n' ∉ marker) (hl : ∀ l ∈ lines, IsLine l) :
    install marker (install marker lines) = install marker lines ↔
      ∀ l ∈ (lines.drop (target marker lines).stop).head?, trim l ≠ [] := by
  rw [install_install hm hl, install_eq, List.append_cancel_left_eq, List.append_cancel_left_eq,
    dropWhile_allBlank_eq_self_iff]

/-- Installing the header a second time changes nothing exactly if the header was found, or if the
line before which it was put is not blank or does not exist. Otherwise the blank lines directly
below the new header are removed, and nothing else is changed. -/
theorem install_install_eq_iff (marker : List Char) (lines : List Line) (hm : '\n' ∉ marker)
    (hl : ∀ l ∈ lines, IsLine l) :
    (install marker (install marker lines) = install marker lines ↔
      (∃ r, locate marker lines = some r) ∨
        ∀ l ∈ lines[insertionIndex lines]?, trim l ≠ []) ∧
    (install marker (install marker lines) ≠ install marker lines →
      ∃ above blanks below, lines = above ++ (blanks ++ below) ∧
        above.length = insertionIndex lines ∧
        blanks ≠ [] ∧ (∀ l ∈ blanks, trim l = []) ∧ (∀ l ∈ below.head?, trim l ≠ []) ∧
        install marker lines = above ++ (block marker ++ (blanks ++ below)) ∧
        install marker (install marker lines) = above ++ (block marker ++ below)) := by
  cases hfound : locate marker lines with
  | some r =>
    have hsame := install_install_of_locate_eq_some hm hl hfound
    exact ⟨iff_of_true hsame (Or.inl ⟨r, rfl⟩), fun hne => absurd hsame hne⟩
  | none =>
    have htarget := target_of_locate_eq_none hfound
    have hiff := install_install_eq_iff_head? hm hl
    rw [htarget, List.head?_drop] at hiff
    refine ⟨by simpa using hiff, fun hne => ?_⟩
    refine ⟨lines.take (insertionIndex lines),
      (lines.drop (insertionIndex lines)).takeWhile allBlank,
      (lines.drop (insertionIndex lines)).dropWhile allBlank, ?_, ?_, ?_, ?_, ?_, ?_, ?_⟩
    · rw [List.takeWhile_append_dropWhile, List.take_append_drop]
    · exact List.length_take_of_le (insertionIndex_le_length lines)
    · intro hnone
      have hall := List.takeWhile_append_dropWhile (p := allBlank)
        (l := lines.drop (insertionIndex lines))
      rw [hnone, List.nil_append, dropWhile_allBlank_eq_self_iff, List.head?_drop] at hall
      exact hne (hiff.mpr hall)
    · exact fun l => trim_eq_nil_of_mem_takeWhile
    · exact fun l => trim_ne_nil_of_mem_head?_dropWhile
    · rw [install_eq, htarget, List.takeWhile_append_dropWhile]
    · rw [install_install hm hl, htarget]

/-- A script with a blank line below its first line. -/
def spacedScript : List Line :=
  ["#!/bin/sh\n".toList, " \n".toList, "exit\n".toList]

/-- The blank line comes to stand below the header and is removed by the second installation. -/
theorem install_install_eq_iff_spacedScript :
    '\n' ∉ ['#'] ∧ (∀ l ∈ spacedScript, IsLine l) ∧
      install ['#'] (install ['#'] spacedScript) ≠ install ['#'] spacedScript ∧
      ∃ above blanks below, spacedScript = above ++ (blanks ++ below) ∧ blanks ≠ [] ∧
        install ['#'] spacedScript = above ++ (block ['#'] ++ (blanks ++ below)) ∧
        install ['#'] (install ['#'] spacedScript) = above ++ (block ['#'] ++ below) := by
  have hm : '\n' ∉ ['#'] := by decide
  have hl : ∀ l ∈ spacedScript, IsLine l := by decide +kernel
  obtain ⟨hiff, hdropped⟩ := install_install_eq_iff ['#'] spacedScript hm hl
  have hfound : locate ['#'] spacedScript = none := by decide +kernel
  have hline : spacedScript[insertionIndex spacedScript]? = some " \n".toList := by decide +kernel
  have hne : install ['#'] (install ['#'] spacedScript) ≠ install ['#'] spacedScript := by
    intro hsame
    rcases hiff.mp hsame with ⟨r, hr⟩ | hnot
    · rw [hfound] at hr
      cases hr
    · exact hnot _ hline (by decide +kernel)
  obtain ⟨above, blanks, below, hlines, -, hblanks, -, -, hfirst, hsecond⟩ := hdropped hne
  exact ⟨hm, hl, hne, above, blanks, below, hlines, hblanks, hfirst, hsecond⟩

end LicenseHeader.Header
