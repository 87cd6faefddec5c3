import LicenseHeader.Proofs.Processing.Step
import Mathlib.Logic.Function.Iterate

/-!
# Repeated fixes

Each fix of a file installs the header in its text once more. Two fixes bring every text to rest:
from then on the file is found to be as it should be in every mode. A locked file is at rest from
the beginning.
-/

namespace LicenseHeader.Processing

open Header (Installed installText)

variable {root : Path} {t : FileTree} {s : Subject} {marker text : List Char}

/-- The tree after a fix of one file. -/
def afterFix (root : Path) (s : Subject) (t : FileTree) : FileTree :=
  (processFile root .fix t s).2

/-- After a fix the text with the header is read, whether or not it had to be written. -/
lemma readText_afterFix (h : t.readText (root.join s.path) = .ok text) (hw : Writable root t s) :
    (afterFix root s t).readText (root.join s.path) =
      .ok (installText s.style.marker.toList text) := by
  by_cases hi : Installed s.style.marker.toList text
  · have hsame : installText s.style.marker.toList text = text := by
      rw [installText, hi, Text.joinLines_splitLines]
    rw [afterFix, processFile_of_installed h hi, hsame]
    exact h
  · obtain ⟨l, hl, he⟩ := FileTree.readText_eq_ok_iff.mp h
    rw [afterFix, processFile_fix h hi hl (hw l hl)]
    exact FileTree.readText_put hl he _

/-- A fix locks no file. -/
lemma writable_afterFix (h : t.readText (root.join s.path) = .ok text) (hw : Writable root t s) :
    Writable root (afterFix root s t) s := by
  by_cases hi : Installed s.style.marker.toList text
  · rw [afterFix, processFile_of_installed h hi]
    exact hw
  · obtain ⟨l, hl, he⟩ := FileTree.readText_eq_ok_iff.mp h
    rw [afterFix, processFile_fix h hi hl (hw l hl)]
    exact hw.of_alike (FileTree.alike_put he _)

/-- A locked file stays as it is. -/
lemma afterFix_of_not_writable (h : t.readText (root.join s.path) = .ok text)
    (hw : ¬ Writable root t s) : afterFix root s t = t := by
  by_cases hi : Installed s.style.marker.toList text
  · rw [afterFix, processFile_of_installed h hi]
  · obtain ⟨l, hl, -⟩ := FileTree.readText_eq_ok_iff.mp h
    rw [writable_iff hl, not_not] at hw
    rw [afterFix, processFile_fix_of_locked h hi hl hw]

/-- Induction on the number of fixes: each one installs the header into what the one before it has
left. -/
lemma readText_iterate_afterFix (h : t.readText (root.join s.path) = .ok text)
    (hw : Writable root t s) (n : Nat) :
    ((afterFix root s)^[n] t).readText (root.join s.path) =
        .ok ((installText s.style.marker.toList)^[n] text) ∧
      Writable root ((afterFix root s)^[n] t) s := by
  induction n with
  | zero => exact ⟨h, hw⟩
  | succ n ih =>
    rw [Function.iterate_succ_apply', Function.iterate_succ_apply']
    exact ⟨readText_afterFix ih.1 ih.2, writable_afterFix ih.1 ih.2⟩

/-- No installation after the second one changes a text. -/
lemma iterate_installText (hm : '\n' ∉ marker) (hv : marker = [] ∨ ∃ c ∈ marker, ¬ Text.isBlank c)
    (text : List Char) (n : Nat) :
    (installText marker)^[n + 2] text = installText marker (installText marker text) := by
  have hstays := (Header.installText_eq_iff hm _).mpr
    (Header.installed_installText_installText hm hv text)
  rw [Function.iterate_add_apply, Function.iterate_succ_apply, Function.iterate_succ_apply,
    Function.iterate_zero_apply]
  exact Function.iterate_fixed hstays n

/-- Whatever the text of a file, the third fix finds nothing to do, provided that the marker is
empty or not blank. After two or more fixes no further one changes a file, and every mode reports
that the file is as it should be, unless it is locked, so that it was never fixed. -/
theorem stable_after_two_fixes (marker text : List Char) (hm : '\n' ∉ marker)
    (hv : marker = [] ∨ ∃ c ∈ marker, ¬ Text.isBlank c) :
    installText marker (installText marker (installText marker text)) =
        installText marker (installText marker text) ∧
      ∀ (root : Path) (t : FileTree) (s : Subject), s.style.marker.toList = marker →
        t.readText (root.join s.path) = .ok text → ∀ n, 2 ≤ n →
          afterFix root s ((afterFix root s)^[n] t) = (afterFix root s)^[n] t ∧
          (Writable root t s → ∀ mode, processFile root mode ((afterFix root s)^[n] t) s =
            (reportOn s (installText marker (installText marker text)) .ok,
              (afterFix root s)^[n] t)) := by
  have hinstalled := Header.installed_installText_installText hm hv text
  constructor
  · exact (Header.installText_eq_iff hm _).mpr hinstalled
  · rintro root t s rfl h n hn
    obtain ⟨k, rfl⟩ := Nat.exists_eq_add_of_le' hn
    by_cases hw : Writable root t s
    · have hread := (readText_iterate_afterFix h hw (k + 2)).1
      rw [iterate_installText hm hv] at hread
      have hrest := processFile_of_installed hread hinstalled
      exact ⟨congrArg Prod.snd (hrest .fix), fun _ => hrest⟩
    · rw [Function.iterate_fixed (afterFix_of_not_writable h hw)]
      exact ⟨afterFix_of_not_writable h hw, fun hw' => absurd hw' hw⟩

/-- A script that consists of its unfinished first line. -/
def unfinishedScript : FileTree where
  entries := [(["run.sh"], FileTree.textEntry "#!/bin/sh".toList)]

/-- The first fix joins the header to the line, the second one puts it below. -/
theorem stable_after_two_fixes_unfinishedScript :
    '\n' ∉ "//".toList ∧ (∃ c ∈ "//".toList, ¬ Text.isBlank c) ∧
      unfinishedScript.readText (Path.join ⟨"/"⟩ ⟨"run.sh"⟩) = .ok "#!/bin/sh".toList ∧
      (processFile ⟨"/"⟩ .check ((afterFix ⟨"/"⟩ ⟨⟨"run.sh"⟩, ⟨"//"⟩⟩)^[2] unfinishedScript)
        ⟨⟨"run.sh"⟩, ⟨"//"⟩⟩).1.status = .ok := by
  have hm : '\n' ∉ "//".toList := by decide +kernel
  have hv : ∃ c ∈ "//".toList, ¬ Text.isBlank c := ⟨'/', by decide +kernel, by decide⟩
  have hread : unfinishedScript.readText (Path.join ⟨"/"⟩ ⟨"run.sh"⟩) = .ok "#!/bin/sh".toList := by
    decide +kernel
  obtain ⟨-, hstable⟩ := (stable_after_two_fixes "//".toList "#!/bin/sh".toList hm (Or.inr hv)).2
    ⟨"/"⟩ unfinishedScript ⟨⟨"run.sh"⟩, ⟨"//"⟩⟩ rfl hread 2 (Nat.le_refl 2)
  exact ⟨hm, hv, hread, congrArg (·.1.status) (hstable (fun l _ => List.not_mem_nil) .check)⟩

end LicenseHeader.Processing
