import LicenseHeader.Proofs.Processing.Step

/-!
# The modes

All modes decide alike whether the header of a file is as it should be, and name the same place for
the header that was found. They differ in what they do about a file that has to change: a check
reports it, a patch shows the very change that a fix makes, and only the fix makes it.
-/

namespace LicenseHeader

namespace Patch

lemma renderNames_ne_empty (path : Path) : renderNames path ≠ "" := by
  intro h
  have hfirst : (renderNames path).toList.head? = some 'd' := by simp [renderNames, toString]
  rw [h] at hfirst
  cases hfirst

/-- There is a patch for every change. -/
lemma render_ne_empty {old new : List Char} (h : old ≠ new) (path : Path) :
    render path old new ≠ "" := by
  intro hempty
  rw [render, if_neg h] at hempty
  exact renderNames_ne_empty path (String.append_eq_empty_iff.mp hempty).1

end Patch

namespace Processing

open Header (Installed installText)

variable {root : Path} {t : FileTree} {s : Subject} {text : List Char}

/-! ### Files that have to change -/

/-- A fix leaves in the file the text with the header, and nothing else is touched. -/
lemma exists_processFile_fix (h : t.readText (root.join s.path) = .ok text)
    (hi : ¬ Installed s.style.marker.toList text) (hw : Writable root t s) :
    ∃ t', processFile root .fix t s = (reportOn s text .fixed, t') ∧
      t'.readText (root.join s.path) = .ok (installText s.style.marker.toList text) ∧
      ∀ l, t.resolve (root.join s.path) ≠ .ok l → t'.entry? l = t.entry? l := by
  obtain ⟨l, hl, he⟩ := FileTree.readText_eq_ok_iff.mp h
  refine ⟨_, processFile_fix h hi hl (hw l hl), FileTree.readText_put hl he _, fun m hm => ?_⟩
  apply FileTree.entry?_put_of_ne
  rintro rfl
  exact hm hl

/-- The modes agree about a file. If it cannot be read, all of them report the same error and leave
the tree as it is. If its header is as it should be, all of them say so. Otherwise each reports the
file in its own way with the same place of the header; the patch is not empty and shows the change
from the old text to the one that the fix writes. Only where the file is locked the fix reports that
it could not be written, and leaves the tree as it is. -/
theorem processFile_modes_agree (root : Path) (t : FileTree) (s : Subject)
    (hm : '\n' ∉ s.style.marker.toList) :
    (∀ fault, t.readText (root.join s.path) = .error fault →
      (unreadable root s fault).status = .error ∧
        ∀ mode, processFile root mode t s = (unreadable root s fault, t)) ∧
    ∀ text, t.readText (root.join s.path) = .ok text →
      (Installed s.style.marker.toList text ∧
        ∀ mode, processFile root mode t s = (reportOn s text .ok, t)) ∨
      (¬ Installed s.style.marker.toList text ∧
        ∃ new, new ≠ text ∧
          processFile root .check t s = (reportOn s text .missing, t) ∧
          processFile root .patch t s = ({ reportOn s text .patched with
            patch := some (Patch.render s.path text new) }, t) ∧
          Patch.render s.path text new ≠ "" ∧
          (Writable root t s → ∃ t', processFile root .fix t s = (reportOn s text .fixed, t') ∧
            t'.readText (root.join s.path) = .ok new ∧
            ∀ l, t.resolve (root.join s.path) ≠ .ok l → t'.entry? l = t.entry? l) ∧
          (¬ Writable root t s → processFile root .fix t s = (unwritable root s .denied, t))) := by
  constructor
  · intro fault h
    exact ⟨rfl, processFile_of_unreadable h⟩
  · intro text h
    by_cases hi : Installed s.style.marker.toList text
    · exact Or.inl ⟨hi, processFile_of_installed h hi⟩
    · have hne : installText s.style.marker.toList text ≠ text := by
        intro heq
        exact hi ((Header.installText_eq_iff hm text).mp heq)
      refine Or.inr ⟨hi, _, hne, processFile_check h hi, processFile_patch h hi,
        Patch.render_ne_empty hne.symm s.path, exists_processFile_fix h hi, fun hw => ?_⟩
      obtain ⟨l, hl, -⟩ := FileTree.readText_eq_ok_iff.mp h
      rw [writable_iff hl, not_not] at hw
      exact processFile_fix_of_locked h hi hl hw

/-- A directory with a single file, which has no header. -/
def lonelyFile : FileTree where
  entries := [(["work"], .directory), (["work", "a.rs"], FileTree.textEntry "fn a() {}\n".toList)]

theorem processFile_modes_agree_lonelyFile :
    '\n' ∉ "//".toList ∧
      lonelyFile.readText (Path.join ⟨"/work"⟩ ⟨"a.rs"⟩) = .ok "fn a() {}\n".toList ∧
      ∃ new t', new ≠ "fn a() {}\n".toList ∧
        (processFile ⟨"/work"⟩ .patch lonelyFile ⟨⟨"a.rs"⟩, ⟨"//"⟩⟩).1.patch =
          some (Patch.render ⟨"a.rs"⟩ "fn a() {}\n".toList new) ∧
        (processFile ⟨"/work"⟩ .fix lonelyFile ⟨⟨"a.rs"⟩, ⟨"//"⟩⟩).2 = t' ∧
        t'.readText (Path.join ⟨"/work"⟩ ⟨"a.rs"⟩) = .ok new := by
  have hm : '\n' ∉ "//".toList := by decide +kernel
  have hread : lonelyFile.readText (Path.join ⟨"/work"⟩ ⟨"a.rs"⟩) = .ok "fn a() {}\n".toList := by
    decide +kernel
  have hi : ¬ Installed "//".toList "fn a() {}\n".toList := by decide +kernel
  have hagree := processFile_modes_agree ⟨"/work"⟩ lonelyFile ⟨⟨"a.rs"⟩, ⟨"//"⟩⟩ hm
  rcases hagree.2 _ hread with ⟨hinstalled, -⟩ | ⟨-, new, hne, -, hpatch, -, hwrite, -⟩
  · exact absurd hinstalled hi
  · obtain ⟨t', hfix, hread', -⟩ := hwrite fun l _ => List.not_mem_nil
    exact ⟨hm, hread, new, t', hne, congrArg (·.1.patch) hpatch, congrArg Prod.snd hfix, hread'⟩

end Processing

end LicenseHeader
