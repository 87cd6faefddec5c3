import LicenseHeader.Processing.Step
import LicenseHeader.Proofs.FileTree.Content
import LicenseHeader.Proofs.Header.Stability

/-!
# The work on one file

What the work on a file comes to in each mode: a file that cannot be read gives an error, a file
with its header in place is reported as such, and of all others the mode decides. A file that is
locked can be read, but not be fixed.
-/

namespace LicenseHeader.Processing

open Text
open Header (Installed installText)

variable {root : Path} {mode : Mode} {t : FileTree} {s : Subject} {text : List Char}

/-- The report on a file with a text. -/
def reportOn (s : Subject) (text : List Char) (status : Status) : FileReport where
  path := s.path
  marker := s.style.marker
  status
  header := (Header.locate s.style.marker.toList (splitLines text)).map Header.Range.span

def unreadable (root : Path) (s : Subject) (fault : FileFault) : FileReport :=
  .failed s.path s.style.marker
    [s!"Failed to read file: {(root.join s.path).text}", fault.message]

lemma error_unreadable (root : Path) (s : Subject) (fault : FileFault) :
    (unreadable root s fault).error =
      some ("Failed to read file: " ++ (root.join s.path).text ++ ": " ++ fault.message) := by
  rw [unreadable, FileReport.failed]
  simp only [String.intercalate_cons_cons, String.intercalate_singleton]
  rfl

def unwritable (root : Path) (s : Subject) (fault : FileFault) : FileReport :=
  .failed s.path s.style.marker
    [s!"Failed to write file: {(root.join s.path).text}", fault.message]

/-- The file is not locked. -/
def Writable (root : Path) (t : FileTree) (s : Subject) : Prop :=
  ∀ l, t.resolve (root.join s.path) = .ok l → l ∉ t.locked

lemma writable_iff {l : Location} (hl : t.resolve (root.join s.path) = .ok l) :
    Writable root t s ↔ l ∉ t.locked := by
  constructor
  · exact fun hw => hw l hl
  · intro hfree m hm
    cases hl.symm.trans hm
    exact hfree

/-- Whether a file is locked does not depend on what files hold. -/
lemma Writable.of_alike {t' : FileTree} (halike : FileTree.Alike t t') (hw : Writable root t s) :
    Writable root t' s := by
  intro l hl
  rw [← halike.resolve] at hl
  rw [← halike.locked]
  exact hw l hl

/-! ### Decisions -/

lemma inspect_of_installed (h : Installed s.style.marker.toList text) (mode : Mode) :
    inspect mode s text = .settled (reportOn s text .ok) :=
  if_pos h

lemma inspect_check (h : ¬ Installed s.style.marker.toList text) :
    inspect .check s text = .settled (reportOn s text .missing) :=
  if_neg h

lemma inspect_patch (h : ¬ Installed s.style.marker.toList text) :
    inspect .patch s text = .settled { reportOn s text .patched with
      patch := some (Patch.render s.path text (installText s.style.marker.toList text)) } :=
  if_neg h

lemma inspect_fix (h : ¬ Installed s.style.marker.toList text) :
    inspect .fix s text =
      .pending (reportOn s text .fixed) (installText s.style.marker.toList text) :=
  if_neg h

/-! ### Reading -/

lemma readStep_of_unreadable {fault : FileFault} (h : t.readText (root.join s.path) = .error fault)
    (mode : Mode) : readStep root mode t s = .settled (unreadable root s fault) := by
  unfold readStep
  simp only [h]
  rfl

lemma readStep_of_readText (h : t.readText (root.join s.path) = .ok text) (mode : Mode) :
    readStep root mode t s = inspect mode s text := by
  unfold readStep
  simp only [h]

/-- A file is to be written only to install the header in a text that was read. -/
lemma readStep_eq_pending {report : FileReport} {new : List Char}
    (h : readStep root mode t s = .pending report new) :
    ∃ text, t.readText (root.join s.path) = .ok text ∧
      ¬ Installed s.style.marker.toList text ∧ mode = .fix ∧ report = reportOn s text .fixed ∧
      new = installText s.style.marker.toList text := by
  cases hr : t.readText (root.join s.path) with
  | error fault =>
    rw [readStep_of_unreadable hr] at h
    cases h
  | ok text =>
    rw [readStep_of_readText hr] at h
    by_cases hi : Installed s.style.marker.toList text
    · rw [inspect_of_installed hi] at h
      cases h
    · cases mode with
      | check =>
        rw [inspect_check hi] at h
        cases h
      | patch =>
        rw [inspect_patch hi] at h
        cases h
      | fix =>
        rw [inspect_fix hi] at h
        cases h
        exact ⟨text, rfl, hi, rfl, rfl, rfl⟩

/-! ### Both steps -/

lemma processFile_of_settled {report : FileReport}
    (h : readStep root mode t s = .settled report) : processFile root mode t s = (report, t) := by
  unfold processFile
  simp only [h]

lemma processFile_of_pending {report : FileReport} {new : List Char}
    (h : readStep root mode t s = .pending report new) :
    processFile root mode t s = writeStep root t report new := by
  unfold processFile
  simp only [h]

lemma processFile_of_unreadable {fault : FileFault}
    (h : t.readText (root.join s.path) = .error fault) (mode : Mode) :
    processFile root mode t s = (unreadable root s fault, t) :=
  processFile_of_settled (readStep_of_unreadable h mode)

lemma processFile_of_installed (h : t.readText (root.join s.path) = .ok text)
    (hi : Installed s.style.marker.toList text) (mode : Mode) :
    processFile root mode t s = (reportOn s text .ok, t) := by
  apply processFile_of_settled
  rw [readStep_of_readText h, inspect_of_installed hi]

lemma processFile_check (h : t.readText (root.join s.path) = .ok text)
    (hi : ¬ Installed s.style.marker.toList text) :
    processFile root .check t s = (reportOn s text .missing, t) := by
  apply processFile_of_settled
  rw [readStep_of_readText h, inspect_check hi]

lemma processFile_patch (h : t.readText (root.join s.path) = .ok text)
    (hi : ¬ Installed s.style.marker.toList text) :
    processFile root .patch t s = ({ reportOn s text .patched with
      patch := some (Patch.render s.path text (installText s.style.marker.toList text)) }, t) := by
  apply processFile_of_settled
  rw [readStep_of_readText h, inspect_patch hi]

/-- Where there is a file that is not locked, the second step succeeds. -/
lemma writeStep_of_file {report : FileReport} {l : Location} {content : ByteArray}
    (hl : t.resolve (root.join report.path) = .ok l) (he : t.entry? l = some (.file content))
    (hlocked : l ∉ t.locked) (new : List Char) :
    writeStep root t report new = (report, t.put l (FileTree.textEntry new)) := by
  unfold writeStep
  simp only [FileTree.writeText_of_read hl he hlocked]

/-- A locked file stays as it is, and that is what is reported of it. -/
lemma writeStep_of_locked {report : FileReport} {l : Location} {content : ByteArray}
    (hl : t.resolve (root.join s.path) = .ok l) (he : t.entry? l = some (.file content))
    (hpath : report.path = s.path) (hmarker : report.marker = s.style.marker)
    (hlocked : l ∈ t.locked) (new : List Char) :
    writeStep root t report new = (unwritable root s .denied, t) := by
  unfold writeStep
  simp only [hpath, hmarker, FileTree.writeText_of_locked hl he hlocked]
  rfl

/-- A file that was read and is not locked can be written. -/
lemma writeStep_of_readText (h : t.readText (root.join s.path) = .ok text) {l : Location}
    (hl : t.resolve (root.join s.path) = .ok l) {report : FileReport} (hpath : report.path = s.path)
    (hlocked : l ∉ t.locked) (new : List Char) :
    writeStep root t report new = (report, t.put l (FileTree.textEntry new)) := by
  obtain ⟨m, hm, he⟩ := FileTree.readText_eq_ok_iff.mp h
  obtain rfl : l = m := Except.ok.inj (hl.symm.trans hm)
  rw [← hpath] at hl
  exact writeStep_of_file hl he hlocked new

/-- The second step changes the content of the file, if anything. -/
lemma writeStep_frame {report : FileReport} {l : Location} {content : ByteArray}
    (hl : t.resolve (root.join report.path) = .ok l) (he : t.entry? l = some (.file content))
    (new : List Char) :
    FileTree.Alike t (writeStep root t report new).2 ∧
      ∀ m, m ≠ l → FileTree.entry? (writeStep root t report new).2 m = t.entry? m := by
  by_cases hlocked : l ∈ t.locked
  · rw [writeStep_of_locked (s := ⟨report.path, ⟨report.marker⟩⟩) hl he rfl rfl hlocked]
    exact ⟨.refl t, fun _ _ => rfl⟩
  · rw [writeStep_of_file hl he hlocked]
    exact ⟨FileTree.alike_put he _, fun m hm => FileTree.entry?_put_of_ne hm⟩

lemma readStep_fix (h : t.readText (root.join s.path) = .ok text)
    (hi : ¬ Installed s.style.marker.toList text) :
    readStep root .fix t s =
      .pending (reportOn s text .fixed) (installText s.style.marker.toList text) := by
  rw [readStep_of_readText h, inspect_fix hi]

lemma processFile_fix (h : t.readText (root.join s.path) = .ok text)
    (hi : ¬ Installed s.style.marker.toList text) {l : Location}
    (hl : t.resolve (root.join s.path) = .ok l) (hlocked : l ∉ t.locked) :
    processFile root .fix t s = (reportOn s text .fixed,
      t.put l (FileTree.textEntry (installText s.style.marker.toList text))) := by
  rw [processFile_of_pending (readStep_fix h hi), writeStep_of_readText h hl rfl hlocked]

/-- Where the header cannot be installed the file is not touched, and the report says why. -/
lemma processFile_fix_of_locked (h : t.readText (root.join s.path) = .ok text)
    (hi : ¬ Installed s.style.marker.toList text) {l : Location}
    (hl : t.resolve (root.join s.path) = .ok l) (hlocked : l ∈ t.locked) :
    processFile root .fix t s = (unwritable root s .denied, t) := by
  obtain ⟨m, hm, he⟩ := FileTree.readText_eq_ok_iff.mp h
  obtain rfl : l = m := Except.ok.inj (hl.symm.trans hm)
  rw [processFile_of_pending (readStep_fix h hi), writeStep_of_locked hl he rfl rfl hlocked]

end LicenseHeader.Processing
