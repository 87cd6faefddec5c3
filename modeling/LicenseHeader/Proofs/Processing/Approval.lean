import LicenseHeader.Proofs.Header.Standing
import LicenseHeader.Proofs.Processing.Step

/-!
# Files that are as they should be

A file passes, in every mode alike, just when its lines hold the block where `Header.Standing` asks
for it. The report then names the seven lines in which the header is written.
-/

namespace LicenseHeader.Processing

open Text
open Header (Installed Standing)

variable {root : Path} {t : FileTree} {s : Subject} {text : List Char}

/-- Whatever the mode, a file passes if installing the header changes nothing. -/
lemma status_processFile_eq_ok_iff_installed (h : t.readText (root.join s.path) = .ok text)
    (mode : Mode) :
    (processFile root mode t s).1.status = .ok ↔ Installed s.style.marker.toList text := by
  by_cases hi : Installed s.style.marker.toList text
  · exact iff_of_true (by rw [processFile_of_installed h hi]; rfl) hi
  · refine iff_of_false ?_ hi
    cases mode with
    | check =>
      rw [processFile_check h hi]
      nofun
    | patch =>
      rw [processFile_patch h hi]
      nofun
    | fix =>
      obtain ⟨l, hl, -⟩ := FileTree.readText_eq_ok_iff.mp h
      by_cases hlocked : l ∈ t.locked
      · rw [processFile_fix_of_locked h hi hl hlocked]
        nofun
      · rw [processFile_fix h hi hl hlocked]
        nofun

/-- A file that can be read passes just when its lines hold the block, no header is found above it,
and below it there is nothing or a line that is not blank. The report on such a file has a span: it
starts behind the lines above and holds the seven lines of the header behind the marker. -/
theorem status_processFile_eq_ok_iff (root : Path) (mode : Mode) (t : FileTree) (s : Subject)
    (h : t.readText (root.join s.path) = .ok text) :
    ((processFile root mode t s).1.status = .ok ↔
        ∃ above below, Standing s.style.marker.toList (splitLines text) above below) ∧
      ∀ above below, Standing s.style.marker.toList (splitLines text) above below →
        ∃ span, (processFile root mode t s).1.header = some span ∧
          span.firstLine = above.length + 1 ∧ span.lastLine = above.length + 7 ∧
          span.lines (splitLines text) =
            Header.bareLines.map (Header.commentLine s.style.marker.toList) := by
  have hl := (canonical_splitLines text).isLine
  constructor
  · rw [status_processFile_eq_ok_iff_installed h]
    exact Header.install_eq_self_iff hl
  · intro above below hstands
    have hreport := processFile_of_installed h (hstands.install_eq hl) mode
    refine ⟨⟨above.length + 1, above.length + 7⟩, ?_, rfl, rfl, hstands.lines_span⟩
    rw [hreport, reportOn, hstands.locate_eq hl]
    simp [Header.Range.span, Header.Range.headerEnd]

/-- A script with the header below its first line. -/
def passingText : List Char :=
  joinLines ("#!/bin/sh\n".toList :: (Header.block ['#'] ++ ["exit\n".toList]))

/-- A directory that holds the script. -/
def passingScript : FileTree where
  entries := [(["run.sh"], FileTree.textEntry passingText)]

theorem status_processFile_eq_ok_iff_passingScript :
    passingScript.readText (Path.join ⟨"/"⟩ ⟨"run.sh"⟩) = .ok passingText ∧
      (processFile ⟨"/"⟩ .fix passingScript ⟨⟨"run.sh"⟩, ⟨"#"⟩⟩).1.status = .ok ∧
      ∃ span, (processFile ⟨"/"⟩ .fix passingScript ⟨⟨"run.sh"⟩, ⟨"#"⟩⟩).1.header = some span ∧
        span.firstLine = 2 ∧ span.lastLine = 8 := by
  have hread : passingScript.readText (Path.join ⟨"/"⟩ ⟨"run.sh"⟩) = .ok passingText :=
    FileTree.readText_eq_ok_iff.mpr ⟨["run.sh"], by decide +kernel, rfl⟩
  have hstands : Standing ['#'] (splitLines passingText) ["#!/bin/sh\n".toList] ["exit\n".toList] :=
    ⟨by decide +kernel, by decide +kernel, by decide +kernel⟩
  obtain ⟨hstatus, hspan⟩ :=
    status_processFile_eq_ok_iff ⟨"/"⟩ .fix passingScript ⟨⟨"run.sh"⟩, ⟨"#"⟩⟩ hread
  obtain ⟨span, hheader, hfirst, hlast, -⟩ := hspan _ _ hstands
  exact ⟨hread, hstatus.mpr ⟨_, _, hstands⟩, span, hheader, hfirst, hlast⟩

end LicenseHeader.Processing
