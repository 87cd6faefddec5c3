import LicenseHeader.FileTree.Access
import LicenseHeader.Header.Installation
import LicenseHeader.Patch.Render
import LicenseHeader.Policy.Basic
import LicenseHeader.Report.Basic

/-!
# Work on one file

A file is read, and what is to be reported is decided from its text alone. Only if the header has to
be installed the file is written, in a second step. Whatever goes wrong is reported and ends there.
-/

namespace LicenseHeader.Processing

open Text

/-- What follows from the text of a file. -/
inductive Outcome where
  /-- There is nothing left to do. -/
  | settled (report : FileReport)
  /-- The file gets a new text; then the report holds. -/
  | pending (report : FileReport) (text : List Char)
deriving DecidableEq, Repr

def inspect (mode : Mode) (s : Subject) (text : List Char) : Outcome :=
  let marker := s.style.marker.toList
  let lines := splitLines text
  let installed := Header.install marker lines
  let report : FileReport :=
    { path := s.path, marker := s.style.marker, status := .ok,
      header := (Header.locate marker lines).map Header.Range.span }
  if installed = lines then .settled report
  else
    match mode with
    | .check => .settled { report with status := .missing }
    | .patch =>
      .settled { report with
        status := .patched, patch := some (Patch.render s.path text (joinLines installed)) }
    | .fix => .pending { report with status := .fixed } (joinLines installed)

/-- The first step: reads a file and decides. -/
def readStep (root : Path) (mode : Mode) (t : FileTree) (s : Subject) : Outcome :=
  let path := root.join s.path
  match t.readText path with
  | .error fault =>
    .settled (.failed s.path s.style.marker [s!"Failed to read file: {path.text}", fault.message])
  | .ok text => inspect mode s text

/-- The second step: gives a file its new text. -/
def writeStep (root : Path) (t : FileTree) (report : FileReport) (text : List Char) :
    FileReport × FileTree :=
  let path := root.join report.path
  match t.writeText path text with
  | .error fault =>
    (.failed report.path report.marker [s!"Failed to write file: {path.text}", fault.message], t)
  | .ok t => (report, t)

/-- Both steps, one right after the other. -/
def processFile (root : Path) (mode : Mode) (t : FileTree) (s : Subject) : FileReport × FileTree :=
  match readStep root mode t s with
  | .settled report => (report, t)
  | .pending report text => writeStep root t report text

end LicenseHeader.Processing
