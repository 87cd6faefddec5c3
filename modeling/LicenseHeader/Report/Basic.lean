import LicenseHeader.Header.Basic
import LicenseHeader.Number.Double
import LicenseHeader.Path.Basic

/-!
# Reports

What a run does with the files, what it found out about each of them, the counts over all files, and
how long it took.
-/

namespace LicenseHeader

/-- What is done with a file whose header is missing or not as it should be. -/
inductive Mode where
  /-- Report the file. -/
  | check
  /-- Show the change as a patch. -/
  | patch
  /-- Install the header. -/
  | fix
deriving DecidableEq, Repr

def Mode.name : Mode → String
  | .check => "check"
  | .patch => "patch"
  | .fix => "fix"

/-! ### Durations -/

structure Duration where
  seconds : Nat
  /-- The nanoseconds after the last whole second. -/
  nanoseconds : Nat
deriving DecidableEq, Repr

namespace Duration

def nanosecondsPerSecond : Nat := Nat.pow 10 9

/-- The length of time that takes so many seconds and nanoseconds. -/
def ofParts (seconds nanoseconds : Nat) : Duration where
  seconds := seconds + nanoseconds / nanosecondsPerSecond
  nanoseconds := nanoseconds % nanosecondsPerSecond

/-- The length of time in seconds. The two parts are rounded before they are added. -/
def inSeconds (d : Duration) : Number.Double :=
  (Number.Double.nearest d.seconds 1).add (.nearest d.nanoseconds nanosecondsPerSecond)

end Duration

/-! ### Reports on single files -/

/-- What became of a file. -/
inductive Status where
  /-- The header is there, and as it should be. -/
  | ok
  /-- The header is missing or not as it should be. -/
  | missing
  /-- A patch was made. -/
  | patched
  /-- The header was installed. -/
  | fixed
  /-- The file could not be read or written. -/
  | error
deriving DecidableEq, Repr

def Status.name : Status → String
  | ok => "ok"
  | missing => "missing"
  | patched => "patched"
  | fixed => "fixed"
  | error => "error"

/-- What a run found out about a file. -/
structure FileReport where
  /-- Where the file is, seen from the workspace root. -/
  path : Path
  /-- The marker of its header. -/
  marker : String
  status : Status
  /-- Where the header was before. -/
  header : Option Header.Span := none
  /-- Why the file could not be read or written. -/
  error : Option String := none
  /-- The change that installs the header. -/
  patch : Option String := none
deriving DecidableEq, Repr

namespace FileReport

/-- The report on a file that could not be read or written, for the given reasons. -/
def failed (path : Path) (marker : String) (reasons : List String) : FileReport where
  path
  marker
  status := .error
  error := some (": ".intercalate reasons)

/-- Whether the file was not as it should be. -/
def isDeficient (r : FileReport) : Bool :=
  match r.status with
  | .missing | .patched | .fixed => true
  | .ok | .error => false

def isError (r : FileReport) : Bool :=
  r.status == .error

end FileReport

/-! ### Counts -/

/-- The counts over the files of a run. -/
structure Summary where
  /-- The files that have to carry the header. -/
  total : Nat
  /-- Those that are as they should be. -/
  ok : Nat
  /-- Those that were not. -/
  deficient : Nat
  /-- Those into which the header was installed. -/
  fixed : Nat
  /-- Those that could not be read or written. -/
  errors : Nat
  /-- The files that need no header. -/
  skipped : Nat
  /-- How long the files took. -/
  elapsed : Duration
deriving DecidableEq, Repr

def Summary.ofReports (reports : List FileReport) (skipped : Nat) (elapsed : Duration) : Summary where
  total := reports.length
  ok := reports.countP fun r => r.status == .ok
  deficient := reports.countP FileReport.isDeficient
  fixed := reports.countP fun r => r.status == .fixed
  errors := reports.countP FileReport.isError
  skipped
  elapsed

end LicenseHeader
