import LicenseHeader.Console.Colour
import LicenseHeader.Report.Basic

/-!
# Messages

What the program says. Results about single files go to the output stream and are heard even when
the program is quiet; all else goes to the error stream. Whether a message is heard, and how it
looks, depends on the voice of the program and never on anything else.
-/

namespace LicenseHeader.Console

/-- How much is said. -/
inductive Verbosity where
  /-- Results and errors. -/
  | quiet
  /-- Also what is going on. -/
  | normal
  /-- Also how it comes about. -/
  | verbose
deriving DecidableEq, Repr

inductive Stream where
  | output
  | error
deriving DecidableEq, Repr

/-- Where a reader can see colours. -/
structure Display where
  output : Bool := false
  error : Bool := false
deriving DecidableEq, Repr

def Display.shows (d : Display) : Stream → Bool
  | .output => d.output
  | .error => d.error

/-- How the program speaks. -/
structure Voice where
  verbosity : Verbosity := .normal
  colours : ColourChoice := .auto
  display : Display := {}
deriving DecidableEq, Repr

def Voice.isColoured (voice : Voice) (stream : Stream) : Bool :=
  voice.colours.isOn (voice.display.shows stream)

inductive Message where
  /-- Work on so many files begins. -/
  | start (count : Nat) (mode : Mode)
  /-- The header of a file is missing or not as it should be. -/
  | missing (path : Path)
  /-- The header was installed. -/
  | fixed (path : Path)
  /-- A patch for one file. -/
  | patch (text : String)
  /-- A file could not be read or written. -/
  | failed (path : Path) (reason : String)
  /-- Nothing is wrong. -/
  | allOk
  /-- The counts over all files. -/
  | summary (summary : Summary) (mode : Mode)
  /-- Something worth knowing. -/
  | notice (text : String)
  /-- How something came about. -/
  | detail (text : String)
deriving DecidableEq, Repr

def successMark : String := "✓"

def failureMark : String := "✗"

def activity : Mode → String
  | .check => "Checking"
  | .patch => "Diffing"
  | .fix => "Fixing"

/-- The counts in one line. -/
def summaryText (voice : Voice) (s : Summary) (mode : Mode) : String :=
  let count := fun p (n : Nat) => paint (voice.isColoured .error) p (toString n)
  let word := if mode = .fix then "fixed" else "missing"
  let deficient := count (if s.deficient > 0 ∧ mode ≠ .fix then .red else .cyan) s.deficient
  let errors :=
    if s.errors = 0 then ""
    else s!", {count .red s.errors} " ++ (if s.errors = 1 then "error" else "errors")
  let time := if voice.verbosity = .verbose then s!" ({s.elapsed.inSeconds.twoPlaces}s)" else ""
  s!"Summary: {count .cyan s.ok} OK, {deficient} {word}, {count .dimmed s.skipped} skipped"
    ++ errors ++ time

namespace Message

def stream : Message → Stream
  | missing _ | fixed _ | patch _ => .output
  | _ => .error

def isHeard (verbosity : Verbosity) : Message → Bool
  | missing _ | patch _ | failed _ _ => true
  | detail _ => verbosity = .verbose
  | _ => verbosity ≠ .quiet

/-- The text of a message, with the line feed at its end. -/
def text (voice : Voice) : Message → String
  | start count mode =>
    s!"{activity mode} {count} " ++ (if count = 1 then "file" else "files") ++ "...\n"
  | missing path =>
    paint (voice.isColoured .output) .red "Copyright missing:" ++ s!" {path.text}\n"
  | fixed path =>
    s!"{paint (voice.isColoured .output) .green successMark} Fixed header in: {path.text}\n"
  | patch text => if text.isEmpty then "" else "\n" ++ paintPatch (voice.isColoured .output) text
  | failed path reason =>
    s!"{paint (voice.isColoured .error) .red failureMark} {path.text}: {reason}\n"
  | allOk =>
    s!"{paint (voice.isColoured .error) .green successMark} All files have the copyright header.\n"
  | summary s mode => summaryText voice s mode ++ "\n"
  | notice text => paint (voice.isColoured .error) .yellow text ++ "\n"
  | detail text => text ++ "\n"

end Message

/-- What is heard on a stream when some messages are said one after another. -/
def said (voice : Voice) (stream : Stream) (messages : List Message) : String :=
  String.join ((messages.filter fun m => m.stream == stream && m.isHeard voice.verbosity).map
    (Message.text voice))

/-! ### Messages about reports -/

/-- One message for each file whose header is missing or not as it should be. -/
def missingMessages (reports : List FileReport) : List Message :=
  (reports.filter fun r => r.status == .missing).map fun r => .missing r.path

/-- One message for each file into which the header was installed. -/
def fixedMessages (reports : List FileReport) : List Message :=
  (reports.filter fun r => r.status == .fixed).map fun r => .fixed r.path

def errorMessages (reports : List FileReport) : List Message :=
  (reports.filter FileReport.isError).map fun r => .failed r.path (r.error.getD "unknown error")

end LicenseHeader.Console
