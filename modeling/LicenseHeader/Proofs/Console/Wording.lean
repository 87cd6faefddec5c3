import LicenseHeader.Console.Message
import Mathlib.Tactic.Lemma

/-!
# The wording of messages

What is written on a stream, character by character. Of a line in colours only the part between two
control sequences is in colour, so that all else can be read without knowing about them. A program
that is quiet still names the files that lack their header, and those that it could not read.
-/

namespace LicenseHeader.Console

variable {voice : Voice} {stream : Stream} {ms : List Message}

/-! ### Lines -/

/-- A text in the colour with a number, if colours are on. -/
def inColour (on : Bool) (number text : String) : String :=
  if on then "\x1b[" ++ number ++ "m" ++ text ++ "\x1b[39m" else text

/-- The line that tells how many files are looked at. -/
def startLine (count : Nat) : String :=
  "Checking " ++ toString count ++ (if count = 1 then " file...\n" else " files...\n")

def missingLine (on : Bool) (path : Path) : String :=
  inColour on "31" "Copyright missing:" ++ " " ++ path.text ++ "\n"

def failedLine (on : Bool) (path : Path) (reason : String) : String :=
  inColour on "31" "✗" ++ " " ++ path.text ++ ": " ++ reason ++ "\n"

/-- The line that says that nothing is wrong. -/
def allOkLine (on : Bool) : String :=
  inColour on "32" "✓" ++ " All files have the copyright header.\n"

/-- The line that tells what to do about missing headers. -/
def adviceLine (on : Bool) : String :=
  inColour on "33" "Run with --fix to install the header, or --patch to review the changes first."
    ++ "\n"

/-- The line about a report document, if one is wanted. -/
def reportLine (on : Bool) : Option Path → String
  | none => ""
  | some path => inColour on "33" ("Generated JSON report at " ++ path.text) ++ "\n"

/-- A text that is heard unless the program is quiet. -/
def Voice.unlessQuiet (voice : Voice) (text : String) : String :=
  if voice.verbosity = .quiet then "" else text

@[simp] lemma unlessQuiet_empty (voice : Voice) : voice.unlessQuiet "" = "" := ite_self ""

lemma unlessQuiet_append (voice : Voice) (text text' : String) :
    voice.unlessQuiet (text ++ text') = voice.unlessQuiet text ++ voice.unlessQuiet text' := by
  by_cases h : voice.verbosity = .quiet <;> simp [Voice.unlessQuiet, h]

/-! ### Texts of messages -/

lemma paint_red (on : Bool) (text : String) : paint on .red text = inColour on "31" text := by
  cases on <;> simp [paint, inColour, controlSequence, Paint.codes, String.append_assoc]

lemma paint_green (on : Bool) (text : String) : paint on .green text = inColour on "32" text := by
  cases on <;> simp [paint, inColour, controlSequence, Paint.codes, String.append_assoc]

lemma paint_yellow (on : Bool) (text : String) : paint on .yellow text = inColour on "33" text := by
  cases on <;> simp [paint, inColour, controlSequence, Paint.codes, String.append_assoc]

lemma text_start (voice : Voice) (count : Nat) :
    Message.text voice (.start count .check) = startLine count := by
  by_cases h : count = 1 <;>
    simp [Message.text, startLine, activity, h, toString, String.append_assoc]

lemma text_missing (voice : Voice) (path : Path) :
    Message.text voice (.missing path) = missingLine (voice.isColoured .output) path := by
  simp [Message.text, missingLine, paint_red, toString, String.append_assoc]

lemma text_failed (voice : Voice) (path : Path) (reason : String) :
    Message.text voice (.failed path reason) =
      failedLine (voice.isColoured .error) path reason := by
  simp [Message.text, failedLine, failureMark, paint_red, toString, String.append_assoc]

lemma text_allOk (voice : Voice) :
    Message.text voice .allOk = allOkLine (voice.isColoured .error) := by
  simp [Message.text, allOkLine, successMark, paint_green, toString]

lemma text_notice (voice : Voice) (text : String) :
    Message.text voice (.notice text) = inColour (voice.isColoured .error) "33" text ++ "\n" := by
  simp [Message.text, paint_yellow]

/-- The counts in one line, without colours and without the time. -/
lemma summaryText_plain {s : Summary} (hcolours : voice.isColoured .error = false)
    (hverbosity : voice.verbosity ≠ .verbose) :
    summaryText voice s .check =
      "Summary: " ++ toString s.ok ++ " OK, " ++ toString s.deficient ++ " missing, " ++
        toString s.skipped ++ " skipped" ++
        if s.errors = 0 then ""
        else ", " ++ toString s.errors ++ (if s.errors = 1 then " error" else " errors") := by
  unfold summaryText
  simp only [hcolours, hverbosity, paint, toString, Bool.false_eq_true, if_false,
    reduceCtorEq, String.append_empty, String.append_assoc]
  by_cases hone : s.errors = 1 <;> simp [hone, ← String.append_assoc]

/-! ### What is said -/

lemma said_append (voice : Voice) (stream : Stream) (ms ms' : List Message) :
    said voice stream (ms ++ ms') = said voice stream ms ++ said voice stream ms' := by
  simp [said, String.join_append]

lemma said_cons (voice : Voice) (stream : Stream) (m : Message) (ms : List Message) :
    said voice stream (m :: ms) = said voice stream [m] ++ said voice stream ms :=
  said_append voice stream [m] ms

/-- What goes to one stream is not seen on the other one. -/
lemma said_eq_empty (h : ∀ m ∈ ms, m.stream ≠ stream) (voice : Voice) :
    said voice stream ms = "" := by
  have hnone : (ms.filter fun m => m.stream == stream && m.isHeard voice.verbosity) = [] := by
    rw [List.filter_eq_nil_iff]
    intro m hm
    simp [h m hm]
  rw [said, hnone]
  rfl

lemma said_output_eq_empty (h : ∀ m ∈ ms, m.stream = .error) (voice : Voice) :
    said voice .output ms = "" := by
  apply said_eq_empty
  intro m hm
  rw [h m hm]
  nofun

/-- What is heard by all who listen. -/
lemma said_of_isHeard (h : ∀ m ∈ ms, m.stream = stream ∧ m.isHeard voice.verbosity) :
    said voice stream ms = String.join (ms.map (Message.text voice)) := by
  have hall : (ms.filter fun m => m.stream == stream && m.isHeard voice.verbosity) = ms := by
    rw [List.filter_eq_self]
    intro m hm
    simp [h m hm]
  rw [said, hall]

/-- What is said to all who do not want to have it quiet. -/
lemma said_unlessQuiet {m : Message} (hstream : m.stream = stream)
    (h : m.isHeard voice.verbosity = decide (voice.verbosity ≠ .quiet)) :
    said voice stream [m] = voice.unlessQuiet (m.text voice) := by
  rw [said, Voice.unlessQuiet, List.filter_cons, hstream, h]
  by_cases hquiet : voice.verbosity = .quiet <;> simp [hquiet]

lemma said_start (voice : Voice) (count : Nat) :
    said voice .error [.start count .check] = voice.unlessQuiet (startLine count) := by
  rw [← text_start voice]
  exact said_unlessQuiet rfl rfl

lemma said_allOk (voice : Voice) :
    said voice .error [.allOk] = voice.unlessQuiet (allOkLine (voice.isColoured .error)) := by
  rw [← text_allOk]
  exact said_unlessQuiet rfl rfl

lemma said_summary (voice : Voice) (summary : Summary) (mode : Mode) :
    said voice .error [.summary summary mode] =
      voice.unlessQuiet (summaryText voice summary mode ++ "\n") :=
  said_unlessQuiet rfl rfl

lemma said_notice (voice : Voice) (text : String) :
    said voice .error [.notice text] =
      voice.unlessQuiet (inColour (voice.isColoured .error) "33" text ++ "\n") := by
  rw [← text_notice]
  exact said_unlessQuiet rfl rfl

end LicenseHeader.Console
