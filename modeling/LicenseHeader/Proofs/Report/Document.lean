import LicenseHeader.Proofs.Json.Roundtrip
import LicenseHeader.Proofs.Report.Seconds
import Mathlib.Data.List.Forall2

/-!
# What a report document tells

A report document is a JSON text, and whoever reads it finds everything again that was reported: the
mode, the counts, and the files in their order, each with all that is known about it except its
patch. Therefore reports that differ in any of these have different documents, whenever they are
made.
-/

namespace LicenseHeader

open Json (Sound parse?)

/-! ### Looking at values -/

namespace Json

def field? (name : String) : Json → Option Json
  | .object fs => fs.lookup name
  | _ => none

def names : Json → List String
  | .object fs => fs.map Prod.fst
  | _ => []

def text? : Json → Option String
  | .string text => some text
  | _ => none

def natural? : Json → Option Nat
  | .number literal =>
    if isDigits literal.toList then some (Nat.ofDigitChars 10 literal.toList 0) else none
  | _ => none

def elements? : Json → Option (List Json)
  | .array es => some es
  | _ => none

/-- The value of a field that may be absent, if it can be read when it is there. -/
def optionalField? {α : Type} (read? : Json → Option α) (name : String) (v : Json) :
    Option (Option α) :=
  match v.field? name with
  | none => some none
  | some w => (read? w).map some

lemma natural?_natural (n : Nat) : (natural n).natural? = some n := by
  rw [natural, natural?, Text.toList_toString, if_pos (isDigits_toDigits n),
    Nat.ofDigitChars_ten_toDigits]

lemma sound_natural (n : Nat) : Sound (natural n) :=
  Sound.number (isNumber_toString n)

end Json

namespace Report

/-! ### Reading a document -/

/-- What a report tells, its times aside. -/
structure Contents where
  mode : Mode
  total : Nat
  ok : Nat
  deficient : Nat
  fixed : Nat
  errors : Nat
  skipped : Nat
  files : List FileReport
deriving DecidableEq

/-- What there is to tell about a run. The patches of the files do not belong to it. -/
def contents (mode : Mode) (files : List FileReport) (s : Summary) : Contents :=
  ⟨mode, s.total, s.ok, s.deficient, s.fixed, s.errors, s.skipped,
    files.map fun r => { r with patch := none }⟩

def mode? (name : String) : Option Mode :=
  [Mode.check, .patch, .fix].find? fun mode => mode.name == name

def status? (name : String) : Option Status :=
  [Status.ok, .missing, .patched, .fixed, .error].find? fun status => status.name == name

def span? (v : Json) : Option Header.Span := do
  let first ← (← v.field? "first_line").natural?
  let last ← (← v.field? "last_line").natural?
  return ⟨first, last⟩

def file? (v : Json) : Option FileReport := do
  let path ← (← v.field? "path").text?
  let marker ← (← v.field? "prefix").text?
  let status ← status? (← (← v.field? "status").text?)
  let header ← v.optionalField? span? "header"
  let error ← v.optionalField? Json.text? "error"
  return { path := ⟨path⟩, marker, status, header, error }

def contents? (v : Json) : Option Contents := do
  let mode ← mode? (← (← v.field? "mode").text?)
  let summary ← v.field? "summary"
  let total ← (← summary.field? "total_files").natural?
  let ok ← (← summary.field? "ok").natural?
  let deficient ← (← summary.field? "deficient").natural?
  let fixed ← (← summary.field? "fixed").natural?
  let errors ← (← summary.field? "errors").natural?
  let skipped ← (← summary.field? "skipped").natural?
  let files ← (← (← v.field? "files").elements?).mapM file?
  return ⟨mode, total, ok, deficient, fixed, errors, skipped, files⟩

/-! ### Reading what was written -/

lemma mode?_name (mode : Mode) : mode? mode.name = some mode := by
  cases mode <;> rfl

lemma status?_name (status : Status) : status? status.name = some status := by
  cases status <;> rfl

lemma span?_ofSpan (s : Header.Span) : span? (ofSpan s) = some s := by
  have hfirst : (ofSpan s).field? "first_line" = some (.natural s.firstLine) := rfl
  have hlast : (ofSpan s).field? "last_line" = some (.natural s.lastLine) := rfl
  simp [span?, hfirst, hlast, Json.natural?_natural]

lemma optionalField?_header (r : FileReport) :
    (ofFile r).optionalField? span? "header" = some r.header := by
  have hfield : (ofFile r).field? "header" = r.header.map ofSpan := by
    rw [ofFile]
    cases r.header <;> cases r.error <;> rfl
  rw [Json.optionalField?, hfield]
  cases r.header with
  | none => rfl
  | some s => simp [span?_ofSpan]

lemma optionalField?_error (r : FileReport) :
    (ofFile r).optionalField? Json.text? "error" = some r.error := by
  have hfield : (ofFile r).field? "error" = r.error.map .string := by
    rw [ofFile]
    cases r.header <;> cases r.error <;> rfl
  rw [Json.optionalField?, hfield]
  cases r.error <;> rfl

/-- A file is told so that it can be read back, apart from its patch. -/
lemma file?_ofFile (r : FileReport) : file? (ofFile r) = some { r with patch := none } := by
  have hpath : (ofFile r).field? "path" = some (.string r.path.text) := rfl
  have hmarker : (ofFile r).field? "prefix" = some (.string r.marker) := rfl
  have hstatus : (ofFile r).field? "status" = some (.string r.status.name) := rfl
  simp [file?, hpath, hmarker, hstatus, Json.text?, status?_name, optionalField?_header,
    optionalField?_error]

lemma mapM_file? (files : List FileReport) :
    (files.map ofFile).mapM file? = some (files.map fun r => { r with patch := none }) := by
  induction files with
  | nil => rfl
  | cons r files ih => simp [file?_ofFile, ih]

/-- A document tells everything that a report tells, apart from its times. -/
lemma contents?_document (generatedAt : String) (mode : Mode) (files : List FileReport)
    (s : Summary) : contents? (document generatedAt mode files s) = some (contents mode files s) := by
  have hmode : (document generatedAt mode files s).field? "mode" = some (.string mode.name) := rfl
  have hsummary : (document generatedAt mode files s).field? "summary" = some (ofSummary s) := rfl
  have hfiles : (document generatedAt mode files s).field? "files" =
      some (.array (files.map ofFile)) := rfl
  have htotal : (ofSummary s).field? "total_files" = some (.natural s.total) := rfl
  have hok : (ofSummary s).field? "ok" = some (.natural s.ok) := rfl
  have hdeficient : (ofSummary s).field? "deficient" = some (.natural s.deficient) := rfl
  have hfixed : (ofSummary s).field? "fixed" = some (.natural s.fixed) := rfl
  have herrors : (ofSummary s).field? "errors" = some (.natural s.errors) := rfl
  have hskipped : (ofSummary s).field? "skipped" = some (.natural s.skipped) := rfl
  simp only [contents?, hmode, hsummary, hfiles, htotal, hok, hdeficient, hfixed, herrors, hskipped,
    Json.text?, Json.elements?, Json.natural?_natural, mode?_name, mapM_file?, Option.bind_eq_bind,
    Option.bind_some, Option.pure_def, contents]

/-- The names of the fields that stand for a file. -/
lemma names_ofFile (r : FileReport) :
    (ofFile r).names = ["path", "prefix", "status"] ++
      (if r.header.isSome then ["header"] else []) ++ if r.error.isSome then ["error"] else [] := by
  rw [ofFile]
  cases r.header <;> cases r.error <;> rfl

/-! ### The text of a document -/

lemma sound_ofSpan (s : Header.Span) : Sound (ofSpan s) := by
  apply Sound.object
  simp only [List.forall_mem_cons]
  exact ⟨Json.sound_natural _, Json.sound_natural _, by simp⟩

lemma sound_ofFile (r : FileReport) : Sound (ofFile r) := by
  apply Sound.object
  intro f hf
  simp only [List.mem_append, List.mem_cons, List.not_mem_nil, or_false, List.mem_map] at hf
  rcases hf with (((rfl | rfl | rfl) | ⟨s, -, rfl⟩) | ⟨e, -, rfl⟩)
  · exact Sound.string _
  · exact Sound.string _
  · exact Sound.string _
  · exact sound_ofSpan s
  · exact Sound.string e

lemma sound_ofSummary (s : Summary) : Sound (ofSummary s) := by
  have hseconds : Sound (.number (String.ofList (secondsText s.elapsed.inSeconds))) := by
    apply Sound.number
    rw [String.toList_ofList]
    exact isNumber_secondsText _
  apply Sound.object
  simp only [List.forall_mem_cons]
  exact ⟨Json.sound_natural _, Json.sound_natural _, Json.sound_natural _, Json.sound_natural _,
    Json.sound_natural _, Json.sound_natural _, hseconds, by simp⟩

/-- All numbers of a document are written as numbers. -/
lemma sound_document (generatedAt : String) (mode : Mode) (files : List FileReport) (s : Summary) :
    Sound (document generatedAt mode files s) := by
  have hfiles : Sound (.array (files.map ofFile)) := by
    apply Sound.array
    intro v hv
    obtain ⟨r, -, rfl⟩ := List.mem_map.mp hv
    exact sound_ofFile r
  apply Sound.object
  simp only [List.forall_mem_cons]
  exact ⟨Sound.string _, Sound.string _, sound_ofSummary s, hfiles, by simp⟩

lemma parse?_render (generatedAt : String) (mode : Mode) (files : List FileReport) (s : Summary) :
    parse? (render generatedAt mode files s).toList = some (document generatedAt mode files s) := by
  rw [render, String.toList_ofList]
  exact Json.parse?_render (sound_document generatedAt mode files s)

/-- A document tells what was reported, whenever it was made. -/
lemma contents_eq_of_render_eq {generatedAt generatedAt' : String} {mode mode' : Mode}
    {files files' : List FileReport} {s s' : Summary}
    (h : render generatedAt' mode' files' s' = render generatedAt mode files s) :
    contents mode' files' s' = contents mode files s := by
  have hparse := parse?_render generatedAt' mode' files' s'
  rw [h, parse?_render] at hparse
  have hcontents := contents?_document generatedAt' mode' files' s'
  rw [← Option.some.inj hparse, contents?_document] at hcontents
  exact (Option.some.inj hcontents).symm

/-- A report document is a JSON text from which the mode, the counts and the files are read as they
were reported. The place of a header and an error have a field exactly if they are known, and no
field is there for a patch. Reports that differ in what they tell have different documents, at
whatever time and however fast they were made. -/
theorem render_lossless (generatedAt : String) (mode : Mode) (files : List FileReport)
    (summary : Summary) :
    (∃ v entries, parse? (render generatedAt mode files summary).toList = some v ∧
      contents? v = some (contents mode files summary) ∧
      v.field? "files" = some (.array entries) ∧
      List.Forall₂ (fun entry (r : FileReport) => entry.names = ["path", "prefix", "status"] ++
        (if r.header.isSome then ["header"] else []) ++ if r.error.isSome then ["error"] else [])
          entries files) ∧
    ∀ generatedAt' mode' files' summary',
      contents mode' files' summary' ≠ contents mode files summary →
        render generatedAt' mode' files' summary' ≠ render generatedAt mode files summary := by
  constructor
  · refine ⟨_, files.map ofFile, parse?_render _ _ _ _, contents?_document _ _ _ _, rfl, ?_⟩
    rw [List.forall₂_map_left_iff, List.forall₂_same]
    exact fun r _ => names_ofFile r
  · intro generatedAt' mode' files' summary' hne heq
    exact hne (contents_eq_of_render_eq heq)

/-- A file whose name needs every kind of escape, and one that could not be read for a reason. -/
def oddFiles (error : Option String) : List FileReport :=
  [{ path := ⟨"a \"b\"\\\n\t\x01é😀.rs"⟩, marker := "//", status := .ok, header := some ⟨1, 7⟩ },
    { path := ⟨""⟩, marker := "", status := .error, error }]

/-- An error without a text is not the same as none. -/
theorem render_lossless_oddFiles :
    contents .check (oddFiles none) ⟨2, 1, 0, 0, 1, 0, ⟨0, 0⟩⟩ ≠
        contents .check (oddFiles (some "")) ⟨2, 1, 0, 0, 1, 0, ⟨1, 500⟩⟩ ∧
      render "" .check (oddFiles none) ⟨2, 1, 0, 0, 1, 0, ⟨0, 0⟩⟩ ≠
        render "" .check (oddFiles (some "")) ⟨2, 1, 0, 0, 1, 0, ⟨1, 500⟩⟩ := by
  have hne : contents .check (oddFiles none) ⟨2, 1, 0, 0, 1, 0, ⟨0, 0⟩⟩ ≠
      contents .check (oddFiles (some "")) ⟨2, 1, 0, 0, 1, 0, ⟨1, 500⟩⟩ := by
    decide
  exact ⟨hne, (render_lossless "" .check (oddFiles (some "")) ⟨2, 1, 0, 0, 1, 0, ⟨1, 500⟩⟩).2
    "" .check (oddFiles none) ⟨2, 1, 0, 0, 1, 0, ⟨0, 0⟩⟩ hne⟩

end Report

end LicenseHeader
