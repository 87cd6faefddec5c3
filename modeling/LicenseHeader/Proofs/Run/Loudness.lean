import LicenseHeader.Proofs.Processing.Modes
import LicenseHeader.Proofs.Run.Course

/-!
# Loud and quiet runs

How much a run says does not change what it does. Runs that differ in this alone, and in the times
at which they are made, end in the same way and leave the same files, but for the times in a report
document. What they find out about the files is always heard, and in the same words.
-/

namespace LicenseHeader

open Console (Message Voice said)
open Processing (lonelyFile)

variable {a : Arguments} {env : Environment} {t : FileTree} {plan : Plan} {verbosity : Nat}
  {quiet : Bool} {generatedAt : String} {elapsed : Duration}

/-- The arguments with another wish for talk. -/
def Arguments.speaking (a : Arguments) (verbosity : Nat) (quiet : Bool) : Arguments :=
  { a with verbosity, quiet }

/-- The surroundings at another time, when the work takes another time as well. -/
def Environment.timed (env : Environment) (generatedAt : String) (elapsed : Duration) :
    Environment :=
  { env with generatedAt, elapsed }

/-! ### Messages without times -/

namespace Console

/-- Whether a message is a result about a single file that no run may hide. -/
def Message.isFinding : Message → Bool
  | missing _ | patch _ | failed _ _ => true
  | _ => false

/-- A message in which no time is told. -/
def Message.untimed : Message → Message
  | summary s mode => summary { s with elapsed := ⟨0, 0⟩ } mode
  | m => m

/-- Choosing messages other than the counts does not depend on the times. -/
lemma filter_untimed {p : Message → Bool} (h : ∀ s mode, p (.summary s mode) = false)
    (ms : List Message) : (ms.map Message.untimed).filter p = ms.filter p := by
  induction ms with
  | nil => rfl
  | cons m ms ih =>
    rw [List.map_cons, List.filter_cons, List.filter_cons, ih]
    cases m with
    | summary s mode => simp [Message.untimed, h]
    | _ => rfl

lemma filter_congr_untimed {p : Message → Bool} (h : ∀ s mode, p (.summary s mode) = false)
    {ms ms' : List Message} (hms : ms'.map Message.untimed = ms.map Message.untimed) :
    ms'.filter p = ms.filter p := by
  rw [← filter_untimed h, hms, filter_untimed h]

/-- On the output stream the words depend on the colours only. -/
lemma Message.text_congr {m : Message} (hm : m.stream = .output ∨ m.isFinding) {v v' : Voice}
    (hcolours : v'.isColoured = v.isColoured) : m.text v' = m.text v := by
  cases m <;> simp_all [Message.text, Message.stream, Message.isFinding]

lemma Message.isHeard_of_isFinding {m : Message} (hm : m.isFinding) (verbosity : Verbosity) :
    m.isHeard verbosity := by
  cases m <;> simp_all [Message.isHeard, Message.isFinding]

/-- On the output stream everything is heard, unless the program is quiet. -/
lemma Message.isHeard_of_stream {m : Message} (hm : m.stream = .output) {verbosity : Verbosity}
    (h : verbosity ≠ .quiet ∨ m.isFinding) : m.isHeard verbosity := by
  cases m <;> simp_all [Message.isHeard, Message.stream, Message.isFinding]

/-- What is seen on the output stream, when everything that goes there is heard. -/
lemma said_output {voice : Voice} {ms : List Message}
    (h : ∀ m ∈ ms, m.stream = .output → m.isHeard voice.verbosity) :
    said voice .output ms =
      String.join ((ms.filter fun m => m.stream == .output).map (Message.text voice)) := by
  rw [said]
  congr 2
  apply List.filter_congr
  intro m hm
  by_cases hstream : m.stream = .output
  · simp [hstream, h m hm hstream]
  · simp [hstream]

/-- Where everything on the output stream is heard, it is the same in all voices of the same
colours. -/
lemma said_output_congr {v v' : Voice} {ms ms' : List Message}
    (hcolours : v'.isColoured = v.isColoured)
    (hms : ms'.map Message.untimed = ms.map Message.untimed)
    (h : ∀ m ∈ ms, m.stream = .output → m.isHeard v.verbosity)
    (h' : ∀ m ∈ ms', m.stream = .output → m.isHeard v'.verbosity) :
    said v' .output ms' = said v .output ms := by
  rw [said_output h, said_output h', filter_congr_untimed (fun _ _ => rfl) hms]
  congr 1
  apply List.map_congr_left
  intro m hm
  obtain ⟨-, hstream⟩ := List.mem_filter.mp hm
  exact Message.text_congr (Or.inl (eq_of_beq hstream)) hcolours

end Console

namespace Run

/-! ### Outcomes at different times -/

/-- Two trees are the same, or they were the same before each of them got its report document. -/
def SameTree (a : Arguments) (env env' : Environment) (u u' : FileTree) : Prop :=
  u' = u ∨ ∃ (v : FileTree) (path : Path) (l : Location) (reports : List FileReport) (skipped : Nat),
    a.reportJson = some path ∧ v.writeTarget (env.here.join path) = .ok l ∧
      u = v.put l (.file (reportContent a env reports skipped)) ∧
      u' = v.put l (.file (reportContent a env' reports skipped))

/-- Two outcomes that cannot be told apart but by their times. -/
structure SameOutcome (a : Arguments) (env env' : Environment) (o o' : RunOutcome) : Prop where
  result : o'.result = o.result
  messages : o'.messages.map Message.untimed = o.messages.map Message.untimed
  tree : SameTree a env env' o.tree o'.tree

lemma SameOutcome.refl (a : Arguments) (env env' : Environment) (o : RunOutcome) :
    SameOutcome a env env' o o :=
  ⟨rfl, rfl, Or.inl rfl⟩

lemma untimed_closingMessages (mode : Mode) (reports : List FileReport) (skipped : Nat)
    (elapsed elapsed' : Duration) :
    (closingMessages mode reports (.ofReports reports skipped elapsed')).map Message.untimed =
      (closingMessages mode reports (.ofReports reports skipped elapsed)).map Message.untimed := by
  simp only [closingMessages, List.map_append]
  rfl

/-- The report documents of two runs differ in their times at most. -/
lemma sameOutcome_tellReport (a : Arguments) (env : Environment) (t : FileTree)
    (reports : List FileReport) (skipped verbosity : Nat) (quiet : Bool) (generatedAt : String)
    (elapsed : Duration) :
    SameOutcome a env (env.timed generatedAt elapsed)
      (tellReport a env t reports (.ofReports reports skipped env.elapsed))
      (tellReport (a.speaking verbosity quiet) (env.timed generatedAt elapsed) t reports
        (.ofReports reports skipped elapsed)) := by
  cases hjson : a.reportJson with
  | none =>
    have hjson' : (a.speaking verbosity quiet).reportJson = none := hjson
    simp only [tellReport, hjson, hjson']
    exact .refl a env _ _
  | some path =>
    have hjson' : (a.speaking verbosity quiet).reportJson = some path := hjson
    simp only [tellReport, hjson, hjson', FileTree.write]
    cases htarget : t.writeTarget (env.here.join path) with
    | error fault =>
      have htarget' : t.writeTarget ((env.timed generatedAt elapsed).here.join path) = .error fault :=
        htarget
      simp only [htarget', bind, Except.bind]
      exact .refl a env _ _
    | ok l =>
      have htarget' : t.writeTarget ((env.timed generatedAt elapsed).here.join path) = .ok l :=
        htarget
      simp only [htarget', bind, Except.bind, pure, Except.pure]
      exact ⟨rfl, rfl, Or.inr ⟨t, path, l, reports, skipped, hjson, htarget, rfl, rfl⟩⟩

/-- What two runs tell about the same work differs in times and remarks at most. -/
lemma sameOutcome_told (a : Arguments) (env : Environment) (plan : Plan)
    (w : List FileReport × FileTree) (verbosity : Nat) (quiet : Bool) (generatedAt : String)
    (elapsed : Duration) :
    SameOutcome a env (env.timed generatedAt elapsed) (told a env plan w)
      (told (a.speaking verbosity quiet) (env.timed generatedAt elapsed) plan w) := by
  have hfiles : tellFiles (a.speaking verbosity quiet) (env.timed generatedAt elapsed) w.2 w.1 =
      tellFiles a env w.2 w.1 := rfl
  simp only [told, hfiles]
  cases (tellFiles a env w.2 w.1).result with
  | error failure => exact .refl a env _ _
  | ok _ =>
    have hreport := sameOutcome_tellReport a env (tellFiles a env w.2 w.1).tree w.1 plan.skipped
      verbosity quiet generatedAt elapsed
    refine ⟨hreport.result, ?_, hreport.tree⟩
    have hclosing := untimed_closingMessages a.mode w.1 plan.skipped env.elapsed elapsed
    simp only [List.map_cons, List.map_append]
    rw [← hreport.messages, ← hclosing]
    rfl

/-! ### What goes to the output stream -/

/-- Unless headers are installed, a run says nothing but its findings on the output stream. -/
lemma isFinding_of_mem_tellFiles {reports : List FileReport} {m : Message} (hmode : a.mode ≠ .fix)
    (h : m ∈ (tellFiles a env t reports).messages) : m.isFinding := by
  cases hm : a.mode with
  | check =>
    rw [tellFiles_check hm] at h
    obtain ⟨r, -, rfl⟩ := List.mem_map.mp h
    rfl
  | patch =>
    rw [tellFiles_patch hm] at h
    obtain ⟨patch, rfl⟩ := mem_messages_tellPatches h
    rfl
  | fix => exact absurd hm hmode

/-- In a check or a diff, the output stream gets findings only. -/
lemma isFinding_of_mem_told {w : List FileReport × FileTree} {m : Message} (hmode : a.mode ≠ .fix)
    (h : m ∈ (told a env plan w).messages) (hm : m.stream = .output) : m.isFinding := by
  have hstart : ∀ {count mode}, m = .start count mode → m.isFinding := by
    rintro count mode rfl
    cases hm
  rw [told] at h
  dsimp only at h
  split at h
  · rcases List.mem_cons.mp h with h | h
    · exact hstart h
    · exact isFinding_of_mem_tellFiles hmode h
  · rcases List.mem_append.mp h with h | h
    · rcases List.mem_append.mp h with h | h
      · rcases List.mem_cons.mp h with h | h
        · exact hstart h
        · exact isFinding_of_mem_tellFiles hmode h
      · rw [stream_of_mem_closingMessages h] at hm
        cases hm
    · rw [(remark_of_mem_tellReport h).stream_eq] at hm
      cases hm

lemma isFinding_of_mem_run {m : Message} (hmode : a.mode ≠ .fix) (h : m ∈ (run a env t).messages)
    (hm : m.stream = .output) : m.isFinding := by
  have hprepare : m ∉ (Plan.prepare a env t).1 := by
    intro h
    rw [(Plan.remark_of_mem_prepare h).stream_eq] at hm
    cases hm
  cases hplan : (Plan.prepare a env t).2 with
  | error failure =>
    rw [run_of_error hplan] at h
    exact absurd h hprepare
  | ok plan =>
    rw [run_of_ok hplan, perform_eq_told] at h
    rcases List.mem_append.mp h with h | h
    · exact absurd h hprepare
    · exact isFinding_of_mem_told hmode h hm

/-! ### Two runs -/

/-- How much is said does not change what comes of a run. -/
lemma sameOutcome_run (a : Arguments) (env : Environment) (t : FileTree) (verbosity : Nat)
    (quiet : Bool) (generatedAt : String) (elapsed : Duration) :
    SameOutcome a env (env.timed generatedAt elapsed) (run a env t)
      (run (a.speaking verbosity quiet) (env.timed generatedAt elapsed) t) := by
  have hprepare : Plan.prepare (a.speaking verbosity quiet) (env.timed generatedAt elapsed) t =
      Plan.prepare a env t := rfl
  cases hplan : (Plan.prepare a env t).2 with
  | error failure =>
    rw [run_of_error hplan, run_of_error (hprepare ▸ hplan), hprepare]
    exact .refl a env _ _
  | ok plan =>
    have hsame := sameOutcome_told a env plan (work a env t plan) verbosity quiet generatedAt elapsed
    rw [run_of_ok hplan, run_of_ok (hprepare ▸ hplan), hprepare, perform_eq_told, perform_eq_told]
    refine ⟨hsame.result, ?_, hsame.tree⟩
    rw [List.map_append, List.map_append]
    exact congrArg _ hsame.messages

lemma isHeard_of_mem_run {m : Message}
    (h : a.mode ≠ .fix ∨ (a.voice env.display).verbosity ≠ .quiet)
    (hm : m ∈ (run a env t).messages) (hstream : m.stream = .output) :
    m.isHeard (a.voice env.display).verbosity := by
  apply Message.isHeard_of_stream hstream
  rcases h with hmode | hloud
  · exact Or.inr (isFinding_of_mem_run hmode hm hstream)
  · exact Or.inl hloud

end Run

/-- Runs that differ only in how much they say, and in the time, end with the same failure or the
same status and leave the same tree, but for the two times in a report document. In a check and when
patches are made, both write the same to the output stream, as they do otherwise if none of them is
quiet. Missing headers, patches and errors of files are told by both runs alike and heard in both.
-/
theorem run_speaking (a : Arguments) (env : Environment) (t : FileTree) (verbosity : Nat)
    (quiet : Bool) (generatedAt : String) (elapsed : Duration) :
    let other := run (a.speaking verbosity quiet) (env.timed generatedAt elapsed) t
    let voice := a.voice env.display
    let voice' := (a.speaking verbosity quiet).voice env.display
    other.failure? = (run a env t).failure? ∧ other.exitStatus = (run a env t).exitStatus ∧
      Run.SameTree a env (env.timed generatedAt elapsed) (run a env t).tree other.tree ∧
      (a.mode ≠ .fix ∨ voice.verbosity ≠ .quiet ∧ voice'.verbosity ≠ .quiet →
        other.said voice' .output = (run a env t).said voice .output) ∧
      other.messages.filter Message.isFinding = (run a env t).messages.filter Message.isFinding ∧
      ∀ m ∈ (run a env t).messages, m.isFinding →
        m.isHeard voice.verbosity ∧ m.isHeard voice'.verbosity ∧ m.text voice' = m.text voice := by
  intro other voice voice'
  have hsame := Run.sameOutcome_run a env t verbosity quiet generatedAt elapsed
  have hcolours : voice'.isColoured = voice.isColoured := rfl
  refine ⟨?_, ?_, hsame.tree, fun hloud => ?_, ?_, fun m _ hm => ⟨?_, ?_, ?_⟩⟩
  · rw [RunOutcome.failure?, RunOutcome.failure?, hsame.result]
  · rw [RunOutcome.exitStatus, RunOutcome.exitStatus, hsame.result]
  · apply Console.said_output_congr hcolours hsame.messages
    · exact fun m => Run.isHeard_of_mem_run (hloud.imp id And.left)
    · exact fun m => Run.isHeard_of_mem_run (hloud.imp id And.right)
  · exact Console.filter_congr_untimed (fun _ _ => rfl) hsame.messages
  · exact Message.isHeard_of_isFinding hm _
  · exact Message.isHeard_of_isFinding hm _
  · exact Message.text_congr (Or.inr hm) hcolours

/-- A quiet check names the file that lacks its header, in the same line as any other check. -/
theorem run_speaking_lonelyFile :
    Arguments.mode {} ≠ .fix ∧
      .missing ⟨"a.rs"⟩ ∈ (run {} { here := ⟨"/work"⟩ } lonelyFile).messages ∧
      (Arguments.speaking {} 0 true).voice.verbosity = .quiet ∧
      Message.isHeard (Arguments.speaking {} 0 true).voice.verbosity (.missing ⟨"a.rs"⟩) ∧
      (run (Arguments.speaking {} 0 true) (Environment.timed { here := ⟨"/work"⟩ } "" ⟨1, 0⟩)
          lonelyFile).said (Arguments.speaking {} 0 true).voice .output =
        (run {} { here := ⟨"/work"⟩ } lonelyFile).said (Arguments.voice {}) .output := by
  have hmode : Arguments.mode {} ≠ .fix := by decide
  have hmissing : .missing ⟨"a.rs"⟩ ∈ (run {} { here := ⟨"/work"⟩ } lonelyFile).messages := by
    decide +kernel
  obtain ⟨-, -, -, hsaid, -, hheard⟩ :=
    run_speaking {} { here := ⟨"/work"⟩ } lonelyFile 0 true "" ⟨1, 0⟩
  exact ⟨hmode, hmissing, rfl, (hheard _ hmissing rfl).2.1, hsaid (Or.inl hmode)⟩

end LicenseHeader
