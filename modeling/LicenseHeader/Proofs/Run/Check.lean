import LicenseHeader.Proofs.Processing.Looking
import LicenseHeader.Proofs.Processing.Modes
import LicenseHeader.Proofs.Run.Course

/-!
# What a check says

A check succeeds exactly if every selected file can be read and has its header as it should be. Its
output names the other readable files, once each and in the order of paths, and its counts add up.
What it writes on either stream is told to the last character, but for the remarks that are made
while it is prepared.
-/

namespace LicenseHeader

open Console (Message Voice said missingLine failedLine allOkLine adviceLine reportLine startLine)
open Plan (Selected)
open Processing (Carries Lacks lonelyFile processFile)

variable {a : Arguments} {env : Environment} {t : FileTree} {plan : Plan}
  {reports : List FileReport} {summary : Summary}

/-! ### Counts -/

/-- Each file is as it should be, or was not, or could not be read or written. -/
lemma Summary.ofReports_total (reports : List FileReport) (skipped : Nat) (elapsed : Duration) :
    (ofReports reports skipped elapsed).ok + (ofReports reports skipped elapsed).deficient +
        (ofReports reports skipped elapsed).errors = (ofReports reports skipped elapsed).total := by
  induction reports with
  | nil => rfl
  | cons r reports ih =>
    simp only [ofReports, List.countP_cons, List.length_cons] at ih ⊢
    cases hstatus : r.status <;>
      simp [FileReport.isDeficient, FileReport.isError, hstatus] <;> omega

namespace Run

def checkReports (t : FileTree) (plan : Plan) : List FileReport :=
  plan.subjects.map fun s => (processFile plan.workspace.root .check t s).1

/-- The files that a check finds without their header. -/
def lacking (t : FileTree) (plan : Plan) : List Subject :=
  plan.subjects.filter fun s =>
    (processFile plan.workspace.root .check t s).1.status == .missing

lemma mem_lacking_iff {s : Subject} :
    s ∈ lacking t plan ↔ s ∈ plan.subjects ∧ Lacks plan.workspace.root t s := by
  rw [lacking, List.mem_filter, beq_iff_eq, Processing.status_check_eq_missing_iff]

lemma missingMessages_checkReports (t : FileTree) (plan : Plan) :
    Console.missingMessages (checkReports t plan) =
      (lacking t plan).map fun s => .missing s.path := by
  rw [Console.missingMessages, checkReports, List.filter_map, List.map_map, lacking]
  apply List.map_congr_left
  intro s _
  simp [Processing.path_processFile]

def checkSummary (env : Environment) (t : FileTree) (plan : Plan) : Summary :=
  .ofReports (checkReports t plan) plan.skipped env.elapsed

/-- A check counts the files that lack their header as not being as they should be. -/
lemma deficient_checkSummary (env : Environment) (t : FileTree) (plan : Plan) :
    (checkSummary env t plan).deficient = (lacking t plan).length := by
  change (checkReports t plan).countP FileReport.isDeficient = _
  rw [checkReports, List.countP_map, lacking, ← List.countP_eq_length_filter]
  apply List.countP_congr
  intro s _
  rcases Processing.check_cases plan.workspace.root t s with ⟨-, h⟩ | ⟨-, h⟩ | ⟨-, h⟩
  all_goals simp [FileReport.isDeficient, h]

/-- A check fixes nothing. -/
lemma fixed_checkSummary (env : Environment) (t : FileTree) (plan : Plan) :
    (checkSummary env t plan).fixed = 0 := by
  change (checkReports t plan).countP (fun r => r.status == .fixed) = 0
  rw [checkReports, List.countP_map]
  apply List.countP_eq_zero.mpr
  intro s _
  rcases Processing.check_cases plan.workspace.root t s with ⟨-, h⟩ | ⟨-, h⟩ | ⟨-, h⟩
  all_goals simp [h]

/-- A check succeeds if neither a file without its header nor an unreadable one is counted. -/
lemma isSuccess_checkSummary_iff (env : Environment) (t : FileTree) (plan : Plan) :
    isSuccess .check (checkSummary env t plan) ↔
      ∀ s ∈ plan.subjects, Carries plan.workspace.root t s := by
  have hall : isSuccess .check (checkSummary env t plan) ↔
      ∀ s ∈ plan.subjects, (processFile plan.workspace.root .check t s).1.isError = false ∧
        (processFile plan.workspace.root .check t s).1.isDeficient = false := by
    simp [isSuccess, checkSummary, Summary.ofReports, checkReports, forall_and]
  rw [hall]
  apply forall₂_congr
  intro s _
  rw [← Processing.status_check_eq_ok_iff]
  rcases Processing.check_cases plan.workspace.root t s with ⟨-, h⟩ | ⟨-, h⟩ | ⟨-, h⟩
  all_goals simp [FileReport.isError, FileReport.isDeficient, h]

/-! ### Messages -/

/-- What is written about a file that cannot be read. -/
def failedLine? (on : Bool) (root : Path) (t : FileTree) (s : Subject) : Option String :=
  match t.readText (root.join s.path) with
  | .ok _ => none
  | .error fault => some (failedLine on s.path
      ("Failed to read file: " ++ (root.join s.path).text ++ ": " ++ fault.message))

lemma failedLine?_of_readText {on : Bool} {root : Path} {s : Subject} {text : List Char}
    (h : t.readText (root.join s.path) = .ok text) : failedLine? on root t s = none := by
  unfold failedLine?
  simp only [h]

lemma failedLine?_of_unreadable {on : Bool} {root : Path} {s : Subject} {fault : FileFault}
    (h : t.readText (root.join s.path) = .error fault) :
    failedLine? on root t s = some (failedLine on s.path
      ("Failed to read file: " ++ (root.join s.path).text ++ ": " ++ fault.message)) := by
  unfold failedLine?
  simp only [h]

/-- Only files that cannot be read give an error. -/
lemma text_errorMessages (voice : Voice) (root : Path) (t : FileTree) (subjects : List Subject) :
    (Console.errorMessages (subjects.map fun s => (processFile root .check t s).1)).map
        (Message.text voice) =
      subjects.filterMap (failedLine? (voice.isColoured .error) root t) := by
  induction subjects with
  | nil => rfl
  | cons s subjects ih =>
    rw [Console.errorMessages] at ih
    rw [Console.errorMessages, List.map_cons]
    rcases Processing.check_cases root t s with
      ⟨⟨text, hr, -⟩, h⟩ | ⟨⟨text, hr, -⟩, h⟩ | ⟨⟨fault, hr⟩, h⟩
    · rw [List.filterMap_cons_none (failedLine?_of_readText hr),
        List.filter_cons_of_neg (by simp [FileReport.isError, h])]
      exact ih
    · rw [List.filterMap_cons_none (failedLine?_of_readText hr),
        List.filter_cons_of_neg (by simp [FileReport.isError, h])]
      exact ih
    · have hreport := congrArg Prod.fst (Processing.processFile_of_unreadable hr .check)
      rw [List.filterMap_cons_some (failedLine?_of_unreadable hr),
        List.filter_cons_of_pos (by simp [FileReport.isError, h]), List.map_cons, List.map_cons, ih,
        Console.text_failed, hreport, Processing.error_unreadable]
      rfl

/-- A check whose report document is written ends with what its counts say. -/
lemma result_tellReport (h : ∀ failure,
      (tellReport a env t reports summary).result ≠ .error failure) :
    (tellReport a env t reports summary).result = .ok (isSuccess a.mode summary) := by
  rw [tellReport] at h ⊢
  cases hreport : a.reportJson with
  | none => rfl
  | some path =>
    rw [hreport] at h
    dsimp only at h ⊢
    split at h
    · exact absurd rfl (h _)
    · simp_all

/-- A report document is told about if it could be written. -/
lemma said_tellReport (h : ∀ failure,
      (tellReport a env t reports summary).result ≠ .error failure) (voice : Voice) :
    said voice .error (tellReport a env t reports summary).messages =
      voice.unlessQuiet (reportLine (voice.isColoured .error) a.reportJson) := by
  rw [tellReport] at h ⊢
  cases hreport : a.reportJson with
  | none => simp [said, Voice.unlessQuiet, reportLine]
  | some path =>
    rw [hreport] at h
    dsimp only at h ⊢
    split at h
    · exact absurd rfl (h _)
    · exact Console.said_notice voice _

/-- What is said about all files together, when no file was changed. -/
lemma said_closingMessages (voice : Voice) :
    said voice .error (closingMessages .check reports summary) =
      String.join ((Console.errorMessages reports).map (Message.text voice)) ++
        voice.unlessQuiet
          ((if isSuccess .check summary then allOkLine (voice.isColoured .error) else "") ++
            (Console.summaryText voice summary .check ++ "\n") ++
            if summary.deficient = 0 then "" else adviceLine (voice.isColoured .error)) := by
  have herrors : ∀ m ∈ Console.errorMessages reports,
      m.stream = .error ∧ m.isHeard voice.verbosity := by
    intro m hm
    obtain ⟨r, -, rfl⟩ := List.mem_map.mp hm
    exact ⟨rfl, rfl⟩
  have hok : said voice .error
      (if summary.deficient = 0 ∧ summary.errors = 0 then [.allOk] else []) =
        voice.unlessQuiet
          (if isSuccess .check summary then allOkLine (voice.isColoured .error) else "") := by
    by_cases hsuccess : summary.deficient = 0 ∧ summary.errors = 0
    · rw [if_pos hsuccess, if_pos (by simp [isSuccess, hsuccess]), Console.said_allOk]
    · rw [if_neg hsuccess, if_neg (by simpa [isSuccess, and_comm] using hsuccess),
        Console.unlessQuiet_empty]
      rfl
  have hadvice : said voice .error
      (if Mode.check = .check ∧ summary.deficient > 0 then [.notice advice] else []) =
        voice.unlessQuiet
          (if summary.deficient = 0 then "" else adviceLine (voice.isColoured .error)) := by
    by_cases hnone : summary.deficient = 0
    · rw [if_pos hnone, if_neg (by simp [hnone]), Console.unlessQuiet_empty]
      rfl
    · rw [if_neg hnone, if_pos ⟨rfl, Nat.pos_of_ne_zero hnone⟩]
      exact Console.said_notice voice advice
  rw [closingMessages, Console.said_append, Console.said_append, Console.said_append,
    Console.said_of_isHeard herrors, hok, Console.said_summary, hadvice]
  simp only [Console.unlessQuiet_append, String.append_assoc]

lemma summary_mem_closingMessages_iff {mode mode' : Mode} {summary' : Summary} :
    .summary summary' mode' ∈ closingMessages mode reports summary ↔
      summary' = summary ∧ mode' = mode := by
  simp [closingMessages, Console.errorMessages]

/-- What a check says, from its beginning to its end. -/
lemma perform_check (ht : t.Proper) (hmode : a.mode = .check)
    (hplan : (Plan.prepare a env t).2 = .ok plan) :
    perform a env t plan =
      { tellReport a env t (checkReports t plan) (checkSummary env t plan) with
        messages := .start plan.subjects.length .check ::
          (lacking t plan).map (fun s => .missing s.path) ++
          closingMessages .check (checkReports t plan) (checkSummary env t plan) ++
          (tellReport a env t (checkReports t plan) (checkSummary env t plan)).messages } := by
  have hcheck : Mode.check ≠ .fix := nofun
  have hwork : Processing.process plan.workspace.root .check (a.jobs.getD env.processors)
      env.schedule t plan.subjects = (checkReports t plan, t) := by
    rw [Processing.process_of_ne_fix hcheck (Plan.pairwise_subjects ht hplan), checkReports]
  rw [perform, hmode, hwork]
  simp only [tellFiles_check hmode, ← missingMessages_checkReports]
  rfl

/-- A check that comes to its end, as it is seen from outside. -/
structure Checked (a : Arguments) (env : Environment) (t : FileTree) (w : Workspace)
    (subjects lacking : List Subject) (summary : Summary) : Prop where
  around : Workspace.around t env.here a.noGit env.account = .ok w
  selected : ∀ s, s ∈ subjects ↔ Selected a env t w s
  ordered : subjects.Pairwise fun s s' => s.path.compare s'.path = .lt
  passed : (run a env t).exitStatus = 0 ↔ ∀ s ∈ subjects, Carries w.root t s
  lacking_sublist : lacking.Sublist subjects
  lacks : ∀ s, s ∈ lacking ↔ s ∈ subjects ∧ Lacks w.root t s
  /-- The output stream holds a line for each file that lacks its header, and nothing else. -/
  output : ∀ voice, (run a env t).said voice .output =
    String.join (lacking.map fun s => missingLine (voice.isColoured .output) s.path)
  /-- On the error stream the line that all is well stands exactly if the status is 0 and the
  program is not quiet. Around it stand the number of files, those that cannot be read, the counts,
  and what to do next. -/
  error : ∀ voice, (run a env t).said voice .error =
    said voice .error (Plan.prepare a env t).1 ++
      (voice.unlessQuiet (startLine subjects.length) ++
        (String.join (subjects.filterMap (failedLine? (voice.isColoured .error) w.root t)) ++
          (voice.unlessQuiet
              (if (run a env t).exitStatus = 0 then allOkLine (voice.isColoured .error) else "") ++
            (voice.unlessQuiet (Console.summaryText voice summary .check ++ "\n") ++
              (voice.unlessQuiet
                  (if lacking = [] then "" else adviceLine (voice.isColoured .error)) ++
                voice.unlessQuiet (reportLine (voice.isColoured .error) a.reportJson))))))
  counted : ∀ voice, voice.isColoured .error = false → voice.verbosity ≠ .verbose →
    Console.summaryText voice summary .check =
      "Summary: " ++ toString summary.ok ++ " OK, " ++ toString summary.deficient ++ " missing, " ++
        toString summary.skipped ++ " skipped" ++
        if summary.errors = 0 then ""
        else ", " ++ toString summary.errors ++ (if summary.errors = 1 then " error" else " errors")
  counted_once : ∀ summary' mode, .summary summary' mode ∈ (run a env t).messages ↔
    summary' = summary ∧ mode = .check
  total : summary.total = subjects.length
  total_eq : summary.ok + summary.deficient + summary.errors = summary.total
  deficient : summary.deficient = lacking.length
  fixed : summary.fixed = 0
  all : a.files = [] →
    ∃ paths, w.candidates t env.account = .ok paths ∧ summary.total + summary.skipped = paths.length

/-- Apart from its remarks a check says how many files there are, which of them lack their header,
and what follows from all of them. -/
lemma messages_of_check (ht : t.Proper) (hmode : a.mode = .check)
    (hplan : (Plan.prepare a env t).2 = .ok plan) :
    (run a env t).messages =
      (Plan.prepare a env t).1 ++ (.start plan.subjects.length .check ::
        ((lacking t plan).map (fun s => .missing s.path) ++
          (closingMessages .check (checkReports t plan) (checkSummary env t plan) ++
            (tellReport a env t (checkReports t plan) (checkSummary env t plan)).messages))) := by
  rw [run_of_ok hplan, perform_check ht hmode hplan]
  simp only [List.append_assoc, List.cons_append]

/-- The counts are told once, at the end. -/
lemma summary_mem_messages_iff (ht : t.Proper) (hmode : a.mode = .check)
    (hplan : (Plan.prepare a env t).2 = .ok plan) {mode : Mode} :
    .summary summary mode ∈ (run a env t).messages ↔
      summary = checkSummary env t plan ∧ mode = .check := by
  have hbefore : .summary summary mode ∉ (Plan.prepare a env t).1 :=
    fun h => Plan.remark_of_mem_prepare h
  have hafter : .summary summary mode ∉
      (tellReport a env t (checkReports t plan) (checkSummary env t plan)).messages :=
    fun h => remark_of_mem_tellReport h
  rw [messages_of_check ht hmode hplan]
  simp [hbefore, hafter, summary_mem_closingMessages_iff]

/-- On the output stream a check names the files without header, and says nothing else. -/
lemma said_output_of_check (ht : t.Proper) (hmode : a.mode = .check)
    (hplan : (Plan.prepare a env t).2 = .ok plan) (voice : Voice) :
    (run a env t).said voice .output =
      String.join ((lacking t plan).map fun s => missingLine (voice.isColoured .output) s.path) := by
  have hbefore : said voice .output (Plan.prepare a env t).1 = "" :=
    Console.said_output_eq_empty (fun m hm => (Plan.remark_of_mem_prepare hm).stream_eq) voice
  have hstart : said voice .output [.start plan.subjects.length .check] = "" := by
    apply Console.said_output_eq_empty
    intro m hm
    rw [List.mem_singleton.mp hm]
    rfl
  have hfiles : said voice .output ((lacking t plan).map fun s => .missing s.path) =
      String.join ((lacking t plan).map fun s => missingLine (voice.isColoured .output) s.path) := by
    rw [Console.said_of_isHeard, List.map_map]
    · simp only [Function.comp_def, Console.text_missing]
    · intro m hm
      obtain ⟨s, -, rfl⟩ := List.mem_map.mp hm
      exact ⟨rfl, rfl⟩
  have hclosing : said voice .output
      (closingMessages .check (checkReports t plan) (checkSummary env t plan)) = "" :=
    Console.said_output_eq_empty (fun m => stream_of_mem_closingMessages) voice
  have hafter : said voice .output
      (tellReport a env t (checkReports t plan) (checkSummary env t plan)).messages = "" :=
    Console.said_output_eq_empty (fun m hm => (remark_of_mem_tellReport hm).stream_eq) voice
  rw [RunOutcome.said, messages_of_check ht hmode hplan, Console.said_append, Console.said_cons,
    Console.said_append, Console.said_append, hbefore, hstart, hfiles, hclosing, hafter]
  simp only [String.empty_append, String.append_empty]

lemma said_error_of_check (ht : t.Proper) (hmode : a.mode = .check)
    (hplan : (Plan.prepare a env t).2 = .ok plan)
    (hreport : ∀ failure,
      (tellReport a env t (checkReports t plan) (checkSummary env t plan)).result ≠ .error failure)
    (voice : Voice) :
    (run a env t).said voice .error =
      said voice .error (Plan.prepare a env t).1 ++
        (voice.unlessQuiet (startLine plan.subjects.length) ++
          (said voice .error (closingMessages .check (checkReports t plan)
              (checkSummary env t plan)) ++
            voice.unlessQuiet (reportLine (voice.isColoured .error) a.reportJson))) := by
  have hfiles : said voice .error ((lacking t plan).map fun s => .missing s.path) = "" := by
    apply Console.said_eq_empty
    intro m hm
    obtain ⟨s, -, rfl⟩ := List.mem_map.mp hm
    nofun
  rw [RunOutcome.said, messages_of_check ht hmode hplan, Console.said_append, Console.said_cons,
    Console.said_append, Console.said_append, hfiles, Console.said_start, said_tellReport hreport,
    String.empty_append]

lemma exitStatus_eq_zero_iff {o : RunOutcome} : o.exitStatus = 0 ↔ o.result = .ok true := by
  rw [RunOutcome.exitStatus]
  split <;> simp_all

/-- A check that comes to its end has its report document. -/
lemma tellReport_of_check (ht : t.Proper) (hmode : a.mode = .check)
    (hplan : (Plan.prepare a env t).2 = .ok plan) (hend : (run a env t).failure? = none)
    (failure : Failure) :
    (tellReport a env t (checkReports t plan) (checkSummary env t plan)).result ≠
      .error failure := by
  intro h
  rw [RunOutcome.failure?, run_of_ok hplan, perform_check ht hmode hplan] at hend
  dsimp only at hend
  rw [h] at hend
  cases hend

/-- The exit status of a check is told by its counts. -/
lemma exitStatus_of_check (ht : t.Proper) (hmode : a.mode = .check)
    (hplan : (Plan.prepare a env t).2 = .ok plan) (hend : (run a env t).failure? = none) :
    (run a env t).exitStatus = 0 ↔ isSuccess .check (checkSummary env t plan) := by
  have hresult : (run a env t).result =
      (tellReport a env t (checkReports t plan) (checkSummary env t plan)).result := by
    rw [run_of_ok hplan, perform_check ht hmode hplan]
  rw [exitStatus_eq_zero_iff, hresult,
    result_tellReport (tellReport_of_check ht hmode hplan hend), hmode, Except.ok.injEq]

end Run

/-- A check that comes to its end succeeds exactly if each selected file can be read and has its
header as it should be. The output names the other readable files, each of them once and in the
order of paths; each selected file is counted in exactly one way, and that all is well is written
exactly after a success. -/
theorem run_check (ht : t.Proper) (hmode : a.mode = .check)
    (hend : (run a env t).failure? = none) :
    ∃ w subjects lacking summary, Run.Checked a env t w subjects lacking summary := by
  cases hplan : (Plan.prepare a env t).2 with
  | error failure =>
    rw [run_of_error hplan] at hend
    cases hend
  | ok plan =>
    obtain ⟨config, haround, -, -⟩ := Plan.exists_of_prepare hplan
    have hexit := Run.exitStatus_of_check ht hmode hplan hend
    refine ⟨plan.workspace, plan.subjects, Run.lacking t plan, Run.checkSummary env t plan, ?_⟩
    constructor
    case around => exact haround
    case selected => exact fun s => Plan.mem_subjects_iff hplan
    case ordered => exact Plan.pairwise_subjects ht hplan
    case passed => exact hexit.trans (Run.isSuccess_checkSummary_iff env t plan)
    case lacking_sublist => exact List.filter_sublist
    case lacks => exact fun s => Run.mem_lacking_iff
    case output => exact Run.said_output_of_check ht hmode hplan
    case error =>
      intro voice
      rw [Run.said_error_of_check ht hmode hplan (Run.tellReport_of_check ht hmode hplan hend),
        Run.said_closingMessages, Run.checkReports, Run.text_errorMessages,
        Run.deficient_checkSummary]
      simp only [hexit, List.length_eq_zero_iff, Console.unlessQuiet_append, String.append_assoc]
    case counted => exact fun voice => Console.summaryText_plain
    case counted_once => exact fun summary mode => Run.summary_mem_messages_iff ht hmode hplan
    case total => exact List.length_map _
    case total_eq => exact Summary.ofReports_total _ _ _
    case deficient => exact Run.deficient_checkSummary env t plan
    case fixed => exact Run.fixed_checkSummary env t plan
    case all =>
      intro hfiles
      obtain ⟨paths, hpaths, hlength⟩ := Plan.length_subjects_add_skipped hplan hfiles
      refine ⟨paths, hpaths, ?_⟩
      rw [← hlength]
      exact congrArg (· + plan.skipped) (List.length_map _)

theorem run_check_lonelyFile :
    lonelyFile.Proper ∧ Arguments.mode {} = .check ∧
      (run {} { here := ⟨"/work"⟩ } lonelyFile).failure? = none ∧
      ∃ w subjects lacking summary,
        Run.Checked {} { here := ⟨"/work"⟩ } lonelyFile w subjects lacking summary ∧
          ⟨⟨"a.rs"⟩, ⟨"//"⟩⟩ ∈ lacking ∧
          (run {} { here := ⟨"/work"⟩ } lonelyFile).said {} .output = "Copyright missing: a.rs\n" := by
  have hproper : lonelyFile.Proper := ⟨by decide, by decide⟩
  have hplan : (Plan.prepare {} { here := ⟨"/work"⟩ } lonelyFile).2 =
      .ok ⟨.directory ⟨"/work"⟩, [⟨⟨"a.rs"⟩, ⟨"//"⟩⟩], 0⟩ := by
    decide +kernel
  have hend : (run {} { here := ⟨"/work"⟩ } lonelyFile).failure? = none := by
    rw [RunOutcome.failure?, run_of_ok hplan, Run.perform_check hproper rfl hplan]
    rfl
  obtain ⟨w, subjects, lacking, summary, h⟩ := run_check hproper rfl hend
  refine ⟨hproper, rfl, hend, w, subjects, lacking, summary, h, (h.lacks _).mpr ⟨?_, ?_⟩,
    by decide +kernel⟩
  · obtain ⟨config, haround, -, -⟩ := Plan.exists_of_prepare hplan
    cases haround.symm.trans h.around
    exact (h.selected _).mpr ((Plan.mem_subjects_iff hplan).mp List.mem_cons_self)
  · have haround : Workspace.around lonelyFile ⟨"/work"⟩ false = .ok (.directory ⟨"/work"⟩) := by
      decide +kernel
    cases haround.symm.trans h.around
    exact ⟨"fn a() {}\n".toList, by decide +kernel, by decide +kernel⟩

end LicenseHeader
