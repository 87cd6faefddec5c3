import LicenseHeader.Proofs.Console.Wording
import LicenseHeader.Proofs.Run.Preparation

/-!
# The course of a run

A run that cannot be prepared ends there. Any other run does its work and then tells about it; it
can only fail any more when it writes down the patches or the report document. Before the work, and
apart from the results, a run makes nothing but remarks, which go to the error stream.
-/

namespace LicenseHeader

open Console (Message Voice said)

variable {a : Arguments} {env : Environment} {t : FileTree} {w : Workspace} {plan : Plan}
  {failure : Failure} {m : Message}

/-! ### Remarks -/

/-- Whether a message says nothing about the files. -/
def Console.Message.IsRemark : Message → Prop
  | .notice _ | .detail _ => True
  | _ => False

lemma Console.Message.IsRemark.stream_eq (h : m.IsRemark) : m.stream = .error := by
  match m, h with
  | .notice _, _ => rfl
  | .detail _, _ => rfl

lemma Config.Search.remark_of_mem_inWorkspace {s : Search} (h : m ∈ (s.inWorkspace t).1) :
    m.IsRemark := by
  rw [inWorkspace] at h
  split_ifs at h
  · rw [List.mem_singleton.mp h]
    trivial
  · rw [List.mem_singleton.mp h]
    trivial

lemma Config.Search.remark_of_mem_inEnvironment {s : Search} (h : m ∈ (s.inEnvironment t).1) :
    m.IsRemark := by
  rw [inEnvironment] at h
  split at h
  · exact remark_of_mem_inWorkspace h
  · split_ifs at h
    · rw [List.mem_singleton.mp h]
      trivial
    · rcases List.mem_cons.mp h with rfl | h
      · trivial
      · exact remark_of_mem_inWorkspace h

lemma Config.Search.remark_of_mem_find {s : Search} (h : m ∈ (s.find t).1) : m.IsRemark := by
  rw [find] at h
  split at h
  · exact remark_of_mem_inEnvironment h
  · split_ifs at h
    · rw [List.mem_singleton.mp h]
      trivial
    · rw [List.mem_singleton.mp h]
      trivial

/-- While a configuration is searched for, nothing is said about files. -/
lemma Config.Search.remark_of_mem_load {s : Search} {disabled : Bool}
    (h : m ∈ (s.load t disabled).1) : m.IsRemark := by
  rw [load] at h
  split_ifs at h
  · rw [List.mem_singleton.mp h]
    trivial
  · split at h
    case h_1 messages hfind =>
      apply remark_of_mem_find (s := s) (t := t)
      rw [hfind]
      exact h
    case h_2 messages path hfind =>
      rcases List.mem_append.mp h with h | h
      · apply remark_of_mem_find (s := s) (t := t)
        rw [hfind]
        exact h
      · rcases List.mem_cons.mp h with rfl | h
        · trivial
        · cases hread : s.read t path with
          | error e => simp [loadedMessages, hread] at h
          | ok config =>
            rw [hread] at h
            rw [List.mem_singleton.mp h]
            trivial

/-- While a run is prepared, nothing but remarks is made. -/
lemma Plan.remark_of_mem_prepare (h : m ∈ (prepare a env t).1) : m.IsRemark := by
  rw [prepare] at h
  split at h
  · cases h
  · rcases List.mem_append.mp h with h | h
    · rw [workspaceMessages] at h
      split_ifs at h
      · cases h
      · rw [List.mem_singleton.mp h]
        trivial
    · exact Config.Search.remark_of_mem_load h

/-! ### Failures -/

/-- Whether a failure comes from the preparation of a run. -/
def Failure.IsEarly : Failure → Prop
  | .patchCreation _ _ | .patchExtension _ _ | .reportFile _ _ => False
  | _ => True

lemma Workspace.failure_of_around {here : Path} {noRepository : Bool} {account : Account}
    (h : around t here noRepository account = .error failure) :
    ∃ path, failure = .noRepository path := by
  rw [around] at h
  split_ifs at h
  · cases h
  · rcases bind_eq_error_iff.mp h with h | ⟨root, -, h⟩
    · rw [Repository.discoverRoot] at h
      rcases bind_eq_error_iff.mp h with h | ⟨r, -, h⟩
      · rw [Repository.discover] at h
        split at h
        · cases h
        · dsimp only at h
          split at h
          · cases h
          · cases h
          · cases h
            exact ⟨here, rfl⟩
      · cases h
    · split at h
      · cases h
      · cases h

lemma Workspace.failure_of_candidates (h : w.candidates t env.account = .error failure) :
    (∃ path, failure = .noRepository path) ∨ failure = .noIndex ∨ failure = .noWorkTree ∨
      ∃ path, failure = .noDirectory path := by
  cases w with
  | repository root =>
    rw [candidates, Repository.listFiles] at h
    rcases bind_eq_error_iff.mp h with h | ⟨r, -, h⟩
    · obtain ⟨-, -, rfl⟩ := mapError_eq_error_iff.mp h
      exact Or.inl ⟨root, rfl⟩
    · rcases bind_eq_error_iff.mp h with h | ⟨index, -, h⟩
      · rw [Repository.readIndex] at h
        split_ifs at h
        split at h
        · cases h
        · cases h
          exact Or.inr (Or.inl rfl)
      · split at h
        · cases h
          exact Or.inr (Or.inr (Or.inl rfl))
        · cases h
  | directory root =>
    rw [candidates, walkFiles] at h
    split at h
    · cases h
      exact Or.inr (Or.inr (Or.inr ⟨root, rfl⟩))
    · split_ifs at h

lemma Config.Search.failure_of_load {s : Search} {disabled : Bool}
    (h : (s.load t disabled).2 = .error failure) : ∃ path e, failure = .config path e := by
  rw [load] at h
  split_ifs at h
  split at h
  · cases h
  case h_2 messages path hfind =>
    cases hread : s.read t path with
    | error e =>
      rw [hread] at h
      cases h
      exact ⟨path, e, rfl⟩
    | ok config =>
      rw [hread] at h
      cases h

/-- What a run decides about: the workspace, its policy, and its candidates. -/
structure Plan.Setting (a : Arguments) (env : Environment) (t : FileTree) (w : Workspace)
    (policy : Policy) (paths : List Path) : Prop where
  around : Workspace.around t env.here a.noGit env.account = .ok w
  policy : ∃ config,
    (Config.Search.load
      { here := env.here, root := w.root, explicit := a.config,
        fromEnvironment := env.configVariable } t a.noConfig).2 = .ok config ∧
    Config.policy config = .ok policy
  candidates : w.candidates t env.account = .ok paths

/-- Why a run cannot be prepared. -/
inductive Plan.Obstacle (a : Arguments) (env : Environment) (t : FileTree) : Failure → Prop
  | noRepository (path : Path) : Obstacle a env t (.noRepository path)
  | noIndex : Obstacle a env t .noIndex
  | noWorkTree : Obstacle a env t .noWorkTree
  | noDirectory (path : Path) : Obstacle a env t (.noDirectory path)
  | config (path : Path) (error : ConfigError) : Obstacle a env t (.config path error)
  /-- The configuration was loaded, but gives no policy. -/
  | policy (search : Config.Search) (config : Option Config) (error : ConfigError) :
      (search.load t a.noConfig).2 = .ok config → Config.policy config = .error error →
        Obstacle a env t (.policy error)
  | gaps (w : Workspace) (policy : Policy) (paths gaps : List Path) :
      Setting a env t w policy paths → policy.classify paths = .error gaps →
        Obstacle a env t (.gaps gaps)

lemma Plan.obstacle_of_candidates (h : w.candidates t env.account = .error failure) :
    Obstacle a env t failure := by
  rcases Workspace.failure_of_candidates h with ⟨path, rfl⟩ | rfl | rfl | ⟨path, rfl⟩
  · exact .noRepository path
  · exact .noIndex
  · exact .noWorkTree
  · exact .noDirectory path

/-- By the steps of the preparation, each of which has its own way to fail. -/
lemma Plan.obstacle_of_prepare (h : (prepare a env t).2 = .error failure) :
    Obstacle a env t failure := by
  rw [prepare] at h
  split at h
  case h_1 failure' haround =>
    cases h
    obtain ⟨path, rfl⟩ := Workspace.failure_of_around haround
    exact .noRepository path
  case h_2 w haround =>
    rcases bind_eq_error_iff.mp h with h | ⟨config, hconfig, h⟩
    · obtain ⟨path, e, rfl⟩ := Config.Search.failure_of_load h
      exact .config path e
    · rw [make] at h
      rcases bind_eq_error_iff.mp h with h | ⟨policy, hpolicy, h⟩
      · obtain ⟨e, he, rfl⟩ := mapError_eq_error_iff.mp h
        exact .policy _ config e hconfig he
      · rcases bind_eq_error_iff.mp h with h | ⟨paths, hpaths, h⟩
        · exact obstacle_of_candidates h
        · rcases bind_eq_error_iff.mp h with h | ⟨subjects, -, h⟩
          · obtain ⟨gaps, hgaps, rfl⟩ := mapError_eq_error_iff.mp h
            exact .gaps w policy paths gaps
              ⟨haround, ⟨config, hconfig, mapError_eq_ok_iff.mp hpolicy⟩, hpaths⟩ hgaps
          · cases h

lemma Plan.Obstacle.isEarly (h : Obstacle a env t failure) : failure.IsEarly := by
  cases h <;> trivial

/-- A policy with gaps lets no run begin, whatever files the arguments name. -/
lemma Plan.prepare_of_gaps {policy : Policy} {paths gaps : List Path}
    (h : Setting a env t w policy paths) (hgaps : policy.classify paths = .error gaps) :
    (prepare a env t).2 = .error (.gaps gaps) := by
  obtain ⟨config, hconfig, hpolicy⟩ := h.policy
  simp only [prepare, h.around, make, hconfig, Except.bind, bind, hpolicy, h.candidates, hgaps,
    mapError_ok, mapError_error]

/-- A policy without gaps lets a run begin on the classified files that the arguments name. -/
lemma Plan.prepare_of_classify {policy : Policy} {paths : List Path} {subjects : List Subject}
    (h : Setting a env t w policy paths) (hsubjects : policy.classify paths = .ok subjects) :
    (prepare a env t).2 =
      .ok ⟨w, restrict t w env.here a.files subjects, paths.length - subjects.length⟩ := by
  obtain ⟨config, hconfig, hpolicy⟩ := h.policy
  simp only [prepare, h.around, make, hconfig, Except.bind, bind, hpolicy, h.candidates, hsubjects,
    mapError_ok]
  rfl

namespace Run

/-! ### Behind the preparation -/

/-- What a run makes of the files of its plan, before it tells about them. -/
def work (a : Arguments) (env : Environment) (t : FileTree) (plan : Plan) :
    List FileReport × FileTree :=
  Processing.process plan.workspace.root a.mode (a.jobs.getD env.processors) env.schedule t
    plan.subjects

def reportContent (a : Arguments) (env : Environment) (reports : List FileReport) (skipped : Nat) :
    ByteArray :=
  (Report.render env.generatedAt a.mode reports (.ofReports reports skipped env.elapsed)).toUTF8

/-- What a run tells about its work. -/
def told (a : Arguments) (env : Environment) (plan : Plan) (w : List FileReport × FileTree) :
    RunOutcome :=
  let summary := Summary.ofReports w.1 plan.skipped env.elapsed
  let start := Message.start plan.subjects.length a.mode
  let files := tellFiles a env w.2 w.1
  match files.result with
  | .error _ => { files with messages := start :: files.messages }
  | .ok _ =>
    let report := tellReport a env files.tree w.1 summary
    { report with
      messages :=
        start :: files.messages ++ closingMessages a.mode w.1 summary ++ report.messages }

lemma perform_eq_told (a : Arguments) (env : Environment) (t : FileTree) (plan : Plan) :
    perform a env t plan = told a env plan (work a env t plan) := rfl

lemma not_isEarly_of_extendPatch {path target : Path} {patches : List String}
    (h : (extendPatch path target t patches).result = .error failure) : ¬ failure.IsEarly := by
  induction patches generalizing t with
  | nil => cases h
  | cons patch patches ih =>
    rw [extendPatch] at h
    split at h
    · cases h
      exact id
    · exact ih h

lemma tellFiles_check (hmode : a.mode = .check) (reports : List FileReport) :
    tellFiles a env t reports = ⟨Console.missingMessages reports, .ok true, t⟩ := by
  simp only [tellFiles, hmode]

lemma tellFiles_patch (hmode : a.mode = .patch) (reports : List FileReport) :
    tellFiles a env t reports = tellPatches env.here a.output t (patches reports) := by
  simp only [tellFiles, hmode]

lemma tellFiles_fix (hmode : a.mode = .fix) (reports : List FileReport) :
    tellFiles a env t reports = ⟨Console.fixedMessages reports, .ok true, t⟩ := by
  simp only [tellFiles, hmode]

lemma tellPatches_some (here path : Path) (t : FileTree) (patches : List String) :
    tellPatches here (some path) t patches =
      match t.write (here.join path) .empty with
      | .error fault => ⟨[], .error (.patchCreation path fault), t⟩
      | .ok t => extendPatch path (here.join path) t patches := by
  delta tellPatches
  rfl

lemma not_isEarly_of_tellPatches {here : Path} {output : Option Path} {patches : List String}
    (h : (tellPatches here output t patches).result = .error failure) : ¬ failure.IsEarly := by
  cases output with
  | none => cases h
  | some path =>
    rw [tellPatches_some] at h
    split at h
    · cases h
      exact id
    · exact not_isEarly_of_extendPatch h

lemma not_isEarly_of_tellFiles {reports : List FileReport}
    (h : (tellFiles a env t reports).result = .error failure) : ¬ failure.IsEarly := by
  cases hmode : a.mode with
  | check =>
    rw [tellFiles_check hmode] at h
    cases h
  | patch =>
    rw [tellFiles_patch hmode] at h
    exact not_isEarly_of_tellPatches h
  | fix =>
    rw [tellFiles_fix hmode] at h
    cases h

lemma not_isEarly_of_tellReport {reports : List FileReport} {summary : Summary}
    (h : (tellReport a env t reports summary).result = .error failure) : ¬ failure.IsEarly := by
  rw [tellReport] at h
  split at h
  · cases h
  · dsimp only at h
    split at h
    · cases h
      exact id
    · cases h

/-- What fails behind the preparation is a writing of patches or of the report document. -/
lemma not_isEarly_of_perform (h : (perform a env t plan).result = .error failure) :
    ¬ failure.IsEarly := by
  rw [perform] at h
  dsimp only at h
  split at h
  case h_1 failure' hfiles =>
    rw [hfiles] at h
    cases h
    exact not_isEarly_of_tellFiles hfiles
  case h_2 => exact not_isEarly_of_tellReport h

/-! ### Messages behind the preparation -/

lemma mem_messages_extendPatch {path target : Path} {patches : List String}
    (h : m ∈ (extendPatch path target t patches).messages) : ∃ patch, m = .patch patch := by
  induction patches generalizing t with
  | nil => cases h
  | cons patch patches ih =>
    rw [extendPatch] at h
    split at h
    · exact ⟨patch, List.mem_singleton.mp h⟩
    · rcases List.mem_cons.mp h with rfl | h
      · exact ⟨patch, rfl⟩
      · exact ih h

lemma mem_messages_tellPatches {here : Path} {output : Option Path} {patches : List String}
    (h : m ∈ (tellPatches here output t patches).messages) : ∃ patch, m = .patch patch := by
  cases output with
  | none =>
    obtain ⟨patch, -, rfl⟩ := List.mem_map.mp h
    exact ⟨patch, rfl⟩
  | some path =>
    rw [tellPatches_some] at h
    split at h
    · cases h
    · exact mem_messages_extendPatch h

lemma stream_of_mem_closingMessages {mode : Mode} {reports : List FileReport} {summary : Summary}
    (h : m ∈ closingMessages mode reports summary) : m.stream = .error := by
  simp only [closingMessages, Console.errorMessages, List.mem_append, List.mem_map,
    List.mem_ite_nil_right, List.mem_singleton] at h
  rcases h with ((⟨r, -, rfl⟩ | ⟨-, rfl⟩) | rfl) | ⟨-, rfl⟩
  all_goals rfl

lemma remark_of_mem_tellReport {reports : List FileReport} {summary : Summary}
    (h : m ∈ (tellReport a env t reports summary).messages) : m.IsRemark := by
  rw [tellReport] at h
  split at h
  · cases h
  · dsimp only at h
    split at h
    · cases h
    · rw [List.mem_singleton.mp h]
      trivial

end Run

/-- A run that cannot be prepared changes nothing and says nothing more. -/
lemma run_of_error (h : (Plan.prepare a env t).2 = .error failure) :
    run a env t = ⟨(Plan.prepare a env t).1, .error failure, t⟩ := by
  rw [run]
  split
  case h_1 messages failure' hprepare =>
    rw [hprepare] at h ⊢
    cases h
    rfl
  case h_2 messages plan hprepare =>
    rw [hprepare] at h
    cases h

/-- A prepared run carries out its plan. -/
lemma run_of_ok (h : (Plan.prepare a env t).2 = .ok plan) :
    run a env t = { Run.perform a env t plan with
      messages := (Plan.prepare a env t).1 ++ (Run.perform a env t plan).messages } := by
  rw [run]
  split
  case h_1 messages failure hprepare =>
    rw [hprepare] at h
    cases h
  case h_2 messages plan' hprepare =>
    rw [hprepare] at h ⊢
    cases h
    rfl

/-- A run ends early exactly if it cannot be prepared. -/
lemma run_eq_error_isEarly_iff :
    (run a env t).result = .error failure ∧ failure.IsEarly ↔
      (Plan.prepare a env t).2 = .error failure := by
  cases hprepare : (Plan.prepare a env t).2 with
  | error failure' =>
    rw [run_of_error hprepare]
    constructor
    · rintro ⟨h, -⟩
      cases h
      rfl
    · intro h
      cases h
      exact ⟨rfl, (Plan.obstacle_of_prepare hprepare).isEarly⟩
  | ok plan =>
    rw [run_of_ok hprepare]
    constructor
    · rintro ⟨h, hearly⟩
      exact absurd hearly (Run.not_isEarly_of_perform h)
    · intro h
      cases h

end LicenseHeader
