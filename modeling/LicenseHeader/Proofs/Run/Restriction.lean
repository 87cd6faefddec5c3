import LicenseHeader.Proofs.Processing.Frame
import LicenseHeader.Proofs.Processing.Looking
import LicenseHeader.Proofs.Report.Document
import LicenseHeader.Proofs.Run.Course

/-!
# Runs that are restricted to some files

Naming files in the arguments does nothing but select reports. A restricted run cannot be prepared
exactly if the unrestricted one cannot; otherwise it comes to the same about each file that is
named, and leaves all others alone. Only the place where a fix writes its report document is another
matter: there stands what was reported, which is not the same in both runs.
-/

namespace LicenseHeader

open Plan (prepare)
open Processing (Apart inTurn process processFile twoFiles)

variable {a : Arguments} {env env' : Environment} {t : FileTree} {w : Workspace}
  {plan whole : Plan} {failure : Failure} {l : Location}

def Arguments.unrestricted (a : Arguments) : Arguments :=
  { a with files := [] }

/-- Two surroundings in which runs are prepared alike. The files may be worked on in another order,
at another time, and under other eyes. -/
structure Environment.PreparesLike (env' env : Environment) : Prop where
  here : env'.here = env.here
  configVariable : env'.configVariable = env.configVariable
  account : env'.account = env.account

lemma Environment.PreparesLike.refl (env : Environment) : env.PreparesLike env := ⟨rfl, rfl, rfl⟩

namespace Plan

/-- Whether a path is one that the arguments name, seen from the root of the workspace. -/
def isWanted (t : FileTree) (w : Workspace) (here : Path) (only : List Path) (p : Path) : Bool :=
  (only.filterMap fun path => w.relativize? t path here).any p.same

/-- The paths of a plan lead to different places. -/
def Scattered (t : FileTree) (plan : Plan) : Prop :=
  plan.subjects.Pairwise fun s s' => ∀ l, t.resolve (plan.workspace.root.join s.path) = .ok l →
    t.resolve (plan.workspace.root.join s'.path) ≠ .ok l

/-! ### Narrowed plans -/

/-- The plan for those files only that are named. -/
def narrow (t : FileTree) (here : Path) (only : List Path) (plan : Plan) : Plan :=
  { plan with subjects := restrict t plan.workspace here only plan.subjects }

lemma restrict_of_ne_nil {here : Path} {only : List Path} (h : only ≠ [])
    (subjects : List Subject) :
    restrict t w here only subjects = subjects.filter fun s => isWanted t w here only s.path := by
  rw [restrict, if_neg (by simpa using h)]
  rfl

/-- Which files are named does not matter before the very end of the preparation. -/
lemma make_eq_map (hlike : env'.PreparesLike env) (config : Option Config) :
    make a env t w config =
      (make a.unrestricted env' t w config).map (narrow t env.here a.files) := by
  rw [make, make, hlike.account]
  cases (Config.policy config).mapError Failure.policy with
  | error failure => rfl
  | ok policy =>
    cases w.candidates t env.account with
    | error failure => rfl
    | ok paths =>
      simp only [bind, Except.bind]
      cases (policy.classify paths).mapError Failure.gaps with
      | error failure => rfl
      | ok subjects => rfl

/-- Naming files makes a plan narrower and changes nothing else about the preparation. -/
lemma prepare_eq_map (hlike : env'.PreparesLike env) :
    (prepare a env t).2 = (prepare a.unrestricted env' t).2.map (narrow t env.here a.files) := by
  have hload : ∀ w : Workspace, Config.Search.load
      { here := env'.here, root := w.root, explicit := a.unrestricted.config,
        fromEnvironment := env'.configVariable } t a.unrestricted.noConfig =
      Config.Search.load
      { here := env.here, root := w.root, explicit := a.config,
        fromEnvironment := env.configVariable } t a.noConfig := by
    intro w
    rw [hlike.here, hlike.configVariable]
    rfl
  have haround : Workspace.around t env'.here a.unrestricted.noGit env'.account =
      Workspace.around t env.here a.noGit env.account := by
    rw [hlike.here, hlike.account]
    rfl
  rw [prepare, prepare, haround]
  cases Workspace.around t env.here a.noGit env.account with
  | error failure => rfl
  | ok w =>
    simp only [hload]
    cases (Config.Search.load
      { here := env.here, root := w.root, explicit := a.config,
        fromEnvironment := env.configVariable } t a.noConfig).2 with
    | error failure => rfl
    | ok config => exact make_eq_map hlike config

lemma prepare_eq_error_iff (hlike : env'.PreparesLike env) :
    (prepare a env t).2 = .error failure ↔ (prepare a.unrestricted env' t).2 = .error failure := by
  rw [prepare_eq_map hlike, map_eq_error_iff]

lemma prepare_of_unrestricted (hlike : env'.PreparesLike env)
    (h : (prepare a.unrestricted env' t).2 = .ok whole) :
    (prepare a env t).2 = .ok (whole.narrow t env.here a.files) := by
  rw [prepare_eq_map hlike, h]
  rfl

/-- Different spellings of the same wishes lead to the same plan. -/
lemma narrow_congr {here : Path} {only only' : List Path} (h : only ≠ []) (h' : only' ≠ [])
    (hwanted : ∀ p, isWanted t plan.workspace here only' p = isWanted t plan.workspace here only p) :
    plan.narrow t here only' = plan.narrow t here only := by
  rw [narrow, narrow, restrict_of_ne_nil h, restrict_of_ne_nil h']
  simp only [hwanted]

/-- Scattered files in the order of paths are apart. -/
lemma Scattered.apart (h : Scattered t plan)
    (hordered : plan.subjects.Pairwise fun s s' => s.path.compare s'.path = .lt) :
    plan.subjects.Pairwise (Apart plan.workspace.root t) := by
  refine List.Pairwise.imp₂ (fun s s' hne hlt => ?_) h hordered
  exact ⟨Path.ne_of_compare_eq_lt hlt, hne⟩

lemma Scattered.narrow {here : Path} {only : List Path} (h : only ≠ []) (hplan : Scattered t plan) :
    Scattered t (plan.narrow t here only) := by
  rw [Scattered, Plan.narrow, restrict_of_ne_nil h]
  exact List.Pairwise.filter _ hplan

end Plan

namespace Run

/-! ### The work on a narrowed plan -/

/-- The reports come in the order of the plan, each as if its file were the only one. -/
lemma reports_work (ht : t.Proper) (hplan : (prepare a env t).2 = .ok plan)
    (h : a.mode ≠ .fix ∨ plan.Scattered t) :
    (work a env t plan).1 =
      plan.subjects.map fun s => (processFile plan.workspace.root a.mode t s).1 := by
  have hordered := Plan.pairwise_subjects ht hplan
  rw [work]
  rcases h with hmode | hscattered
  · rw [Processing.process_of_ne_fix hmode hordered]
  · rw [Processing.process_eq (hscattered.apart hordered)]
    exact Processing.byPath_eq_self (Processing.pairwise_reports hordered _ _ _)

/-- The restricted run reports what the unrestricted one reports on the files that are named. -/
lemma reports_narrow (ht : t.Proper) (hfiles : a.files ≠ []) (hlike : env'.PreparesLike env)
    (hwhole : (prepare a.unrestricted env' t).2 = .ok whole)
    (h : a.mode ≠ .fix ∨ whole.Scattered t) :
    (work a env t (whole.narrow t env.here a.files)).1 =
      (work a.unrestricted env' t whole).1.filter fun r =>
        Plan.isWanted t whole.workspace env.here a.files r.path := by
  have hnarrow := Plan.prepare_of_unrestricted hlike hwhole
  have hmode : a.unrestricted.mode = a.mode := rfl
  rw [reports_work ht hnarrow (h.imp id (Plan.Scattered.narrow hfiles)), reports_work ht hwhole h,
    List.filter_map, hmode, Plan.narrow, Plan.restrict_of_ne_nil hfiles]
  apply congrArg (List.map _)
  apply List.filter_congr
  intro s _
  rw [Function.comp_apply, Processing.path_processFile]

/-- Of scattered files each one comes to what the fix of it alone makes of it. -/
lemma entry?_work_of_mem (ht : t.Proper) (hplan : (prepare a env t).2 = .ok plan)
    (h : plan.Scattered t) {s : Subject} (hs : s ∈ plan.subjects)
    (hl : t.resolve (plan.workspace.root.join s.path) = .ok l) :
    FileTree.entry? (work a env t plan).2 l =
      FileTree.entry? (processFile plan.workspace.root a.mode t s).2 l := by
  have hapart := h.apart (Plan.pairwise_subjects ht hplan)
  rw [work, Processing.process_eq hapart]
  exact Processing.entry?_inTurn_of_mem hapart hs hl a.mode

/-- The work changes nothing but the files of the plan. -/
lemma entry?_work_of_ne
    (h : ∀ s ∈ plan.subjects, t.resolve (plan.workspace.root.join s.path) ≠ .ok l) :
    FileTree.entry? (work a env t plan).2 l = t.entry? l := by
  by_contra hne
  obtain ⟨-, hchanged⟩ := Processing.process_frame plan.workspace.root a.mode
    (a.jobs.getD env.processors) env.schedule t plan.subjects
  obtain ⟨s, hs, hl⟩ := hchanged l hne
  exact h s hs hl

/-! ### The report document -/

/-- The report document of a run is written at a location. -/
def ReportsAt (a : Arguments) (env : Environment) (t : FileTree) (l : Location) : Prop :=
  ∃ path, a.reportJson = some path ∧ t.writeTarget (env.here.join path) = .ok l

/-- Telling about the work changes nothing but the report document. -/
lemma entry?_tellReport {u : FileTree} {reports : List FileReport} {summary : Summary}
    (hl : ¬ ReportsAt a env u l) :
    (tellReport a env u reports summary).tree.entry? l = u.entry? l := by
  cases hjson : a.reportJson with
  | none => simp only [tellReport, hjson]
  | some path =>
    simp only [tellReport, hjson, FileTree.write]
    cases htarget : u.writeTarget (env.here.join path) with
    | error fault => rfl
    | ok m =>
      apply FileTree.entry?_put_of_ne
      rintro rfl
      exact hl ⟨path, hjson, htarget⟩

/-- Elsewhere a fix leaves what its work has made. -/
lemma entry?_run_of_fix (hfix : a.mode = .fix) (hplan : (prepare a env t).2 = .ok plan)
    (hl : ¬ ReportsAt a env t l) :
    (run a env t).tree.entry? l = FileTree.entry? (work a env t plan).2 l := by
  have halike : FileTree.Alike t (work a env t plan).2 :=
    (Processing.process_frame _ _ _ _ _ _).1
  have hl' : ¬ ReportsAt a env (work a env t plan).2 l := by
    rintro ⟨path, hjson, htarget⟩
    exact hl ⟨path, hjson, halike.writeTarget _ ▸ htarget⟩
  rw [run_of_ok hplan, perform_eq_told]
  simp only [told, tellFiles_fix hfix]
  exact entry?_tellReport hl'

/-- Where the report document is written, it stands in the end. -/
lemma entry?_run_of_reportsAt (hfix : a.mode = .fix) (hplan : (prepare a env t).2 = .ok plan)
    (h : ReportsAt a env t l) (hl : l ≠ []) :
    (run a env t).tree.entry? l =
      some (.file (reportContent a env (work a env t plan).1 plan.skipped)) := by
  obtain ⟨path, hjson, htarget⟩ := h
  have halike : FileTree.Alike t (work a env t plan).2 :=
    (Processing.process_frame _ _ _ _ _ _).1
  rw [halike.writeTarget] at htarget
  rw [run_of_ok hplan, perform_eq_told]
  simp only [told, tellFiles_fix hfix, tellReport, hjson, FileTree.write, htarget]
  exact FileTree.entry?_put_self hl

/-- Documents that tell different numbers of files are different. -/
lemma reportContent_ne {a' : Arguments} {reports reports' : List FileReport} {skipped skipped' : Nat}
    (h : reports'.length ≠ reports.length) :
    some (Entry.file (reportContent a' env' reports' skipped')) ≠
      some (.file (reportContent a env reports skipped)) := by
  intro heq
  have hrender := String.toByteArray_inj.mp (Entry.file.inj (Option.some.inj heq))
  exact h (congrArg Report.Contents.total (Report.contents_eq_of_render_eq hrender))

end Run

/-! ### Restricted runs -/

/-- Which files are named plays no part in what is said while a run is prepared. -/
lemma Plan.messages_prepare (a : Arguments) (env : Environment) (t : FileTree) (files : List Path) :
    (prepare { a with files } env t).1 = (prepare a env t).1 := by
  have haround : Workspace.around t env.here ({ a with files } : Arguments).noGit env.account =
      Workspace.around t env.here a.noGit env.account := rfl
  rw [prepare, prepare, haround]
  cases Workspace.around t env.here a.noGit env.account with
  | error failure => rfl
  | ok w => rfl

/-- How the files are spelled and in which order they are named does not matter. -/
lemma run_congr_files {files : List Path} (hfiles : a.files ≠ []) (hne : files ≠ [])
    (hwanted : ∀ w p, Workspace.around t env.here a.noGit env.account = .ok w →
      Plan.isWanted t w env.here files p = Plan.isWanted t w env.here a.files p) :
    run { a with files } env t = run a env t := by
  have hmessages := Plan.messages_prepare a env t files
  cases hwhole : (prepare a.unrestricted env t).2 with
  | error failure =>
    have hfailure := (Plan.prepare_eq_error_iff (.refl env)).mpr hwhole
    have hfailure' : (prepare { a with files } env t).2 = .error failure :=
      (Plan.prepare_eq_error_iff (.refl env)).mpr hwhole
    rw [run_of_error hfailure, run_of_error hfailure', hmessages]
  | ok whole =>
    obtain ⟨config, haround, -, -⟩ := Plan.exists_of_prepare hwhole
    have hpart := Plan.prepare_of_unrestricted (.refl _) hwhole
    have hpart' : (prepare { a with files } env t).2 = .ok (whole.narrow t env.here files) :=
      Plan.prepare_of_unrestricted (.refl _) hwhole
    rw [Plan.narrow_congr hfiles hne fun p => hwanted _ p haround] at hpart'
    rw [run_of_ok hpart, run_of_ok hpart', hmessages]
    rfl

/-- Naming files does nothing but select reports. The run ends early in the same way as without
files in the arguments. Otherwise it has the same workspace and passes over as many files; in a
check, when patches are made, and when a fix has to do with files at different places, it reports
what the other run reports on the files that are named, in the same order. A fix leaves at each
place to which such a file leads the same content as the other run, and anything else as it was;
this is not said of the place where a report document is written. How the files are named, in which
order and how often, makes no difference at all. -/
theorem run_restricted (ht : t.Proper) (hfiles : a.files ≠ []) (hlike : env'.PreparesLike env) :
    (∀ failure, (run a env t).result = .error failure ∧ failure.IsEarly ↔
      (run a.unrestricted env' t).result = .error failure ∧ failure.IsEarly) ∧
    (∀ whole, (prepare a.unrestricted env' t).2 = .ok whole →
      ∃ part, (prepare a env t).2 = .ok part ∧ part.workspace = whole.workspace ∧
        part.skipped = whole.skipped ∧
        (a.mode ≠ .fix ∨ whole.Scattered t →
          (Run.work a env t part).1 = (Run.work a.unrestricted env' t whole).1.filter fun r =>
            Plan.isWanted t whole.workspace env.here a.files r.path) ∧
        (a.mode = .fix → whole.Scattered t → ∀ l, ¬ Run.ReportsAt a env t l →
          (∀ s ∈ whole.subjects, Plan.isWanted t whole.workspace env.here a.files s.path →
            t.resolve (whole.workspace.root.join s.path) = .ok l →
              (run a env t).tree.entry? l = (run a.unrestricted env' t).tree.entry? l) ∧
          ((∀ s ∈ whole.subjects, Plan.isWanted t whole.workspace env.here a.files s.path →
              t.resolve (whole.workspace.root.join s.path) ≠ .ok l) →
            (run a env t).tree.entry? l = t.entry? l))) ∧
    ∀ files, files ≠ [] → (∀ w p, Workspace.around t env.here a.noGit env.account = .ok w →
        Plan.isWanted t w env.here files p = Plan.isWanted t w env.here a.files p) →
      run { a with files } env t = run a env t := by
  refine ⟨fun failure => ?_, fun whole hwhole => ?_, fun files hne hwanted => ?_⟩
  · rw [run_eq_error_isEarly_iff, run_eq_error_isEarly_iff,
      Plan.prepare_eq_error_iff hlike]
  · have hpart := Plan.prepare_of_unrestricted hlike hwhole
    refine ⟨_, hpart, rfl, rfl, Run.reports_narrow ht hfiles hlike hwhole, ?_⟩
    intro hfix hscattered l hl
    have hl' : ¬ Run.ReportsAt a.unrestricted env' t l := by
      rintro ⟨path, hjson, htarget⟩
      exact hl ⟨path, hjson, hlike.here ▸ htarget⟩
    rw [Run.entry?_run_of_fix hfix hpart hl]
    constructor
    · intro s hs hwanted hresolve
      have hmem : s ∈ (whole.narrow t env.here a.files).subjects := by
        rw [Plan.narrow, Plan.restrict_of_ne_nil hfiles]
        exact List.mem_filter.mpr ⟨hs, hwanted⟩
      rw [Run.entry?_run_of_fix (a := a.unrestricted) hfix hwhole hl',
        Run.entry?_work_of_mem ht hwhole hscattered hs hresolve]
      exact Run.entry?_work_of_mem ht hpart (hscattered.narrow hfiles) hmem hresolve
    · intro hnone
      apply Run.entry?_work_of_ne
      intro s hs
      rw [Plan.narrow, Plan.restrict_of_ne_nil hfiles] at hs
      obtain ⟨hmem, hwanted⟩ := List.mem_filter.mp hs
      exact hnone s hmem hwanted
  · exact run_congr_files hfiles hne hwanted

lemma Workspace.around_twoFiles :
    around twoFiles ⟨"/work"⟩ false = .ok (.directory ⟨"/work"⟩) := by
  decide

lemma Workspace.candidates_twoFiles :
    candidates twoFiles (.directory ⟨"/work"⟩) = .ok [⟨"a.rs"⟩, ⟨"b.sh"⟩] := by
  show walkFiles twoFiles ⟨"/work"⟩ = _
  apply walkFiles_of_pairwise (l := ["work"])
  all_goals decide

lemma Policy.classify_twoFiles :
    ∃ policy, Config.policy none = .ok policy ∧
      policy.classify [⟨"a.rs"⟩, ⟨"b.sh"⟩] =
        .ok [⟨⟨"a.rs"⟩, ⟨"//"⟩⟩, ⟨⟨"b.sh"⟩, ⟨"#"⟩⟩] := by
  have h : (Config.policy none).map (fun policy => policy.classify [⟨"a.rs"⟩, ⟨"b.sh"⟩]) =
      .ok (.ok [⟨⟨"a.rs"⟩, ⟨"//"⟩⟩, ⟨⟨"b.sh"⟩, ⟨"#"⟩⟩]) := by
    decide +kernel
  exact map_eq_ok_iff.mp h

/-- The plan for a directory with two files. -/
def Plan.both : Plan where
  workspace := .directory ⟨"/work"⟩
  subjects := [⟨⟨"a.rs"⟩, ⟨"//"⟩⟩, ⟨⟨"b.sh"⟩, ⟨"#"⟩⟩]
  skipped := 0

lemma Plan.prepare_twoFiles (schedule : List Nat) (reportJson : Option Path) :
    (prepare { fix := true, reportJson } { here := ⟨"/work"⟩, schedule } twoFiles).2 = .ok both := by
  have hload : (Config.Search.load { here := ⟨"/work"⟩, root := ⟨"/work"⟩ } twoFiles false).2 =
      .ok none := by
    decide
  obtain ⟨policy, hpolicy, hclassify⟩ := Policy.classify_twoFiles
  exact prepare_of_classify
    ⟨Workspace.around_twoFiles, ⟨none, hload, hpolicy⟩, Workspace.candidates_twoFiles⟩ hclassify

lemma Plan.scattered_both : both.Scattered twoFiles := by
  have ha : twoFiles.resolve (Path.join ⟨"/work"⟩ ⟨"a.rs"⟩) = .ok ["work", "a.rs"] := by
    decide
  have hb : twoFiles.resolve (Path.join ⟨"/work"⟩ ⟨"b.sh"⟩) = .ok ["work", "b.sh"] := by
    decide
  apply List.pairwise_pair.mpr
  intro l hla hlb
  have hsame := Except.ok.inj ((hla.symm.trans ha).symm.trans (hlb.symm.trans hb))
  revert hsame
  decide

lemma Plan.isWanted_respelled (p : Path) :
    isWanted twoFiles both.workspace ⟨"/work"⟩ [⟨"b.sh"⟩] p =
      isWanted twoFiles both.workspace ⟨"/work"⟩ [⟨"./b.sh"⟩, ⟨"b.sh"⟩] p := by
  have hplain : both.workspace.relativize? twoFiles ⟨"b.sh"⟩ ⟨"/work"⟩ = some ⟨"b.sh"⟩ := by
    decide
  have hdotted : both.workspace.relativize? twoFiles ⟨"./b.sh"⟩ ⟨"/work"⟩ = some ⟨"b.sh"⟩ := by
    decide
  simp [isWanted, hplain, hdotted]

/-- A fix of one of two files, named twice, leaves it as the fix of both does, and does not touch
the other file. -/
theorem run_restricted_twoFiles :
    twoFiles.Proper ∧
      (prepare { fix := true } { here := ⟨"/work"⟩, schedule := [1, 0] } twoFiles).2 = .ok Plan.both ∧
      Plan.both.Scattered twoFiles ∧
      Plan.isWanted twoFiles Plan.both.workspace ⟨"/work"⟩ [⟨"./b.sh"⟩, ⟨"b.sh"⟩] ⟨"b.sh"⟩ ∧
      (run { fix := true, files := [⟨"./b.sh"⟩, ⟨"b.sh"⟩] } { here := ⟨"/work"⟩ }
          twoFiles).tree.entry? ["work", "b.sh"] =
        (run { fix := true } { here := ⟨"/work"⟩, schedule := [1, 0] } twoFiles).tree.entry?
          ["work", "b.sh"] ∧
      (run { fix := true, files := [⟨"./b.sh"⟩, ⟨"b.sh"⟩] } { here := ⟨"/work"⟩ }
          twoFiles).tree.entry? ["work", "a.rs"] = twoFiles.entry? ["work", "a.rs"] ∧
      run { fix := true, files := [⟨"b.sh"⟩] } { here := ⟨"/work"⟩ } twoFiles =
        run { fix := true, files := [⟨"./b.sh"⟩, ⟨"b.sh"⟩] } { here := ⟨"/work"⟩ } twoFiles := by
  have hproper : twoFiles.Proper := ⟨by decide, by decide⟩
  have hboth := Plan.prepare_twoFiles [1, 0] none
  have hwanted : Plan.isWanted twoFiles Plan.both.workspace ⟨"/work"⟩ [⟨"./b.sh"⟩, ⟨"b.sh"⟩]
      ⟨"b.sh"⟩ := by
    decide
  have hunwanted : ∀ s ∈ Plan.both.subjects, Plan.isWanted twoFiles Plan.both.workspace ⟨"/work"⟩
      [⟨"./b.sh"⟩, ⟨"b.sh"⟩] s.path →
        twoFiles.resolve (Plan.both.workspace.root.join s.path) ≠ .ok ["work", "a.rs"] := by
    decide
  have hb : twoFiles.resolve (Path.join ⟨"/work"⟩ ⟨"b.sh"⟩) = .ok ["work", "b.sh"] := by
    decide
  have hnowhere : ∀ l, ¬ Run.ReportsAt { fix := true, files := [⟨"./b.sh"⟩, ⟨"b.sh"⟩] }
      { here := ⟨"/work"⟩ } twoFiles l := by
    rintro l ⟨path, hjson, -⟩
    cases hjson
  obtain ⟨-, hwork, hspelling⟩ :=
    @run_restricted { fix := true, files := [⟨"./b.sh"⟩, ⟨"b.sh"⟩] } { here := ⟨"/work"⟩ }
      { here := ⟨"/work"⟩, schedule := [1, 0] } twoFiles hproper (by decide) ⟨rfl, rfl, rfl⟩
  obtain ⟨part, -, -, -, -, htrees⟩ := hwork _ hboth
  have hplaces := htrees rfl Plan.scattered_both
  refine ⟨hproper, hboth, Plan.scattered_both, hwanted, ?_, ?_, ?_⟩
  · exact (hplaces _ (hnowhere _)).1 _ (List.mem_of_mem_getLast? rfl) hwanted hb
  · exact (hplaces _ (hnowhere _)).2 hunwanted
  · apply hspelling [⟨"b.sh"⟩] (by decide)
    intro w p haround
    obtain rfl := Except.ok.inj (haround.symm.trans Workspace.around_twoFiles)
    exact Plan.isWanted_respelled p

/-- Where a fix writes its report document into a file that is named, the document is left, and it
tells fewer files than without names in the arguments. -/
theorem run_restricted_ownReport :
    twoFiles.Proper ∧
      (prepare { fix := true, reportJson := some ⟨"a.rs"⟩ } { here := ⟨"/work"⟩ } twoFiles).2 =
        .ok Plan.both ∧
      Plan.both.Scattered twoFiles ∧
      Plan.isWanted twoFiles Plan.both.workspace ⟨"/work"⟩ [⟨"a.rs"⟩] ⟨"a.rs"⟩ ∧
      twoFiles.resolve (Plan.both.workspace.root.join ⟨"a.rs"⟩) = .ok ["work", "a.rs"] ∧
      (run { fix := true, files := [⟨"a.rs"⟩], reportJson := some ⟨"a.rs"⟩ } { here := ⟨"/work"⟩ }
          twoFiles).tree.entry? ["work", "a.rs"] ≠
        (run { fix := true, reportJson := some ⟨"a.rs"⟩ } { here := ⟨"/work"⟩ }
          twoFiles).tree.entry? ["work", "a.rs"] := by
  have hproper : twoFiles.Proper := ⟨by decide, by decide⟩
  have hboth := Plan.prepare_twoFiles [] (some ⟨"a.rs"⟩)
  have hpart : (prepare { fix := true, files := [⟨"a.rs"⟩], reportJson := some ⟨"a.rs"⟩ }
      { here := ⟨"/work"⟩ } twoFiles).2 = .ok (Plan.both.narrow twoFiles ⟨"/work"⟩ [⟨"a.rs"⟩]) :=
    Plan.prepare_of_unrestricted (.refl _) hboth
  have htarget : twoFiles.writeTarget (Path.join ⟨"/work"⟩ ⟨"a.rs"⟩) = .ok ["work", "a.rs"] := by
    decide
  refine ⟨hproper, hboth, Plan.scattered_both, by decide, by decide, ?_⟩
  rw [Run.entry?_run_of_reportsAt rfl hpart ⟨⟨"a.rs"⟩, rfl, htarget⟩ (by decide),
    Run.entry?_run_of_reportsAt rfl hboth ⟨⟨"a.rs"⟩, rfl, htarget⟩ (by decide),
    Run.reports_work hproper hpart (Or.inr (Plan.scattered_both.narrow (by decide))),
    Run.reports_work hproper hboth (Or.inr Plan.scattered_both)]
  apply Run.reportContent_ne
  rw [List.length_map, List.length_map]
  decide

end LicenseHeader
