import LicenseHeader.Proofs.Policy.Classification
import LicenseHeader.Proofs.Workspace.Candidates
import LicenseHeader.Run
import Mathlib.Data.List.Basic

/-!
# The files that a run works on

A run works on the candidates of the workspace that the rules map to a style, as far as the
arguments name them, and on nothing else. It has them in the order of paths.
-/

namespace LicenseHeader

namespace Plan

variable {a : Arguments} {env : Environment} {t : FileTree} {w : Workspace} {here : Path}
  {only : List Path} {s : Subject} {subjects : List Subject} {plan : Plan}

/-- Whether the arguments name a file, or name none at all. -/
def Named (t : FileTree) (w : Workspace) (here : Path) (only : List Path) (p : Path) : Prop :=
  only = [] ∨ ∃ file ∈ only, ∃ q, w.relativize? t file here = some q ∧ p.same q

/-- The files that a run works on: the rules of the configuration map the candidate to a style, and
the arguments name it. -/
structure Selected (a : Arguments) (env : Environment) (t : FileTree) (w : Workspace)
    (s : Subject) : Prop where
  candidate : ∃ paths, w.candidates t env.account = .ok paths ∧ s.path ∈ paths
  classified : ∃ config policy,
    (Config.Search.load
      { here := env.here, root := w.root, explicit := a.config,
        fromEnvironment := env.configVariable } t a.noConfig).2 = .ok config ∧
    Config.policy config = .ok policy ∧ policy.action? s.path = some (.comment s.style)
  named : Named t w env.here a.files s.path

lemma mem_restrict_iff :
    s ∈ restrict t w here only subjects ↔ s ∈ subjects ∧ Named t w here only s.path := by
  rw [restrict, Named]
  cases only with
  | nil => simp
  | cons file only =>
    have hwanted : ((file :: only).filterMap fun path => w.relativize? t path here).any s.path.same ↔
        ∃ f ∈ file :: only, ∃ q, w.relativize? t f here = some q ∧ s.path.same q := by
      rw [List.any_eq_true]
      constructor
      · rintro ⟨q, hq, hsame⟩
        obtain ⟨f, hf, hfq⟩ := List.mem_filterMap.mp hq
        exact ⟨f, hf, q, hfq, hsame⟩
      · rintro ⟨f, hf, q, hfq, hsame⟩
        exact ⟨q, List.mem_filterMap.mpr ⟨f, hf, hfq⟩, hsame⟩
    rw [List.isEmpty_cons, if_neg Bool.false_ne_true, List.mem_filter, hwanted]
    simp

/-- A plan is made of the files that the policy wants a header for, as far as they are named. -/
lemma exists_of_make {config : Option Config} (h : make a env t w config = .ok plan) :
    ∃ policy paths subjects, Config.policy config = .ok policy ∧
      w.candidates t env.account = .ok paths ∧ policy.classify paths = .ok subjects ∧
        plan = ⟨w, restrict t w env.here a.files subjects, paths.length - subjects.length⟩ := by
  rw [make] at h
  obtain ⟨policy, hpolicy, h⟩ := bind_eq_ok_iff.mp h
  obtain ⟨paths, hpaths, h⟩ := bind_eq_ok_iff.mp h
  obtain ⟨subjects, hsubjects, h⟩ := bind_eq_ok_iff.mp h
  cases h
  exact ⟨policy, paths, subjects, mapError_eq_ok_iff.mp hpolicy, hpaths,
    mapError_eq_ok_iff.mp hsubjects, rfl⟩

/-- A prepared plan went through all steps of the preparation. -/
lemma exists_of_prepare (h : (prepare a env t).2 = .ok plan) :
    ∃ config, Workspace.around t env.here a.noGit env.account = .ok plan.workspace ∧
      (Config.Search.load
        { here := env.here, root := plan.workspace.root, explicit := a.config,
          fromEnvironment := env.configVariable } t a.noConfig).2 = .ok config ∧
      make a env t plan.workspace config = .ok plan := by
  rw [prepare] at h
  split at h
  · cases h
  case h_2 w haround =>
    obtain ⟨config, hconfig, hmake⟩ := bind_eq_ok_iff.mp h
    obtain ⟨_, _, _, -, -, -, hplan⟩ := exists_of_make hmake
    obtain rfl : plan.workspace = w := congrArg workspace hplan
    exact ⟨config, haround, hconfig, hmake⟩

/-- A prepared run works on the selected files of its workspace, and on no others. -/
theorem mem_subjects_iff (h : (prepare a env t).2 = .ok plan) :
    s ∈ plan.subjects ↔ Selected a env t plan.workspace s := by
  obtain ⟨config, -, hconfig, hmake⟩ := exists_of_prepare h
  obtain ⟨policy, paths, subjects, hpolicy, hpaths, hsubjects, hplan⟩ := exists_of_make hmake
  rw [congrArg Plan.subjects hplan, mem_restrict_iff, Policy.mem_classify_iff hsubjects]
  constructor
  · rintro ⟨⟨hpath, haction⟩, hnamed⟩
    exact ⟨⟨paths, hpaths, hpath⟩, ⟨config, policy, hconfig, hpolicy, haction⟩, hnamed⟩
  · rintro ⟨⟨paths', hpaths', hpath⟩, ⟨config', policy', hconfig', hpolicy', haction⟩, hnamed⟩
    cases hpaths.symm.trans hpaths'
    cases hconfig.symm.trans hconfig'
    cases hpolicy.symm.trans hpolicy'
    exact ⟨⟨hpath, haction⟩, hnamed⟩

lemma pairwise_restrict (h : subjects.Pairwise fun a b => a.path.compare b.path = .lt) :
    (restrict t w here only subjects).Pairwise fun a b => a.path.compare b.path = .lt := by
  rw [restrict]
  split_ifs
  · exact h
  · exact h.filter _

/-- The files of a plan come in the order of paths, each of them once. -/
lemma pairwise_subjects (ht : t.Proper) (h : (prepare a env t).2 = .ok plan) :
    plan.subjects.Pairwise fun a b => a.path.compare b.path = .lt := by
  obtain ⟨config, -, -, hmake⟩ := exists_of_prepare h
  obtain ⟨policy, paths, subjects, -, hpaths, hsubjects, hplan⟩ := exists_of_make hmake
  rw [hplan]
  exact pairwise_restrict (Policy.pairwise_classify hsubjects
    (Workspace.pairwise_candidates ht hpaths))

/-- Without files in the arguments, each candidate is worked on or needs no header. -/
lemma length_subjects_add_skipped (h : (prepare a env t).2 = .ok plan) (hfiles : a.files = []) :
    ∃ paths, plan.workspace.candidates t env.account = .ok paths ∧
      plan.subjects.length + plan.skipped = paths.length := by
  obtain ⟨config, -, -, hmake⟩ := exists_of_prepare h
  obtain ⟨policy, paths, subjects, -, hpaths, hsubjects, hplan⟩ := exists_of_make hmake
  refine ⟨paths, hpaths, ?_⟩
  have hle := Policy.length_classify_le hsubjects
  rw [hplan]
  simp [restrict, hfiles, hle]

end Plan

end LicenseHeader
