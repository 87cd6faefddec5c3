import LicenseHeader.Proofs.Processing.Frame
import LicenseHeader.Proofs.Processing.Modes
import LicenseHeader.Proofs.Run.Fix
import LicenseHeader.Proofs.Workspace.Relative

/-!
# Files that the arguments name

A run that is asked for a single file works on that file alone, however its path is written, as long
as no link stands on the way to it. A file behind a link is not found by its own path, and nothing
tells that it was passed over.
-/

namespace LicenseHeader

open Plan (Named Selected Setting)
open Processing (lonelyFile process_frame process_perm)
open Workspace (Written)

variable {a : Arguments} {env : Environment} {t : FileTree} {w : Workspace} {plan : Plan}
  {h l r : Location} {p q : Path} {s : Subject}

/-! ### Plans for a single path -/

/-- One path names the files that it means. -/
lemma Plan.named_singleton_iff {here : Path} :
    Named t w here [p] q ↔ ∃ q', w.relativize? t p here = some q' ∧ q.same q' := by
  simp [Named]

/-- A file is found by a path exactly if its own path goes along the names on the way without
links. -/
lemma Plan.named_iff_noLinks (ht : t.Proper) (hr : t.Entered r) (hroot : t.resolve w.root = .ok r)
    {here : Path} {c : ByteArray} (hp : t.resolve (here.join p) = .ok l)
    (hq : t.resolve (w.root.join q) = .ok l) (hc : t.entry? l = some (.file c)) :
    Named t w here [p] q ↔ ∃ names, q.components = names.map .name ∧ t.NoLinks r names := by
  have hnames := ht.isName_of_entry? hc
  rw [named_singleton_iff]
  constructor
  · rintro ⟨q', hq', hsame⟩
    obtain ⟨names, rfl, rfl⟩ := (Workspace.relativize?_eq_some_iff ht hr hroot hp hc).mp hq'
    have hcomponents : q.components = names.map .name := by
      rw [eq_of_beq hsame]
      exact Path.components_ofComponents fun n hn => hnames n (List.mem_append_right r hn)
    exact ⟨names, hcomponents, (FileTree.eq_append_iff_noLinks hroot hcomponents hq).mp rfl⟩
  · rintro ⟨names, hcomponents, hno⟩
    obtain rfl := (FileTree.eq_append_iff_noLinks hroot hcomponents hq).mpr hno
    refine ⟨_, (Workspace.relativize?_eq_some_iff ht hr hroot hp hc).mpr ⟨names, rfl, rfl⟩, ?_⟩
    rw [Path.same, hcomponents,
      Path.components_ofComponents fun n hn => hnames n (List.mem_append_right r hn), beq_self_eq_true]

/-- Files that one path names are the same. -/
lemma Plan.same_of_named {here : Path} {q' : Path} (hq : Named t w here [p] q)
    (hq' : Named t w here [p] q') : q.components = q'.components := by
  obtain ⟨m, hm, hsame⟩ := named_singleton_iff.mp hq
  obtain ⟨m', hm', hsame'⟩ := named_singleton_iff.mp hq'
  cases hm.symm.trans hm'
  exact (eq_of_beq hsame).trans (eq_of_beq hsame').symm

/-- A run whose arguments name one file works on nothing else. -/
lemma Plan.subjects_eq_singleton (ht : t.Proper) (hfiles : a.files = [p])
    (hplan : (prepare a env t).2 = .ok plan) (hs : s ∈ plan.subjects) : plan.subjects = [s] := by
  have hsame : ∀ s₁ ∈ plan.subjects, ∀ s₂ ∈ plan.subjects, ¬ s₁.path.compare s₂.path = .lt := by
    intro s₁ hs₁ s₂ hs₂ hlt
    have hnamed₁ := ((mem_subjects_iff hplan).mp hs₁).named
    have hnamed₂ := ((mem_subjects_iff hplan).mp hs₂).named
    rw [hfiles] at hnamed₁ hnamed₂
    exact Path.ne_of_compare_eq_lt hlt (same_of_named hnamed₁ hnamed₂)
  have hordered := pairwise_subjects ht hplan
  cases hsubjects : plan.subjects with
  | nil =>
    rw [hsubjects] at hs
    cases hs
  | cons s₁ rest =>
    cases rest with
    | nil =>
      rw [hsubjects] at hs
      rw [List.mem_singleton.mp hs]
    | cons s₂ rest =>
      rw [hsubjects] at hsame hordered
      have hlt := List.rel_of_pairwise_cons hordered List.mem_cons_self
      exact absurd hlt (hsame s₁ (by simp) s₂ (by simp))

/-! ### The work on a single file -/

lemma Run.path_work (a : Arguments) (env : Environment) (t : FileTree) (plan : Plan) :
    ((Run.work a env t plan).1.map FileReport.path).Perm (plan.subjects.map Subject.path) := by
  have hperm := (process_perm plan.workspace.root a.mode (a.jobs.getD env.processors) env.schedule t
    plan.subjects).map Subject.path
  rwa [List.map_map] at hperm

/-- Where there is a file to work on, a run is prepared, whatever files the arguments name, unless
it has to do with another file about which the policy says nothing. -/
lemma Plan.prepare_of_selected (haround : Workspace.around t env.here a.noGit env.account = .ok w)
    (hs : Selected { a with files := [] } env t w s) :
    (∃ gaps, gaps ≠ [] ∧ (prepare a env t).2 = .error (.gaps gaps) ∧
        (prepare { a with files := [] } env t).2 = .error (.gaps gaps)) ∨
      ∃ plan, (prepare a env t).2 = .ok plan ∧ plan.workspace = w := by
  obtain ⟨paths, hpaths, -⟩ := hs.candidate
  obtain ⟨config, policy, hload, hpolicy, -⟩ := hs.classified
  have hsetting : Setting a env t w policy paths := ⟨haround, ⟨config, hload, hpolicy⟩, hpaths⟩
  have hsetting' : Setting { a with files := [] } env t w policy paths :=
    ⟨haround, ⟨config, hload, hpolicy⟩, hpaths⟩
  cases hclassify : policy.classify paths with
  | error gaps =>
    exact Or.inl ⟨gaps, (Policy.classify_eq_error_iff.mp hclassify).2,
      prepare_of_gaps hsetting hclassify, prepare_of_gaps hsetting' hclassify⟩
  | ok subjects => exact Or.inr ⟨_, prepare_of_classify hsetting hclassify, rfl⟩

/-- What the work comes to if one file is named, by whether a link stands on the way to it. -/
lemma Run.work_named_iff (ht : t.Proper) (hhere : env.here = h.path) (hh : t.Entered h)
    (hfiles : a.files = [p]) (hplan : (Plan.prepare a env t).2 = .ok plan)
    (hs : Selected { a with files := [] } env t plan.workspace s)
    (hp : Written t plan.workspace h s.path p) :
    ((Run.work a env t plan).1.map FileReport.path = [s.path] ∧
      ∀ l, FileTree.entry? (Run.work a env t plan).2 l ≠ t.entry? l →
        t.resolve (plan.workspace.root.join s.path) = .ok l) ↔
      ∃ r names, t.resolve plan.workspace.root = .ok r ∧
        s.path.components = names.map .name ∧ t.NoLinks r names := by
  obtain ⟨config, haround, -, -⟩ := Plan.exists_of_prepare hplan
  rw [hhere] at haround
  obtain ⟨r, hr, habs, hroot⟩ := Workspace.exists_root_of_around ht hh haround
  have hresolve := hr.resolve_of_components habs hroot
  obtain ⟨paths, hpaths, hpath⟩ := hs.candidate
  obtain ⟨l, c, hl, hc⟩ := Workspace.exists_file_of_mem_candidates ht hr habs hroot hpaths hpath
  have hnamed := Plan.named_iff_noLinks ht hr hresolve
    (hp.resolve_join ht hh hr habs hroot hl hc) hl hc
  have hmem : s ∈ plan.subjects ↔ Named t plan.workspace h.path [p] s.path := by
    rw [Plan.mem_subjects_iff hplan, ← hfiles, ← hhere]
    exact ⟨fun hselected => hselected.named, fun hnamed => ⟨hs.candidate, hs.classified, hnamed⟩⟩
  constructor
  · rintro ⟨hreports, -⟩
    have hperm := Run.path_work a env t plan
    rw [hreports] at hperm
    obtain ⟨s', hs', hpath'⟩ := List.mem_map.mp (hperm.subset List.mem_cons_self)
    have hnamed' := ((Plan.mem_subjects_iff hplan).mp hs').named
    rw [hpath', hfiles, hhere] at hnamed'
    obtain ⟨names, hnames, hno⟩ := hnamed.mp hnamed'
    exact ⟨r, names, hresolve, hnames, hno⟩
  · rintro ⟨r', names, hr', hnames, hno⟩
    cases hresolve.symm.trans hr'
    have hsubjects := Plan.subjects_eq_singleton ht hfiles hplan
      (hmem.mpr (hnamed.mpr ⟨names, hnames, hno⟩))
    constructor
    · have hperm := Run.path_work a env t plan
      rw [hsubjects] at hperm
      exact List.perm_singleton.mp hperm
    · intro l' hl'
      obtain ⟨-, hchanged⟩ := process_frame plan.workspace.root a.mode
        (a.jobs.getD env.processors) env.schedule t plan.subjects
      obtain ⟨s', hs', hresolve'⟩ := hchanged l' hl'
      rw [hsubjects, List.mem_singleton] at hs'
      rwa [hs'] at hresolve'
/-- A run that is asked for a single file by the path of a candidate that the rules map to a style
works on that file, and on no other, exactly if no link stands on the way to it from the root of the
workspace. It does not matter from which directory the path is written, nor in which way. In a
directory that no repository is asked about, there never is such a link. Only where the policy says
nothing about some other candidate the run ends early, as it does without the path. -/
theorem run_named_iff (ht : t.Proper) (hhere : env.here = h.path) (hh : t.Entered h)
    (hfiles : a.files = [p]) (haround : Workspace.around t env.here a.noGit env.account = .ok w)
    (hs : Selected { a with files := [] } env t w s) (hp : Written t w h s.path p) :
    (∃ gaps, gaps ≠ [] ∧ (Plan.prepare a env t).2 = .error (.gaps gaps) ∧
      (Plan.prepare { a with files := [] } env t).2 = .error (.gaps gaps)) ∨
    ∃ plan, (Plan.prepare a env t).2 = .ok plan ∧ plan.workspace = w ∧
      (((Run.work a env t plan).1.map FileReport.path = [s.path] ∧
        ∀ l, FileTree.entry? (Run.work a env t plan).2 l ≠ t.entry? l →
          t.resolve (w.root.join s.path) = .ok l) ↔
        ∃ r names, t.resolve w.root = .ok r ∧ s.path.components = names.map .name ∧
          t.NoLinks r names) ∧
      (w.isRepository = false →
        ∃ r names, t.resolve w.root = .ok r ∧ s.path.components = names.map .name ∧
          t.NoLinks r names) := by
  refine (Plan.prepare_of_selected haround hs).imp id ?_
  rintro ⟨plan, hplan, rfl⟩
  refine ⟨plan, hplan, rfl, Run.work_named_iff ht hhere hh hfiles hplan hs hp, fun hdirectory => ?_⟩
  obtain ⟨paths, hpaths, hpath⟩ := hs.candidate
  obtain ⟨r, hr⟩ := Workspace.resolve_of_candidates hpaths
  cases hw : plan.workspace with
  | repository root =>
    rw [hw] at hdirectory
    cases hdirectory
  | directory root =>
    rw [hw] at hpaths hr
    obtain ⟨names, hnames, hno⟩ := Workspace.noLinks_of_mem_walkFiles ht hpaths hpath hr
    exact ⟨r, names, hr, hnames, hno⟩

theorem run_named_lonelyFile :
    lonelyFile.Proper ∧ lonelyFile.Entered ["work"] ∧
      ∃ plan, (Plan.prepare { files := [⟨"./a.rs"⟩] } { here := ⟨"/work"⟩ } lonelyFile).2 = .ok plan ∧
        Selected {} { here := ⟨"/work"⟩ } lonelyFile plan.workspace ⟨⟨"a.rs"⟩, ⟨"//"⟩⟩ ∧
        Written lonelyFile plan.workspace ["work"] ⟨"a.rs"⟩ ⟨"./a.rs"⟩ ∧
        (Run.work { files := [⟨"./a.rs"⟩] } { here := ⟨"/work"⟩ } lonelyFile plan).1.map
          FileReport.path = [⟨"a.rs"⟩] := by
  have hproper : lonelyFile.Proper := ⟨by decide, by decide⟩
  have hentered : lonelyFile.Entered ["work"] := by
    refine ⟨?_, by decide⟩
    intro n hn
    obtain rfl : n = 0 := by simpa using hn
    rfl
  have hall : (Plan.prepare {} { here := ⟨"/work"⟩ } lonelyFile).2 =
      .ok ⟨.directory ⟨"/work"⟩, [⟨⟨"a.rs"⟩, ⟨"//"⟩⟩], 0⟩ := by
    decide +kernel
  have hplan : (Plan.prepare { files := [⟨"./a.rs"⟩] } { here := ⟨"/work"⟩ } lonelyFile).2 =
      .ok ⟨.directory ⟨"/work"⟩, [⟨⟨"a.rs"⟩, ⟨"//"⟩⟩], 0⟩ := by
    decide +kernel
  have hselected : Selected {} { here := ⟨"/work"⟩ } lonelyFile (.directory ⟨"/work"⟩)
      ⟨⟨"a.rs"⟩, ⟨"//"⟩⟩ := (Plan.mem_subjects_iff hall).mp List.mem_cons_self
  have hroot : lonelyFile.resolve ⟨"/work"⟩ = .ok ["work"] := by decide +kernel
  have hwritten : Written lonelyFile (.directory ⟨"/work"⟩) ["work"] ⟨"a.rs"⟩ ⟨"./a.rs"⟩ :=
    @Written.relative _ _ _ _ ⟨"./a.rs"⟩ ["work"] ["a.rs"] ["a.rs"] 0 hroot (by decide)
      ⟨by decide, by decide⟩ rfl (by decide +kernel)
  have hl : lonelyFile.resolve (Path.join ⟨"/work"⟩ ⟨"a.rs"⟩) = .ok ["work", "a.rs"] := by
    decide +kernel
  have hnames : Path.components ⟨"a.rs"⟩ = ["a.rs"].map .name := by decide
  have hno : lonelyFile.NoLinks ["work"] ["a.rs"] :=
    (FileTree.eq_append_iff_noLinks hroot hnames hl).mp rfl
  have haround : Workspace.around lonelyFile ⟨"/work"⟩ false = .ok (.directory ⟨"/work"⟩) := by
    decide +kernel
  refine ⟨hproper, hentered, _, hplan, hselected, hwritten, ?_⟩
  have hnamed := @run_named_iff { files := [⟨"./a.rs"⟩] } { here := ⟨"/work"⟩ } lonelyFile
    (.directory ⟨"/work"⟩) ["work"] ⟨"./a.rs"⟩ ⟨⟨"a.rs"⟩, ⟨"//"⟩⟩ hproper rfl hentered rfl haround
    hselected hwritten
  rcases hnamed with
    ⟨gaps, -, hgaps, -⟩ | ⟨plan, hplan', -, hnamed, -⟩
  · cases hplan.symm.trans hgaps
  · cases hplan.symm.trans hplan'
    exact (hnamed.mpr ⟨["work"], ["a.rs"], hroot, hnames, hno⟩).1

/-- A check that is asked for a link which it would list says nothing about it and succeeds,
although the file behind the link has no header. -/
theorem run_named_linkedTree :
    linkedTree.Proper ∧ linkedTree.Entered ["work"] ∧
      ∃ plan, (Plan.prepare { files := [⟨"link.rs"⟩] } { here := ⟨"/work"⟩ } linkedTree).2 =
          .ok plan ∧
        Selected {} { here := ⟨"/work"⟩ } linkedTree plan.workspace ⟨⟨"link.rs"⟩, ⟨"//"⟩⟩ ∧
        Written linkedTree plan.workspace ["work"] ⟨"link.rs"⟩ ⟨"link.rs"⟩ ∧
        (Run.work { files := [⟨"link.rs"⟩] } { here := ⟨"/work"⟩ } linkedTree plan).1 = [] ∧
        (run { files := [⟨"link.rs"⟩] } { here := ⟨"/work"⟩ } linkedTree).exitStatus = 0 ∧
        (run {} { here := ⟨"/work"⟩ } linkedTree).exitStatus = 1 := by
  have hproper : linkedTree.Proper := ⟨by decide, by decide⟩
  have hentered : linkedTree.Entered ["work"] := by
    refine ⟨?_, by decide⟩
    intro n hn
    obtain rfl : n = 0 := by simpa using hn
    rfl
  have hall : (Plan.prepare {} { here := ⟨"/work"⟩ } linkedTree).2 =
      .ok ⟨.repository ⟨"/work/"⟩, [⟨⟨"link.rs"⟩, ⟨"//"⟩⟩], 0⟩ := by
    decide +kernel
  have hplan : (Plan.prepare { files := [⟨"link.rs"⟩] } { here := ⟨"/work"⟩ } linkedTree).2 =
      .ok ⟨.repository ⟨"/work/"⟩, [], 0⟩ := by
    decide +kernel
  refine ⟨hproper, hentered, _, hplan, (Plan.mem_subjects_iff hall).mp List.mem_cons_self,
    ?_, ?_, ?_, ?_⟩
  · exact @Written.relative _ _ _ _ ⟨"link.rs"⟩ ["work"] ["link.rs"] ["link.rs"] 0
      (by decide +kernel) (by decide) ⟨by decide, by decide⟩ rfl (by decide +kernel)
  · have hperm := Run.path_work { files := [⟨"link.rs"⟩] } { here := ⟨"/work"⟩ } linkedTree
      ⟨.repository ⟨"/work/"⟩, [], 0⟩
    exact List.map_eq_nil_iff.mp (List.perm_nil.mp hperm)
  · decide +kernel
  · decide +kernel

end LicenseHeader
