import LicenseHeader.Proofs.Processing.Frame
import LicenseHeader.Proofs.Processing.Independence
import LicenseHeader.Proofs.Processing.Modes
import LicenseHeader.Proofs.Run.Course
import LicenseHeader.Proofs.Workspace.Roots

/-!
# What a fix changes

A run that installs headers changes the contents of files to which the paths of its selected files
lead. As long as no link stands on the way, such a file is itself the selected one. A repository may
list links, though, and behind a link there is a file that was not selected.
-/

namespace LicenseHeader

open FileTree (Alike)
open Plan (Selected)
open Processing (Apart Writable lonelyFile process process_eq process_frame readText_inTurn_fix)

variable {a : Arguments} {env : Environment} {t : FileTree} {w : Workspace} {l : Location}

/-- Whether a location is that of a file which the run works on: from the root of the workspace the
path of the file leads down to it name by name. -/
def Run.Owns (a : Arguments) (env : Environment) (t : FileTree) (l : Location) : Prop :=
  ∃ w r s names, Workspace.around t env.here a.noGit env.account = .ok w ∧
    t.resolve w.root = .ok r ∧ Selected a env t w s ∧ s.path.components = names.map .name ∧ l = r ++ names

/-! ### The tree after a run -/

lemma Run.tree_perform (hfix : a.mode = .fix) (hreport : a.reportJson = none) (env : Environment)
    (t : FileTree) (plan : Plan) :
    (perform a env t plan).tree = (process plan.workspace.root .fix (a.jobs.getD env.processors)
      env.schedule t plan.subjects).2 := by
  rw [perform]
  simp only [tellFiles, hfix, tellReport, hreport]

lemma tree_run_of_error {failure : Failure} (h : (Plan.prepare a env t).2 = .error failure) :
    (run a env t).tree = t := by
  rw [run_of_error h]

lemma tree_run_of_ok (hfix : a.mode = .fix) (hreport : a.reportJson = none) {plan : Plan}
    (h : (Plan.prepare a env t).2 = .ok plan) :
    (run a env t).tree = (process plan.workspace.root .fix (a.jobs.getD env.processors)
      env.schedule t plan.subjects).2 := by
  rw [run_of_ok h]
  exact Run.tree_perform hfix hreport env t plan

/-- A fix installs the header in all selected files that are not locked, if no two of the selected
files lead to the same place. -/
theorem readText_run_fix (hfix : a.mode = .fix) (hreport : a.reportJson = none) {plan : Plan}
    (hplan : (Plan.prepare a env t).2 = .ok plan)
    (hapart : plan.subjects.Pairwise (Apart plan.workspace.root t)) {s : Subject}
    (hs : s ∈ plan.subjects) {text : List Char}
    (htext : t.readText (plan.workspace.root.join s.path) = .ok text)
    (hw : Writable plan.workspace.root t s) :
    (run a env t).tree.readText (plan.workspace.root.join s.path) =
      .ok (Header.installText s.style.marker.toList text) := by
  rw [tree_run_of_ok hfix hreport hplan, process_eq hapart]
  exact readText_inTurn_fix hapart hs htext hw

/-- Each of these files is changed if its header was not as it should be. -/
lemma entry?_run_fix_ne (hfix : a.mode = .fix) (hreport : a.reportJson = none) {plan : Plan}
    (hplan : (Plan.prepare a env t).2 = .ok plan)
    (hapart : plan.subjects.Pairwise (Apart plan.workspace.root t)) {s : Subject}
    (hs : s ∈ plan.subjects) {text : List Char} (hm : '\n' ∉ s.style.marker.toList)
    (htext : t.readText (plan.workspace.root.join s.path) = .ok text)
    (hi : ¬ Header.Installed s.style.marker.toList text)
    (hl : t.resolve (plan.workspace.root.join s.path) = .ok l) (hlocked : l ∉ t.locked) :
    (run a env t).tree.entry? l ≠ t.entry? l := by
  intro hsame
  have halike : Alike t (run a env t).tree := by
    rw [tree_run_of_ok hfix hreport hplan]
    exact (process_frame _ _ _ _ _ _).1
  have hread := readText_run_fix hfix hreport hplan hapart hs htext
    ((Processing.writable_iff hl).mpr hlocked)
  rw [halike.readText_congr, htext] at hread
  · exact hi ((Header.installText_eq_iff hm text).mp (Except.ok.inj hread).symm)
  · intro m hm
    cases hl.symm.trans hm
    exact hsame

/-- A run with `--fix` and without a report document changes contents of files only, and only where
the path of a selected file leads. Such a path leads to the selected file itself exactly if no link
stands on the way from the root of the workspace. In a directory that no repository is asked about,
this is always so, and only selected files are changed. -/
theorem run_fix_frame (hfix : a.mode = .fix) (hreport : a.reportJson = none)
    (hl : (run a env t).tree.entry? l ≠ t.entry? l) :
    (∃ c c', t.entry? l = some (.file c) ∧ (run a env t).tree.entry? l = some (.file c')) ∧
    ∃ w r, Workspace.around t env.here a.noGit env.account = .ok w ∧ t.resolve w.root = .ok r ∧
      (∃ s, Selected a env t w s ∧ t.resolve (w.root.join s.path) = .ok l) ∧
      (∀ s names, Selected a env t w s → t.resolve (w.root.join s.path) = .ok l →
        s.path.components = names.map .name → (l = r ++ names ↔ t.NoLinks r names)) ∧
      (w.isRepository = false → t.Proper → Run.Owns a env t l) := by
  cases hplan : (Plan.prepare a env t).2 with
  | error failure =>
    rw [tree_run_of_error hplan] at hl
    exact absurd rfl hl
  | ok plan =>
    obtain ⟨halike, hchanged⟩ := process_frame plan.workspace.root .fix
      (a.jobs.getD env.processors) env.schedule t plan.subjects
    rw [← tree_run_of_ok hfix hreport hplan] at halike hchanged
    obtain ⟨s, hs, hresolve⟩ := hchanged l hl
    have hselected := (Plan.mem_subjects_iff hplan).mp hs
    obtain ⟨config, haround, -, -⟩ := Plan.exists_of_prepare hplan
    obtain ⟨paths, hpaths, hpath⟩ := hselected.candidate
    obtain ⟨r, hr⟩ := Workspace.resolve_of_candidates hpaths
    constructor
    · rcases halike.entry? l with heq | hfiles
      · exact absurd heq.symm hl
      · exact hfiles
    · refine ⟨plan.workspace, r, haround, hr, ⟨s, hselected, hresolve⟩, ?_, ?_⟩
      · intro s' names _ hresolve' hnames
        exact FileTree.eq_append_iff_noLinks hr hnames hresolve'
      · -- Without a repository the candidates come from a walk, which passes no link.
        intro hdirectory ht
        cases hw : plan.workspace with
        | repository root =>
          rw [hw] at hdirectory
          cases hdirectory
        | directory root =>
          rw [hw] at hselected hr hresolve hpaths haround
          obtain ⟨names, hnames, hno⟩ := Workspace.noLinks_of_mem_walkFiles ht hpaths hpath hr
          exact ⟨.directory root, r, s, names, haround, hr, hselected, hnames,
            (FileTree.eq_append_iff_noLinks hr hnames hresolve).mpr hno⟩

theorem run_fix_frame_lonelyFile :
    Arguments.mode { fix := true } = .fix ∧ lonelyFile.Proper ∧
      (run { fix := true } { here := ⟨"/work"⟩ } lonelyFile).tree.entry? ["work", "a.rs"] ≠
        lonelyFile.entry? ["work", "a.rs"] ∧
      ∃ w r, Workspace.around lonelyFile ⟨"/work"⟩ false = .ok w ∧
        lonelyFile.resolve w.root = .ok r ∧
        Run.Owns { fix := true } { here := ⟨"/work"⟩ } lonelyFile ["work", "a.rs"] := by
  have hproper : lonelyFile.Proper := ⟨by decide, by decide⟩
  have hplan : (Plan.prepare { fix := true } { here := ⟨"/work"⟩ } lonelyFile).2 =
      .ok ⟨.directory ⟨"/work"⟩, [⟨⟨"a.rs"⟩, ⟨"//"⟩⟩], 0⟩ := by
    decide +kernel
  have hread : lonelyFile.readText (Path.join ⟨"/work"⟩ ⟨"a.rs"⟩) = .ok "fn a() {}\n".toList := by
    decide +kernel
  have hi : ¬ Header.Installed "//".toList "fn a() {}\n".toList := by decide +kernel
  have hl : lonelyFile.resolve (Path.join ⟨"/work"⟩ ⟨"a.rs"⟩) = .ok ["work", "a.rs"] := by
    decide +kernel
  have hchanged := entry?_run_fix_ne rfl rfl hplan (List.pairwise_singleton _ _)
    List.mem_cons_self (by decide +kernel) hread hi hl List.not_mem_nil
  have haround : Workspace.around lonelyFile ⟨"/work"⟩ false = .ok (.directory ⟨"/work"⟩) := by
    decide +kernel
  obtain ⟨-, w, r, hw, hr, -, -, howns⟩ := run_fix_frame rfl rfl hchanged
  cases haround.symm.trans hw
  exact ⟨rfl, hproper, hchanged, _, r, hw, hr, howns rfl hproper⟩

/-- A repository that holds nothing but a link to a file elsewhere. -/
def linkedTree : FileTree where
  entries :=
    [(["work"], .directory), (["work", ".git"], .directory),
      (["work", ".git", "HEAD"], FileTree.textEntry "ref: refs/heads/master\n".toList),
      (["work", ".git", "objects"], .directory), (["work", ".git", "refs"], .directory),
      (["work", "link.rs"], .link ⟨"/outside/secret.rs"⟩), (["outside"], .directory),
      (["outside", "secret.rs"], FileTree.textEntry "fn a() {}\n".toList)]

/-- Behind the link a file outside of the workspace is changed. -/
theorem run_fix_linkedTree :
    (run { fix := true } { here := ⟨"/work"⟩ } linkedTree).tree.entry? ["outside", "secret.rs"] ≠
        linkedTree.entry? ["outside", "secret.rs"] ∧
      ¬ Run.Owns { fix := true } { here := ⟨"/work"⟩ } linkedTree ["outside", "secret.rs"] := by
  constructor
  · have hplan : (Plan.prepare { fix := true } { here := ⟨"/work"⟩ } linkedTree).2 =
        .ok ⟨.repository ⟨"/work/"⟩, [⟨⟨"link.rs"⟩, ⟨"//"⟩⟩], 0⟩ := by
      decide +kernel
    have hread : linkedTree.readText (Path.join ⟨"/work/"⟩ ⟨"link.rs"⟩) =
        .ok "fn a() {}\n".toList := by
      decide +kernel
    have hi : ¬ Header.Installed "//".toList "fn a() {}\n".toList := by decide +kernel
    have hl : linkedTree.resolve (Path.join ⟨"/work/"⟩ ⟨"link.rs"⟩) =
        .ok ["outside", "secret.rs"] := by
      decide +kernel
    exact entry?_run_fix_ne rfl rfl hplan (List.pairwise_singleton _ _) List.mem_cons_self
      (by decide +kernel) hread hi hl List.not_mem_nil
  · rintro ⟨w, r, s, names, hw, hr, -, -, hpath⟩
    have haround : Workspace.around linkedTree ⟨"/work"⟩ false = .ok (.repository ⟨"/work/"⟩) := by
      decide +kernel
    have hroot : linkedTree.resolve ⟨"/work/"⟩ = .ok ["work"] := by decide +kernel
    cases haround.symm.trans hw
    cases hroot.symm.trans hr
    simp at hpath

end LicenseHeader
