import LicenseHeader.Proofs.FileTree.Content
import LicenseHeader.Proofs.Run.Course

/-!
# Runs that end before the work

Whatever goes wrong while a run is prepared, no file is touched and nothing is said on the output
stream. In particular a single gap in the policy ends the run, whether or not the arguments name the
file, and all gaps are reported.
-/

namespace LicenseHeader

open Plan (Setting)

variable {a : Arguments} {env : Environment} {t : FileTree} {w : Workspace} {policy : Policy}
  {p : Path} {paths gaps : List Path} {failure : Failure}

lemma tree_run_of_isEarly (h : (run a env t).result = .error failure) (hearly : failure.IsEarly) :
    (run a env t).tree = t := by
  rw [run_of_error (run_eq_error_isEarly_iff.mp ⟨h, hearly⟩)]

lemma said_run_of_isEarly (h : (run a env t).result = .error failure) (hearly : failure.IsEarly)
    (voice : Console.Voice) : (run a env t).said voice .output = "" := by
  rw [run_of_error (run_eq_error_isEarly_iff.mp ⟨h, hearly⟩)]
  exact Console.said_output_eq_empty (fun m hm => (Plan.remark_of_mem_prepare hm).stream_eq) voice

/-- A run that fails before its work leaves the tree as it was, the files for the patches and for
the report document included, and says nothing on the output stream. If it fails because of gaps, it
names exactly the candidates about which the policy says nothing, in the order of paths. Wherever
there is such a candidate, the run does end in this way, whatever files the arguments name. -/
theorem run_early_end (ht : t.Proper) (a : Arguments) (env : Environment) :
    (∀ failure, (run a env t).result = .error failure → failure.IsEarly →
      (run a env t).tree = t ∧ (∀ voice, (run a env t).said voice .output = "") ∧
      ∀ gaps, failure = .gaps gaps → ∃ w policy paths, Setting a env t w policy paths ∧
        gaps ≠ [] ∧ gaps.Pairwise (fun p q => p.compare q = .lt) ∧
        ∀ p, p ∈ gaps ↔ p ∈ paths ∧ policy.action? p = none) ∧
    ∀ w policy paths, Setting a env t w policy paths →
      (∃ p ∈ paths, policy.action? p = none) →
        ∃ gaps, (run a env t).result = .error (.gaps gaps) := by
  constructor
  · intro failure h hearly
    refine ⟨tree_run_of_isEarly h hearly, said_run_of_isEarly h hearly, fun gaps hgaps => ?_⟩
    have hobstacle := Plan.obstacle_of_prepare (run_eq_error_isEarly_iff.mp ⟨h, hearly⟩)
    rw [hgaps] at hobstacle
    cases hobstacle with
    | gaps w policy paths gaps hsetting hclassify =>
      obtain ⟨rfl, hne⟩ := Policy.classify_eq_error_iff.mp hclassify
      refine ⟨w, policy, paths, hsetting, hne, ?_, fun p => Policy.mem_gaps_iff⟩
      exact (Workspace.pairwise_candidates ht hsetting.candidates).filter _
  · rintro w policy paths hsetting ⟨p, hp, hgap⟩
    have hmem : p ∈ policy.gaps paths := Policy.mem_gaps_iff.mpr ⟨hp, hgap⟩
    have hclassify := Policy.classify_eq_error_iff.mpr ⟨rfl, List.ne_nil_of_mem hmem⟩
    have hprepare := Plan.prepare_of_gaps hsetting hclassify
    exact ⟨_, (run_eq_error_isEarly_iff.mpr hprepare).1⟩

/-- A directory with a file about which the builtin rules say nothing. -/
def strangeFile : FileTree where
  entries :=
    [(["work"], .directory), (["work", "a.rs"], FileTree.textEntry "fn a() {}\n".toList),
      (["work", "data.bin"], FileTree.textEntry "0".toList)]

lemma candidates_strangeFile :
    Workspace.candidates strangeFile (.directory ⟨"/work"⟩) = .ok [⟨"a.rs"⟩, ⟨"data.bin"⟩] := by
  show Workspace.walkFiles strangeFile ⟨"/work"⟩ = _
  apply Workspace.walkFiles_of_pairwise (l := ["work"])
  all_goals decide +kernel

lemma exists_policy_strangeFile :
    ∃ policy, Config.policy none = .ok policy ∧ policy.action? ⟨"data.bin"⟩ = none := by
  have h : (Config.policy none).map (fun policy => policy.action? ⟨"data.bin"⟩) = .ok none := by
    decide +kernel
  exact map_eq_ok_iff.mp h

/-- The run ends although it was asked to fix the other file only. -/
theorem run_early_end_strangeFile :
    strangeFile.Proper ∧
      ∃ policy, Setting { fix := true, files := [⟨"a.rs"⟩], reportJson := some ⟨"r.json"⟩ }
          { here := ⟨"/work"⟩ } strangeFile (.directory ⟨"/work"⟩) policy
            [⟨"a.rs"⟩, ⟨"data.bin"⟩] ∧
        policy.action? ⟨"data.bin"⟩ = none ∧
        (∃ gaps, (run { fix := true, files := [⟨"a.rs"⟩], reportJson := some ⟨"r.json"⟩ }
          { here := ⟨"/work"⟩ } strangeFile).result = .error (.gaps gaps)) ∧
        (run { fix := true, files := [⟨"a.rs"⟩], reportJson := some ⟨"r.json"⟩ }
          { here := ⟨"/work"⟩ } strangeFile).tree = strangeFile := by
  have ht : strangeFile.Proper := ⟨by decide, by decide⟩
  have haround : Workspace.around strangeFile ⟨"/work"⟩ false = .ok (.directory ⟨"/work"⟩) := by
    decide +kernel
  have hload : (Config.Search.load { here := ⟨"/work"⟩, root := ⟨"/work"⟩ } strangeFile false).2 =
      .ok none := by
    decide +kernel
  obtain ⟨policy, hpolicy, hgap⟩ := exists_policy_strangeFile
  obtain ⟨hend, hbegin⟩ := run_early_end ht
    { fix := true, files := [⟨"a.rs"⟩], reportJson := some ⟨"r.json"⟩ } { here := ⟨"/work"⟩ }
  have hsetting : Setting { fix := true, files := [⟨"a.rs"⟩], reportJson := some ⟨"r.json"⟩ }
      { here := ⟨"/work"⟩ } strangeFile (.directory ⟨"/work"⟩) policy
        [⟨"a.rs"⟩, ⟨"data.bin"⟩] :=
    ⟨haround, ⟨none, hload, hpolicy⟩, candidates_strangeFile⟩
  obtain ⟨gaps, hgaps⟩ := hbegin _ policy _ hsetting ⟨⟨"data.bin"⟩, by simp, hgap⟩
  exact ⟨ht, policy, hsetting, hgap, ⟨gaps, hgaps⟩, (hend _ hgaps trivial).1⟩

end LicenseHeader
