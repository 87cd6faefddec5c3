import LicenseHeader.Proofs.FileTree.Links
import LicenseHeader.Workspace.Basic
import Mathlib.Data.List.Basic

/-!
# Candidates and the root of a workspace

Only a workspace whose root is there has candidates. In a directory without a repository no
candidate stands behind a link.
-/

namespace LicenseHeader

namespace Workspace

variable {a : Account} {t : FileTree} {root p : Path} {paths : List Path} {w : Workspace}

/-- A walk reaches files through directories only. -/
lemma isDirectory_of_isReached {rules : WalkRules} {l way : Location}
    (h : isReached t rules l way) {n : Nat} (hpos : 0 < n) (hn : n < way.length) :
    t.isDirectory (l ++ way.take n) := by
  have hmem : way.take n ∈ Location.waypoints way := by
    rw [Location.waypoints, List.mem_map]
    refine ⟨n - 1, List.mem_range.mpr (by omega), ?_⟩
    rw [Nat.sub_add_cancel hpos]
  have hne : way.take n ≠ way := by
    intro heq
    have := congrArg List.length heq
    rw [List.length_take] at this
    omega
  have hall := List.all_eq_true.mp h _ hmem
  simp [hne] at hall
  exact hall.2

/-- A walk comes to files only, and through directories only. -/
lemma noLinks_of_isReached (ht : t.Proper) {rules : WalkRules} {l way : Location}
    (hl : t.isDirectory l) {e : Entry} (hmem : (way, e) ∈ t.below l) (he : isPlainFile e)
    (h : isReached t rules l way) : t.NoLinks l way := by
  intro n hn target hlink
  obtain ⟨hne, hmem⟩ := FileTree.mem_below_iff.mp hmem
  rcases Nat.eq_zero_or_pos n with rfl | hpos
  · rw [List.take_zero, List.append_nil] at hlink
    simp [FileTree.isDirectory, hlink] at hl
  · rcases Nat.lt_or_ge n way.length with hlt | hge
    · have hdirectory := isDirectory_of_isReached h hpos hlt
      simp [FileTree.isDirectory, hlink] at hdirectory
    · rw [List.take_of_length_le hge, ht.entry?_of_mem (by simp [hne]) hmem] at hlink
      cases hlink
      cases he

lemma resolve_of_walkFiles (h : walkFiles t root a = .ok paths) : ∃ r, t.resolve root = .ok r := by
  rw [walkFiles] at h
  split at h
  · cases h
  case h_2 r hr => exact ⟨r, hr⟩

/-- No candidate in a directory stands behind a link. -/
lemma noLinks_of_mem_walkFiles (ht : t.Proper) (h : walkFiles t root a = .ok paths) (hp : p ∈ paths)
    {r : Location} (hr : t.resolve root = .ok r) :
    ∃ names, p.components = names.map .name ∧ t.NoLinks r names := by
  rw [walkFiles, hr] at h
  dsimp only at h
  split_ifs at h with hdirectory
  · cases h
    rw [Path.sort, (List.mergeSort_perm _ _).mem_iff, List.mem_map] at hp
    obtain ⟨⟨way, e⟩, hknown, rfl⟩ := hp
    obtain ⟨hmem, hfile⟩ := List.mem_filter.mp hknown
    obtain ⟨hplain, hreached⟩ := Bool.and_eq_true_iff.mp hfile
    refine ⟨way, Path.components_ofComponents fun n hn => ?_,
      noLinks_of_isReached ht hdirectory hmem hplain hreached⟩
    exact ht.isName _ (FileTree.mem_below_iff.mp hmem).2 n (List.mem_append_right r hn)
  · cases h
    rw [List.mem_singleton.mp hp]
    refine ⟨[], by decide, FileTree.noLinks_of_reached ?_ ?_⟩
    · rw [List.append_nil]
      exact FileTree.reached_of_resolve hr
    · rw [List.append_nil]
      exact FileTree.not_link_of_resolve hr

/-- A workspace with candidates has a root. -/
lemma resolve_of_candidates (h : w.candidates t a = .ok paths) : ∃ r, t.resolve w.root = .ok r := by
  cases w with
  | directory root => exact resolve_of_walkFiles h
  | repository root =>
    rw [candidates, Repository.listFiles, Repository.openAt, Repository.open?] at h
    cases hr : t.resolve root with
    | ok r => exact ⟨r, hr⟩
    | error fault =>
      rw [hr] at h
      cases fault <;> cases h

end Workspace

end LicenseHeader
