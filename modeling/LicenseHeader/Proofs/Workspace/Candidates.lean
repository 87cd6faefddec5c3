import LicenseHeader.Proofs.Failing
import LicenseHeader.Proofs.Path.Order
import LicenseHeader.Proofs.Workspace.Roots

/-!
# The order of candidates

The candidates of a workspace come in strictly increasing order, so that no file is listed twice.
-/

namespace LicenseHeader

variable {a : Account} {t : FileTree} {root : Path} {paths : List Path} {w : Workspace}

/-- No two entries of a proper tree stand at the same place below a location. -/
lemma FileTree.Proper.pairwise_below (ht : t.Proper) (l : Location) :
    (t.below l).Pairwise fun a b => a.1 ≠ b.1 := by
  have hentries : t.entries.Pairwise fun a b => a.1 ≠ b.1 := List.pairwise_map.mp ht.nodup
  rw [FileTree.below, List.pairwise_filterMap]
  refine hentries.imp fun hab m hm m' hm' heq => hab ?_
  split_ifs at hm hm' with hx hy
  cases hm
  cases hm'
  obtain ⟨rest, hrest⟩ := List.isPrefixOf_iff_prefix.mp (Bool.and_eq_true_iff.mp hx).1
  obtain ⟨rest', hrest'⟩ := List.isPrefixOf_iff_prefix.mp (Bool.and_eq_true_iff.mp hy).1
  rw [← hrest, ← hrest', List.drop_left, List.drop_left] at heq
  rw [← hrest, ← hrest']
  exact congrArg (l ++ ·) heq

/-- The path of an entry below a location tells its names. -/
lemma FileTree.Proper.components_of_mem_below (ht : t.Proper) {l : Location}
    {known : Location × Entry} (h : known ∈ t.below l) :
    (Path.ofComponents (known.1.map .name)).components = known.1.map .name := by
  apply Path.components_ofComponents
  intro n hn
  exact ht.isName _ (FileTree.mem_below_iff.mp h).2 n (List.mem_append_right l hn)

namespace Workspace

/-- A walk lists each file once. -/
lemma pairwise_walkFiles (ht : t.Proper) (h : walkFiles t root a = .ok paths) :
    paths.Pairwise fun p q => p.compare q = .lt := by
  rw [walkFiles] at h
  split at h
  · cases h
  case h_2 l hl =>
    split_ifs at h
    · cases h
      apply Path.pairwise_mergeSort_lt (f := id)
      apply List.pairwise_map.mpr
      refine (((ht.pairwise_below l).filter _).imp_of_mem fun hx hy hne heq => hne ?_)
      have hx' := ht.components_of_mem_below (List.mem_of_mem_filter hx)
      have hy' := ht.components_of_mem_below (List.mem_of_mem_filter hy)
      rw [id, id, hx', hy'] at heq
      exact List.map_injective_iff.mpr (fun m n hmn => Path.Component.name.inj hmn) heq
    · cases h
      exact List.pairwise_singleton _ _

/-- Files that a tree has in the order of paths are listed as they come. -/
lemma walkFiles_of_pairwise {l : Location} (hl : t.resolve root = .ok l) (hd : t.isDirectory l)
    (hfiles : ((t.below l).filter fun known =>
      isPlainFile known.2 && isReached t (.of a t root) l known.1).map
        (fun known => Path.ofComponents (known.1.map .name)) = paths)
    (hsorted : paths.Pairwise fun p q => p.le q) : walkFiles t root a = .ok paths := by
  rw [walkFiles, hl]
  dsimp only
  rw [if_pos hd, hfiles, Path.sort, List.mergeSort_of_pairwise hsorted]

lemma pairwise_listFiles (h : Repository.listFiles t root a = .ok paths) :
    paths.Pairwise fun p q => p.compare q = .lt := by
  rw [Repository.listFiles] at h
  obtain ⟨r, -, h⟩ := bind_eq_ok_iff.mp h
  obtain ⟨index, -, h⟩ := bind_eq_ok_iff.mp h
  split at h
  · cases h
  · cases h
    exact (Path.pairwise_sortUnique _).filter _

/-- The candidates of a workspace are listed in the order of paths, each of them once. -/
lemma pairwise_candidates (ht : t.Proper) (h : w.candidates t a = .ok paths) :
    paths.Pairwise fun p q => p.compare q = .lt := by
  cases w with
  | repository root => exact pairwise_listFiles h
  | directory root => exact pairwise_walkFiles ht h

end Workspace

end LicenseHeader
