import LicenseHeader.Proofs.Failing
import LicenseHeader.Proofs.FileTree.Resolution
import LicenseHeader.Proofs.Path.Order
import LicenseHeader.Proofs.Repository.Ignored

/-!
# The files of a repository

What is listed for a repository depends on a snapshot of it. The list is strictly increasing in the
order of paths, and it holds exactly the tracked files and the untracked ones, as far as they are
there.
-/

namespace LicenseHeader.Repository

open LicenseHeader.Path (IsName)

variable {a : Account} {t : FileTree} {root p : Path} {paths : List Path} {s : Snapshot}
  {w way : Location}

namespace Snapshot

def files (s : Snapshot) (root : Path) : List Path :=
  (Path.sortUnique (s.tracked ++ s.untracked)).filter fun p => s.tree.isFile (root.join p)

/-- Whether a repository can be in such a state: a file system can hold the tree, and a path of a
tracked file consists of names with separators between them. -/
structure Proper (s : Snapshot) : Prop where
  tree : s.tree.Proper
  tracked : ∀ p ∈ s.tracked, ∃ way : Location, (∀ n ∈ way, IsName n) ∧ p = way.wayPath

/-- Whether a file or a link stands somewhere of which the index knows nothing. -/
structure Unindexed (s : Snapshot) (way : Location) : Prop where
  stands : ∃ e, (way, e) ∈ s.tree.below s.root ∧ e ≠ .directory
  notTracked : ∀ e ∈ s.index, e.path ≠ octets way
  /-- The file does not belong to a tracked repository. -/
  notBelowGitlink : ∀ e ∈ s.index, e.isGitlink → ∀ w ∈ way.waypoints, e.path ≠ octets w

lemma Unindexed.ne_nil (h : s.Unindexed way) : way ≠ [] := by
  obtain ⟨e, hbelow, -⟩ := h.stands
  exact (FileTree.mem_below_iff.mp hbelow).1

lemma Unindexed.isName (h : s.Unindexed way) (hs : s.Proper) : ∀ n ∈ way, IsName n := by
  obtain ⟨e, hbelow, -⟩ := h.stands
  intro n hn
  exact hs.tree.isName _ (FileTree.mem_below_iff.mp hbelow).2 n (List.mem_append_right s.root hn)

lemma mem_tracked_iff :
    p ∈ s.tracked ↔ ∃ e ∈ s.index, e.isGitlink = false ∧ e.path? = some p := by
  simp [tracked, and_assoc]

lemma isEntered_iff :
    s.isEntered w ↔ s.tree.isDirectory (s.root ++ w) ∧ w.getLast? ≠ some homeName ∧
      (s.Holds w ∨ s.isIgnored w true = false ∧
        s.tree.contains (s.root ++ w ++ [homeName] : Location).path = false) := by
  simp only [isEntered, Bool.and_eq_true, Bool.or_eq_true, Bool.not_eq_true', bne_iff_ne,
    and_assoc, ne_eq, holdsTracked_iff]

end Snapshot

end LicenseHeader.Repository
