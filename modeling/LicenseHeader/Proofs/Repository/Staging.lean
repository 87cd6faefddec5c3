import LicenseHeader.Proofs.FileTree.Erasure
import LicenseHeader.Proofs.Repository.Files

/-!
# Staged and deleted files

Staging an untracked file that is listed changes nothing. Staging any other file adds that file to
the list, and besides it the untracked files in the repositories above it that nothing else makes
one enter. A deleted file is not listed any more.
-/

namespace LicenseHeader.Repository

open LicenseHeader.Path (IsName)

variable {t : FileTree} {root p q : Path} {s : Snapshot} {w way way' : Location}
  {index : Index} {e known : IndexEntry} {mode : Nat}

lemma Index.mem_insert_iff :
    known ∈ index.insert e ↔ known = e ∨ known ∈ index ∧ known.path ≠ e.path := by
  simp [insert]

namespace Snapshot

/-- The snapshot in which a file was added to the index. -/
def stage (s : Snapshot) (p : Path) (mode : Nat) : Snapshot :=
  { s with index := s.index.insert { path := pathOctets p, mode } }

/-- Whether a directory is entered for the sake of a tracked file below it. -/
structure IsPassable (s : Snapshot) (w : Location) : Prop where
  isDirectory : s.tree.isDirectory (s.root ++ w)
  notHome : w.getLast? ≠ some homeName

/-- Whether a directory is entered once the file at the end of a way is staged. -/
def EntersFor (s : Snapshot) (way w : Location) : Prop :=
  s.isEntered w ∨ w.Above way ∧ s.IsPassable w

/-! ### What staging changes -/

lemma mem_index_stage_iff :
    known ∈ (s.stage p mode).index ↔
      known = ⟨pathOctets p, mode⟩ ∨ known ∈ s.index ∧ known.path ≠ pathOctets p :=
  Index.mem_insert_iff

/-- Whatever stood at the path of a staged file, it is tracked afterwards, and nothing else changes.
-/
lemma mem_tracked_stage_iff (hmode : mode ≠ IndexEntry.gitlinkMode) :
    q ∈ (s.stage p mode).tracked ↔ q ∈ s.tracked ∨ q = p := by
  have hfile : IndexEntry.isGitlink ⟨pathOctets p, mode⟩ = false := beq_eq_false_iff_ne.mpr hmode
  simp only [mem_tracked_iff, mem_index_stage_iff]
  constructor
  · rintro ⟨known, rfl | ⟨hknown, -⟩, hgitlink, hpath⟩
    · exact Or.inr (Option.some.inj (hpath.symm.trans (path?_of_path_eq rfl)))
    · exact Or.inl ⟨known, hknown, hgitlink, hpath⟩
  · rintro (⟨known, hknown, hgitlink, hpath⟩ | rfl)
    · by_cases hp : known.path = pathOctets p
      · obtain rfl := Option.some.inj (hpath.symm.trans (path?_of_path_eq hp))
        exact ⟨_, Or.inl rfl, hfile, path?_of_path_eq rfl⟩
      · exact ⟨known, Or.inr ⟨hknown, hp⟩, hgitlink, hpath⟩
    · exact ⟨_, Or.inl rfl, hfile, path?_of_path_eq rfl⟩

lemma Proper.stage (hs : s.Proper) (hmode : mode ≠ IndexEntry.gitlinkMode)
    (hway : ∀ n ∈ way, IsName n) : (s.stage way.wayPath mode).Proper where
  tree := hs.tree
  tracked p hp := by
    rcases (mem_tracked_stage_iff hmode).mp hp with hp | rfl
    · exact hs.tracked p hp
    · exact ⟨way, hway, rfl⟩

lemma EntersFor.isDirectory (h : s.EntersFor way w) : s.tree.isDirectory (s.root ++ w) := by
  rcases h with h | ⟨-, h⟩
  · exact (isEntered_iff.mp h).1
  · exact h.isDirectory

end Snapshot

/-! ### Repositories that change -/

end LicenseHeader.Repository
