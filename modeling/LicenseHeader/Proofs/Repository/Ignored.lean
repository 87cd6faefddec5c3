import LicenseHeader.Proofs.Repository.Ways
import Mathlib.Data.List.Induction

/-!
# Ignored entries

An entry is ignored by a rule about itself or about a directory above it, unless a rule further down
the way takes it in again. Strictly, nothing can be taken in again below an ignored directory: what
is excluded stays so.
-/

namespace LicenseHeader.Repository.Snapshot

open LicenseHeader.Path (IsName)

variable {s : Snapshot} {w way : Location} {isDirectory : Bool}

/-- Whether an index entry stands below a directory. -/
def Holds (s : Snapshot) (w : Location) : Prop :=
  ∃ e ∈ s.index, octets w ++ "/".toUTF8.data.toList <+: e.path

lemma holdsTracked_iff : s.holdsTracked w ↔ s.Holds w := by
  simp only [holdsTracked, List.any_eq_true, List.isPrefixOf_iff_prefix, Holds]

/-! ### The last word -/

end LicenseHeader.Repository.Snapshot
