import LicenseHeader.Proofs.Path.Components
import LicenseHeader.Repository.Listing

/-!
# Ways as octets

The index knows an entry of the working tree by the octets of its path. They tell the path, and they
tell whether the entry stands below a directory: no character starts with the octets of another one,
and no name holds a separator.
-/

namespace LicenseHeader

open LicenseHeader.Path (IsName)

/-! ### Octets of characters -/

namespace Text

variable {as bs : List Char}

/-- The octets of some characters. -/
def octets (cs : List Char) : List UInt8 :=
  cs.flatMap String.utf8EncodeChar

end Text

namespace Location

variable {w way : Location}

/-- The path that goes a way from where it starts. -/
def wayPath (way : Location) : Path :=
  .ofComponents (way.map .name)

/-- Whether one comes by a directory on a way to somewhere else. -/
def Above (w way : Location) : Prop :=
  w ≠ [] ∧ ∃ rest, rest ≠ [] ∧ way = w ++ rest

lemma Above.mem {n : String} (h : w.Above way) (hn : n ∈ w) : n ∈ way := by
  obtain ⟨-, rest, -, rfl⟩ := h
  exact List.mem_append_left rest hn

lemma Above.isName (h : w.Above way) (hway : ∀ n ∈ way, IsName n) : ∀ n ∈ w, IsName n :=
  fun n hn => hway n (h.mem hn)

end Location

/-! ### Octets of ways -/

namespace Repository.Snapshot

variable {w way : Location}

lemma path?_of_path_eq {e : IndexEntry} {p : Path} (h : e.path = pathOctets p) :
    e.path? = some p := by
  rw [IndexEntry.path?, h, Option.map_eq_some_iff]
  exact ⟨p.text, dif_pos p.text.isValidUTF8, rfl⟩

end Repository.Snapshot

end LicenseHeader
