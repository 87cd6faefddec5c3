import LicenseHeader.Patch.Hunk
import Mathlib.Data.List.Basic
import Mathlib.Tactic.Lemma

/-!
# Chains of blocks

A sequence of blocks leads from one text to another if each block starts where the one before it
stops, and keeps only what is in both. An extent without lines may claim to stand anywhere; nothing
is read at the place it names.
-/

namespace LicenseHeader.Patch

open Text

/-! ### Slices -/

section Slice

variable {α : Type} {l : List α} {i m n : Nat}

@[simp] lemma slice_zero (l : List α) (i : Nat) : slice l i 0 = [] := by
  simp [slice]

lemma length_slice (h : i + n ≤ l.length) : (slice l i n).length = n := by
  rw [slice, List.length_take, List.length_drop, Nat.min_eq_left (by omega)]

lemma slice_add (l : List α) (i m n : Nat) : slice l i (m + n) = slice l i m ++ slice l (i + m) n := by
  rw [slice, List.take_add, List.drop_drop, slice, slice]

lemma take_append_slice (l : List α) (i n : Nat) : l.take i ++ slice l i n = l.take (i + n) := by
  rw [List.take_add, slice]

lemma slice_append_drop (l : List α) (i n : Nat) : slice l i n ++ l.drop (i + n) = l.drop i := by
  rw [← List.drop_drop, slice, List.take_append_drop]

end Slice

/-! ### Blocks -/

variable {old new : List Line} {i j i' j' k n : Nat} {b : Block} {bs cs : List Block} {e : Edit}

/-- A block stands behind `i` old and `j` new lines. -/
structure Block.Fits (old new : List Line) (i j : Nat) (b : Block) : Prop where
  nonempty : 0 < b.old.size + b.new.size
  oldStart : 0 < b.old.size → b.old.start = i
  newStart : 0 < b.new.size → b.new.start = j
  kept : b.isKept → b.old.size = b.new.size ∧ slice old i b.old.size = slice new j b.new.size

/-- Blocks lead on from behind `i` old and `j` new lines to behind `i'` old and `j'` new ones. -/
def Chain (old new : List Line) : Nat → Nat → List Block → Nat → Nat → Prop
  | i, j, [], i', j' => i = i' ∧ j = j'
  | i, j, b :: bs, i', j' =>
    b.Fits old new i j ∧ Chain old new (i + b.old.size) (j + b.new.size) bs i' j'

lemma chain_append :
    Chain old new i j (bs ++ cs) i' j' ↔
      ∃ m n, Chain old new i j bs m n ∧ Chain old new m n cs i' j' := by
  induction bs generalizing i j with
  | nil => simp [Chain]
  | cons b bs ih => simp [Chain, ih, and_assoc]

/-- Blocks never lead back. -/
lemma Chain.le (h : Chain old new i j bs i' j') : i ≤ i' ∧ j ≤ j' := by
  induction bs generalizing i j with
  | nil => exact ⟨Nat.le_of_eq h.1, Nat.le_of_eq h.2⟩
  | cons b bs ih =>
    have hle := ih h.2
    omega

/-- A block that keeps lines tells where it stands. -/
lemma Block.Fits.start_of_isKept (h : b.Fits old new i j) (hb : b.isKept) :
    b.old.start = i ∧ b.new.start = j ∧ b.old.size = b.new.size ∧ 0 < b.old.size := by
  have hsize := (h.kept hb).1
  have hpos := h.nonempty
  exact ⟨h.oldStart (by omega), h.newStart (by omega), hsize, by omega⟩

lemma Block.Fits.oldLines_eq (h : b.Fits old new i j) : b.old.lines old = slice old i b.old.size := by
  rcases Nat.eq_zero_or_pos b.old.size with hzero | hpos
  · simp [Extent.lines, hzero]
  · rw [Extent.lines, h.oldStart hpos]

lemma Block.Fits.newLines_eq (h : b.Fits old new i j) : b.new.lines new = slice new j b.new.size := by
  rcases Nat.eq_zero_or_pos b.new.size with hzero | hpos
  · simp [Extent.lines, hzero]
  · rw [Extent.lines, h.newStart hpos]

/-! ### Edits -/

/-- The edits of a script lead on. -/
def Leads (old new : List Line) (i j : Nat) (es : List Edit) (i' j' : Nat) : Prop :=
  Chain old new i j (es.map Block.ofEdit) i' j'

lemma leads_nil : Leads old new i j [] i' j' ↔ i = i' ∧ j = j' := Iff.rfl

lemma leads_append {es fs : List Edit} :
    Leads old new i j (es ++ fs) i' j' ↔
      ∃ m n, Leads old new i j es m n ∧ Leads old new m n fs i' j' := by
  rw [Leads, List.map_append, chain_append]
  rfl

lemma leads_cons_keep {a b : Nat} {es : List Edit} :
    Leads old new i j (⟨.keep, a, b, n⟩ :: es) i' j' ↔
      (0 < n ∧ a = i ∧ b = j ∧ slice old i n = slice new j n) ∧
        Leads old new (i + n) (j + n) es i' j' := by
  apply and_congr_left'
  constructor
  · intro h
    obtain ⟨hi, hj, -, hpos⟩ := h.start_of_isKept rfl
    exact ⟨hpos, hi, hj, (h.kept rfl).2⟩
  · rintro ⟨hpos, rfl, rfl, hlines⟩
    exact ⟨Nat.add_pos_left hpos _, fun _ => rfl, fun _ => rfl, fun _ => ⟨rfl, hlines⟩⟩

lemma leads_cons_delete {a b : Nat} {es : List Edit} :
    Leads old new i j (⟨.delete, a, b, n⟩ :: es) i' j' ↔
      (0 < n ∧ a = i) ∧ Leads old new (i + n) j es i' j' := by
  apply and_congr_left'
  constructor
  · intro h
    have hpos : 0 < n := h.nonempty
    exact ⟨hpos, h.oldStart hpos⟩
  · rintro ⟨hpos, rfl⟩
    exact ⟨hpos, fun _ => rfl, fun h => absurd h (Nat.lt_irrefl 0), nofun⟩

lemma leads_cons_insert {a b : Nat} {es : List Edit} :
    Leads old new i j (⟨.insert, a, b, n⟩ :: es) i' j' ↔
      (0 < n ∧ b = j) ∧ Leads old new i (j + n) es i' j' := by
  apply and_congr_left'
  constructor
  · intro h
    have hpos : 0 < n := by simpa [Block.ofEdit, Edit.oldSize, Edit.newSize] using h.nonempty
    exact ⟨hpos, h.newStart hpos⟩
  · rintro ⟨hpos, rfl⟩
    refine ⟨?_, fun h => absurd h (Nat.lt_irrefl 0), fun _ => rfl, nofun⟩
    simpa [Block.ofEdit, Edit.oldSize, Edit.newSize] using hpos

end LicenseHeader.Patch
