import LicenseHeader.Proofs.Patch.Chain

/-!
# Scripts lead from text to text

Whatever points the search comes up with, the script that is put together from them leads from one
sequence of lines to the other. Only its length depends on the search.
-/

namespace LicenseHeader.Patch

open Text

/-! ### What lists have in common -/

section Common

variable {α : Type} [BEq α] [LawfulBEq α]

lemma take_commonStart (as bs : List α) :
    as.take (commonStart as bs) = bs.take (commonStart as bs) := by
  induction as generalizing bs with
  | nil => simp [commonStart]
  | cons a as ih =>
    cases bs with
    | nil => simp [commonStart]
    | cons b bs =>
      rw [commonStart]
      split_ifs with hab
      · rw [List.take_succ_cons, List.take_succ_cons, ih, eq_of_beq hab]
      · simp

omit [LawfulBEq α] in
lemma commonStart_le (as bs : List α) :
    commonStart as bs ≤ as.length ∧ commonStart as bs ≤ bs.length := by
  induction as generalizing bs with
  | nil => simp [commonStart]
  | cons a as ih =>
    cases bs with
    | nil => simp [commonStart]
    | cons b bs =>
      rw [commonStart]
      split_ifs with hab
      · simpa using ih bs
      · simp

omit [LawfulBEq α] in
lemma commonEnd_le (as bs : List α) :
    commonEnd as bs ≤ as.length ∧ commonEnd as bs ≤ bs.length := by
  simpa [commonEnd] using commonStart_le as.reverse bs.reverse

lemma drop_commonEnd (as bs : List α) :
    as.drop (as.length - commonEnd as bs) = bs.drop (bs.length - commonEnd as bs) := by
  have h := congrArg List.reverse (take_commonStart as.reverse bs.reverse)
  simpa [commonEnd, List.reverse_take] using h

end Common

/-! ### Parts of a list -/

/-- A part of a list stands behind its first `i` elements. -/
def Stands {α : Type} (l : List α) (i : Nat) (part : List α) : Prop :=
  slice l i part.length = part

section Stands

variable {α : Type} {l part : List α} {i : Nat}

lemma stands_self (l : List α) : Stands l 0 l := by
  simp [Stands, slice]

lemma Stands.take (h : Stands l i part) (k : Nat) : Stands l i (part.take k) := by
  rw [Stands, List.length_take]
  conv_rhs => rw [← h]
  rw [slice, slice, List.take_take]

lemma Stands.drop (h : Stands l i part) (k : Nat) : Stands l (i + k) (part.drop k) := by
  rw [Stands, List.length_drop]
  conv_rhs => rw [← h]
  rw [slice, slice, List.drop_take, List.drop_drop]

end Stands

/-! ### Scripts -/

variable {old new part old' new' : List Line} {i j i' j' : Nat}

lemma leads_editOf_keep (hold : Stands old i part) (hnew : Stands new j part) :
    Leads old new i j (editOf .keep i j part.length) (i + part.length) (j + part.length) := by
  rw [editOf]
  split_ifs with hzero
  · exact leads_nil.mpr (by simp [hzero])
  · exact leads_cons_keep.mpr
      ⟨⟨Nat.pos_of_ne_zero hzero, rfl, rfl, hold.trans hnew.symm⟩, leads_nil.mpr ⟨rfl, rfl⟩⟩

/-- Old lines may be replaced by any new ones. -/
lemma leads_replace (old new : List Line) (i j n m : Nat) :
    Leads old new i j (editOf .delete i j n ++ editOf .insert i j m) (i + n) (j + m) := by
  rw [leads_append]
  refine ⟨i + n, j, ?_, ?_⟩
  · rw [editOf]
    split_ifs with hzero
    · exact leads_nil.mpr (by simp [hzero])
    · exact leads_cons_delete.mpr ⟨⟨Nat.pos_of_ne_zero hzero, rfl⟩, leads_nil.mpr ⟨rfl, rfl⟩⟩
  · rw [editOf]
    split_ifs with hzero
    · exact leads_nil.mpr (by simp [hzero])
    · exact leads_cons_insert.mpr ⟨⟨Nat.pos_of_ne_zero hzero, rfl⟩, leads_nil.mpr ⟨rfl, rfl⟩⟩

lemma Leads.append {es fs : List Edit} {m n : Nat} (h : Leads old new i j es m n)
    (h' : Leads old new m n fs i' j') : Leads old new i j (es ++ fs) i' j' :=
  leads_append.mpr ⟨m, n, h, h'⟩

/-- The kept lines around what is not common to the starts and the ends of two parts. -/
lemma leads_around (hold : Stands old i old') (hnew : Stands new j new') {head tail : Nat}
    (hhead : head = commonStart old' new')
    (htail : tail = commonEnd (old'.drop head) (new'.drop head)) :
    Leads old new i j (editOf .keep i j head) (i + head) (j + head) ∧
      Leads old new (i + head + (old'.length - head - tail)) (j + head + (new'.length - head - tail))
        (editOf .keep (i + head + (old'.length - head - tail))
          (j + head + (new'.length - head - tail)) tail) (i + old'.length) (j + new'.length) := by
  obtain ⟨hle, hle'⟩ := commonStart_le old' new'
  have hstart := take_commonStart old' new'
  rw [← hhead] at hle hle' hstart
  obtain ⟨hle₂, hle₂'⟩ := commonEnd_le (old'.drop head) (new'.drop head)
  have hend := drop_commonEnd (old'.drop head) (new'.drop head)
  rw [← htail] at hle₂ hle₂' hend
  rw [List.length_drop, List.drop_drop, List.length_drop, List.drop_drop] at hend
  rw [List.length_drop] at hle₂ hle₂'
  constructor
  · have hkeep := leads_editOf_keep (hold.take head) (hstart ▸ hnew.take head)
    rwa [List.length_take, Nat.min_eq_left hle] at hkeep
  · have hkeep := leads_editOf_keep (hold.drop (head + (old'.length - head - tail)))
      (hend ▸ hnew.drop (head + (new'.length - head - tail)))
    have hlength : (old'.drop (head + (old'.length - head - tail))).length = tail := by
      rw [List.length_drop]
      omega
    rw [hlength, ← Nat.add_assoc, ← Nat.add_assoc] at hkeep
    convert hkeep using 1
    · omega
    · omega

/-- The script of two parts leads from one to the other. -/
lemma leads_script (hold : Stands old i old') (hnew : Stands new j new') :
    Leads old new i j (script i j old' new') (i + old'.length) (j + new'.length) := by
  induction hsize : old'.length + new'.length using Nat.strongRecOn
    generalizing i j old' new' with
  | _ size ih =>
    obtain ⟨head, hhead⟩ : ∃ head, head = commonStart old' new' := ⟨_, rfl⟩
    obtain ⟨tail, htail⟩ : ∃ tail, tail = commonEnd (old'.drop head) (new'.drop head) := ⟨_, rfl⟩
    have hn : ((old'.drop head).take (old'.length - head - tail)).length =
        old'.length - head - tail := by simp
    have hm : ((new'.drop head).take (new'.length - head - tail)).length =
        new'.length - head - tail := by simp
    have hold₁ := (hold.drop head).take (old'.length - head - tail)
    have hnew₁ := (hnew.drop head).take (new'.length - head - tail)
    obtain ⟨hbefore, hbehind⟩ := leads_around hold hnew hhead htail
    rw [script]
    simp only [← hhead, ← htail, hn, hm]
    refine (hbefore.append ?_).append hbehind
    split_ifs with hzero
    · exact leads_replace old new _ _ _ _
    · split
      case h_1 x y hpoint =>
        split_ifs with hguard
        · -- Both parts are smaller, so each of them has its script.
          obtain ⟨hpos, hx, hy, hlt⟩ := hguard
          have hfirst := ih _ (by simp; omega) (hold₁.take x) (hnew₁.take y) rfl
          have hsecond := ih _ (by simp; omega) (hold₁.drop x) (hnew₁.drop y) rfl
          rw [List.length_take, hn, Nat.min_eq_left hx, List.length_take, hm,
            Nat.min_eq_left hy] at hfirst
          rw [List.length_drop, hn, List.length_drop, hm] at hsecond
          convert hfirst.append hsecond using 1
          · omega
          · omega
        · exact leads_replace old new _ _ _ _
      case h_2 => exact leads_replace old new _ _ _ _

end LicenseHeader.Patch
