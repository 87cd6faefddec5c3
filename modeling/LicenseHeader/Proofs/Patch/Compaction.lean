import LicenseHeader.Proofs.Patch.Script

/-!
# Moves keep a script valid

Wherever edits are moved, the script leads from the old lines to the new ones as before. A deletion
and an insertion that change places cover the same lines as before, although the places that they
name in the other sequence do not follow.
-/

namespace LicenseHeader.Patch

open Text

variable {old new : List Line} {i j i' j' n : Nat} {e x : Edit} {es before after : List Edit}

/-! ### Slices with something in common -/

section Slice

variable {α : Type}

lemma drop_slice (l : List α) (i s k : Nat) : (slice l i s).drop k = slice l (i + k) (s - k) := by
  rw [slice, slice, List.drop_take, List.drop_drop]

lemma take_slice (l : List α) {i s k : Nat} (h : k ≤ s) : (slice l i s).take k = slice l i k := by
  rw [slice, slice, List.take_take, Nat.min_eq_left h]

variable [BEq α] [LawfulBEq α] {l m : List α} {s t : Nat}

/-- What the starts of two slices have in common is a slice of both. -/
lemma slice_commonStart (hl : i + s ≤ l.length) (hm : j + t ≤ m.length) :
    commonStart (slice l i s) (slice m j t) ≤ s ∧ commonStart (slice l i s) (slice m j t) ≤ t ∧
      slice l i (commonStart (slice l i s) (slice m j t)) =
        slice m j (commonStart (slice l i s) (slice m j t)) := by
  have hle := commonStart_le (slice l i s) (slice m j t)
  have htake := take_commonStart (slice l i s) (slice m j t)
  rw [length_slice hl, length_slice hm] at hle
  rw [take_slice l hle.1, take_slice m hle.2] at htake
  exact ⟨hle.1, hle.2, htake⟩

/-- What the ends of two slices have in common is a slice of both. -/
lemma slice_commonEnd (hl : i + s ≤ l.length) (hm : j + t ≤ m.length) :
    commonEnd (slice l i s) (slice m j t) ≤ s ∧ commonEnd (slice l i s) (slice m j t) ≤ t ∧
      slice l (i + (s - commonEnd (slice l i s) (slice m j t)))
          (commonEnd (slice l i s) (slice m j t)) =
        slice m (j + (t - commonEnd (slice l i s) (slice m j t)))
          (commonEnd (slice l i s) (slice m j t)) := by
  have hle := commonEnd_le (slice l i s) (slice m j t)
  have hdrop := drop_commonEnd (slice l i s) (slice m j t)
  rw [length_slice hl, length_slice hm] at hle hdrop
  rw [drop_slice, drop_slice, Nat.sub_sub_self hle.1, Nat.sub_sub_self hle.2] at hdrop
  exact ⟨hle.1, hle.2, hdrop⟩

end Slice

/-! ### Neighbouring edits -/

lemma Leads.le {es : List Edit} (h : Leads old new i j es i' j') : i ≤ i' ∧ j ≤ j' :=
  Chain.le h

lemma Leads.size_ne_zero {fs : List Edit} (h : Leads old new i j (es ++ e :: fs) i' j') :
    e.size ≠ 0 := by
  obtain ⟨m, n, -, hfits, -⟩ := leads_append.mp h
  have hpos := hfits.nonempty
  intro hzero
  simp [Block.ofEdit, Edit.oldSize, Edit.newSize, hzero] at hpos

/-- What stands behind some edits may be exchanged for what leads to the same place. -/
lemma Leads.exchange {fs gs : List Edit} (h : Leads old new i j (es ++ fs) i' j')
    (hfs : ∀ m n, Leads old new m n fs i' j' → Leads old new m n gs i' j') :
    Leads old new i j (es ++ gs) i' j' := by
  obtain ⟨m, n, hes, hrest⟩ := leads_append.mp h
  exact hes.append (hfs m n hrest)

/-- An edit takes up the next one of its own kind. -/
lemma Leads.merge (h : Leads old new i j (e :: x :: es) i' j') (hkind : e.kind = x.kind) :
    Leads old new i j (e.grow x.size :: es) i' j' := by
  obtain ⟨kind, a, b, s⟩ := e
  obtain ⟨kind', c, d, t⟩ := x
  obtain rfl : kind = kind' := hkind
  change Leads old new i j (⟨kind, a, b, s + t⟩ :: es) i' j'
  cases kind with
  | keep =>
    obtain ⟨⟨hs, rfl, rfl, hlines⟩, hnext⟩ := leads_cons_keep.mp h
    obtain ⟨⟨ht, -, -, hlines'⟩, hrest⟩ := leads_cons_keep.mp hnext
    rw [Nat.add_assoc, Nat.add_assoc] at hrest
    refine leads_cons_keep.mpr ⟨⟨by omega, rfl, rfl, ?_⟩, hrest⟩
    rw [slice_add, slice_add, hlines, hlines']
  | delete =>
    obtain ⟨⟨hs, rfl⟩, hnext⟩ := leads_cons_delete.mp h
    obtain ⟨⟨ht, -⟩, hrest⟩ := leads_cons_delete.mp hnext
    rw [Nat.add_assoc] at hrest
    exact leads_cons_delete.mpr ⟨⟨by omega, rfl⟩, hrest⟩
  | insert =>
    obtain ⟨⟨hs, rfl⟩, hnext⟩ := leads_cons_insert.mp h
    obtain ⟨⟨ht, -⟩, hrest⟩ := leads_cons_insert.mp hnext
    rw [Nat.add_assoc] at hrest
    exact leads_cons_insert.mpr ⟨⟨by omega, rfl⟩, hrest⟩

/-- A deletion and an insertion may change places. -/
lemma Leads.swap (h : Leads old new i j (e :: x :: es) i' j') (he : e.kind ≠ .keep)
    (hx : x.kind ≠ .keep) (hkind : e.kind ≠ x.kind) : Leads old new i j (x :: e :: es) i' j' := by
  obtain ⟨kind, a, b, s⟩ := e
  obtain ⟨kind', c, d, t⟩ := x
  cases kind with
  | keep => exact absurd rfl he
  | delete =>
    cases kind' with
    | keep => exact absurd rfl hx
    | delete => exact absurd rfl hkind
    | insert =>
      obtain ⟨hdelete, h⟩ := leads_cons_delete.mp h
      obtain ⟨hinsert, h⟩ := leads_cons_insert.mp h
      exact leads_cons_insert.mpr ⟨hinsert, leads_cons_delete.mpr ⟨hdelete, h⟩⟩
  | insert =>
    cases kind' with
    | keep => exact absurd rfl hx
    | delete =>
      obtain ⟨hinsert, h⟩ := leads_cons_insert.mp h
      obtain ⟨hdelete, h⟩ := leads_cons_delete.mp h
      exact leads_cons_delete.mpr ⟨hdelete, leads_cons_insert.mpr ⟨hinsert, h⟩⟩
    | insert => exact absurd rfl hkind

/-- Only an insertion has lines in common with the kept ones around it. -/
lemma kind_eq_insert (hx : x.kind ≠ .keep) {lines : List Line}
    (h : 0 < commonEnd lines (x.newLines new) ∨ 0 < commonStart lines (x.newLines new)) :
    x.kind = .insert := by
  obtain ⟨kind, a, b, s⟩ := x
  cases kind with
  | keep => exact absurd rfl hx
  | delete =>
    have hnil : Edit.newLines new ⟨.delete, a, b, s⟩ = [] := slice_zero new b
    rw [hnil] at h
    have hend := (commonEnd_le lines []).2
    have hstart := (commonStart_le lines []).2
    simp only [List.length_nil] at hend hstart
    omega
  | insert => rfl

/-- Kept lines may be given to the kept edit behind them. -/
lemma leads_keepBefore {a b : Nat} (h : Leads old new i j (⟨.keep, a, b, n⟩ :: es) i' j') :
    Leads old new i j (keepBefore a b n es) i' j' := by
  cases es with
  | nil => exact h
  | cons e es =>
    rw [keepBefore]
    split_ifs with he
    · obtain ⟨kind, c, d, s⟩ := e
      obtain rfl : kind = .keep := he
      have hmerge := h.merge rfl
      obtain ⟨⟨-, rfl, rfl, -⟩, hnext⟩ := leads_cons_keep.mp h
      obtain ⟨⟨-, rfl, rfl, -⟩, -⟩ := leads_cons_keep.mp hnext
      simpa [Edit.shiftUp, Edit.grow, Nat.add_comm] using hmerge
    · exact h

/-- Kept lines may be given to the kept edit in front of them. -/
lemma leads_keepBehind {a b : Nat}
    (h : Leads old new i j (before.reverse ++ ⟨.keep, a, b, n⟩ :: es) i' j') :
    Leads old new i j ((keepBehind a b n before).reverse ++ es) i' j' := by
  cases before with
  | nil => simpa [keepBehind] using h
  | cons e before =>
    rw [keepBehind]
    split_ifs with he
    · rw [List.reverse_cons, List.append_assoc, List.singleton_append] at h ⊢
      exact h.exchange fun _ _ hrest => hrest.merge he
    · simpa using h

lemma leads_consNonempty (h : e.size = 0 → Leads old new i j es i' j')
    (h' : e.size ≠ 0 → Leads old new i j (e :: es) i' j') :
    Leads old new i j (consNonempty e es) i' j' := by
  rw [consNonempty]
  split_ifs with hzero
  · exact h hzero
  · exact h' hzero

lemma reverse_consNonempty (e : Edit) (before es : List Edit) :
    (consNonempty e before).reverse ++ es = before.reverse ++ consNonempty e es := by
  rw [consNonempty, consNonempty]
  split_ifs <;> simp

/-- An insertion goes up by the lines that its end has in common with the kept ones above. -/
lemma Leads.shiftUp (h : Leads old new i j (e :: x :: after) i' j') (hi : i' ≤ old.length)
    (hj : j' ≤ new.length) (he : e.kind = .keep) (hx : x.kind = .insert)
    (hn : n = commonEnd (e.oldLines old) (x.newLines new)) (hpos : 0 < n) :
    Leads old new i j (consNonempty (e.shrink n) (x.shiftUp n ::
      keepBefore (e.oldStart + e.size - n) (x.newStart + x.newSize - n) n after)) i' j' := by
  obtain ⟨kind, a, b, s⟩ := e
  obtain ⟨kind', c, d, t⟩ := x
  obtain rfl : kind = .keep := he
  obtain rfl : kind' = .insert := hx
  obtain ⟨⟨hs, rfl, rfl, hlines⟩, hnext⟩ := leads_cons_keep.mp h
  obtain ⟨⟨ht, rfl⟩, hrest⟩ := leads_cons_insert.mp hnext
  have hle := hrest.le
  obtain ⟨hns, hnt, hcommon⟩ := slice_commonEnd (l := old) (m := new) (i := a) (s := s)
    (j := b + s) (t := t) (by omega) (by omega)
  change n = commonEnd (slice old a s) (slice new (b + s) t) at hn
  rw [← hn] at hns hnt hcommon
  have hkeep : Leads old new (a + (s - n)) (b + s + (t - n))
      (⟨.keep, a + s - n, b + s + t - n, n⟩ :: after) i' j' := by
    refine leads_cons_keep.mpr ⟨⟨hpos, by omega, by omega, hcommon⟩, ?_⟩
    convert hrest using 1
    · omega
    · omega
  have hinsert : Leads old new (a + (s - n)) (b + (s - n))
      (⟨.insert, c - n, b + s - n, t⟩ :: keepBefore (a + s - n) (b + s + t - n) n after) i' j' := by
    refine leads_cons_insert.mpr ⟨⟨ht, by omega⟩, leads_keepBefore ?_⟩
    convert hkeep using 1
    omega
  apply leads_consNonempty
  · intro hzero
    have hzero : s - n = 0 := hzero
    rw [hzero] at hinsert
    exact hinsert
  · intro hne
    refine leads_cons_keep.mpr ⟨⟨Nat.pos_of_ne_zero hne, rfl, rfl, ?_⟩, hinsert⟩
    rw [← take_slice old (Nat.sub_le s n), hlines, take_slice new (Nat.sub_le s n)]

/-- An insertion goes down by the lines that its start has in common with the kept ones below. -/
lemma Leads.shiftDown (h : Leads old new i j (x :: e :: after) i' j') (hi : i' ≤ old.length)
    (hj : j' ≤ new.length) (he : e.kind = .keep) (hx : x.kind = .insert)
    (hn : n = commonStart (e.oldLines old) (x.newLines new)) (hpos : 0 < n) :
    Leads old new i j (⟨.keep, e.oldStart, x.newStart, n⟩ :: x.shiftDown n ::
      consNonempty ((e.shiftDown n).shrink n) after) i' j' := by
  obtain ⟨kind, a, b, s⟩ := e
  obtain ⟨kind', c, d, t⟩ := x
  obtain rfl : kind = .keep := he
  obtain rfl : kind' = .insert := hx
  obtain ⟨⟨ht, rfl⟩, hnext⟩ := leads_cons_insert.mp h
  obtain ⟨⟨hs, rfl, rfl, hlines⟩, hrest⟩ := leads_cons_keep.mp hnext
  have hle := hrest.le
  obtain ⟨hns, hnt, hcommon⟩ := slice_commonStart (l := old) (m := new) (i := a) (s := s)
    (j := d) (t := t) (by omega) (by omega)
  change n = commonStart (slice old a s) (slice new d t) at hn
  rw [← hn] at hns hnt hcommon
  change Leads old new a d (⟨.keep, a, d, n⟩ :: ⟨.insert, c + n, d + n, t⟩ ::
    consNonempty ⟨.keep, a + n, d + t + n, s - n⟩ after) i' j'
  refine leads_cons_keep.mpr ⟨⟨hpos, rfl, rfl, hcommon⟩,
    leads_cons_insert.mpr ⟨⟨ht, rfl⟩, leads_consNonempty ?_ ?_⟩⟩
  · intro hzero
    have hzero : s - n = 0 := hzero
    convert hrest using 1
    · omega
    · omega
  · intro hne
    refine leads_cons_keep.mpr ⟨⟨Nat.pos_of_ne_zero hne, rfl, by omega, ?_⟩, ?_⟩
    · have hdrop := congrArg (List.drop n) hlines
      rw [drop_slice, drop_slice] at hdrop
      convert hdrop using 2
      omega
    · convert hrest using 1
      · omega
      · omega

/-! ### Moves -/

/-- Moving an edit up keeps the script one that leads from the old text to the new one. -/
lemma leads_moveUp (hkind : x.kind ≠ .keep)
    (h : Leads old new i j (before.reverse ++ x :: after) i' j') (hi : i' ≤ old.length)
    (hj : j' ≤ new.length) :
    Leads old new i j ((moveUp old new before x after).before.reverse ++
      (moveUp old new before x after).edit :: (moveUp old new before x after).after) i' j' ∧
      (moveUp old new before x after).edit.kind ≠ .keep := by
  fun_induction moveUp old new before x after
  case case1 => exact ⟨h, hkind⟩
  case case2 x after e es hkeep n hguard ih =>
    apply ih hkind
    rw [List.reverse_cons, List.append_assoc, List.singleton_append] at h
    rw [reverse_consNonempty]
    exact h.exchange fun _ _ hrest =>
      hrest.shiftUp hi hj hkeep (kind_eq_insert hkind (Or.inl hguard.1)) rfl hguard.1
  case case3 x after e es hkeep n hguard hzero ih =>
    -- No edit of a valid script is without lines.
    rw [List.reverse_cons, List.append_assoc] at h
    exact absurd hzero h.size_ne_zero
  case case4 => exact ⟨h, hkind⟩
  case case5 x after e es hkeep hsame ih =>
    apply ih hkeep
    rw [List.reverse_cons, List.append_assoc, List.singleton_append] at h
    exact h.exchange fun _ _ hrest => hrest.merge hsame
  case case6 x after e es hkeep hother ih =>
    apply ih hkind
    rw [List.reverse_cons, List.append_assoc, List.singleton_append] at h
    exact h.exchange fun _ _ hrest => hrest.swap hkeep hkind hother

/-- Moving an edit down keeps the script one that leads from the old text to the new one. -/
lemma leads_moveDown (hkind : x.kind ≠ .keep)
    (h : Leads old new i j (before.reverse ++ x :: after) i' j') (hi : i' ≤ old.length)
    (hj : j' ≤ new.length) :
    Leads old new i j ((moveDown old new before x after).before.reverse ++
      (moveDown old new before x after).edit :: (moveDown old new before x after).after) i' j' := by
  fun_induction moveDown old new before x after
  case case1 => exact h
  case case2 before x e es hkeep n hguard ih =>
    apply ih hkind
    apply leads_keepBehind
    exact h.exchange fun _ _ hrest =>
      hrest.shiftDown hi hj hkeep (kind_eq_insert hkind (Or.inr hguard.1)) rfl hguard.1
  case case3 before x e es hkeep n hguard hzero ih =>
    rw [List.append_cons] at h
    exact absurd hzero h.size_ne_zero
  case case4 => exact h
  case case5 before x e es hkeep hsame ih =>
    apply ih hkind
    exact h.exchange fun _ _ hrest => hrest.merge hsame.symm
  case case6 before x e es hkeep hother ih =>
    apply ih hkind
    rw [List.reverse_cons, List.append_assoc, List.singleton_append]
    exact h.exchange fun _ _ hrest => hrest.swap hkind hkeep (Ne.symm hother)

/-- The script leads on after every number of moves. -/
lemma leads_moveAll {kind : EditKind} (hkind : kind ≠ .keep) {moves : Nat}
    (h : Leads old new i j (before.reverse ++ after) i' j') (hi : i' ≤ old.length)
    (hj : j' ≤ new.length) : Leads old new i j (moveAll old new kind before after moves) i' j' := by
  induction moves generalizing before after with
  | zero => exact h
  | succ moves ih =>
    cases after with
    | nil => simpa [moveAll] using h
    | cons e after =>
      rw [moveAll]
      split_ifs with he
      · obtain ⟨hup, hup'⟩ := leads_moveUp (he ▸ hkind) h hi hj
        have hdown := leads_moveDown hup' hup hi hj
        apply ih
        rwa [List.reverse_cons, List.append_assoc]
      · apply ih
        rwa [List.reverse_cons, List.append_assoc]

/-- The script after all moves leads from the old lines to the new ones. -/
lemma leads_compact {script : List Edit} (h : Leads old new i j script i' j') (hi : i' ≤ old.length)
    (hj : j' ≤ new.length) : Leads old new i j (compact old new script) i' j' := by
  have hdelete : EditKind.delete ≠ .keep := nofun
  have hinsert : EditKind.insert ≠ .keep := nofun
  exact leads_moveAll hinsert (leads_moveAll hdelete h hi hj) hi hj

end LicenseHeader.Patch
