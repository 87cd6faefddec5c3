import LicenseHeader.Proofs.Patch.Compaction

/-!
# Blocks and hunks

The blocks of a valid script, and the hunks that are cut out of them, lead from the old lines to the
new ones; between the hunks both agree. The ranges that the headers of the hunks name are those of
the lines that follow, if the first block starts where both texts start, and the last one stops
where both stop. All other blocks at the edge of a hunk keep lines, and these always tell where they
stand.
-/

namespace LicenseHeader.Patch

open Text

variable {old new : List Line} {i j i' j' p q n : Nat} {a b : Block} {bs cs group : List Block}

/-! ### Edges -/

namespace Block

/-- The block claims to start behind `i` old and `j` new lines. -/
def StartsAt (b : Block) (i j : Nat) : Prop :=
  b.old.start = i ∧ b.new.start = j

/-- The block claims to stop behind `i` old and `j` new lines. -/
def StopsAt (b : Block) (i j : Nat) : Prop :=
  b.old.stop = i ∧ b.new.stop = j

instance : Decidable (b.StartsAt i j) :=
  inferInstanceAs (Decidable (_ ∧ _))

instance : Decidable (b.StopsAt i j) :=
  inferInstanceAs (Decidable (_ ∧ _))

lemma Fits.startsAt (h : b.Fits old new i j) (hb : b.isKept) : b.StartsAt i j :=
  ⟨(h.start_of_isKept hb).1, (h.start_of_isKept hb).2.1⟩

lemma Fits.stopsAt (h : b.Fits old new i j) (hb : b.isKept) :
    b.StopsAt (i + b.old.size) (j + b.new.size) := by
  obtain ⟨hi, hj⟩ := h.startsAt hb
  exact ⟨congrArg (· + b.old.size) hi, congrArg (· + b.new.size) hj⟩

end Block

/-- The first block starts there. -/
def Opens (bs : List Block) (i j : Nat) : Prop :=
  ∀ b ∈ bs.head?, b.StartsAt i j

/-- The last block stops there. -/
def Closes (bs : List Block) (i j : Nat) : Prop :=
  ∀ b ∈ bs.getLast?, b.StopsAt i j

instance : Decidable (Opens bs i j) :=
  inferInstanceAs (Decidable (∀ b ∈ bs.head?, b.StartsAt i j))

instance : Decidable (Closes bs i j) :=
  inferInstanceAs (Decidable (∀ b ∈ bs.getLast?, b.StopsAt i j))

@[simp] lemma opens_cons : Opens (b :: bs) i j ↔ b.StartsAt i j := by
  simp [Opens]

@[simp] lemma closes_concat : Closes (bs ++ [b]) i j ↔ b.StopsAt i j := by
  simp [Closes]

@[simp] lemma closes_append_cons : Closes (cs ++ b :: bs) i j ↔ Closes (b :: bs) i j := by
  simp [Closes]

lemma opens_append_congr (h : a.StartsAt i j ↔ b.StartsAt i j) (as as' : List Block) :
    Opens (bs ++ a :: as) i j ↔ Opens (bs ++ b :: as') i j := by
  cases bs with
  | nil => simpa using h
  | cons c bs => simp

/-! ### Blocks of a script -/

namespace Block

@[simp] lemma size_joinExtents (d e : Extent) : (joinExtents d e).size = d.size + e.size := by
  rw [joinExtents]
  split_ifs with hzero
  · simp [hzero.1]
  · rfl

lemma start_joinExtents {d e : Extent} (hd : 0 < d.size → d.start = i)
    (he : 0 < e.size → e.start = i + d.size) (hpos : 0 < d.size + e.size) :
    (joinExtents d e).start = i := by
  rw [joinExtents]
  split_ifs with hzero
  · simpa [hzero.1] using he (Nat.pos_of_ne_zero hzero.2)
  · exact hd (by omega)

/-- Two blocks of the same kind are joined to one. -/
lemma Fits.join (ha : a.Fits old new i j)
    (hb : b.Fits old new (i + a.old.size) (j + a.new.size)) (hkind : b.isKept = a.isKept) :
    (a.join b).Fits old new i j where
  nonempty := by
    have hpos := ha.nonempty
    simp only [Block.join, size_joinExtents]
    omega
  oldStart hpos := start_joinExtents ha.oldStart hb.oldStart (by simpa [Block.join] using hpos)
  newStart hpos := start_joinExtents ha.newStart hb.newStart (by simpa [Block.join] using hpos)
  kept hkept := by
    obtain ⟨hsize, hlines⟩ := ha.kept hkept
    obtain ⟨hsize', hlines'⟩ := hb.kept (hkind.trans hkept)
    simp only [Block.join, size_joinExtents]
    rw [slice_add, slice_add, hlines, hlines']
    exact ⟨by omega, rfl⟩

/-- Joining neighbours of a kind leaves blocks that lead on. -/
lemma chain_go {es : List Edit} (h : Chain old new i j (b :: es.map ofEdit) i' j') :
    Chain old new i j (ofScript.go b es) i' j' := by
  induction es generalizing b i j with
  | nil => exact h
  | cons e es ih =>
    obtain ⟨hb, he, hrest⟩ := h
    rw [ofScript.go]
    split_ifs with hkind
    · refine ih ⟨hb.join he hkind, ?_⟩
      simpa [Block.join, Nat.add_assoc] using hrest
    · exact ⟨hb, ih ⟨he, hrest⟩⟩

lemma chain_ofScript {es : List Edit} (h : Leads old new i j es i' j') :
    Chain old new i j (ofScript es) i' j' := by
  cases es with
  | nil => exact h
  | cons e es => exact chain_go h

/-! ### Cuts -/

/-- The last kept lines of a block stand behind the others, which agree in both texts. -/
lemma Fits.lastLines (h : b.Fits old new i j) (hb : b.isKept) (hn : 0 < n) :
    slice old i (b.old.size - n) = slice new j (b.old.size - n) ∧
      (b.lastLines n).Fits old new (i + (b.old.size - n)) (j + (b.old.size - n)) ∧
      (b.lastLines n).old.size = b.old.size - (b.old.size - n) ∧
      (b.lastLines n).new.size = b.old.size - (b.old.size - n) := by
  obtain ⟨hi, hj, hsize, hpos⟩ := h.start_of_isKept hb
  have hlines := (h.kept hb).2
  rw [← hsize] at hlines
  have htake := congrArg (List.take (b.old.size - n)) hlines
  have hdrop := congrArg (List.drop (b.old.size - n)) hlines
  rw [take_slice old (Nat.sub_le _ n), take_slice new (Nat.sub_le _ n)] at htake
  rw [drop_slice, drop_slice] at hdrop
  refine ⟨htake, ?_, rfl, by rw [Block.lastLines, hsize]⟩
  constructor
  · simp only [Block.lastLines]
    omega
  · intro _
    simp [Block.lastLines, hi]
  · intro _
    simp [Block.lastLines, hj]
  · intro _
    simp only [Block.lastLines, ← hsize]
    exact ⟨trivial, hdrop⟩

/-- The first kept lines of a block stand in front of the others, which agree in both texts. -/
lemma Fits.firstLines (h : b.Fits old new i j) (hb : b.isKept) (hn : 0 < n) :
    slice old (i + min n b.old.size) (b.old.size - min n b.old.size) =
        slice new (j + min n b.old.size) (b.old.size - min n b.old.size) ∧
      (b.firstLines n).Fits old new i j ∧ (b.firstLines n).old.size = min n b.old.size ∧
      (b.firstLines n).new.size = min n b.old.size := by
  obtain ⟨hi, hj, hsize, hpos⟩ := h.start_of_isKept hb
  have hlines := (h.kept hb).2
  rw [← hsize] at hlines
  have htake := congrArg (List.take (min n b.old.size)) hlines
  have hdrop := congrArg (List.drop (min n b.old.size)) hlines
  rw [take_slice old (Nat.min_le_right n _), take_slice new (Nat.min_le_right n _)] at htake
  rw [drop_slice, drop_slice] at hdrop
  refine ⟨hdrop, ?_, rfl, by rw [Block.firstLines, hsize]⟩
  constructor
  · simp only [Block.firstLines]
    omega
  · intro _
    exact hi
  · intro _
    exact hj
  · intro _
    simp only [Block.firstLines, ← hsize]
    exact ⟨trivial, htake⟩

/-- A long block of kept lines is cut in two, and the lines between the parts are left out. -/
lemma Fits.exists_cut (h : b.Fits old new i j) (hb : b.isKept) (hlong : 2 * n < b.old.size)
    (hn : 0 < n) :
    ∃ k, (b.firstLines n).Fits old new i j ∧ (b.firstLines n).old.size = n ∧
      (b.firstLines n).new.size = n ∧ slice old (i + n) k = slice new (j + n) k ∧
      (b.lastLines n).Fits old new (i + n + k) (j + n + k) ∧
      i + n + k + (b.lastLines n).old.size = i + b.old.size ∧
      j + n + k + (b.lastLines n).new.size = j + b.new.size := by
  have hsize := (h.start_of_isKept hb).2.2.1
  obtain ⟨hbehind, hfirst, hold, hnew⟩ := h.firstLines hb hn
  obtain ⟨-, hlast, hold', hnew'⟩ := h.lastLines hb hn
  rw [Nat.min_eq_left (by omega)] at hbehind hold hnew
  have hgap := congrArg (List.take (b.old.size - 2 * n)) hbehind
  rw [take_slice old (by omega), take_slice new (by omega)] at hgap
  have hi : i + (b.old.size - n) = i + n + (b.old.size - 2 * n) := by omega
  have hj : j + (b.old.size - n) = j + n + (b.old.size - 2 * n) := by omega
  rw [hi, hj] at hlast
  exact ⟨b.old.size - 2 * n, hfirst, hold, hnew, hgap, hlast, by omega, by omega⟩

end Block

lemma closes_cons_of_ne_nil (h : bs ≠ []) : Closes (b :: bs) i j ↔ Closes bs i j := by
  obtain ⟨c, bs, rfl⟩ := List.exists_cons_of_ne_nil h
  simp [Closes]

/-- It does not matter how much of its lines the first block keeps. -/
lemma closes_cons_congr {m n : Nat} (ha : Chain old new i j (a :: bs) i' j') (hakept : a.isKept)
    (hb : Chain old new m n (b :: bs) i' j') (hbkept : b.isKept) :
    Closes (a :: bs) i' j' ↔ Closes (b :: bs) i' j' := by
  cases bs with
  | nil =>
    have hstops : a.StopsAt i' j' := ha.2.1 ▸ ha.2.2 ▸ ha.1.stopsAt hakept
    have hstops' : b.StopsAt i' j' := hb.2.1 ▸ hb.2.2 ▸ hb.1.stopsAt hbkept
    simp [Closes, hstops, hstops']
  | cons c bs => simp [closes_cons_of_ne_nil]

/-- What is cut off at the start are lines on which both texts agree. -/
lemma exists_chain_trimFirst (h : Chain old new i j bs i' j') :
    ∃ k, slice old i k = slice new j k ∧ Chain old new (i + k) (j + k) (trimFirst bs) i' j' ∧
      (Opens (trimFirst bs) (i + k) (j + k) ↔ Opens bs i j) ∧
      (Closes (trimFirst bs) i' j' ↔ Closes bs i' j') ∧
      (k = 0 ∨ ∃ b ∈ trimFirst bs, b.isKept) := by
  cases bs with
  | nil => exact ⟨0, by simp, h, by simp [Opens, trimFirst], Iff.rfl, Or.inl rfl⟩
  | cons b bs =>
    rw [trimFirst]
    split_ifs with hb
    · obtain ⟨hfits, hrest⟩ := h
      have hsize := (hfits.start_of_isKept hb).2.2.1
      obtain ⟨hgap, hlast, hold, hnew⟩ := hfits.lastLines hb (n := contextSize) (by decide)
      have hstop : i + (b.old.size - contextSize) + (b.lastLines contextSize).old.size =
          i + b.old.size := by omega
      have hstop' : j + (b.old.size - contextSize) + (b.lastLines contextSize).new.size =
          j + b.new.size := by omega
      have hchain : Chain old new (i + (b.old.size - contextSize)) (j + (b.old.size - contextSize))
          (b.lastLines contextSize :: bs) i' j' := by
        refine ⟨hlast, ?_⟩
        rwa [hstop, hstop']
      refine ⟨_, hgap, hchain, ?_, closes_cons_congr hchain hb ⟨hfits, hrest⟩ hb,
        Or.inr ⟨_, List.mem_cons_self, hb⟩⟩
      simp [hlast.startsAt hb, hfits.startsAt hb]
    · exact ⟨0, by simp, h, Iff.rfl, Iff.rfl, Or.inl rfl⟩

lemma trimLast_ne_nil (h : bs ≠ []) : trimLast bs ≠ [] := by
  match bs with
  | [] => exact absurd rfl h
  | [b] => simp [trimLast]
  | b :: c :: bs => simp [trimLast]

/-- What is cut off at the end are lines on which both texts agree. -/
lemma exists_chain_trimLast (h : Chain old new i j bs i' j') :
    ∃ m n k, Chain old new i j (trimLast bs) m n ∧ m + k = i' ∧ n + k = j' ∧
      slice old m k = slice new n k ∧ (∀ p q, Opens (trimLast bs) p q ↔ Opens bs p q) ∧
      (Closes (trimLast bs) m n ↔ Closes bs i' j') ∧
      ((∃ b ∈ bs, b.isKept) → ∃ b ∈ trimLast bs, b.isKept) := by
  induction bs generalizing i j with
  | nil =>
    have hcloses : Closes (trimLast []) i j ↔ Closes [] i' j' := by simp [Closes, trimLast]
    exact ⟨i, j, 0, ⟨rfl, rfl⟩, h.1, h.2, by simp, fun _ _ => Iff.rfl, hcloses, id⟩
  | cons b bs ih =>
    obtain ⟨hfits, hrest⟩ := h
    cases bs with
    | nil =>
      obtain ⟨rfl, rfl⟩ := hrest
      rw [trimLast]
      split_ifs with hb
      · have hsize := (hfits.start_of_isKept hb).2.2.1
        obtain ⟨hgap, hfirst, hold, hnew⟩ := hfits.firstLines hb (n := contextSize) (by decide)
        refine ⟨_, _, b.old.size - min contextSize b.old.size, ⟨hfirst, rfl, rfl⟩, ?_, ?_, ?_, ?_, ?_,
          fun _ => ⟨_, List.mem_cons_self, hb⟩⟩
        · omega
        · omega
        · rwa [hold, hnew]
        · intro p q
          simp [Block.StartsAt, Block.firstLines]
        · have hstops := hfirst.stopsAt hb
          simp [Closes, hstops, hfits.stopsAt hb]
      · exact ⟨_, _, 0, ⟨hfits, rfl, rfl⟩, rfl, rfl, by simp, fun _ _ => Iff.rfl, Iff.rfl, id⟩
    | cons c bs =>
      obtain ⟨m, n, k, hchain, hm, hn, hgap, -, hcloses, hkept⟩ := ih hrest
      have hne : trimLast (c :: bs) ≠ [] := trimLast_ne_nil (List.cons_ne_nil c bs)
      refine ⟨m, n, k, ⟨hfits, hchain⟩, hm, hn, hgap, ?_, ?_, ?_⟩
      · intro p q
        simp [trimLast]
      · rw [trimLast, closes_cons_of_ne_nil hne, closes_cons_of_ne_nil (List.cons_ne_nil c bs)]
        · exact hcloses
        · simp
      · rintro ⟨d, hd, hkeep⟩
        rcases List.mem_cons.mp hd with rfl | hd
        · exact ⟨d, by simp [trimLast], hkeep⟩
        · obtain ⟨d', hd', hkeep'⟩ := hkept ⟨d, hd, hkeep⟩
          exact ⟨d', by simp [trimLast, hd'], hkeep'⟩

/-! ### Headers -/

/-- The ranges of old and of new lines that the header of a hunk names. -/
def headerExtents (blocks : List Block) : Extent × Extent :=
  match blocks.head?, blocks.getLast? with
  | some first, some last =>
    (⟨first.old.start, last.old.stop - first.old.start⟩,
      ⟨first.new.start, last.new.stop - first.new.start⟩)
  | _, _ => (⟨0, 0⟩, ⟨0, 0⟩)

lemma exists_ends (hne : bs ≠ []) :
    ∃ first last, bs.head? = some first ∧ bs.getLast? = some last :=
  ⟨_, _, List.head?_eq_some_head hne, List.getLast?_eq_some_getLast hne⟩

lemma Chain.lt_of_isKept (h : Chain old new i j bs i' j') (hkept : ∃ b ∈ bs, b.isKept) :
    i < i' ∧ j < j' := by
  obtain ⟨b, hb, hkeep⟩ := hkept
  obtain ⟨before, after, rfl⟩ := List.append_of_mem hb
  obtain ⟨m, n, hbefore, hfits, hafter⟩ := chain_append.mp h
  obtain ⟨-, -, hsize, hpos⟩ := hfits.start_of_isKept hkeep
  have hle := hbefore.le
  have hle' := hafter.le
  omega

/-- The header of a hunk is right if its first block starts where the hunk starts, and its last
block stops where the hunk stops. -/
lemma headerExtents_eq_iff (h : Chain old new i j bs i' j') (hne : bs ≠ [])
    (hkept : (i = 0 ∧ j = 0) ∨ ∃ b ∈ bs, b.isKept) :
    headerExtents bs = (⟨i, i' - i⟩, ⟨j, j' - j⟩) ↔ Opens bs i j ∧ Closes bs i' j' := by
  obtain ⟨first, last, hfirst, hlast⟩ := exists_ends hne
  have hle := h.le
  have hlt := fun hk => h.lt_of_isKept hk
  simp only [headerExtents, hfirst, hlast, Opens, Closes, Option.mem_some, forall_eq',
    Block.StartsAt, Block.StopsAt, Prod.mk.injEq, Extent.mk.injEq]
  constructor
  · rintro ⟨⟨rfl, hold⟩, rfl, hnew⟩
    refine ⟨⟨rfl, rfl⟩, ?_⟩
    rcases hkept with ⟨hi, hj⟩ | hkept
    · omega
    · have := hlt hkept
      omega
  · rintro ⟨⟨rfl, rfl⟩, rfl, rfl⟩
    exact ⟨⟨rfl, rfl⟩, rfl, rfl⟩

/-! ### Hunks -/

/-- Hunks lead on from behind `i` old and `j` new lines to the end. In front of each hunk there are
lines on which both agree, and the ranges listed are those of its lines. -/
inductive Hunks (old new : List Line) : Nat → Nat → List (List Block) → List (Extent × Extent) → Prop
  | nil {i j : Nat} : old.drop i = new.drop j → Hunks old new i j [] []
  | cons {i j k i' j' : Nat} {blocks : List Block} {hunks : List (List Block)}
      {extents : List (Extent × Extent)} :
      slice old i k = slice new j k → blocks ≠ [] → Chain old new (i + k) (j + k) blocks i' j' →
      i' ≤ old.length → j' ≤ new.length → Hunks old new i' j' hunks extents →
      Hunks old new i j (blocks :: hunks)
        ((⟨i + k, i' - (i + k)⟩, ⟨j + k, j' - (j + k)⟩) :: extents)

/-- In front of lines on which both agree, kept lines may be added. -/
lemma drop_eq_of_slice_eq {k : Nat} (h : slice old i k = slice new j k)
    (hend : old.drop (i + k) = new.drop (j + k)) : old.drop i = new.drop j := by
  rw [← slice_append_drop old i k, ← slice_append_drop new j k, h, hend]

/-- If all blocks keep their lines and the texts agree behind them, they agree from the first one
on. -/
lemma Chain.drop_eq (h : Chain old new i j bs i' j') (hkept : ∀ b ∈ bs, b.isKept)
    (hend : old.drop i' = new.drop j') : old.drop i = new.drop j := by
  induction bs generalizing i j with
  | nil =>
    obtain ⟨rfl, rfl⟩ := h
    exact hend
  | cons b bs ih =>
    obtain ⟨hfits, hrest⟩ := h
    obtain ⟨hsize, hlines⟩ := hfits.kept (hkept b List.mem_cons_self)
    have hdrop := ih hrest fun c hc => hkept c (List.mem_cons_of_mem b hc)
    rw [← hsize] at hlines hdrop
    exact drop_eq_of_slice_eq hlines hdrop

/-- Where no block is left, the group is the last hunk unless it keeps all its lines. -/
lemma exists_hunks_last {p q k : Nat} (hgap : slice old p k = slice new q k)
    (hgroup : Chain old new (p + k) (q + k) group.reverse i j) (hi : i ≤ old.length)
    (hj : j ≤ new.length) (hend : old.drop i = new.drop j)
    (hkept : (p + k = 0 ∧ q + k = 0) ∨ ∃ b ∈ group.reverse, b.isKept) :
    ∃ extents, Hunks old new p q (groupBlocks group []) extents ∧
      ((groupBlocks group []).map headerExtents = extents ↔
        Opens group.reverse (p + k) (q + k) ∧ Closes group.reverse i j) := by
  rw [groupBlocks]
  split_ifs with hall
  · obtain ⟨hall, hlength⟩ := Bool.and_eq_true_iff.mp hall
    have hallkept : ∀ b ∈ group.reverse, b.isKept := fun b hb =>
      List.all_eq_true.mp hall b (List.mem_reverse.mp hb)
    refine ⟨[], .nil (drop_eq_of_slice_eq hgap (hgroup.drop_eq hallkept hend)), ?_⟩
    match group, hlength with
    | [], _ => simp [Opens, Closes]
    | [b], _ =>
      obtain ⟨hfits, rfl, rfl⟩ := hgroup
      have hb := hallkept b (by simp)
      simp [Opens, Closes, hfits.startsAt hb, hfits.stopsAt hb]
  · have hne : group.reverse ≠ [] := by
      rintro hnil
      rw [List.reverse_eq_nil_iff] at hnil
      simp [hnil] at hall
    refine ⟨_, .cons hgap hne hgroup hi hj (.nil hend), ?_⟩
    rw [List.map_singleton, List.cons.injEq, headerExtents_eq_iff hgroup hne hkept]
    simp

/-- A group is ended by the first lines of a long block, where its hunk is right. -/
lemma chain_ended (hgroup : Chain old new p q group.reverse i j) (hb : b.isKept)
    (hfirst : (b.firstLines n).Fits old new i j) (hold : (b.firstLines n).old.size = n)
    (hnew : (b.firstLines n).new.size = n) (bs : List Block) :
    Chain old new p q (b.firstLines n :: group).reverse (i + n) (j + n) ∧
      (headerExtents (b.firstLines n :: group).reverse =
          (⟨p, i + n - p⟩, ⟨q, j + n - q⟩) ↔ Opens (group.reverse ++ b :: bs) p q) := by
  have hchain : Chain old new p q (b.firstLines n :: group).reverse (i + n) (j + n) := by
    rw [List.reverse_cons, chain_append]
    refine ⟨i, j, hgroup, hfirst, ?_⟩
    rw [hold, hnew]
    exact ⟨rfl, rfl⟩
  have hkept : ∃ c ∈ (b.firstLines n :: group).reverse, c.isKept := ⟨b.firstLines n, by simp, hb⟩
  have hopens : Opens (b.firstLines n :: group).reverse p q ↔
      Opens (group.reverse ++ b :: bs) p q := by
    have hstart : (b.firstLines n).StartsAt p q ↔ b.StartsAt p q := Iff.rfl
    rw [List.reverse_cons]
    exact opens_append_congr hstart [] bs
  have hcloses : Closes (b.firstLines n :: group).reverse (i + n) (j + n) := by
    have hstops := hfirst.stopsAt hb
    rw [hold, hnew] at hstops
    rwa [List.reverse_cons, closes_concat]
  refine ⟨hchain, ?_⟩
  rw [headerExtents_eq_iff hchain (by simp) (Or.inr hkept), hopens, and_iff_left hcloses]

/-- The hunks that are made of some blocks lead on like these, and their headers are right if the
blocks are right at both ends. -/
lemma exists_hunks_groupBlocks {p q k : Nat} (hgap : slice old p k = slice new q k)
    (hgroup : Chain old new (p + k) (q + k) group.reverse i j) (hbs : Chain old new i j bs i' j')
    (hi : i' ≤ old.length) (hj : j' ≤ new.length) (hend : old.drop i' = new.drop j')
    (hkept : (p + k = 0 ∧ q + k = 0) ∨ ∃ b ∈ group.reverse ++ bs, b.isKept) :
    ∃ extents, Hunks old new p q (groupBlocks group bs) extents ∧
      ((groupBlocks group bs).map headerExtents = extents ↔
        Opens (group.reverse ++ bs) (p + k) (q + k) ∧ Closes (group.reverse ++ bs) i' j') := by
  induction bs generalizing group p q k i j with
  | nil =>
    obtain ⟨rfl, rfl⟩ := hbs
    rw [List.append_nil] at hkept ⊢
    exact exists_hunks_last hgap hgroup hi hj hend hkept
  | cons b bs ih =>
    obtain ⟨hfits, hrest⟩ := hbs
    rw [groupBlocks]
    split_ifs with hcut
    · obtain ⟨hb, hlong⟩ := Bool.and_eq_true_iff.mp hcut
      have hlong : 2 * contextSize < b.old.size := of_decide_eq_true hlong
      obtain ⟨k', hfirst, hold, hnew, hgap', hlast, hstop, hstop'⟩ :=
        hfits.exists_cut hb hlong (by decide)
      have hle := hrest.le
      obtain ⟨hchain, hheader⟩ := chain_ended hgroup hb hfirst hold hnew bs
      -- The last lines of the block start the next group.
      have hnext : Chain old new (i + contextSize + k') (j + contextSize + k')
          (b.lastLines contextSize :: bs) i' j' := by
        refine ⟨hlast, ?_⟩
        rwa [hstop, hstop']
      have hopens : Opens ([b.lastLines contextSize].reverse ++ bs) (i + contextSize + k')
          (j + contextSize + k') := opens_cons.mpr (hlast.startsAt hb)
      have hcloses : Closes (group.reverse ++ b :: bs) i' j' ↔
          Closes ([b.lastLines contextSize].reverse ++ bs) i' j' :=
        closes_append_cons.trans (closes_cons_congr ⟨hfits, hrest⟩ hb hnext hb)
      have hgroup' : Chain old new (i + contextSize + k') (j + contextSize + k')
          [b.lastLines contextSize].reverse (i + b.old.size) (j + b.new.size) :=
        ⟨hlast, hstop, hstop'⟩
      obtain ⟨extents, hhunks, hiff⟩ := ih hgap' hgroup' hrest (Or.inr ⟨_, List.mem_cons_self, hb⟩)
      refine ⟨_, .cons hgap (by simp) hchain ?_ ?_ hhunks, ?_⟩
      · omega
      · omega
      · rw [List.map_cons, List.cons.injEq, hheader, hiff, hcloses, and_iff_right hopens]
    · have happend : group.reverse ++ b :: bs = (b :: group).reverse ++ bs := by simp
      rw [happend] at hkept ⊢
      refine ih hgap ?_ hrest hkept
      rw [List.reverse_cons, chain_append]
      exact ⟨i, j, hgroup, hfits, rfl, rfl⟩

def changeBlocks (old new : List Line) : List Block :=
  Block.ofScript (compact old new (script 0 0 old new))

/-- The first block of the change starts where both sequences of lines start, and the last one stops
where both stop. -/
def Spans (old new : List Line) : Prop :=
  Opens (changeBlocks old new) 0 0 ∧ Closes (changeBlocks old new) old.length new.length

instance : Decidable (Spans old new) :=
  inferInstanceAs (Decidable (_ ∧ _))

lemma chain_changeBlocks (old new : List Line) :
    Chain old new 0 0 (changeBlocks old new) old.length new.length := by
  have hscript := leads_script (stands_self old) (stands_self new)
  rw [Nat.zero_add, Nat.zero_add] at hscript
  exact Block.chain_ofScript (leads_compact hscript (Nat.le_refl _) (Nat.le_refl _))

/-- The hunks of a change lead from the old lines to the new ones. Their headers are right exactly
if the change spans both. -/
lemma exists_hunks (old new : List Line) :
    ∃ extents, Hunks old new 0 0 (hunks old new) extents ∧
      ((hunks old new).map headerExtents = extents ↔ Spans old new) := by
  obtain ⟨k, hgap, hchain, hopens, hcloses, hkept⟩ :=
    exists_chain_trimFirst (chain_changeBlocks old new)
  obtain ⟨m, n, k', hchain', hm, hn, hgap', hopens', hcloses', hkept'⟩ := exists_chain_trimLast hchain
  have hend : old.drop m = new.drop n := by
    apply drop_eq_of_slice_eq hgap'
    rw [hm, hn, List.drop_length, List.drop_length]
  have hgroup : Chain old new (0 + k) (0 + k) [].reverse (0 + k) (0 + k) := ⟨rfl, rfl⟩
  obtain ⟨extents, hhunks, hiff⟩ := exists_hunks_groupBlocks hgap hgroup hchain' (by omega) (by omega)
    hend (hkept.imp (by omega) hkept')
  refine ⟨extents, hhunks, hiff.trans ?_⟩
  exact and_congr ((hopens' _ _).trans hopens) (hcloses'.trans hcloses)

end LicenseHeader.Patch
