import LicenseHeader.Text.Basic
import Mathlib.Data.List.Basic
import Mathlib.Order.Bounds.Basic
import Mathlib.Tactic.Lemma

/-!
# Searching in rows

The text of some rows puts a separator between them. A text of at least two rows occurs inside it
just when its first row ends a row, its inner rows are the ones that follow, and its last row begins
the next one. The row in which the first occurrence begins is the first row of that kind, and its
index is the number of separators in front of the occurrence. Where the rows hold separators
themselves, these are counted as well (`heldAbove`).
-/

namespace LicenseHeader.Text

variable {α : Type}

/-! ### The first occurrence -/

section Occurrence

variable [BEq α] [LawfulBEq α]

/-- The search finds an occurrence, and the first one. -/
lemma firstOccurrence?.go_eq_some {needle hay : List α} {k n : Nat}
    (h : firstOccurrence?.go needle k hay = some n) :
    ∃ m, n = k + m ∧ m ≤ hay.length ∧ needle <+: hay.drop m ∧
      ∀ i < m, ¬ needle <+: hay.drop i := by
  induction hay generalizing k with
  | nil =>
    rw [firstOccurrence?.go] at h
    split_ifs at h with hn
    · rw [List.isEmpty_iff] at hn
      exact ⟨0, (Option.some.inj h).symm, Nat.le_refl 0, by simp [hn], by simp⟩
  | cons c cs ih =>
    rw [firstOccurrence?.go] at h
    split_ifs at h with hp
    · exact ⟨0, (Option.some.inj h).symm, Nat.zero_le _, List.isPrefixOf_iff_prefix.mp hp, by simp⟩
    · obtain ⟨m, rfl, hm, hpre, hleast⟩ := ih h
      refine ⟨m + 1, by omega, by simpa using hm, hpre, fun i hi => ?_⟩
      cases i with
      | zero => exact fun h => hp (List.isPrefixOf_iff_prefix.mpr h)
      | succ i => exact hleast i (by omega)

/-- If the search finds nothing, there is no occurrence. -/
lemma firstOccurrence?.go_eq_none {needle hay : List α} {k : Nat}
    (h : firstOccurrence?.go needle k hay = none) (m : Nat) : ¬ needle <+: hay.drop m := by
  induction hay generalizing k m with
  | nil =>
    rw [firstOccurrence?.go] at h
    split_ifs at h with hn
    · simpa using hn
  | cons c cs ih =>
    rw [firstOccurrence?.go] at h
    split_ifs at h with hp
    · cases m with
      | zero => exact fun h => hp (List.isPrefixOf_iff_prefix.mpr h)
      | succ m => exact ih h m

/-- The search stops at the least place where the text sought begins. -/
lemma firstOccurrence?_eq_some {needle hay : List α} {n : Nat}
    (h : firstOccurrence? needle hay = some n) :
    n ≤ hay.length ∧ needle <+: hay.drop n ∧ ∀ i < n, ¬ needle <+: hay.drop i := by
  obtain ⟨m, rfl, hm⟩ := firstOccurrence?.go_eq_some h
  rwa [Nat.zero_add]

lemma firstOccurrence?_eq_none {needle hay : List α} (h : firstOccurrence? needle hay = none)
    (m : Nat) : ¬ needle <+: hay.drop m :=
  firstOccurrence?.go_eq_none h m

end Occurrence

/-! ### Texts of rows -/

section Rows

variable {s : α}

/-- Rows that are ended by a separator begin alike only if they are equal. -/
lemma append_separator_prefix_iff {a b u v : List α} (ha : s ∉ a) (hb : s ∉ b) :
    a ++ s :: u <+: b ++ s :: v ↔ a = b ∧ u <+: v := by
  induction a generalizing b with
  | nil =>
    cases b with
    | nil => simp
    | cons d b =>
      obtain ⟨hd, -⟩ := List.ne_and_not_mem_of_not_mem_cons hb
      simp [List.cons_prefix_cons, hd]
  | cons c a ih =>
    obtain ⟨hc, ha⟩ := List.ne_and_not_mem_of_not_mem_cons ha
    cases b with
    | nil => simp [List.cons_prefix_cons, hc.symm]
    | cons d b =>
      obtain ⟨-, hb⟩ := List.ne_and_not_mem_of_not_mem_cons hb
      simp [List.cons_prefix_cons, ih ha hb, and_assoc]

/-- A row without a separator begins a text just when it begins its first row. -/
lemma prefix_append_separator_iff {a b v : List α} (ha : s ∉ a) :
    a <+: b ++ s :: v ↔ a <+: b := by
  refine ⟨fun h => ?_, fun h => h.trans (List.prefix_append b _)⟩
  rcases List.prefix_or_prefix_of_prefix h (List.prefix_append b _) with hab | ⟨t, rfl⟩
  · exact hab
  · cases t with
    | nil => simp
    | cons c t =>
      rw [List.prefix_append_right_inj, List.cons_prefix_cons] at h
      exact absurd (by simp [h.1]) ha

/-- Where a text of rows begins a text of rows, the rows before its last one are equal. -/
lemma intercalate_prefix_iff {mid rows : List (List α)} {last : List α}
    (hmid : ∀ r ∈ mid, s ∉ r) (hlast : s ∉ last) (hrows : ∀ r ∈ rows, s ∉ r) (hne : rows ≠ []) :
    [s].intercalate (mid ++ [last]) <+: [s].intercalate rows ↔
      ∃ r rest, rows = mid ++ r :: rest ∧ last <+: r := by
  induction mid generalizing rows with
  | nil =>
    obtain ⟨r, rest, rfl⟩ := List.exists_cons_of_ne_nil hne
    have hr : [s].intercalate [last] <+: [s].intercalate (r :: rest) ↔ last <+: r := by
      rw [List.intercalate_singleton]
      rcases eq_or_ne rest [] with rfl | hrest
      · rw [List.intercalate_singleton]
      · rw [List.intercalate_cons_of_ne_nil hrest, List.append_assoc, List.singleton_append,
          prefix_append_separator_iff hlast]
    simpa using hr
  | cons m mid ih =>
    obtain ⟨r, rest, rfl⟩ := List.exists_cons_of_ne_nil hne
    have hm : s ∉ m := hmid m List.mem_cons_self
    have hr : s ∉ r := hrows r List.mem_cons_self
    rw [List.cons_append, List.intercalate_cons_of_ne_nil (by simp), List.append_assoc,
      List.singleton_append]
    rcases eq_or_ne rest [] with rfl | hrest
    · -- a text of one row holds no separator
      rw [List.intercalate_singleton]
      refine ⟨fun h => absurd (h.subset (by simp)) hr, ?_⟩
      rintro ⟨r', rest', heq, -⟩
      simp at heq
    · rw [List.intercalate_cons_of_ne_nil hrest, List.append_assoc, List.singleton_append,
        append_separator_prefix_iff hm hr,
        ih (fun r hr => hmid r (List.mem_cons_of_mem m hr))
          (fun r' hr' => hrows r' (List.mem_cons_of_mem r hr')) hrest]
      simp [and_assoc, eq_comm]

/-! ### Places in a text of rows -/

/-- The text of rows that are all followed by a separator. -/
def closedText (s : α) (rows : List (List α)) : List α :=
  rows.flatMap (· ++ [s])

@[simp] lemma closedText_nil : closedText s [] = [] := rfl

@[simp] lemma closedText_cons (r : List α) (rows : List (List α)) :
    closedText s (r :: rows) = r ++ s :: closedText s rows := by
  simp [closedText]

@[simp] lemma closedText_append (rows rows' : List (List α)) :
    closedText s (rows ++ rows') = closedText s rows ++ closedText s rows' := by
  simp [closedText]

lemma intercalate_append_cons (before rest : List (List α)) (r : List α) :
    [s].intercalate (before ++ r :: rest) =
      closedText s before ++ [s].intercalate (r :: rest) := by
  induction before with
  | nil => rfl
  | cons b before ih =>
    rw [List.cons_append, List.intercalate_cons_of_ne_nil (by simp), ih, closedText_cons]
    simp

/-- What follows a place in a row. -/
lemma drop_intercalate (before rest : List (List α)) {r : List α} {q : Nat} (hq : q ≤ r.length) :
    ([s].intercalate (before ++ r :: rest)).drop ((closedText s before).length + q) =
      [s].intercalate (r.drop q :: rest) := by
  rw [intercalate_append_cons, List.drop_append, List.drop_eq_nil_of_le (by omega),
    List.nil_append, Nat.add_sub_cancel_left]
  rcases eq_or_ne rest [] with rfl | hrest
  · rw [List.intercalate_singleton, List.intercalate_singleton]
  · rw [List.intercalate_cons_of_ne_nil hrest, List.intercalate_cons_of_ne_nil hrest,
      List.append_assoc, List.append_assoc, List.drop_append_of_le_length hq]

/-- Every place in a text of rows is a place in one of the rows. -/
lemma exists_place {rows : List (List α)} (hne : rows ≠ []) {n : Nat}
    (hn : n ≤ ([s].intercalate rows).length) :
    ∃ before r rest q, rows = before ++ r :: rest ∧ q ≤ r.length ∧
      n = (closedText s before).length + q := by
  induction rows generalizing n with
  | nil => exact absurd rfl hne
  | cons r rows ih =>
    by_cases hr : n ≤ r.length
    · exact ⟨[], r, rows, n, rfl, hr, by simp⟩
    · rcases eq_or_ne rows [] with rfl | hrows
      · rw [List.intercalate_singleton] at hn
        exact absurd hn hr
      · rw [List.intercalate_cons_of_ne_nil hrows] at hn
        simp only [List.length_append, List.length_singleton] at hn
        obtain ⟨before, r', rest, q, rfl, hq, hplace⟩ :=
          ih hrows (n := n - (r.length + 1)) (by omega)
        refine ⟨r :: before, r', rest, q, rfl, hq, ?_⟩
        rw [closedText_cons, List.length_append, List.length_cons]
        omega

/-! ### Occurrences in a text of rows -/

/-- From row `j` on, `first` ends a row, the rows of `mid` follow, and `last` begins the next. -/
def OccursAt (first : List α) (mid : List (List α)) (last : List α) (rows : List (List α))
    (j : Nat) : Prop :=
  ∃ r r' rest, rows.drop j = r :: (mid ++ r' :: rest) ∧ first <:+ r ∧ last <+: r'

variable {first last : List α} {mid rows : List (List α)}

lemma OccursAt.fits {j : Nat} (h : OccursAt first mid last rows j) :
    j + (mid.length + 2) ≤ rows.length := by
  obtain ⟨r, r', rest, hdrop, -, -⟩ := h
  have hlen := congrArg List.length hdrop
  simp only [List.length_drop, List.length_cons, List.length_append] at hlen
  omega

/-- A text of rows occurs at a place of a row just when its first row is the rest of that row. -/
lemma prefix_drop_intercalate_iff (hfirst : s ∉ first) (hmid : ∀ r ∈ mid, s ∉ r)
    (hlast : s ∉ last) {before rest : List (List α)} {r : List α} {q : Nat} (hq : q ≤ r.length)
    (hrows : ∀ x ∈ r :: rest, s ∉ x) :
    [s].intercalate (first :: (mid ++ [last])) <+:
        ([s].intercalate (before ++ r :: rest)).drop ((closedText s before).length + q) ↔
      first = r.drop q ∧ ∃ r' rest', rest = mid ++ r' :: rest' ∧ last <+: r' := by
  have hdrop : ∀ x ∈ r.drop q :: rest, s ∉ x := by
    intro x hx
    rcases List.mem_cons.mp hx with rfl | hx
    · exact fun h => hrows r List.mem_cons_self (List.mem_of_mem_drop h)
    · exact hrows x (List.mem_cons_of_mem r hx)
  have hfill : ∀ x ∈ first :: mid, s ∉ x := by simpa [hfirst] using hmid
  rw [drop_intercalate before rest hq, ← List.cons_append,
    intercalate_prefix_iff hfill hlast hdrop (by simp)]
  simp [eq_comm, and_assoc]

section Counting

variable [BEq α] [LawfulBEq α]

/-- A text of closed rows has as many separators as rows, and those inside the rows. -/
lemma count_closedText (rows : List (List α)) :
    (closedText s rows).count s = rows.length + rows.flatten.count s := by
  induction rows with
  | nil => rfl
  | cons r rows ih =>
    rw [closedText_cons, List.count_append, List.count_cons_self, ih, List.flatten_cons,
      List.count_append, List.length_cons]
    omega

/-- The separators in front of a place in a row are those that end the rows before it and those that
the rows themselves hold. -/
lemma count_take_intercalate (before rest : List (List α)) {r : List α} {q : Nat}
    (hq : q ≤ r.length) :
    (([s].intercalate (before ++ r :: rest)).take ((closedText s before).length + q)).count s =
      before.length + (before.flatten ++ r.take q).count s := by
  have htake : ([s].intercalate (r :: rest)).take q = r.take q := by
    rcases eq_or_ne rest [] with rfl | hrest
    · rw [List.intercalate_singleton]
    · rw [List.intercalate_cons_of_ne_nil hrest, List.append_assoc,
        List.take_append_of_le_length hq]
  rw [intercalate_append_cons, List.take_append, List.take_of_length_le (by omega),
    Nat.add_sub_cancel_left, htake, List.count_append, count_closedText, List.count_append,
    Nat.add_assoc]

/-- If no row holds a separator, those in front of a place in a row count the rows before it. -/
lemma count_take_intercalate_of_notMem {before rest : List (List α)} {r : List α} {q : Nat}
    (hbefore : ∀ r ∈ before, s ∉ r) (hr : s ∉ r) (hq : q ≤ r.length) :
    (([s].intercalate (before ++ r :: rest)).take ((closedText s before).length + q)).count s =
      before.length := by
  have hnone : s ∉ before.flatten ++ r.take q := by
    rw [List.mem_append, List.mem_flatten]
    rintro (⟨x, hx, hmem⟩ | hmem)
    · exact hbefore x hx hmem
    · exact hr (List.mem_of_mem_take hmem)
  rw [count_take_intercalate before rest hq, List.count_eq_zero_of_not_mem hnone, Nat.add_zero]

variable (hfirst : s ∉ first) (hmid : ∀ r ∈ mid, s ∉ r) (hlast : s ∉ last)
  (hrows : ∀ r ∈ rows, s ∉ r)

include hfirst hmid hlast hrows

/-- An occurrence begins in the row that the separators in front of it count. -/
lemma occursAt_of_isPrefix {n : Nat} (hn : n ≤ ([s].intercalate rows).length)
    (h : [s].intercalate (first :: (mid ++ [last])) <+: ([s].intercalate rows).drop n) :
    OccursAt first mid last rows ((([s].intercalate rows).take n).count s) := by
  have hne : rows ≠ [] := by
    rintro rfl
    rw [List.intercalate_cons_of_ne_nil (by simp)] at h
    simp at h
  obtain ⟨before, r, rest, q, rfl, hq, rfl⟩ := exists_place hne hn
  have hbefore : ∀ x ∈ before, s ∉ x := fun x hx => hrows x (List.mem_append_left _ hx)
  have hrest : ∀ x ∈ r :: rest, s ∉ x := fun x hx => hrows x (List.mem_append_right _ hx)
  rw [prefix_drop_intercalate_iff hfirst hmid hlast hq hrest] at h
  obtain ⟨rfl, r', rest', rfl, hpre⟩ := h
  rw [count_take_intercalate_of_notMem hbefore (hrest r List.mem_cons_self) hq]
  exact ⟨r, r', rest', List.drop_left, List.drop_suffix q r, hpre⟩

/-- The rows of an occurrence hold one. -/
lemma exists_isPrefix_of_occursAt {j : Nat} (h : OccursAt first mid last rows j) :
    ∃ n, [s].intercalate (first :: (mid ++ [last])) <+: ([s].intercalate rows).drop n ∧
      (([s].intercalate rows).take n).count s = j := by
  have hj := h.fits
  obtain ⟨r, r', rest, hdrop, ⟨t, rfl⟩, hpre⟩ := h
  obtain ⟨before, rfl, rfl⟩ : ∃ before, before.length = j ∧
      rows = before ++ (t ++ first) :: (mid ++ r' :: rest) :=
    ⟨rows.take j, List.length_take_of_le (by omega), by rw [← hdrop, List.take_append_drop]⟩
  have hbefore : ∀ x ∈ before, s ∉ x := fun x hx => hrows x (List.mem_append_left _ hx)
  have hrest : ∀ x ∈ (t ++ first) :: (mid ++ r' :: rest), s ∉ x :=
    fun x hx => hrows x (List.mem_append_right _ hx)
  have hq : t.length ≤ (t ++ first).length := by simp
  refine ⟨(closedText s before).length + t.length, ?_,
    count_take_intercalate_of_notMem hbefore (hrest _ List.mem_cons_self) hq⟩
  rw [prefix_drop_intercalate_iff hfirst hmid hlast hq hrest]
  exact ⟨List.drop_left.symm, r', rest, rfl, hpre⟩

/-- The first occurrence begins in the first row from which on there is one. -/
theorem isLeast_count_of_firstOccurrence? {n : Nat}
    (h : firstOccurrence? ([s].intercalate (first :: (mid ++ [last]))) ([s].intercalate rows) =
      some n) :
    IsLeast {j | OccursAt first mid last rows j} ((([s].intercalate rows).take n).count s) := by
  obtain ⟨hn, hpre, hleast⟩ := firstOccurrence?_eq_some h
  refine ⟨occursAt_of_isPrefix hfirst hmid hlast hrows hn hpre, fun j hj => ?_⟩
  obtain ⟨m, hm, rfl⟩ := exists_isPrefix_of_occursAt hfirst hmid hlast hrows hj
  have hnm : n ≤ m := Nat.le_of_not_lt fun hmn => hleast m hmn hm
  exact (List.take_prefix_take_left hnm).sublist.count_le s

theorem not_occursAt_of_firstOccurrence?
    (h : firstOccurrence? ([s].intercalate (first :: (mid ++ [last]))) ([s].intercalate rows) =
      none) (j : Nat) : ¬ OccursAt first mid last rows j := by
  intro hj
  obtain ⟨n, hn, -⟩ := exists_isPrefix_of_occursAt hfirst hmid hlast hrows hj
  exact firstOccurrence?_eq_none h n hn

end Counting

/-! ### Rows that hold separators -/

/-- The text begins in row `p`, behind the first `q` elements of that row. -/
def BeginsAt (s : α) (needle : List α) (rows : List (List α)) (p q : Nat) : Prop :=
  ∃ r rest, rows.drop p = r :: rest ∧ q ≤ r.length ∧ needle <+: [s].intercalate (r.drop q :: rest)

/-- The text begins there and at no place of an earlier row or further to the front of the row. -/
structure FirstBegin (s : α) (needle : List α) (rows : List (List α)) (p q : Nat) : Prop where
  begins : BeginsAt s needle rows p q
  first : ∀ p' q', BeginsAt s needle rows p' q' → p < p' ∨ p = p' ∧ q ≤ q'

/-- The number of separators that the rows hold in front of a place in row `p`. -/
def heldAbove [BEq α] (s : α) (rows : List (List α)) (p q : Nat) : Nat :=
  ((rows.take p).flatten ++ (rows.getD p []).take q).count s

variable {needle : List α} {p q : Nat}

/-- A text that begins somewhere begins in a row. -/
lemma BeginsAt.lt_length (h : BeginsAt s needle rows p q) : p < rows.length := by
  obtain ⟨r, rest, hdrop, -, -⟩ := h
  by_contra hge
  rw [List.drop_eq_nil_of_le (Nat.le_of_not_lt hge)] at hdrop
  exact List.cons_ne_nil r rest hdrop.symm

lemma FirstBegin.unique {p' q' : Nat} (h : FirstBegin s needle rows p q)
    (h' : FirstBegin s needle rows p' q') : p = p' ∧ q = q' := by
  have hle := h.first p' q' h'.begins
  have hge := h'.first p q h.begins
  omega

/-- A text begins in a row where it occurs in the text of the rows. -/
lemma BeginsAt.isPrefix (h : BeginsAt s needle rows p q) :
    needle <+: ([s].intercalate rows).drop ((closedText s (rows.take p)).length + q) := by
  obtain ⟨r, rest, hdrop, hq, hpre⟩ := h
  rwa [← drop_intercalate (rows.take p) rest hq, ← hdrop, List.take_append_drop] at hpre

/-- The places of a row lie in front of those of the rows below it. -/
lemma BeginsAt.place_lt {p' : Nat} (h : BeginsAt s needle rows p q) (hlt : p < p') :
    (closedText s (rows.take p)).length + q < (closedText s (rows.take p')).length := by
  obtain ⟨r, rest, hdrop, hq, -⟩ := h
  obtain ⟨k, rfl⟩ := Nat.exists_eq_add_of_lt hlt
  rw [Nat.add_assoc, List.take_add, hdrop, List.take_succ_cons, closedText_append, closedText_cons]
  simp only [List.length_append, List.length_cons]
  omega

section Counting

variable [BEq α] [LawfulBEq α]

/-- Rows without separators hold none above any place. -/
lemma heldAbove_eq_zero (hrows : ∀ r ∈ rows, s ∉ r) : heldAbove s rows p q = 0 := by
  rw [heldAbove, List.count_eq_zero, List.mem_append, List.mem_flatten]
  rintro (⟨r, hr, hmem⟩ | hmem)
  · exact hrows r (List.mem_of_mem_take hr) hmem
  · have hrow := List.mem_of_mem_take hmem
    rw [List.getD_eq_getElem?_getD] at hrow
    cases h : rows[p]? with
    | none => simp [h] at hrow
    | some r =>
      rw [h, Option.getD_some] at hrow
      exact hrows r (List.mem_of_getElem? h) hrow

/-- The first occurrence begins in one of the rows; the separators in front of it are the ends of
the rows above that one and those that the rows hold in front of its place. -/
lemma exists_firstBegin_of_firstOccurrence? {n : Nat} (hneedle : needle ≠ [])
    (h : firstOccurrence? needle ([s].intercalate rows) = some n) :
    ∃ p q, FirstBegin s needle rows p q ∧
      (([s].intercalate rows).take n).count s = p + heldAbove s rows p q := by
  obtain ⟨hn, hpre, hleast⟩ := firstOccurrence?_eq_some h
  have hne : rows ≠ [] := by
    rintro rfl
    exact hneedle (by simpa using hpre)
  obtain ⟨before, r, rest, q, rfl, hq, rfl⟩ := exists_place hne hn
  have hplace : BeginsAt s needle (before ++ r :: rest) before.length q :=
    ⟨r, rest, List.drop_left, hq, by rwa [drop_intercalate before rest hq] at hpre⟩
  refine ⟨before.length, q, ⟨hplace, fun p' q' h' => ?_⟩, ?_⟩
  · have hle := Nat.le_of_not_lt fun hlt => hleast _ hlt h'.isPrefix
    rcases Nat.lt_trichotomy before.length p' with hlt | rfl | hgt
    · exact Or.inl hlt
    · rw [List.take_left] at hle
      exact Or.inr ⟨rfl, by omega⟩
    · have hlt := h'.place_lt hgt
      rw [List.take_left] at hlt
      omega
  · rw [count_take_intercalate before rest hq, heldAbove, List.take_left]
    simp

lemma not_beginsAt_of_firstOccurrence?
    (h : firstOccurrence? needle ([s].intercalate rows) = none) : ¬ BeginsAt s needle rows p q :=
  fun hat => firstOccurrence?_eq_none h _ hat.isPrefix

end Counting

end Rows

end LicenseHeader.Text
