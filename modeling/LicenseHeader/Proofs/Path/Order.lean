import LicenseHeader.Path.Basic
import Mathlib.Data.List.Perm.Basic
import Mathlib.Order.Compare
import Mathlib.Tactic.Lemma

/-!
# The order of paths

Components are ordered by their kind and then by their text, and paths as the sequences of their
components. This is a total order in which exactly the paths with the same components are equal.
-/

namespace LicenseHeader.Path

variable {p q r : Path}

/-! ### Components -/

instance : Std.TransCmp Component.compare :=
  inferInstanceAs (Std.TransCmp (compareLex (compareOn Component.rank) (compareOn Component.text)))

lemma Component.eq_of_rank_of_text {a b : Component} (hrank : a.rank = b.rank)
    (htext : a.text = b.text) : a = b := by
  cases a <;> cases b <;> simp_all [Component.rank, Component.text]

instance : Std.LawfulEqCmp Component.compare where
  eq_of_compare {a b} h := by
    rw [Component.compare, Ordering.then_eq_eq, Std.compare_eq_iff_eq, Std.compare_eq_iff_eq] at h
    exact Component.eq_of_rank_of_text h.1 h.2

/-! ### Paths -/

/-- The order of components is the lexicographic one, so it is transitive and total. -/
lemma compareComponents_eq_compareLex :
    compareComponents = List.compareLex Component.compare := by
  funext as bs
  induction as generalizing bs with
  | nil => cases bs <;> rfl
  | cons a as ih =>
    cases bs with
    | nil => rfl
    | cons b bs => rw [compareComponents, ih, List.compareLex_cons_cons]

/-- The paths that are equal in the order are those with the same components. -/
lemma compare_eq_eq_iff : p.compare q = .eq ↔ p.components = q.components := by
  rw [compare, compareComponents_eq_compareLex]
  exact Std.LawfulEqCmp.compare_eq_iff_eq

lemma compare_swap (p q : Path) : p.compare q = (q.compare p).swap := by
  rw [compare, compare, compareComponents_eq_compareLex]
  exact Std.OrientedCmp.eq_swap

lemma le_trans (hpq : p.le q) (hqr : q.le r) : p.le r := by
  rw [le, compare, compareComponents_eq_compareLex] at *
  exact Std.TransCmp.isLE_trans hpq hqr

lemma le_total (p q : Path) : p.le q ∨ q.le p := by
  rw [le, le, compare_swap q p]
  cases p.compare q <;> simp [Ordering.swap, Ordering.isLE]

/-- Of two paths with different components one comes before the other. -/
lemma compare_eq_lt_of_le (h : p.le q) (hne : p.components ≠ q.components) :
    p.compare q = .lt := by
  rw [le] at h
  cases hc : p.compare q with
  | lt => rfl
  | eq => exact absurd (compare_eq_eq_iff.mp hc) hne
  | gt =>
    rw [hc] at h
    cases h

lemma compare_eq_lt_trans (hpq : p.compare q = .lt) (hqr : q.compare r = .lt) :
    p.compare r = .lt := by
  rw [compare, compareComponents_eq_compareLex] at *
  exact Std.TransCmp.lt_trans hpq hqr

/-- The order looks at components only. -/
lemma compare_congr_left (h : p.components = q.components) (r : Path) :
    p.compare r = q.compare r := by
  rw [compare, compare, h]

lemma ne_of_compare_eq_lt (h : p.compare q = .lt) : p.components ≠ q.components := by
  intro heq
  rw [compare_eq_eq_iff.mpr heq] at h
  cases h

/-! ### Sorted lists -/

section Sorting

variable {α : Type} {f : α → Path} {as : List α} {paths : List Path}

lemma pairwise_mergeSort_le (f : α → Path) (as : List α) :
    (as.mergeSort fun a b => (f a).le (f b)).Pairwise fun a b => (f a).le (f b) := by
  apply List.pairwise_mergeSort
  · intro a b c hab hbc
    exact le_trans hab hbc
  · intro a b
    simpa using le_total (f a) (f b)

/-- Things with different paths are in strictly increasing order when they are sorted by path. -/
lemma pairwise_mergeSort_lt (h : as.Pairwise fun a b => (f a).components ≠ (f b).components) :
    (as.mergeSort fun a b => (f a).le (f b)).Pairwise fun a b => (f a).compare (f b) = .lt := by
  have hne := ((List.mergeSort_perm as fun a b => (f a).le (f b)).pairwise_iff Ne.symm).mpr h
  exact (pairwise_mergeSort_le f as).imp₂ (fun a b hle hne => compare_eq_lt_of_le hle hne) hne

/-- A path in front of a sorted list takes the place of one with the same components. -/
lemma pairwise_cons_unique {ps : List Path} (hps : ps.Pairwise fun q r => q.compare r = .lt)
    (hle : ∀ q ∈ ps, p.le q) :
    (if ps.head?.any p.same then p :: ps.tail else p :: ps).Pairwise
      fun q r => q.compare r = .lt := by
  cases ps with
  | nil => simp
  | cons q ps =>
    obtain ⟨hq, hrest⟩ := List.pairwise_cons.mp hps
    by_cases hsame : p.components = q.components
    · simp only [List.head?_cons, Option.any_some, same, hsame, beq_self_eq_true, if_true,
        List.tail_cons]
      refine List.pairwise_cons.mpr ⟨fun r hr => ?_, hrest⟩
      rw [compare_congr_left hsame]
      exact hq r hr
    · have hlt := compare_eq_lt_of_le (hle q List.mem_cons_self) hsame
      simp only [List.head?_cons, Option.any_some, same, beq_iff_eq, hsame, if_false]
      refine List.pairwise_cons.mpr ⟨fun r hr => ?_, hps⟩
      rcases List.mem_cons.mp hr with rfl | hr
      · exact hlt
      · exact compare_eq_lt_trans hlt (hq r hr)

lemma mem_of_mem_cons_unique {ps : List Path}
    (h : q ∈ if ps.head?.any p.same then p :: ps.tail else p :: ps) : q = p ∨ q ∈ ps := by
  split_ifs at h
  · exact (List.mem_cons.mp h).imp_right List.mem_of_mem_tail
  · exact List.mem_cons.mp h

lemma mem_of_mem_foldr_unique {sorted : List Path}
    (h : q ∈ sorted.foldr (fun p ps => if ps.head?.any p.same then p :: ps.tail else p :: ps) []) :
    q ∈ sorted := by
  induction sorted with
  | nil => exact h
  | cons p sorted ih => exact List.mem_cons.mpr ((mem_of_mem_cons_unique h).imp_right ih)

/-- Of several paths with the same components only one is left. -/
lemma pairwise_sortUnique (paths : List Path) :
    (sortUnique paths).Pairwise fun p q => p.compare q = .lt := by
  have hsorted : (sort paths).Pairwise fun p q => p.le q := pairwise_mergeSort_le id paths
  rw [sortUnique]
  generalize sort paths = sorted at hsorted
  induction sorted with
  | nil => exact List.Pairwise.nil
  | cons p sorted ih =>
    obtain ⟨hfirst, hrest⟩ := List.pairwise_cons.mp hsorted
    exact pairwise_cons_unique (ih hrest) fun q hq => hfirst q (mem_of_mem_foldr_unique hq)

end Sorting

end LicenseHeader.Path
