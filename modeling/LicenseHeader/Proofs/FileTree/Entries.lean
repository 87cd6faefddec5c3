import LicenseHeader.FileTree.Access
import LicenseHeader.Proofs.Path.Components
import Mathlib.Data.List.Basic
import Mathlib.Tactic.Lemma

/-!
# Entries of a tree

Putting an entry at a location changes what stands there and nothing else. Where something stood
before, the order of such changes does not matter.
-/

namespace LicenseHeader.FileTree

variable {t : FileTree} {l m : Location} {e : Entry}

@[simp] lemma entry?_nil (t : FileTree) : t.entry? [] = some .directory := by
  simp [FileTree.entry?]

lemma entry?_of_ne_nil (h : l ≠ []) : t.entry? l = t.entries.lookup l := by
  simp [FileTree.entry?, h]

/-! ### Lists of entries -/

lemma lookup_map_of_ne (entries : List (Location × Entry)) (h : m ≠ l) :
    (entries.map fun known => if known.1 = l then (l, e) else known).lookup m =
      entries.lookup m := by
  induction entries with
  | nil => rfl
  | cons known entries ih =>
    rw [List.map_cons]
    by_cases hk : known.1 = l
    · have hm : (m == l) = false := beq_eq_false_iff_ne.mpr h
      rw [if_pos hk, List.lookup_cons, List.lookup_cons, ih, hk, hm]
    · rw [if_neg hk, List.lookup_cons, List.lookup_cons, ih]

lemma lookup_map_self {entries : List (Location × Entry)} (h : (entries.lookup l).isSome) :
    (entries.map fun known => if known.1 = l then (l, e) else known).lookup l = some e := by
  induction entries with
  | nil => simp at h
  | cons known entries ih =>
    rw [List.map_cons, List.lookup_cons]
    by_cases hk : known.1 = l
    · simp [hk]
    · have hl : (l == known.1) = false := beq_eq_false_iff_ne.mpr (Ne.symm hk)
      rw [List.lookup_cons, hl] at h
      rw [if_neg hk, hl]
      exact ih h

/-! ### A changed entry -/

/-- What is put at a location changes nothing at another one. -/
lemma entry?_put_of_ne (h : m ≠ l) : FileTree.entry? (t.put l e) m = t.entry? m := by
  rcases eq_or_ne m [] with rfl | hm
  · simp
  · rw [entry?_of_ne_nil hm, entry?_of_ne_nil hm, put]
    split_ifs with hl
    · exact lookup_map_of_ne t.entries h
    · have hm' : (m == l) = false := beq_eq_false_iff_ne.mpr h
      rw [List.lookup_append, List.lookup_cons, hm', List.lookup_nil, Option.or_none]

lemma entry?_put_self (h : l ≠ []) : FileTree.entry? (t.put l e) l = some e := by
  rw [entry?_of_ne_nil h, put]
  split_ifs with hl
  · exact lookup_map_self hl
  · simp [List.lookup_append, Option.not_isSome_iff_eq_none.mp hl]

@[simp] lemma locked_put (t : FileTree) (l : Location) (e : Entry) :
    (t.put l e).locked = t.locked := rfl

lemma lookup_isSome_of_entry? (hl : l ≠ []) (h : (t.entry? l).isSome) :
    (t.entries.lookup l).isSome := by
  rwa [entry?_of_ne_nil hl] at h

/-- Entries that are there may be changed in any order. -/
lemma put_put_comm {e' : Entry} (hlm : l ≠ m) (hl : (t.entries.lookup l).isSome)
    (hm : (t.entries.lookup m).isSome) :
    (t.put l e).put m e' = (t.put m e').put l e := by
  have hl' : ((t.put m e').entries.lookup l).isSome := by
    rw [put, if_pos hm, lookup_map_of_ne t.entries hlm]
    exact hl
  have hm' : ((t.put l e).entries.lookup m).isSome := by
    rw [put, if_pos hl, lookup_map_of_ne t.entries hlm.symm]
    exact hm
  rw [put, if_pos hm', put, if_pos hl, put, if_pos hl', put, if_pos hm]
  simp only [List.map_map, FileTree.mk.injEq, and_true]
  apply List.map_congr_left
  intro known _
  by_cases hk : known.1 = l
  · simp [hk, hlm]
  · by_cases hk' : known.1 = m
    · simp [hk', hlm.symm]
    · simp [hk, hk']

/-! ### Proper trees -/

/-- Whether a file system can hold the tree: there is one entry at each location, and the entries
have names. -/
structure Proper (t : FileTree) : Prop where
  nodup : (t.entries.map Prod.fst).Nodup
  isName : ∀ known ∈ t.entries, ∀ n ∈ known.1, Path.IsName n

lemma lookup_eq_some_of_mem {entries : List (Location × Entry)}
    (hnodup : (entries.map Prod.fst).Nodup) (h : (l, e) ∈ entries) :
    entries.lookup l = some e := by
  induction entries with
  | nil => cases h
  | cons known entries ih =>
    obtain ⟨hfirst, hrest⟩ := List.nodup_cons.mp hnodup
    rcases List.mem_cons.mp h with rfl | h
    · simp
    · have hne : (l == known.1) = false := by
        apply beq_eq_false_iff_ne.mpr
        rintro rfl
        exact hfirst (List.mem_map.mpr ⟨_, h, rfl⟩)
      rw [List.lookup_cons, hne]
      exact ih hrest h

lemma Proper.entry?_of_mem (ht : t.Proper) (hl : l ≠ []) (h : (l, e) ∈ t.entries) :
    t.entry? l = some e := by
  rw [entry?_of_ne_nil hl]
  exact lookup_eq_some_of_mem ht.nodup h

lemma mem_entries_of_eq_some (hl : l ≠ []) (h : t.entry? l = some e) : (l, e) ∈ t.entries := by
  rw [entry?_of_ne_nil hl, List.lookup_eq_some_iff] at h
  obtain ⟨before, after, hentries, -⟩ := h
  simp [hentries]

/-- What stands below a location is an entry at a location that goes on from there. -/
lemma mem_below_iff : (m, e) ∈ t.below l ↔ m ≠ [] ∧ (l ++ m, e) ∈ t.entries := by
  rw [below, List.mem_filterMap]
  constructor
  · rintro ⟨⟨k, e'⟩, hmem, hk⟩
    split_ifs at hk with hbelow
    cases hk
    obtain ⟨hbefore, hne⟩ := Bool.and_eq_true_iff.mp hbelow
    obtain ⟨rest, hrest⟩ := List.isPrefixOf_iff_prefix.mp hbefore
    dsimp only at hrest hne ⊢
    subst hrest
    rw [List.drop_left]
    refine ⟨?_, hmem⟩
    rintro rfl
    simp at hne
  · rintro ⟨hne, hmem⟩
    refine ⟨_, hmem, ?_⟩
    have hbefore : l.isPrefixOf (l ++ m) = true :=
      List.isPrefixOf_iff_prefix.mpr (List.prefix_append l m)
    simp [hbefore, hne]

end LicenseHeader.FileTree
