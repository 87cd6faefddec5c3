import LicenseHeader.Text.Basic
import Mathlib.Data.List.DropRight
import Mathlib.Tactic.Lemma

/-!
# Removing white space

`trim` looks at the two ends of a text only: white space that is put there, or taken away from
there, makes no difference, and nothing is left exactly of the texts that are blank throughout.
-/

namespace LicenseHeader.Text

/-! ### Blank texts -/

lemma isBlank_of_mem_space : ∀ c ∈ [' '], isBlank c := by
  intro c hc
  rw [List.mem_singleton.mp hc]
  decide

lemma trimStart_eq_nil_iff {cs : List Char} : trimStart cs = [] ↔ ∀ c ∈ cs, isBlank c :=
  List.dropWhile_eq_nil_iff

lemma trimEnd_eq_nil_iff {cs : List Char} : trimEnd cs = [] ↔ ∀ c ∈ cs, isBlank c :=
  List.rdropWhile_eq_nil_iff

/-- White space in front of a text does not matter. -/
lemma trimStart_append_of_blank {w : List Char} (hw : ∀ c ∈ w, isBlank c) (cs : List Char) :
    trimStart (w ++ cs) = trimStart cs := by
  rw [trimStart, List.dropWhile_append, List.dropWhile_eq_nil_iff.mpr hw]
  rfl

/-- White space behind a text does not matter. -/
lemma trimEnd_append_of_blank {w : List Char} (hw : ∀ c ∈ w, isBlank c) (cs : List Char) :
    trimEnd (cs ++ w) = trimEnd cs := by
  have hw' : ∀ c ∈ w.reverse, isBlank c := fun c hc => hw c (List.mem_reverse.mp hc)
  rw [trimEnd, List.reverse_append]
  exact congrArg List.reverse (trimStart_append_of_blank hw' cs.reverse)

/-- What stands before a text that is not blank stays. -/
lemma trimEnd_append {ds : List Char} (h : trimEnd ds ≠ []) (cs : List Char) :
    trimEnd (cs ++ ds) = cs ++ trimEnd ds := by
  have hd : ds.reverse.dropWhile isBlank ≠ [] := fun hn => h (by simp [trimEnd, hn])
  simp [trimEnd, List.dropWhile_append, hd]

lemma trim_eq_nil_iff {cs : List Char} : trim cs = [] ↔ ∀ c ∈ cs, isBlank c := by
  refine ⟨fun h => ?_, fun h => ?_⟩
  · -- the rest of a text after its leading white space starts with another character
    have hs : ∀ c ∈ trimStart cs, isBlank c := trimEnd_eq_nil_iff.mp h
    have hn : trimStart (trimStart cs) = [] := trimStart_eq_nil_iff.mpr hs
    rw [trimStart, trimStart, List.dropWhile_idempotent] at hn
    exact trimStart_eq_nil_iff.mp hn
  · rw [trim, trimStart_eq_nil_iff.mpr h]
    rfl

lemma allBlank_iff {cs : List Char} : allBlank cs = true ↔ trim cs = [] := by
  rw [allBlank, List.isEmpty_iff]

/-- A text is not blank just because its end was removed. -/
lemma trimEnd_all_blank_iff {cs : List Char} :
    (∀ c ∈ trimEnd cs, isBlank c) ↔ ∀ c ∈ cs, isBlank c := by
  rw [← trimEnd_eq_nil_iff, trimEnd, ← List.rdropWhile, trimEnd, ← List.rdropWhile,
    List.rdropWhile_idempotent]
  exact List.rdropWhile_eq_nil_iff

/-! ### Blank ends -/

/-- White space at the end does not matter. -/
lemma trim_append_of_blank {w : List Char} (hw : ∀ c ∈ w, isBlank c) (cs : List Char) :
    trim (cs ++ w) = trim cs := by
  by_cases h : ∀ c ∈ cs, isBlank c
  · have hcw : ∀ c ∈ cs ++ w, isBlank c := fun c hc => (List.mem_append.mp hc).elim (h c) (hw c)
    rw [trim_eq_nil_iff.mpr h, trim_eq_nil_iff.mpr hcw]
  · have hn : cs.dropWhile isBlank ≠ [] := fun hd => h (List.dropWhile_eq_nil_iff.mp hd)
    have hs : trimStart (cs ++ w) = trimStart cs ++ w := by
      simp [trimStart, List.dropWhile_append, hn]
    rw [trim, hs, trimEnd_append_of_blank hw, trim]

lemma trim_blank_append {w : List Char} (hw : ∀ c ∈ w, isBlank c) (cs : List Char) :
    trim (w ++ cs) = trim cs := by
  rw [trim, trimStart_append_of_blank hw, trim]

@[simp] lemma trim_append_newline (cs : List Char) : trim (cs ++ ['\n']) = trim cs :=
  trim_append_of_blank (by simp [isBlank_newline]) cs

lemma trimEnd_isPrefix (cs : List Char) : trimEnd cs <+: cs :=
  List.rdropWhile_prefix isBlank cs

lemma trimStart_isSuffix (cs : List Char) : trimStart cs <:+ cs :=
  List.dropWhile_suffix isBlank

end LicenseHeader.Text
