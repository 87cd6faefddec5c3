import LicenseHeader.Proofs.Json.Reading
import LicenseHeader.Proofs.Text.Digits

/-!
# Written numbers

Natural numbers, and decimals put together from digits, are numbers in the sense of JSON.
-/

namespace LicenseHeader.Json

open Text

variable {c : Char} {cs ds : List Char}

/-! ### Digits -/

lemma isDigits_iff : isDigits cs ↔ cs ≠ [] ∧ ∀ c ∈ cs, c.isDigit := by
  simp [isDigits]

lemma isDigits_append (hds : ∀ c ∈ ds, c.isDigit) (hcs : isDigits cs) : isDigits (ds ++ cs) := by
  obtain ⟨hne, hcs⟩ := isDigits_iff.mp hcs
  refine isDigits_iff.mpr ⟨List.append_ne_nil_of_right_ne_nil ds hne, fun c hc => ?_⟩
  exact (List.mem_append.mp hc).elim (hds c) (hcs c)

lemma isDigits_toDigits (n : Nat) : isDigits (Nat.toDigits 10 n) :=
  isDigits_iff.mpr ⟨Nat.toDigits_ne_nil, fun _ => isDigit_of_mem_toDigits⟩

lemma isWhole_of_head? (hcs : isDigits cs) (hhead : cs.head? ≠ some '0') : isWhole cs := by
  simp [isWhole, hcs, hhead]

lemma isWhole_append (hds : isDigits ds) (hhead : ds.head? ≠ some '0')
    (hcs : ∀ c ∈ cs, c.isDigit) : isWhole (ds ++ cs) := by
  obtain ⟨hne, hall⟩ := isDigits_iff.mp hds
  have hdigits : isDigits (ds ++ cs) := by
    refine isDigits_iff.mpr ⟨List.append_ne_nil_of_left_ne_nil hne cs, fun c hc => ?_⟩
    exact (List.mem_append.mp hc).elim (hall c) (hcs c)
  apply isWhole_of_head? hdigits
  rw [List.head?_append_of_ne_nil _ hne]
  exact hhead

lemma isWhole_toDigits (n : Nat) : isWhole (Nat.toDigits 10 n) := by
  rcases eq_or_ne n 0 with rfl | hn
  · rfl
  · exact isWhole_of_head? (isDigits_toDigits n) (head?_toDigits hn)

/-! ### Parts of numbers -/

lemma isFraction_point (hds : isDigits ds) (hcs : ∀ c ∈ cs.head?, ¬ c.isDigit)
    (hexponent : isExponent cs) : isFraction ('.' :: (ds ++ cs)) := by
  have hall := (isDigits_iff.mp hds).2
  simp [isFraction, takeWhile_isDigit hall hcs, dropWhile_isDigit hall hcs, hds, hexponent]

lemma isFraction_point_end (hds : isDigits ds) : isFraction ('.' :: ds) := by
  have h := isFraction_point hds (by simp) (show isExponent [] from rfl)
  rwa [List.append_nil] at h

lemma isExponent_cons {sign : Char} (hsign : sign = '+' ∨ sign = '-') (hcs : isDigits cs) :
    isExponent ('e' :: sign :: cs) := by
  simp [isExponent, hsign, hcs]

lemma isUnsigned_append (hds : isWhole ds) (hcs : ∀ c ∈ cs.head?, ¬ c.isDigit)
    (hfraction : isFraction cs) : isUnsigned (ds ++ cs) := by
  have hdigits : isDigits ds := (Bool.and_eq_true_iff.mp hds).1
  have hall := (isDigits_iff.mp hdigits).2
  rw [isUnsigned, takeWhile_isDigit hall hcs, dropWhile_isDigit hall hcs, hds, hfraction]
  rfl

lemma isDigit_head_of_isUnsigned (h : isUnsigned cs) : ∃ c rest, cs = c :: rest ∧ c.isDigit := by
  cases cs with
  | nil => cases h
  | cons c rest =>
    refine ⟨c, rest, rfl, ?_⟩
    by_contra hc
    rw [isUnsigned, List.takeWhile_cons_of_neg hc] at h
    cases h

lemma isNumber_of_isUnsigned (h : isUnsigned cs) : isNumber cs := by
  obtain ⟨c, rest, rfl, hc⟩ := isDigit_head_of_isUnsigned h
  rw [isNumber]
  · exact h
  · rintro rest' heq
    cases heq
    cases hc

/-- A natural number is a number. -/
lemma isNumber_toString (n : Nat) : isNumber (toString n).toList := by
  rw [toList_toString]
  have h : isUnsigned (Nat.toDigits 10 n ++ []) := isUnsigned_append (isWhole_toDigits n) (by simp) rfl
  rw [List.append_nil] at h
  exact isNumber_of_isUnsigned h

/-! ### Characters of numbers -/

lemma isNumberChar_of_isDigit (h : c.isDigit) : isNumberChar c := by
  simp [isNumberChar, h]

lemma isNumberChar_of_isDigits (h : isDigits cs) (hc : c ∈ cs) : isNumberChar c :=
  isNumberChar_of_isDigit ((isDigits_iff.mp h).2 c hc)

/-- An exponent consists of characters that occur in numbers. -/
lemma isNumberChar_of_isExponent (h : isExponent cs) (hc : c ∈ cs) : isNumberChar c := by
  match cs, h with
  | e :: sign :: cs, h =>
    simp only [isExponent, Bool.and_eq_true, Bool.or_eq_true, beq_iff_eq] at h
    obtain ⟨he, hrest⟩ := h
    rcases List.mem_cons.mp hc with rfl | hc
    · rcases he with rfl | rfl <;> rfl
    · split_ifs at hrest with hsign
      · rcases List.mem_cons.mp hc with rfl | hc
        · rcases hsign with rfl | rfl <;> rfl
        · exact isNumberChar_of_isDigits hrest hc
      · exact isNumberChar_of_isDigits hrest hc

lemma isNumberChar_of_isFraction (h : isFraction cs) (hc : c ∈ cs) : isNumberChar c := by
  rw [isFraction.eq_def] at h
  split at h
  case h_1 cs =>
    obtain ⟨hdigits, hexponent⟩ := Bool.and_eq_true_iff.mp h
    rcases List.mem_cons.mp hc with rfl | hc
    · rfl
    · rw [← List.takeWhile_append_dropWhile (p := Char.isDigit) (l := cs)] at hc
      rcases List.mem_append.mp hc with hc | hc
      · exact isNumberChar_of_isDigits hdigits hc
      · exact isNumberChar_of_isExponent hexponent hc
  case h_2 => exact isNumberChar_of_isExponent h hc

lemma isNumberChar_of_isUnsigned (h : isUnsigned cs) (hc : c ∈ cs) : isNumberChar c := by
  obtain ⟨hwhole, hfraction⟩ := Bool.and_eq_true_iff.mp h
  rw [← List.takeWhile_append_dropWhile (p := Char.isDigit) (l := cs)] at hc
  rcases List.mem_append.mp hc with hc | hc
  · exact isNumberChar_of_isDigits (Bool.and_eq_true_iff.mp hwhole).1 hc
  · exact isNumberChar_of_isFraction hfraction hc

lemma isNumberChar_of_isNumber (h : isNumber cs) (hc : c ∈ cs) : isNumberChar c := by
  rw [isNumber.eq_def] at h
  split at h
  · rcases List.mem_cons.mp hc with rfl | hc
    · rfl
    · exact isNumberChar_of_isUnsigned h hc
  · exact isNumberChar_of_isUnsigned h hc

/-- A number begins with a sign or with a digit. -/
lemma head_of_isNumber (h : isNumber cs) : ∃ c rest, cs = c :: rest ∧ (c = '-' ∨ c.isDigit) := by
  rw [isNumber.eq_def] at h
  split at h
  case h_1 rest => exact ⟨'-', rest, rfl, Or.inl rfl⟩
  case h_2 =>
    obtain ⟨c, rest, rfl, hc⟩ := isDigit_head_of_isUnsigned h
    exact ⟨c, rest, rfl, Or.inr hc⟩

end LicenseHeader.Json
