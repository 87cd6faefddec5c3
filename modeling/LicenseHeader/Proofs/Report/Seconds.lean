import LicenseHeader.Proofs.Json.Numbers
import LicenseHeader.Report.Document
import Mathlib.Data.List.Basic

/-!
# Written times

A time in seconds is written as a number in the sense of JSON, with or without an exponent.
-/

namespace LicenseHeader

open Json (isDigits isExponent isFraction isNumber isUnsigned isWhole)

namespace Number.Double

variable {d : Double} {decimal : Decimal} {exponent : Int}

/-! ### The digits of a number that is not zero -/

/-- Zero reads back as no other number. -/
lemma isNear_zero (h : d.significand ≠ 0) (exponent : Int) : d.isNear exponent 0 = false := by
  have hunit : 0 < Nat.pow 2 d.exponent.toNat * Nat.pow 10 (-exponent).toNat :=
    Nat.mul_pos (Nat.pow_pos (by decide)) (Nat.pow_pos (by decide))
  have hlow : 0 < (4 * d.significand - (if d.significand = leastSignificand then 1 else 2)) *
      (Nat.pow 2 d.exponent.toNat * Nat.pow 10 (-exponent).toNat) := by
    apply Nat.mul_pos _ hunit
    split_ifs <;> omega
  simp only [isNear, Nat.zero_mul]
  generalize (4 * d.significand - _) * _ = low at hlow ⊢
  split_ifs
  · rw [decide_eq_false (Nat.not_le_of_gt hlow), Bool.false_and]
  · rw [decide_eq_false (Nat.not_lt_zero _), Bool.false_and]

lemma roundQuotient_ne_zero {num den : Nat} (h : num / den ≠ 0) : roundQuotient num den ≠ 0 := by
  simp only [roundQuotient]
  generalize num / den = quotient at h ⊢
  split_ifs
  · exact h
  · exact Nat.succ_ne_zero quotient
  · omega

/-- A decimal that reads back as a number has a digit. -/
lemma digits_ne_zero_of_onGrid? (h : d.significand ≠ 0)
    (hdecimal : d.onGrid? exponent = some decimal) : decimal.digits ≠ 0 := by
  simp only [onGrid?] at hdecimal
  -- Zero does not read back as the number, so that no grid gives it.
  have hbelow : d.isNear exponent (d.numerator * Nat.pow 10 (-exponent).toNat /
      (d.denominator * Nat.pow 10 exponent.toNat)) = true →
        d.numerator * Nat.pow 10 (-exponent).toNat /
          (d.denominator * Nat.pow 10 exponent.toNat) ≠ 0 := by
    intro hnear hzero
    rw [hzero, isNear_zero h] at hnear
    cases hnear
  split at hdecimal
  case h_1 hnear _ =>
    cases hdecimal
    exact roundQuotient_ne_zero (hbelow hnear)
  case h_2 hnear _ =>
    cases hdecimal
    exact hbelow hnear
  case h_3 =>
    cases hdecimal
    exact Nat.succ_ne_zero _
  case h_4 => cases hdecimal

/-- The shortest decimal has a digit or is written without a power of ten. -/
lemma digits_shortest (h : d.significand ≠ 0) :
    d.shortest.digits ≠ 0 ∨ d.shortest.exponent = 0 := by
  cases hfind : (List.range gridCount).findSome? fun (i : Nat) => d.onGrid? (d.topPlace - i) with
  | none =>
    rw [shortest, hfind]
    exact Or.inr rfl
  | some decimal =>
    obtain ⟨i, -, hi⟩ := List.exists_of_findSome?_eq_some hfind
    rw [shortest, hfind]
    exact Or.inl (digits_ne_zero_of_onGrid? h hi)

end Number.Double

/-! ### The text of a decimal -/

namespace Number.Decimal

variable {decimal : Decimal}

lemma digitChars_eq (decimal : Decimal) : decimal.digitChars = Nat.toDigits 10 decimal.digits :=
  Text.toList_toString decimal.digits

lemma isDigits_digitChars (decimal : Decimal) : isDigits decimal.digitChars := by
  rw [digitChars_eq]
  exact Json.isDigits_toDigits decimal.digits

lemma isDigit_digitChars (decimal : Decimal) : ∀ c ∈ decimal.digitChars, c.isDigit :=
  (Json.isDigits_iff.mp decimal.isDigits_digitChars).2

/-- In front of the point a number other than zero is not written with a zero first. -/
lemma isWhole_take (h : decimal.digits ≠ 0) (n : Nat) (hn : n ≠ 0) :
    isWhole (decimal.digitChars.take n) := by
  have hdigits : isDigits (decimal.digitChars.take n) := by
    refine Json.isDigits_iff.mpr ⟨?_, fun c hc =>
      decimal.isDigit_digitChars c (List.mem_of_mem_take hc)⟩
    rw [Ne, List.take_eq_nil_iff]
    rintro (hzero | hnil)
    · exact hn hzero
    · exact (Json.isDigits_iff.mp decimal.isDigits_digitChars).1 hnil
  have hhead : (decimal.digitChars.take n).head? ≠ some '0' := by
    rw [List.head?_take, if_neg hn, digitChars_eq]
    exact Text.head?_toDigits h
  exact Json.isWhole_of_head? hdigits hhead

lemma isWhole_append_zeros (h : decimal.digits ≠ 0 ∨ decimal.exponent = 0) :
    isWhole (decimal.digitChars ++ List.replicate decimal.exponent.toNat '0') := by
  rw [digitChars_eq]
  rcases h with h | h
  · exact Json.isWhole_append (Json.isDigits_toDigits _) (Text.head?_toDigits h)
      fun c => Text.isDigit_of_mem_zeros
  · rw [h, Int.toNat_zero, List.replicate_zero, List.append_nil]
    exact Json.isWhole_toDigits decimal.digits

end Number.Decimal

namespace Report

open Number

lemma isUnsigned_exponentForm (decimal : Decimal) {sign : Char} (hsign : sign = '+' ∨ sign = '-')
    (n : Nat) :
    isUnsigned (decimal.digitChars.take 1 ++
      (if decimal.digitChars.length = 1 then [] else '.' :: decimal.digitChars.drop 1) ++
        'e' :: sign :: (toString n).toList) := by
  have hdigits : isDigits (toString n).toList := by
    rw [Text.toList_toString]
    exact Json.isDigits_toDigits n
  have hexponent := Json.isExponent_cons hsign hdigits
  have hall := decimal.isDigit_digitChars
  cases hchars : decimal.digitChars with
  | nil => exact absurd hchars (Json.isDigits_iff.mp decimal.isDigits_digitChars).1
  | cons c rest =>
    rw [hchars] at hall
    have hc : isWhole [c] := by simp [isWhole, isDigits, hall c List.mem_cons_self]
    cases rest with
    | nil =>
      exact @Json.isUnsigned_append ('e' :: sign :: (toString n).toList) [c] hc (by simp) hexponent
    | cons c' rest =>
      have hrest : isDigits (c' :: rest) := Json.isDigits_iff.mpr
        ⟨List.cons_ne_nil _ _, fun d hd => hall d (List.mem_cons_of_mem c hd)⟩
      have hfraction := Json.isFraction_point hrest (by simp) hexponent
      have h := Json.isUnsigned_append hc (by simp) hfraction
      simpa using h

/-- The number with the point where it belongs. -/
lemma isUnsigned_plainForm (decimal : Decimal)
    (h : decimal.digits ≠ 0 ∨ decimal.exponent = 0) :
    isUnsigned (if 0 ≤ decimal.exponent then
        decimal.digitChars ++ List.replicate decimal.exponent.toNat '0' ++ ['.', '0']
      else if 0 < decimal.pointPosition then
        decimal.digitChars.take decimal.pointPosition.toNat ++
          '.' :: decimal.digitChars.drop decimal.pointPosition.toNat
      else '0' :: '.' :: List.replicate (-decimal.pointPosition).toNat '0' ++
        decimal.digitChars) := by
  have hall := decimal.isDigit_digitChars
  split_ifs with hwhole hinside
  · exact Json.isUnsigned_append (decimal.isWhole_append_zeros h) (by simp) rfl
  · have hdigits : decimal.digits ≠ 0 := h.resolve_right (by omega)
    have hlt : decimal.pointPosition.toNat < decimal.digitChars.length := by
      rw [Decimal.pointPosition] at hinside ⊢
      omega
    have hfraction : isDigits (decimal.digitChars.drop decimal.pointPosition.toNat) :=
      Json.isDigits_iff.mpr ⟨by simpa using hlt, fun c hc => hall c (List.mem_of_mem_drop hc)⟩
    exact Json.isUnsigned_append (decimal.isWhole_take hdigits _ (by omega)) (by simp)
      (Json.isFraction_point_end hfraction)
  · have hfraction : isDigits (List.replicate (-decimal.pointPosition).toNat '0' ++
        decimal.digitChars) :=
      Json.isDigits_append (fun c => Text.isDigit_of_mem_zeros) decimal.isDigits_digitChars
    exact @Json.isUnsigned_append _ ['0'] rfl (by simp) (Json.isFraction_point_end hfraction)

/-- A time in seconds is a number. -/
lemma isNumber_secondsText (d : Double) : isNumber (secondsText d) := by
  rw [secondsText]
  by_cases hzero : d.significand = 0
  · rw [if_pos hzero]
    rfl
  · rw [if_neg hzero]
    apply Json.isNumber_of_isUnsigned
    dsimp only
    by_cases hfar : (16 < d.shortest.pointPosition || d.shortest.pointPosition < -4)
    · rw [if_pos hfar]
      apply isUnsigned_exponentForm
      split_ifs
      · exact Or.inl rfl
      · exact Or.inr rfl
    · rw [if_neg hfar]
      exact isUnsigned_plainForm d.shortest (Double.digits_shortest hzero)

end Report

end LicenseHeader
