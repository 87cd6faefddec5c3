import Mathlib.Data.List.Basic
import Mathlib.Tactic.Lemma

/-!
# Digits

A number is written with digits, the first of which is not zero unless the number is. Digits at the
start of a text are told from what follows by the first character that is no digit.
-/

namespace LicenseHeader.Text

variable {c : Char} {cs ds : List Char} {n : Nat}

lemma toList_toString (n : Nat) : (toString n).toList = Nat.toDigits 10 n := by
  rw [Nat.toString_eq_ofList_toDigits, String.toList_ofList]

lemma isDigit_of_mem_toDigits (hc : c ∈ Nat.toDigits 10 n) : c.isDigit :=
  Nat.isDigit_of_mem_toDigits (by decide) (by decide) hc

lemma isDigit_of_mem_zeros (hc : c ∈ List.replicate n '0') : c.isDigit := by
  rw [List.eq_of_mem_replicate hc]
  rfl

/-- No number but zero is written with a zero in front. -/
lemma head?_toDigits (hn : n ≠ 0) : (Nat.toDigits 10 n).head? ≠ some '0' := by
  have hdigit : ∀ m < 10, m ≠ 0 → [m.digitChar].head? ≠ some '0' := by decide
  induction n using Nat.strongRecOn with
  | ind n ih =>
    by_cases hlt : n < 10
    · rw [Nat.toDigits_of_lt_base hlt]
      exact hdigit n hlt hn
    · have hle : 10 ≤ n := Nat.le_of_not_lt hlt
      have hquotient := ih (n / 10) (by omega) (by omega)
      rw [Nat.toDigits_of_base_le (by decide) hle, List.head?_append_of_ne_nil _ Nat.toDigits_ne_nil]
      exact hquotient

lemma takeWhile_isDigit (hds : ∀ c ∈ ds, c.isDigit) (hcs : ∀ c ∈ cs.head?, ¬ c.isDigit) :
    (ds ++ cs).takeWhile Char.isDigit = ds := by
  rw [List.takeWhile_append_of_pos hds]
  cases cs with
  | nil => simp
  | cons c cs => simp [hcs c rfl]

lemma dropWhile_isDigit (hds : ∀ c ∈ ds, c.isDigit) (hcs : ∀ c ∈ cs.head?, ¬ c.isDigit) :
    (ds ++ cs).dropWhile Char.isDigit = cs := by
  rw [List.dropWhile_append_of_pos hds]
  cases cs with
  | nil => simp
  | cons c cs => simp [hcs c rfl]

end LicenseHeader.Text
