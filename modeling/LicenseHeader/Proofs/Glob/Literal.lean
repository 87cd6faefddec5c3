import LicenseHeader.Proofs.Glob.Matching

/-!
# Patterns of plain characters

A pattern without wildcards always compiles, and matches the text in which it is written and no
other. With a star in front of it, it matches exactly the texts that end like this, with whatever in
front, separators and leading dots included.
-/

namespace LicenseHeader.Glob

variable {cs ending text : List Char} {pattern : String} {compiled : Pattern}

/-- Whether no character of a pattern is a wildcard. -/
def IsPlain (pattern : List Char) : Prop :=
  ∀ c ∈ pattern, c ≠ '?' ∧ c ≠ '*' ∧ c ≠ '['

instance : DecidablePred IsPlain := fun pattern =>
  List.decidableBAll (fun c => c ≠ '?' ∧ c ≠ '*' ∧ c ≠ '[') pattern

/-! ### Compiling -/

/-- A pattern of plain characters is a sequence of literals. -/
lemma tokenize_of_isPlain (h : IsPlain cs) (position : Nat) (previous : Option Char) :
    tokenize position previous cs = .ok (cs.map .literal) := by
  induction cs generalizing position previous with
  | nil => rw [tokenize, List.map_nil]
  | cons c cs ih =>
    obtain ⟨⟨hany, hstar, hset⟩, hcs⟩ := List.forall_mem_cons.mp h
    rw [tokenize, ih hcs]
    · rfl
    · exact hany
    · exact fun _ hc => absurd hc hstar
    · exact fun _ hc => absurd hc hstar
    · exact hstar
    · exact hset

lemma tokenize_star (h : IsPlain ending) (position : Nat) (previous : Option Char) :
    tokenize position previous ('*' :: ending) = .ok (.anySequence :: ending.map .literal) := by
  -- A second star would not be plain.
  have hnext : ∀ cs, ending ≠ '*' :: cs := by
    rintro cs rfl
    exact (h '*' List.mem_cons_self).2.1 rfl
  rw [tokenize, tokenize_of_isPlain h]
  · rfl
  · exact fun _ => hnext _
  · exact hnext

lemma compile_of_isPlain (h : IsPlain pattern.toList) :
    compile pattern = .ok ⟨pattern, pattern.toList.map .literal⟩ := by
  rw [compile, tokenize_of_isPlain h]
  rfl

lemma compile_star (hpattern : pattern.toList = '*' :: ending) (h : IsPlain ending) :
    compile pattern = .ok ⟨pattern, .anySequence :: ending.map .literal⟩ := by
  rw [compile, hpattern, tokenize_star h]
  rfl

/-! ### Matching -/

lemma Token.takes_literal_iff {c : Char} {taken rest : List Char} :
    (Token.literal c).Takes taken rest ↔ taken = [c] := by
  have hchar : (Token.literal c).Takes taken rest ↔
      ∃ a, taken = [a] ∧ (Token.literal c).accepts a := takes_iff_of_char nofun nofun
  rw [hchar]
  constructor
  · rintro ⟨a, rfl, ha⟩
    rw [beq_iff_eq.mp ha]
  · rintro rfl
    exact ⟨c, rfl, beq_self_eq_true c⟩

/-- Literals match themselves and nothing else. -/
lemma matches_map_literal_iff : Matches (text.map .literal) cs ↔ cs = text := by
  induction text generalizing cs with
  | nil => exact matches_nil_iff
  | cons c text ih =>
    simp only [List.map_cons, matches_cons_iff, ih, Token.takes_literal_iff]
    constructor
    · rintro ⟨_, _, rfl, rfl, rfl⟩
      rfl
    · rintro rfl
      exact ⟨[c], text, rfl, rfl, rfl⟩

/-- Behind a star stands the end of the text. -/
lemma matches_star_iff : Matches (.anySequence :: ending.map .literal) cs ↔ ending <:+ cs := by
  simp only [matches_cons_iff, matches_map_literal_iff, Token.Takes.sequence, true_and]
  constructor
  · rintro ⟨taken, _, rfl, rfl⟩
    exact List.suffix_append taken _
  · rintro ⟨taken, rfl⟩
    exact ⟨taken, ending, rfl, rfl⟩

end LicenseHeader.Glob
