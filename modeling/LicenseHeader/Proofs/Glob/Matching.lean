import LicenseHeader.Glob.Matching
import Mathlib.Data.List.Basic
import Mathlib.Tactic.Lemma

/-!
# What patterns match

A sequence of tokens matches a text if the text can be cut so that each token takes one part. The
tables of the matcher tell of every suffix whether it can be cut like this, so that the matcher
accepts exactly the texts that the tokens match.
-/

namespace LicenseHeader.Glob

/-! ### Cutting a text -/

/-- What a token may take from a text, of which `rest` is left to the tokens behind it. -/
inductive Token.Takes : Token → List Char → List Char → Prop
  | char {token c rest} : token.accepts c → Takes token [c] rest
  | sequence (taken rest) : Takes .anySequence taken rest
  | noDirectories (rest) : Takes .anyDirectories [] rest
  | directories (front rest) : Takes .anyDirectories (front ++ ['/']) rest
  /-- The last tokens may be left with nothing, so that a whole directory is matched. -/
  | all (taken) : Takes .anyDirectories taken []

/-- The texts that a sequence of tokens matches. -/
inductive Matches : List Token → List Char → Prop
  | nil : Matches [] []
  | cons {token tokens taken rest} : Token.Takes token taken rest → Matches tokens rest →
      Matches (token :: tokens) (taken ++ rest)

variable {token : Token} {tokens : List Token} {cs taken rest : List Char}

lemma matches_nil_iff : Matches [] cs ↔ cs = [] := by
  constructor
  · rintro ⟨⟩
    rfl
  · rintro rfl
    exact .nil

/-- The first token takes a part of the text, and the others match the rest. -/
lemma matches_cons_iff :
    Matches (token :: tokens) cs ↔
      ∃ taken rest, cs = taken ++ rest ∧ token.Takes taken rest ∧ Matches tokens rest := by
  constructor
  · rintro (_ | ⟨htakes, hrest⟩)
    exact ⟨_, _, rfl, htakes, hrest⟩
  · rintro ⟨taken, rest, rfl, htakes, hrest⟩
    exact .cons htakes hrest

namespace Token

lemma takes_iff_of_char (hsequence : token ≠ .anySequence) (hdirectories : token ≠ .anyDirectories) :
    token.Takes taken rest ↔ ∃ c, taken = [c] ∧ token.accepts c := by
  constructor
  · intro h
    cases h with
    | char hc => exact ⟨_, rfl, hc⟩
    | sequence => exact absurd rfl hsequence
    | noDirectories => exact absurd rfl hdirectories
    | directories => exact absurd rfl hdirectories
    | all => exact absurd rfl hdirectories
  · rintro ⟨c, rfl, hc⟩
    exact .char hc

/-- A token for directories takes nothing, some directories with the separator behind them, or all.
-/
lemma takes_anyDirectories_iff :
    Takes .anyDirectories taken rest ↔
      taken = [] ∨ (∃ front, taken = front ++ ['/']) ∨ rest = [] := by
  constructor
  · intro h
    cases h with
    | char hc => cases hc
    | noDirectories => exact Or.inl rfl
    | directories front => exact Or.inr (Or.inl ⟨front, rfl⟩)
    | all => exact Or.inr (Or.inr rfl)
  · rintro (rfl | ⟨front, rfl⟩ | rfl)
    · exact .noDirectories rest
    · exact .directories front rest
    · exact .all taken

end Token

/-! ### Tables -/

/-- A table that tells of each suffix of a text whether it has the property `P`. -/
inductive Tells (P : List Char → Prop) : List Char → List Bool → Prop
  | nil {b : Bool} : (b ↔ P []) → Tells P [] [b]
  | cons {c cs} {b : Bool} {table} : (b ↔ P (c :: cs)) → Tells P cs table →
      Tells P (c :: cs) (b :: table)

namespace Tells

variable {P Q : List Char → Prop} {table next : List Bool}

lemma headD_iff (h : Tells P cs table) : table.headD false ↔ P cs := by
  cases h with
  | nil hb => exact hb
  | cons hb _ => exact hb

/-- The last entry of a table is about the empty suffix. -/
lemma getLastD_iff (h : Tells P cs table) : table.getLastD false ↔ P [] := by
  induction h with
  | nil hb => exact hb
  | cons hb htable ih =>
    cases htable with
    | nil _ => exact ih
    | cons _ _ => exact ih

lemma congr (h : Tells P cs table) (hPQ : ∀ cs, P cs ↔ Q cs) : Tells Q cs table := by
  induction h with
  | nil hb => exact .nil (hb.trans (hPQ _))
  | cons hb _ ih => exact .cons (hb.trans (hPQ _)) ih

lemma endTable (cs : List Char) : Tells (· = []) cs (endTable cs) := by
  induction cs with
  | nil => exact .nil (by simp)
  | cons c cs ih => exact .cons (by simp) ih

lemma charTable (p : Char → Bool) (h : Tells P cs next) :
    Tells (fun cs => ∃ c rest, cs = c :: rest ∧ p c ∧ P rest) cs (charTable p cs next) := by
  induction h with
  | nil hb => exact .nil (by simp)
  | cons hb htable ih =>
    refine .cons ?_ ih
    rw [Bool.and_eq_true, htable.headD_iff]
    simp

/-- A sequence is empty, or there is a sequence behind its first character. -/
lemma sequenceTable (h : Tells P cs next) :
    Tells (fun cs => ∃ taken rest, cs = taken ++ rest ∧ P rest) cs (sequenceTable next) := by
  induction h with
  | nil hb => exact .nil (by simpa [Glob.sequenceTable] using hb)
  | @cons c cs b table hb htable ih =>
    refine .cons ?_ ih
    rw [Bool.or_eq_true, hb, ih.headD_iff]
    constructor
    · rintro (h | ⟨taken, rest, rfl, h⟩)
      · exact ⟨[], _, rfl, h⟩
      · exact ⟨c :: taken, rest, rfl, h⟩
    · rintro ⟨taken, rest, hcut, h⟩
      cases taken with
      | nil =>
        obtain rfl : c :: cs = rest := hcut
        exact Or.inl h
      | cons d taken =>
        obtain ⟨rfl, rfl⟩ := List.cons.inj hcut
        exact Or.inr ⟨taken, rest, rfl, h⟩

/-- What holds behind a separator is carried on to every suffix in front of it. -/
lemma behindSeparator (h : Tells P cs next) :
    Tells (fun cs => ∃ front rest, cs = front ++ '/' :: rest ∧ P rest) cs
      (behindSeparator cs next) := by
  induction h with
  | nil hb => exact .nil (by simp)
  | @cons c cs b table hb htable ih =>
    refine .cons ?_ ih
    rw [Bool.or_eq_true, Bool.and_eq_true, beq_iff_eq, htable.headD_iff, ih.headD_iff]
    constructor
    · rintro (⟨rfl, h⟩ | ⟨front, rest, rfl, h⟩)
      · exact ⟨[], cs, rfl, h⟩
      · exact ⟨c :: front, rest, rfl, h⟩
    · rintro ⟨front, rest, hcut, h⟩
      cases front with
      | nil =>
        obtain ⟨rfl, rfl⟩ := List.cons.inj hcut
        exact Or.inl ⟨rfl, h⟩
      | cons d front =>
        obtain ⟨rfl, rfl⟩ := List.cons.inj hcut
        exact Or.inr ⟨front, rest, rfl, h⟩

/-- Two tables of one text are joined place by place; `always` holds at every place. -/
lemma zip_or (hP : Tells P cs table) (hQ : Tells Q cs next) (always : Bool) :
    Tells (fun cs => P cs ∨ Q cs ∨ always) cs
      ((table.zip next).map fun b => b.1 || b.2 || always) := by
  induction hP generalizing next with
  | nil hb =>
    cases hQ with
    | nil hb' => exact .nil (by simp [hb, hb', or_assoc])
  | cons hb _ ih =>
    cases hQ with
    | cons hb' hnext => exact .cons (by simp [hb, hb', or_assoc]) (ih hnext)

lemma directoriesTable (h : Tells P cs next) :
    Tells (fun cs => ∃ taken rest, cs = taken ++ rest ∧ Token.Takes .anyDirectories taken rest ∧
      P rest) cs (directoriesTable cs next) := by
  refine (h.zip_or h.behindSeparator (next.getLastD false)).congr fun cs => ?_
  rw [h.getLastD_iff]
  simp only [Token.takes_anyDirectories_iff]
  constructor
  · rintro (hcs | ⟨front, rest, rfl, hrest⟩ | hend)
    · exact ⟨[], cs, rfl, Or.inl rfl, hcs⟩
    · exact ⟨front ++ ['/'], rest, by simp, Or.inr (Or.inl ⟨front, rfl⟩), hrest⟩
    · exact ⟨cs, [], by simp, Or.inr (Or.inr rfl), hend⟩
  · rintro ⟨taken, rest, rfl, rfl | ⟨front, rfl⟩ | rfl, hrest⟩
    · exact Or.inl hrest
    · exact Or.inr (Or.inl ⟨front, rest, by simp, hrest⟩)
    · exact Or.inr (Or.inr hrest)

/-- The table of the tokens behind a token becomes the table of all of them. -/
lemma tokenTable (h : Tells (Matches tokens) cs next) :
    Tells (Matches (token :: tokens)) cs (token.table cs next) := by
  have hchar (hsequence : token ≠ .anySequence) (hdirectories : token ≠ .anyDirectories) :
      Tells (Matches (token :: tokens)) cs (Glob.charTable token.accepts cs next) := by
    refine (h.charTable token.accepts).congr fun cs => ?_
    simp only [matches_cons_iff, Token.takes_iff_of_char hsequence hdirectories]
    constructor
    · rintro ⟨c, rest, rfl, hc, hrest⟩
      exact ⟨[c], rest, rfl, ⟨c, rfl, hc⟩, hrest⟩
    · rintro ⟨_, rest, rfl, ⟨c, rfl, hc⟩, hrest⟩
      exact ⟨c, rest, rfl, hc, hrest⟩
  cases token with
  | literal a => exact hchar nofun nofun
  | anyChar => exact hchar nofun nofun
  | oneOf ranges => exact hchar nofun nofun
  | noneOf ranges => exact hchar nofun nofun
  | anySequence =>
    refine h.sequenceTable.congr fun cs => ?_
    simp only [matches_cons_iff, Token.Takes.sequence, true_and]
  | anyDirectories => exact h.directoriesTable.congr fun cs => matches_cons_iff.symm

end Tells

/-! ### The matcher -/

lemma tells_foldr (tokens : List Token) (cs : List Char) :
    Tells (Matches tokens) cs (tokens.foldr (Token.table cs) (endTable cs)) := by
  induction tokens with
  | nil => exact (Tells.endTable cs).congr fun _ => matches_nil_iff.symm
  | cons token tokens ih => exact ih.tokenTable

/-- The matcher accepts exactly the texts that the tokens match. -/
theorem matchesAll_iff : matchesAll tokens cs ↔ Matches tokens cs :=
  (tells_foldr tokens cs).headD_iff

end LicenseHeader.Glob
