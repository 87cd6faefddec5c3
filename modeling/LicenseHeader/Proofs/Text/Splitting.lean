import LicenseHeader.Text.Basic
import LicenseHeader.Proofs.Text.Trimming

/-!
# Splitting a text into lines

A line holds a line feed at its end at most. The sequences of lines into which texts are split are
exactly the *canonical* ones, in which no line is empty and only the last one may lack its line
feed. Every other sequence of lines becomes a different one when it is written and read again.
-/

namespace LicenseHeader.Text

/-- A line feed stands at the end of a line, if anywhere. -/
def IsLine (l : Line) : Prop := '\n' ∉ l.dropLast

instance : DecidablePred IsLine := fun l => inferInstanceAs (Decidable ('\n' ∉ l.dropLast))

/-- A line that ends in the only line feed it holds. -/
def Terminated (l : Line) : Prop := ∃ body, '\n' ∉ body ∧ l = body ++ ['\n']

/-- A sequence of lines as it stands in a text. -/
structure Canonical (lines : List Line) : Prop where
  ne_nil : ∀ l ∈ lines, l ≠ []
  isLine : ∀ l ∈ lines, IsLine l
  /-- Only the last line may lack its line feed. -/
  terminated : ∀ l ∈ lines.dropLast, Terminated l

/-! ### Single lines -/

lemma isLine_of_notMem {l : Line} (h : '\n' ∉ l) : IsLine l :=
  fun hl => h (List.dropLast_subset _ hl)

lemma Terminated.isLine {l : Line} (h : Terminated l) : IsLine l := by
  obtain ⟨body, hb, rfl⟩ := h
  rwa [IsLine, List.dropLast_concat]

lemma Terminated.ne_nil {l : Line} (h : Terminated l) : l ≠ [] := by
  obtain ⟨body, -, rfl⟩ := h
  simp

lemma Terminated.newline_mem {l : Line} (h : Terminated l) : '\n' ∈ l := by
  obtain ⟨body, -, rfl⟩ := h
  simp

/-- Either a line holds no line feed, or it ends in one. -/
lemma IsLine.cases {l : Line} (h : IsLine l) : '\n' ∉ l ∨ Terminated l := by
  rcases List.eq_nil_or_concat l with rfl | ⟨body, c, rfl⟩
  · exact Or.inl (by simp)
  · rw [IsLine, List.concat_eq_append, List.dropLast_concat] at h
    rw [List.concat_eq_append]
    by_cases hc : c = '\n'
    · exact Or.inr ⟨body, h, by rw [hc]⟩
    · refine Or.inl fun hm => ?_
      rcases List.mem_append.mp hm with hm | hm
      · exact h hm
      · exact hc (List.mem_singleton.mp hm).symm

lemma IsLine.terminated_iff {l : Line} (h : IsLine l) :
    Terminated l ↔ l.getLast? = some '\n' := by
  constructor
  · rintro ⟨body, -, rfl⟩
    simp
  · intro hlast
    rcases h.cases with hn | ht
    · exact absurd (List.mem_of_getLast? hlast) hn
    · exact ht

lemma IsLine.suffix {l m : Line} (h : IsLine l) (hs : m <:+ l) : IsLine m := by
  obtain ⟨k, rfl⟩ := hs
  intro hm
  rcases eq_or_ne m [] with rfl | hne
  · simp at hm
  · exact h (by rw [List.dropLast_append_of_ne_nil hne]; exact List.mem_append_right k hm)

/-- The line feed of a line is white space at its end. -/
lemma IsLine.newline_notMem_trim {l : Line} (h : IsLine l) : '\n' ∉ trim l := by
  have hs : IsLine (trimStart l) := h.suffix (trimStart_isSuffix l)
  rw [trim]
  rcases hs.cases with hn | ⟨body, hb, hl⟩
  · exact fun hm => hn ((trimEnd_isPrefix _).subset hm)
  · rw [hl, trimEnd_append_of_blank (by simp [isBlank_newline])]
    exact fun hm => hb ((trimEnd_isPrefix body).subset hm)

/-! ### Splitting -/

/-- What is read of a line so far begins the first line. -/
lemma splitLines.go_append {body : List Char} (hb : '\n' ∉ body) (read rest : List Char) :
    splitLines.go read (body ++ rest) = splitLines.go (body.reverse ++ read) rest := by
  induction body generalizing read with
  | nil => rfl
  | cons c body ih =>
    obtain ⟨hc, hb⟩ := List.ne_and_not_mem_of_not_mem_cons hb
    rw [List.cons_append, splitLines.go, if_neg hc.symm, ih hb]
    simp

lemma splitLines_append_newline {body : List Char} (hb : '\n' ∉ body) (rest : List Char) :
    splitLines (body ++ '\n' :: rest) = (body ++ ['\n']) :: splitLines rest := by
  rw [splitLines, splitLines.go_append hb, splitLines.go, if_pos rfl, ← splitLines]
  simp

lemma splitLines_of_notMem {l : List Char} (hne : l ≠ []) (h : '\n' ∉ l) : splitLines l = [l] := by
  have hgo := splitLines.go_append h [] []
  rw [List.append_nil, List.append_nil] at hgo
  rw [splitLines, hgo, splitLines.go]
  simp [hne]

/-- A text is empty, or a last line without a line feed, or a line in front of a text. -/
@[elab_as_elim]
lemma lineInduction {P : List Char → Prop} (empty : P [])
    (last : ∀ l, l ≠ [] → '\n' ∉ l → P l)
    (line : ∀ body rest, '\n' ∉ body → P rest → P (body ++ '\n' :: rest)) (text : List Char) :
    P text := by
  induction h : text.length using Nat.strong_induction_on generalizing text with
  | _ n ih =>
    by_cases hn : '\n' ∈ text
    · obtain ⟨body, rest, rfl, hb⟩ := List.eq_append_cons_of_mem hn
      refine line body rest hb (ih rest.length ?_ rest rfl)
      rw [← h, List.length_append, List.length_cons]
      omega
    · rcases eq_or_ne text [] with rfl | hne
      · exact empty
      · exact last text hne hn

/-- A text that stops with a line feed is split apart from what follows it. -/
lemma splitLines_append {front : List Char} (h : front.getLast? = some '\n') (back : List Char) :
    splitLines (front ++ back) = splitLines front ++ splitLines back := by
  induction front using lineInduction with
  | empty => cases h
  | last l _ hl => exact absurd (List.mem_of_getLast? h) hl
  | line body rest hb ih =>
    rw [List.append_assoc, List.cons_append, splitLines_append_newline hb,
      splitLines_append_newline hb, List.cons_append]
    rcases eq_or_ne rest [] with rfl | hne
    · rfl
    · rw [List.append_cons, List.getLast?_append_of_ne_nil _ hne] at h
      rw [ih h]

/-! ### Canonical sequences of lines -/

/-- It is enough that every line but the last one ends in a line feed. -/
lemma canonical_iff {lines : List Line} :
    Canonical lines ↔ (∀ l ∈ lines, l ≠ []) ∧ (∀ l ∈ lines, IsLine l) ∧
      ∀ l ∈ lines.dropLast, l.getLast? = some '\n' := by
  constructor
  · intro h
    refine ⟨h.ne_nil, h.isLine, fun l hl => ?_⟩
    have hterminated := h.terminated l hl
    exact hterminated.isLine.terminated_iff.mp hterminated
  · rintro ⟨hne, hline, hlast⟩
    exact ⟨hne, hline, fun l hl =>
      (hline l (List.dropLast_subset _ hl)).terminated_iff.mpr (hlast l hl)⟩

lemma canonical_nil : Canonical [] := by
  constructor <;> simp

lemma canonical_singleton {l : Line} (hne : l ≠ []) (hl : IsLine l) : Canonical [l] := by
  constructor <;> simp [hne, hl]

lemma canonical_of_terminated {lines : List Line} (h : ∀ l ∈ lines, Terminated l) :
    Canonical lines where
  ne_nil l hl := (h l hl).ne_nil
  isLine l hl := (h l hl).isLine
  terminated l hl := h l (List.dropLast_subset _ hl)

/-- Terminated lines may stand in front of a text. -/
lemma Canonical.append {ls ms : List Line} (hl : ∀ l ∈ ls, Terminated l) (hm : Canonical ms) :
    Canonical (ls ++ ms) where
  ne_nil l h := (List.mem_append.mp h).elim (fun h => (hl l h).ne_nil) (hm.ne_nil l)
  isLine l h := (List.mem_append.mp h).elim (fun h => (hl l h).isLine) (hm.isLine l)
  terminated l h := by
    rcases eq_or_ne ms [] with rfl | hne
    · rw [List.append_nil] at h
      exact hl l (List.dropLast_subset _ h)
    · rw [List.dropLast_append_of_ne_nil hne] at h
      exact (List.mem_append.mp h).elim (hl l) (hm.terminated l)

/-- Only terminated lines stand in front of other ones. -/
lemma Canonical.terminated_of_append {ls ms : List Line} (h : Canonical (ls ++ ms))
    (hne : ms ≠ []) : ∀ l ∈ ls, Terminated l := by
  intro l hl
  apply h.terminated
  rw [List.dropLast_append_of_ne_nil hne]
  exact List.mem_append_left _ hl

/-- The end of a sequence of lines is one as well. -/
lemma Canonical.of_append_right {ls ms : List Line} (h : Canonical (ls ++ ms)) : Canonical ms where
  ne_nil l hl := h.ne_nil l (List.mem_append_right ls hl)
  isLine l hl := h.isLine l (List.mem_append_right ls hl)
  terminated l hl := by
    rcases eq_or_ne ms [] with rfl | hne
    · simp at hl
    · apply h.terminated
      rw [List.dropLast_append_of_ne_nil hne]
      exact List.mem_append_right ls hl

lemma Canonical.drop {lines : List Line} (h : Canonical lines) (n : Nat) :
    Canonical (lines.drop n) := by
  rw [← List.take_append_drop n lines] at h
  exact h.of_append_right

lemma Canonical.terminated_of_mem_take {lines : List Line} (h : Canonical lines) {n : Nat}
    (hn : n < lines.length) : ∀ l ∈ lines.take n, Terminated l := by
  rw [← List.take_append_drop n lines] at h
  exact h.terminated_of_append (by simpa using hn)

/-- A text is split into a canonical sequence of lines. -/
theorem canonical_splitLines (text : List Char) : Canonical (splitLines text) := by
  induction text using lineInduction with
  | empty => exact canonical_nil
  | last l hne h =>
    rw [splitLines_of_notMem hne h]
    exact canonical_singleton hne (isLine_of_notMem h)
  | line body rest hb ih =>
    rw [splitLines_append_newline hb]
    show Canonical ([body ++ ['\n']] ++ splitLines rest)
    exact Canonical.append (by simpa using ⟨body, hb, rfl⟩) ih

/-- Terminated lines in front of a text are lines of their own. -/
lemma splitLines_joinLines_append {lines : List Line} (h : ∀ l ∈ lines, Terminated l)
    (rest : List Char) : splitLines (joinLines lines ++ rest) = lines ++ splitLines rest := by
  induction lines with
  | nil => rfl
  | cons l ls ih =>
    obtain ⟨body, hb, rfl⟩ := h l List.mem_cons_self
    rw [joinLines_cons, List.append_assoc, List.append_assoc, List.singleton_append,
      splitLines_append_newline hb, ih fun m hm => h m (List.mem_cons_of_mem _ hm),
      List.cons_append]

/-- Joining and splitting lines undoes itself for the sequences that stand in a text. -/
lemma splitLines_joinLines_of_canonical {lines : List Line} (h : Canonical lines) :
    splitLines (joinLines lines) = lines := by
  induction lines with
  | nil => rfl
  | cons l ls ih =>
    have h : Canonical ([l] ++ ls) := h
    rcases (h.isLine l (by simp)).cases with hn | ⟨body, hb, rfl⟩
    · -- a line without a line feed is the last one
      have hnil : ls = [] := by
        by_contra hne
        exact hn (h.terminated_of_append hne l (by simp)).newline_mem
      rw [hnil, joinLines_cons, joinLines_nil, List.append_nil]
      exact splitLines_of_notMem (h.ne_nil l (by simp)) hn
    · rw [joinLines_cons, List.append_assoc, List.singleton_append,
        splitLines_append_newline hb, ih h.of_append_right]

/-- Exactly the canonical sequences of lines are read back as they were written. -/
theorem splitLines_joinLines_iff {lines : List Line} :
    splitLines (joinLines lines) = lines ↔ Canonical lines :=
  ⟨fun h => h ▸ canonical_splitLines (joinLines lines), splitLines_joinLines_of_canonical⟩

/-- A text has one sequence of lines: the one that makes up the text and in which no line is empty,
line feeds stand at the ends of lines only, and every line but the last one ends in a line feed. -/
theorem splitLines_eq_iff (text : List Char) (lines : List Line) :
    splitLines text = lines ↔
      joinLines lines = text ∧ (∀ l ∈ lines, l ≠ []) ∧ (∀ l ∈ lines, '\n' ∉ l.dropLast) ∧
        ∀ l ∈ lines.dropLast, l.getLast? = some '\n' := by
  constructor
  · rintro rfl
    exact ⟨joinLines_splitLines text, canonical_iff.mp (canonical_splitLines text)⟩
  · rintro ⟨rfl, hlines⟩
    exact splitLines_joinLines_of_canonical (canonical_iff.mpr hlines)

example : splitLines "a\n\nb\r\nc".toList =
    ["a\n".toList, "\n".toList, "b\r\n".toList, "c".toList] := by decide

end LicenseHeader.Text
