import LicenseHeader.Proofs.Patch.Reading
import LicenseHeader.Proofs.Text.Splitting

/-!
# The lines of a patch

A text in which carriage returns stand in front of line feeds only is compared by its lines. A patch
is written line by line, with a note behind each line that has no line feed; whoever reads it gets
these lines back.
-/

namespace LicenseHeader.Patch

open Text

variable {text front back : List Char} {l : Line} {ls : List Line}

/-! ### Lines that are compared -/

/-- Every carriage return stands directly in front of a line feed. -/
def ReturnsFed (text : List Char) : Prop :=
  ∀ before after, text = before ++ '\r' :: after → after.head? = some '\n'

lemma ReturnsFed.of_append (h : ReturnsFed (front ++ back)) : ReturnsFed back := by
  rintro before after rfl
  exact h (front ++ before) after (by simp)

lemma ReturnsFed.of_append_left (h : ReturnsFed (front ++ back))
    (hlast : front.getLast? ≠ some '\r') : ReturnsFed front := by
  rintro before after rfl
  cases after with
  | nil => simp at hlast
  | cons c after => exact h before (c :: after ++ back) (by simp)

lemma ReturnsFed.append (hfront : ReturnsFed front) (hback : ReturnsFed back) :
    ReturnsFed (front ++ back) := by
  intro before after h
  rcases List.append_eq_append_iff.mp h with ⟨rest, rfl, hrest⟩ | ⟨rest, rfl, hrest⟩
  · exact hback rest after hrest
  · cases rest with
    | nil => exact hback [] after hrest.symm
    | cons c rest =>
      obtain ⟨rfl, rfl⟩ := List.cons.inj hrest
      have hhead := hfront before rest rfl
      cases rest with
      | nil => cases hhead
      | cons c rest => exact hhead

lemma returnsFed_nil : ReturnsFed [] := by
  intro before after h
  simp at h

lemma returnsFed_cons_iff {c : Char} :
    ReturnsFed (c :: text) ↔ (c = '\r' → text.head? = some '\n') ∧ ReturnsFed text := by
  constructor
  · intro h
    have hsplit : ReturnsFed ([c] ++ text) := h
    refine ⟨?_, hsplit.of_append⟩
    rintro rfl
    exact h [] text rfl
  · rintro ⟨hc, htext⟩ before after h
    cases before with
    | nil =>
      obtain ⟨rfl, rfl⟩ := List.cons.inj h
      exact hc rfl
    | cons d before => exact htext before after (List.cons.inj h).2

instance decidableReturnsFed : (text : List Char) → Decidable (ReturnsFed text)
  | [] => isTrue returnsFed_nil
  | _ :: text =>
    let _ := decidableReturnsFed text
    decidable_of_iff _ returnsFed_cons_iff.symm

lemma returnsFed_of_notMem (h : '\r' ∉ text) : ReturnsFed text := by
  rintro before after rfl
  simp at h

/-- Without lone carriage returns both splitters cut at the same places. -/
lemma compareLines_go_eq (h : ReturnsFed text) (read : List Char) :
    compareLines.go read text = splitLines.go read text := by
  fun_induction compareLines.go read text
  case case1 hread => simp [splitLines.go, hread]
  case case2 hread => simp [splitLines.go, hread]
  case case3 cs ih =>
    have hcs : ReturnsFed (['\r', '\n'] ++ cs) := h
    simp [splitLines.go, ih hcs.of_append]
  case case4 c cs hpair hend ih =>
    rcases hend with rfl | rfl
    · have hcs : ReturnsFed (['\n'] ++ cs) := h
      simp [splitLines.go, ih hcs.of_append]
    · -- A carriage return without a line feed behind it.
      obtain ⟨rest, rfl⟩ := List.head?_eq_some_iff.mp (h [] cs rfl)
      exact (hpair rest rfl rfl).elim
  case case5 c cs _ hend ih =>
    have hcs : ReturnsFed ([c] ++ cs) := h
    rw [not_or] at hend
    rw [splitLines.go, if_neg hend.1, ih hcs.of_append]

/-- Such a text is compared by the lines that it is split into. -/
lemma compareLines_eq_splitLines (h : ReturnsFed text) : compareLines text = splitLines text :=
  compareLines_go_eq h []

/-- None of its lines ends with a carriage return. -/
lemma getLast?_ne_return (h : ReturnsFed text) : ∀ l ∈ splitLines text, l.getLast? ≠ some '\r' := by
  induction text using lineInduction with
  | empty => simp
  | last l hne hl =>
    rw [splitLines_of_notMem hne hl]
    intro l' hl' hlast
    rw [List.mem_singleton.mp hl'] at hlast
    obtain ⟨front, rfl⟩ := List.getLast?_eq_some_iff.mp hlast
    cases h front [] rfl
  | line body rest hb ih =>
    rw [splitLines_append_newline hb]
    intro l hl
    rcases List.mem_cons.mp hl with rfl | hl
    · simp
    · have hrest : ReturnsFed (body ++ ['\n'] ++ rest) := by simpa using h
      exact ih hrest.of_append l hl

lemma getLast?_joinLines (h : ∀ l ∈ ls, Terminated l) (hne : ls ≠ []) :
    (joinLines ls).getLast? = some '\n' := by
  obtain ⟨ls, l, rfl⟩ := (List.eq_nil_or_concat' ls).resolve_left hne
  obtain ⟨body, -, rfl⟩ := h l (by simp)
  rw [joinLines_append, joinLines_cons, joinLines_nil, List.append_nil, ← List.append_assoc,
    List.getLast?_concat]

lemma getLast?_joinLines_ne_return (h : ∀ l ∈ ls, Terminated l) :
    (joinLines ls).getLast? ≠ some '\r' := by
  rcases eq_or_ne ls [] with rfl | hne
  · simp
  · rw [getLast?_joinLines h hne]
    decide

/-! ### Lines that are written -/

/-- A line as it is written: behind one without a line feed there is a note. -/
def writtenLine (l : Line) : List Line :=
  if l.getLast? = some '\n' then [l] else [l ++ ['\n'], note]

/-- A line of a patch: it has no line feed but at its end, and it is not mistaken for a note. -/
structure Writable (l : Line) : Prop where
  isLine : IsLine l
  head : l.head? ≠ some '\\'
  nonempty : l ≠ []

lemma missingEndNote_eq : missingEndNote = '\n' :: note := rfl

/-- A line is printed as its tag, itself and the note that it may need. -/
lemma renderLine_eq (tag : Char) (hne : l ≠ []) (h : l.getLast? ≠ some '\r') :
    renderLine tag l = joinLines (writtenLine (tag :: l)) := by
  obtain ⟨front, c, rfl⟩ := (List.eq_nil_or_concat' l).resolve_left hne
  have hlast : (tag :: (front ++ [c])).getLast? = some c := by
    rw [← List.cons_append, List.getLast?_concat]
  have hc : c ≠ '\r' := by simpa using h
  rw [renderLine, writtenLine, hlast]
  by_cases hfeed : c = '\n'
  · simp [hfeed, joinLines]
  · simp [hfeed, hc, joinLines, missingEndNote_eq]

lemma terminated_note : Terminated note :=
  ⟨"\\ No newline at end of file".toList, by decide, by decide⟩

/-- A line of a patch stays one line, with its note behind it. -/
lemma Writable.terminated (h : Writable l) : ∀ m ∈ writtenLine l, Terminated m := by
  rw [writtenLine]
  split_ifs with hlast
  · intro m hm
    rw [List.mem_singleton.mp hm]
    exact h.isLine.terminated_iff.mpr hlast
  · have hfeed : '\n' ∉ l := (h.isLine.cases).resolve_right
      fun ht => hlast (h.isLine.terminated_iff.mp ht)
    intro m hm
    rcases List.mem_cons.mp hm with rfl | hm
    · exact ⟨l, hfeed, rfl⟩
    · rw [List.mem_singleton.mp hm]
      exact terminated_note

/-- No line of a patch can be taken for a note. -/
lemma Writable.ne_note (h : Writable l) : l ≠ note ∧ l ++ ['\n'] ≠ note := by
  obtain ⟨c, l, rfl⟩ := List.exists_cons_of_ne_nil h.nonempty
  have hc : c ≠ '\\' := by simpa using h.head
  constructor
  · intro heq
    exact hc (List.cons.inj heq).1
  · intro heq
    exact hc (List.cons.inj heq).1

lemma head?_written_ne_note (h : ∀ l ∈ ls, Writable l) :
    (ls.flatMap writtenLine).head? ≠ some note := by
  cases ls with
  | nil => simp
  | cons l ls =>
    obtain ⟨hne, hne'⟩ := (h l List.mem_cons_self).ne_note
    rw [List.flatMap_cons, writtenLine]
    split_ifs <;> simp [hne, hne']

/-- The notes are taken back. -/
lemma withoutNotes_written (h : ∀ l ∈ ls, Writable l) :
    withoutNotes (ls.flatMap writtenLine) = ls := by
  induction ls with
  | nil => rfl
  | cons l ls ih =>
    have hls : ∀ m ∈ ls, Writable m := fun m hm => h m (List.mem_cons_of_mem l hm)
    have hnext := head?_written_ne_note hls
    rw [List.flatMap_cons, writtenLine]
    split_ifs
    · cases hrest : ls.flatMap writtenLine with
      | nil =>
        rw [← ih hls, hrest]
        rfl
      | cons m ms =>
        rw [hrest] at hnext ih
        rw [List.singleton_append, withoutNotes, if_neg (by simpa using hnext), ih hls]
    · simp [withoutNotes, ih hls]

/-- Lines as they are written. -/
def written (ls : List Line) : List Char :=
  ls.flatMap fun l => joinLines (writtenLine l)

@[simp] lemma written_nil : written [] = [] := rfl

lemma written_cons (l : Line) (ls : List Line) :
    written (l :: ls) = joinLines (writtenLine l) ++ written ls := rfl

lemma written_append (ls ms : List Line) : written (ls ++ ms) = written ls ++ written ms :=
  List.flatMap_append

lemma written_flatMap {β : Type} (f : β → List Line) (bs : List β) :
    written (bs.flatMap f) = bs.flatMap fun b => written (f b) :=
  List.flatMap_assoc

lemma joinLines_flatMap_writtenLine (ls : List Line) :
    joinLines (ls.flatMap writtenLine) = written ls := by
  induction ls with
  | nil => simp
  | cons l ls ih =>
    rw [List.flatMap_cons, joinLines_append, ih, written_cons]

lemma writtenLine_of_terminated (h : Terminated l) : writtenLine l = [l] := by
  obtain ⟨body, -, rfl⟩ := h
  rw [writtenLine, if_pos List.getLast?_concat]

lemma joinLines_writtenLine (h : Terminated l) : joinLines (writtenLine l) = l := by
  simp [writtenLine_of_terminated h]

lemma flatMap_writtenLine_of_terminated (h : ∀ l ∈ ls, Terminated l) :
    ls.flatMap writtenLine = ls := by
  rw [List.flatMap_congr fun l hl => writtenLine_of_terminated (h l hl)]
  exact List.flatMap_singleton' ls

/-- Lines with line ends are written as they are. -/
lemma written_of_terminated (h : ∀ l ∈ ls, Terminated l) : written ls = joinLines ls := by
  rw [← joinLines_flatMap_writtenLine, flatMap_writtenLine_of_terminated h]

lemma terminated_of_mem_flatMap_writtenLine (h : ∀ l ∈ ls, Writable l) :
    ∀ m ∈ ls.flatMap writtenLine, Terminated m := by
  intro m hm
  obtain ⟨l, hl, hml⟩ := List.mem_flatMap.mp hm
  exact (h l hl).terminated m hml

/-- The lines and the notes behind them are all that there is. -/
lemma splitLines_written (h : ∀ l ∈ ls, Writable l) :
    splitLines (written ls) = ls.flatMap writtenLine := by
  rw [← joinLines_flatMap_writtenLine]
  exact splitLines_joinLines_of_canonical
    (canonical_of_terminated (terminated_of_mem_flatMap_writtenLine h))

/-- The lines of a patch are read as they were written. -/
lemma withoutNotes_splitLines (h : ∀ l ∈ ls, Writable l) :
    withoutNotes (splitLines (written ls)) = ls := by
  rw [splitLines_written h, withoutNotes_written h]

end LicenseHeader.Patch
