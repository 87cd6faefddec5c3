import LicenseHeader.Proofs.Patch.Correctness

/-!
# Carriage returns inside lines

A comparison ends a line after every carriage return, also inside a line of the text. Where such a
line is written behind tags, there is one tag too many: the line that is read is longer than the one
that was written (`exists_tagged_of_holdsReturn`).
-/

namespace LicenseHeader.Patch

open Text

variable {text front back : List Char} {l : Line} {tag : Char}

lemma getLast?_ne_of_append {c : Char} (h : (front ++ back).getLast? ≠ some c) :
    back.getLast? ≠ some c := by
  rcases eq_or_ne back [] with rfl | hne
  · simp
  · rwa [List.getLast?_append_of_ne_nil _ hne] at h

/-! ### The lines of a comparison -/

/-- A line of a comparison that has a line end. -/
def IsEnded (l : Line) : Prop :=
  l.getLast? = some '\n' ∨ l.getLast? = some '\r'

/-- A comparison ends a line where the first text stops and the second one starts. -/
def Cut (front back : List Char) : Prop :=
  front.getLast? = some '\n' ∨ front.getLast? = some '\r' ∧ back.head? ≠ some '\n'

/-- Induction on the text: nothing is lost, no line is empty, and only the last one may lack an end.
-/
lemma compareLines.go_spec (read text : List Char) :
    (compareLines.go read text).flatten = read.reverse ++ text ∧
      (∀ l ∈ compareLines.go read text, l ≠ []) ∧
      ∀ l ∈ (compareLines.go read text).dropLast, IsEnded l := by
  have hcons : ∀ (l : Line) (ls : List Line), IsEnded l → (∀ m ∈ ls.dropLast, IsEnded m) →
      ∀ m ∈ (l :: ls).dropLast, IsEnded m := by
    intro l ls hl hls m hm
    rcases eq_or_ne ls [] with rfl | hne
    · simp at hm
    · rw [List.dropLast_cons_of_ne_nil hne] at hm
      exact (List.mem_cons.mp hm).elim (fun heq => heq ▸ hl) (hls m)
  fun_induction compareLines.go read text
  case case1 read hread => simp [List.isEmpty_iff.mp hread]
  case case2 read hread => simpa using hread
  case case3 read cs ih =>
    obtain ⟨hflatten, hne, hended⟩ := ih
    refine ⟨by simp [hflatten], ?_, hcons _ _ (Or.inl (by simp)) hended⟩
    simpa using hne
  case case4 read c cs hpair hend ih =>
    obtain ⟨hflatten, hne, hended⟩ := ih
    refine ⟨by simp [hflatten], ?_, hcons _ _ ?_ hended⟩
    · simpa using hne
    · simpa [IsEnded] using hend
  case case5 read c cs hpair hend ih =>
    obtain ⟨hflatten, hne, hended⟩ := ih
    exact ⟨by simp [hflatten], hne, hended⟩

lemma flatten_compareLines (text : List Char) : (compareLines text).flatten = text :=
  (compareLines.go_spec [] text).1

lemma compareLines_ne_nil (hne : text ≠ []) : compareLines text ≠ [] := by
  intro hempty
  have hflatten := flatten_compareLines text
  rw [hempty] at hflatten
  exact hne hflatten.symm

/-- The last line of a comparison may lack its line end. -/
lemma exists_compareLines_eq_concat (hne : text ≠ []) :
    ∃ lines last, compareLines text = lines ++ [last] ∧ last ≠ [] ∧ ∀ l ∈ lines, IsEnded l := by
  obtain ⟨-, hnil, hended⟩ := compareLines.go_spec [] text
  obtain ⟨lines, last, h⟩ :=
    (List.eq_nil_or_concat' (compareLines text)).resolve_left (compareLines_ne_nil hne)
  rw [← compareLines, h] at hnil hended
  rw [List.dropLast_concat] at hended
  exact ⟨lines, last, h, hnil last (by simp), hended⟩

lemma compareLines.go_cons {c : Char} (h : c = '\r' → back.head? ≠ some '\n') (read : List Char) :
    compareLines.go read (c :: back) =
      if c = '\n' ∨ c = '\r' then (c :: read).reverse :: compareLines back
      else compareLines.go (c :: read) back := by
  rw [compareLines.go, compareLines]
  rintro cs rfl rfl
  exact h rfl rfl

lemma Cut.of_cons_cons {c d : Char} (h : Cut (c :: d :: front) back) : Cut (d :: front) back := by
  simpa [Cut] using h

/-- A text is compared in parts if it is cut between two lines. -/
lemma compareLines.go_append (h : Cut front back) (read : List Char) :
    compareLines.go read (front ++ back) = compareLines.go read front ++ compareLines back := by
  fun_induction compareLines.go read front
  case case1 => simp [Cut] at h
  case case2 => simp [Cut] at h
  case case3 read cs ih =>
    cases cs with
    | nil => simp [compareLines.go, compareLines]
    | cons c cs =>
      have hrest := ih h.of_cons_cons.of_cons_cons
      simpa [compareLines.go] using hrest
  case case4 read c cs hpair hend ih =>
    cases cs with
    | nil =>
      rw [List.singleton_append, compareLines.go_cons ?_, if_pos hend]
      · simp [compareLines.go]
      · rintro rfl
        simpa [Cut] using h
    | cons d cs =>
      rw [List.cons_append, compareLines.go_cons ?_, if_pos hend, compareLines,
        ih h.of_cons_cons, List.cons_append]
      rintro rfl hd
      exact hpair cs rfl (by simpa using hd)
  case case5 read c cs hpair hend ih =>
    cases cs with
    | nil =>
      rcases h with h | ⟨h, -⟩
      · exact absurd (Or.inl (by simpa using h)) hend
      · exact absurd (Or.inr (by simpa using h)) hend
    | cons d cs =>
      rw [List.cons_append, compareLines.go_cons ?_, if_neg hend, ih h.of_cons_cons]
      rintro rfl
      exact absurd (Or.inr rfl) hend

lemma compareLines_append (h : Cut front back) :
    compareLines (front ++ back) = compareLines front ++ compareLines back :=
  compareLines.go_append h []

/-! ### Lines behind tags -/

/-- The lines by which a text is compared, each behind a tag, as one text. -/
def tagged (tag : Char) (text : List Char) : List Char :=
  (compareLines text).flatMap (tag :: ·)

lemma tagged_append (tag : Char) (h : Cut front back) :
    tagged tag (front ++ back) = tagged tag front ++ tagged tag back := by
  rw [tagged, compareLines_append h, List.flatMap_append, tagged, tagged]

/-- The last line of a text and of its lines behind tags. -/
lemma exists_tagged_eq (tag : Char) (hne : text ≠ []) :
    ∃ (lines : List Line) (last : Line), text = lines.flatten ++ last ∧ last ≠ [] ∧
      tagged tag text = lines.flatMap (tag :: ·) ++ tag :: last := by
  obtain ⟨lines, last, h, hlast, -⟩ := exists_compareLines_eq_concat hne
  refine ⟨lines, last, ?_, hlast, ?_⟩
  · rw [← flatten_compareLines text, h]
    simp
  · rw [tagged, h]
    simp

lemma getLast?_tagged (tag : Char) (hne : text ≠ []) :
    (tagged tag text).getLast? = text.getLast? := by
  obtain ⟨lines, last, rfl, hlast, h⟩ := exists_tagged_eq tag hne
  obtain ⟨last, c, rfl⟩ := (List.eq_nil_or_concat' last).resolve_left hlast
  rw [h, ← List.cons_append, ← List.append_assoc, ← List.append_assoc, List.getLast?_concat,
    List.getLast?_concat]

/-- Every line makes the text longer by its tag. -/
lemma length_tagged (tag : Char) (text : List Char) :
    (tagged tag text).length = text.length + (compareLines text).length := by
  have hlines : ∀ lines : List Line,
      (lines.flatMap (tag :: ·)).length = lines.flatten.length + lines.length := by
    intro lines
    induction lines with
    | nil => rfl
    | cons l lines ih =>
      simp only [List.flatMap_cons, List.flatten_cons, List.length_append, List.length_cons, ih]
      omega
  rw [tagged, hlines, flatten_compareLines]

lemma exists_tagged_eq_cons (tag : Char) (hne : text ≠ []) :
    ∃ rest, tagged tag text = tag :: rest := by
  obtain ⟨lines, last, -, -, h⟩ := exists_tagged_eq tag hne
  cases lines with
  | nil => exact ⟨last, h⟩
  | cons l lines => exact ⟨_, h⟩

lemma exists_tagged_concat (tag : Char) (front : List Char) (c : Char) :
    ∃ rest, tagged tag (front ++ [c]) = tag :: rest ++ [c] := by
  have hne : front ++ [c] ≠ [] := List.append_ne_nil_of_right_ne_nil front (List.cons_ne_nil c [])
  obtain ⟨lines, last, htext, hlast, h⟩ := exists_tagged_eq tag hne
  obtain ⟨last, d, rfl⟩ := (List.eq_nil_or_concat' last).resolve_left hlast
  rw [← List.append_assoc] at htext
  obtain rfl : c = d := List.singleton_inj.mp (List.append_inj' htext rfl).2
  rw [h]
  cases lines with
  | nil => exact ⟨last, rfl⟩
  | cons l lines => exact ⟨l ++ (lines.flatMap (tag :: ·) ++ tag :: last), by simp⟩

lemma isLine_tagged (htag : tag ≠ '\n') (h : IsLine l) : IsLine (tagged tag l) := by
  rcases eq_or_ne l [] with rfl | hne
  · exact h
  · obtain ⟨lines, last, rfl, hlast, htagged⟩ := exists_tagged_eq tag hne
    rw [IsLine, List.dropLast_append_of_ne_nil hlast, List.mem_append, List.mem_flatten] at h
    rw [htagged, IsLine, List.dropLast_append_of_ne_nil (by simp), List.mem_append,
      List.dropLast_cons_of_ne_nil hlast, List.mem_flatMap]
    rintro (⟨m, hm, hfeed⟩ | hfeed)
    · exact h (Or.inl ⟨m, hm, (List.mem_cons.mp hfeed).resolve_left htag.symm⟩)
    · exact h (Or.inr ((List.mem_cons.mp hfeed).resolve_left htag.symm))

lemma writable_tagged (htag : tag ≠ '\n') (hnote : tag ≠ '\\') (hne : l ≠ []) (h : IsLine l) :
    Writable (tagged tag l) := by
  obtain ⟨rest, hrest⟩ := exists_tagged_eq_cons tag hne
  refine ⟨isLine_tagged htag h, ?_, ?_⟩
  · simpa [hrest] using hnote
  · simp [hrest]

/-! ### Lines as they are written -/

lemma renderLine_of_isEnded (h : IsEnded l) : renderLine tag l = tag :: l := by
  rcases h with h | h <;> simp [renderLine, h]

lemma joinLines_writtenLine_append (front : Line) (hne : l ≠ []) :
    joinLines (writtenLine (front ++ l)) = front ++ joinLines (writtenLine l) := by
  rw [writtenLine, writtenLine, List.getLast?_append_of_ne_nil front hne]
  split_ifs <;> simp

/-- No note is written about a text that stops with a carriage return. -/
lemma getLast?_flatMap_renderLine (tag : Char) (h : text.getLast? = some '\r') :
    ((compareLines text).flatMap (renderLine tag)).getLast? = some '\r' := by
  have hne : text ≠ [] := by
    rintro rfl
    cases h
  obtain ⟨lines, last, hlines, hne', -⟩ := exists_compareLines_eq_concat hne
  rw [← flatten_compareLines text, hlines, List.flatten_append, List.flatten_singleton,
    List.getLast?_append_of_ne_nil _ hne'] at h
  rw [hlines, List.flatMap_append, List.flatMap_singleton, renderLine_of_isEnded (Or.inr h),
    List.getLast?_append_of_ne_nil _ (List.cons_ne_nil tag last), ← h]
  simp [List.getLast?_cons, h]

/-- Unless a text stops with a carriage return, a note about its end is written in the same cases in
which one is written about the end of its last line. -/
lemma flatMap_renderLine_eq_joinLines (tag : Char) (hne : text ≠ [])
    (hlast : text.getLast? ≠ some '\r') :
    (compareLines text).flatMap (renderLine tag) =
      joinLines (writtenLine (tagged tag text)) := by
  obtain ⟨lines, last, h, hne', hended⟩ := exists_compareLines_eq_concat hne
  have hlast' : last.getLast? ≠ some '\r' := by
    rwa [← flatten_compareLines text, h, List.flatten_append, List.flatten_singleton,
      List.getLast?_append_of_ne_nil _ hne'] at hlast
  have hlines : lines.flatMap (renderLine tag) = lines.flatMap (tag :: ·) :=
    List.flatMap_congr fun l hl => renderLine_of_isEnded (hended l hl)
  rw [tagged, h, List.flatMap_append, List.flatMap_append, List.flatMap_singleton,
    List.flatMap_singleton, hlines, renderLine_eq tag hne' hlast',
    joinLines_writtenLine_append _ (List.cons_ne_nil tag last)]

/-- The lines of the text are written one by one, with tags inside. -/
lemma flatMap_renderLine_eq_written (tag : Char) (h : text.getLast? ≠ some '\r') :
    (compareLines text).flatMap (renderLine tag) =
      written ((splitLines text).map (tagged tag)) := by
  induction text using lineInduction with
  | empty => rfl
  | last l hne hl =>
    rw [splitLines_of_notMem hne hl, flatMap_renderLine_eq_joinLines tag hne h]
    simp [written]
  | line body rest hb ih =>
    rw [List.append_cons] at h ⊢
    have hcut : Cut (body ++ ['\n']) rest := Or.inl List.getLast?_concat
    rw [compareLines_append hcut, List.flatMap_append, ih (getLast?_ne_of_append h),
      flatMap_renderLine_eq_joinLines tag (by simp) (by simp), ← List.append_cons,
      splitLines_append_newline hb, List.map_cons, written_cons]

/-! ### Carriage returns inside -/

/-- A carriage return stands in front of another character than a line feed. -/
def HoldsReturn (text : List Char) : Prop :=
  ∃ front c back, text = front ++ '\r' :: c :: back ∧ c ≠ '\n'

lemma holdsReturn_of_not_returnsFed (h : ¬ ReturnsFed text) (hlast : text.getLast? ≠ some '\r') :
    HoldsReturn text := by
  rw [ReturnsFed] at h
  push Not at h
  obtain ⟨front, after, rfl, hhead⟩ := h
  cases after with
  | nil => simp at hlast
  | cons c back => exact ⟨front, c, back, rfl, by simpa using hhead⟩

/-- A lone carriage return stays inside one line. -/
lemma exists_mem_splitLines_holdsReturn (h : ¬ ReturnsFed text)
    (hlast : text.getLast? ≠ some '\r') : ∃ l ∈ splitLines text, HoldsReturn l := by
  induction text using lineInduction with
  | empty => exact absurd returnsFed_nil h
  | last l hne hl =>
    rw [splitLines_of_notMem hne hl]
    exact ⟨l, List.mem_singleton_self l, holdsReturn_of_not_returnsFed h hlast⟩
  | line body rest hb ih =>
    rw [splitLines_append_newline hb]
    rw [List.append_cons] at h hlast
    by_cases hbody : ReturnsFed (body ++ ['\n'])
    · have hrest : ¬ ReturnsFed rest := fun hrest => h (hbody.append hrest)
      obtain ⟨l, hl, hreturn⟩ := ih hrest (getLast?_ne_of_append hlast)
      exact ⟨l, List.mem_cons_of_mem _ hl, hreturn⟩
    · exact ⟨_, List.mem_cons_self, holdsReturn_of_not_returnsFed hbody (by simp)⟩

/-- Behind tags, a line with a carriage return inside becomes a longer one of this kind. -/
lemma exists_tagged_of_holdsReturn (htag : tag ≠ '\n') (h : HoldsReturn l) :
    ∃ m, tagged tag l = tag :: m ∧ HoldsReturn m ∧ l.length < m.length ∧
      m.getLast? = l.getLast? := by
  obtain ⟨front, c, back, rfl, hc⟩ := h
  have hcut : Cut (front ++ ['\r']) (c :: back) :=
    Or.inr ⟨List.getLast?_concat, by simpa using hc⟩
  have hsplit : front ++ '\r' :: c :: back = (front ++ ['\r']) ++ c :: back := List.append_cons ..
  have hne : front ++ ['\r'] ≠ [] := List.append_ne_nil_of_right_ne_nil _ (List.cons_ne_nil _ _)
  have hne' : front ++ '\r' :: c :: back ≠ [] :=
    List.append_ne_nil_of_right_ne_nil _ (List.cons_ne_nil _ _)
  -- the first part stops with the carriage return, and the second one starts with a tag
  obtain ⟨u, hu⟩ := exists_tagged_concat tag front '\r'
  obtain ⟨v, hv⟩ := exists_tagged_eq_cons tag (List.cons_ne_nil c back)
  have htagged : tagged tag (front ++ '\r' :: c :: back) = tag :: (u ++ '\r' :: tag :: v) := by
    rw [hsplit, tagged_append tag hcut, hu, hv]
    simp
  have hlines : (compareLines (front ++ '\r' :: c :: back)).length =
      (compareLines (front ++ ['\r'])).length + (compareLines (c :: back)).length := by
    rw [hsplit, compareLines_append hcut, List.length_append]
  have hfront := List.length_pos_of_ne_nil (compareLines_ne_nil hne)
  have hback := List.length_pos_of_ne_nil (compareLines_ne_nil (List.cons_ne_nil c back))
  have hlength := length_tagged tag (front ++ '\r' :: c :: back)
  have hlast := getLast?_tagged tag hne'
  rw [htagged] at hlength hlast
  refine ⟨u ++ '\r' :: tag :: v, htagged, ⟨u, tag, v, rfl, htag⟩, ?_, ?_⟩
  · rw [List.length_cons] at hlength
    omega
  · rw [← hlast]
    simp [List.getLast?_cons]

end LicenseHeader.Patch
