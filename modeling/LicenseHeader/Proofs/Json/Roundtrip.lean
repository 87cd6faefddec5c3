import LicenseHeader.Json.Printer
import LicenseHeader.Proofs.Json.Numbers

/-!
# Printed documents are read

A printed value is a JSON text that writes this value, whatever texts it holds and however deep it
is, provided that its numbers are written as numbers.
-/

namespace LicenseHeader.Json

variable {frames : List Frame} {r r' : Reader} {c : Char} {cs rest : List Char} {v : Json}

/-- The numbers of a value are written as numbers. -/
inductive Sound : Json → Prop where
  | string (text : String) : Sound (.string text)
  | number {literal : String} : isNumber literal.toList → Sound (.number literal)
  | array {es : List Json} : (∀ e ∈ es, Sound e) → Sound (.array es)
  | object {fs : List (String × Json)} : (∀ f ∈ fs, Sound f.2) → Sound (.object fs)

namespace Reader

lemma read_cons (h : r.step c = some r') (cs : List Char) : r.read (c :: cs) = r'.read cs := by
  rw [read, h]
  rfl

/-! ### Spaces -/

/-- Between the parts of a text spaces are passed over. -/
lemma read_spaces (h : ∀ c, isSpace c → r.step c = some r) (hcs : ∀ c ∈ cs, isSpace c)
    (rest : List Char) : r.read (cs ++ rest) = r.read rest := by
  induction cs with
  | nil => rfl
  | cons c cs ih =>
    rw [List.cons_append, read_cons (h c (hcs c List.mem_cons_self))]
    exact ih fun c hc => hcs c (List.mem_cons_of_mem _ hc)

/-- The space in front of a value is skipped. -/
lemma read_newline (h : ∀ c, isSpace c → r.step c = some r) (depth : Nat) (rest : List Char) :
    r.read (newline depth ++ rest) = r.read rest := by
  apply read_spaces h
  intro c hc
  rcases List.mem_cons.mp hc with rfl | hc
  · rfl
  · rw [List.eq_of_mem_replicate hc]
    rfl

lemma step_value_space (first : Bool) (h : isSpace c) :
    step ⟨frames, .value first⟩ c = some ⟨frames, .value first⟩ :=
  if_pos h

lemma step_name_space (first : Bool) (h : isSpace c) :
    step ⟨frames, .name first⟩ c = some ⟨frames, .name first⟩ :=
  if_pos h

lemma step_after_space (h : isSpace c) :
    step ⟨frames, .after v⟩ c = some ⟨frames, .after v⟩ :=
  if_pos h

/-! ### Texts -/

lemma hexValue?_hexDigit {n : Nat} (h : n < 16) : hexValue? (hexDigit n) = some n := by
  have hall : ∀ n < 16, hexValue? (hexDigit n) = some n := by decide
  exact hall n h

/-- Four digits write the code of a control character. -/
lemma read_code (isName : Bool) (content : List Char) (hc : c.toNat < 0x20) (rest : List Char) :
    read ⟨frames, .text isName content .none⟩
        ('\\' :: 'u' :: '0' :: '0' :: hexDigit (c.toNat / 16) :: hexDigit (c.toNat % 16) :: rest) =
      read ⟨frames, .text isName (content ++ [c]) .none⟩ rest := by
  have hhigh := hexValue?_hexDigit (show c.toNat / 16 < 16 by omega)
  have hlow := hexValue?_hexDigit (show c.toNat % 16 < 16 by omega)
  have hcode : 16 * (c.toNat / 16) + c.toNat % 16 = c.toNat := Nat.div_add_mod ..
  have hplain : ¬ (0xD800 ≤ c.toNat ∧ c.toNat < 0xDC00) := by omega
  have hvalid : c.toNat.isValidChar := Or.inl (by omega)
  have hread : readCode content none c.toNat = some (content ++ [c], .none) := by
    rw [readCode, if_neg hplain, if_pos hvalid, Char.ofNat_toNat]
  have hstep : step ⟨frames, .text isName content (.code none 0 (c.toNat / 16))⟩
      (hexDigit (c.toNat % 16)) = some ⟨frames, .text isName (content ++ [c]) .none⟩ := by
    simp only [step, stepText, readText, hlow, Option.bind_some, if_true, hcode, hread,
      Option.map_some]
  have hstep' : step ⟨frames, .text isName content (.code none 1 0)⟩ (hexDigit (c.toNat / 16)) =
      some ⟨frames, .text isName content (.code none 0 (c.toNat / 16))⟩ := by
    simp [step, stepText, readText, hhigh]
  have hstart : read ⟨frames, .text isName content .none⟩
      ('\\' :: 'u' :: '0' :: '0' :: hexDigit (c.toNat / 16) :: hexDigit (c.toNat % 16) :: rest) =
        read ⟨frames, .text isName content (.code none 1 0)⟩
          (hexDigit (c.toNat / 16) :: hexDigit (c.toNat % 16) :: rest) := rfl
  rw [hstart, read_cons hstep', read_cons hstep]

/-- A character is read in the form in which it is written. -/
lemma read_escape (isName : Bool) (content : List Char) (c : Char) (rest : List Char) :
    read ⟨frames, .text isName content .none⟩ (escape c ++ rest) =
      read ⟨frames, .text isName (content ++ [c]) .none⟩ rest := by
  have hcode : ∀ n : Nat, c.toNat = n → c = Char.ofNat n := by
    rintro n rfl
    exact (Char.ofNat_toNat c).symm
  rw [escape]
  split_ifs with hquote hbackslash hn hr ht hb hf hcontrol
  · rw [hquote]
    rfl
  · rw [hbackslash]
    rfl
  · rw [hn]
    rfl
  · rw [hr]
    rfl
  · rw [ht]
    rfl
  · rw [hcode _ hb]
    rfl
  · rw [hcode _ hf]
    rfl
  · exact read_code isName content hcontrol rest
  · apply read_cons
    simp only [step]
    rw [stepText]
    · simp [readText, hbackslash, hcontrol]
    · intro _
      exact hquote

/-- Reading a text gives back what was put in quotes. -/
lemma read_flatMap_escape (isName : Bool) (content cs rest : List Char) :
    read ⟨frames, .text isName content .none⟩ (cs.flatMap escape ++ rest) =
      read ⟨frames, .text isName (content ++ cs) .none⟩ rest := by
  induction cs generalizing content with
  | nil => simp
  | cons c cs ih =>
    rw [List.flatMap_cons, List.append_assoc, read_escape, ih, List.append_assoc]
    rfl

/-- A quoted text is read back. -/
lemma read_quote (first : Bool) (text : String) (rest : List Char) :
    read ⟨frames, .value first⟩ (quote text.toList ++ rest) =
      read ⟨frames, .after (.string text)⟩ rest := by
  have hopen : read ⟨frames, .value first⟩ (quote text.toList ++ rest) =
      read ⟨frames, .text false [] .none⟩ (text.toList.flatMap escape ++ ['"'] ++ rest) := rfl
  rw [hopen, List.append_assoc, read_flatMap_escape, List.nil_append]
  have hclose : read ⟨frames, .text false text.toList .none⟩ ('"' :: rest) =
      read ⟨frames, .after (.string (String.ofList text.toList))⟩ rest := rfl
  rw [List.singleton_append, hclose, String.ofList_toList]

/-- Behind the name of a field its value has to come. -/
lemma read_name (first : Bool) (fs : List (String × Json)) (name : String) (rest : List Char) :
    read ⟨.fields fs :: frames, .name first⟩ (quote name.toList ++ ':' :: ' ' :: rest) =
      read ⟨.field fs name :: frames, .value false⟩ rest := by
  have hopen : read ⟨.fields fs :: frames, .name first⟩ (quote name.toList ++ ':' :: ' ' :: rest) =
      read ⟨.fields fs :: frames, .text true [] .none⟩
        (name.toList.flatMap escape ++ ['"'] ++ ':' :: ' ' :: rest) := rfl
  rw [hopen, List.append_assoc, read_flatMap_escape, List.nil_append]
  have hclose : read ⟨.fields fs :: frames, .text true name.toList .none⟩
      ('"' :: ':' :: ' ' :: rest) =
        read ⟨.field fs (String.ofList name.toList) :: frames, .value false⟩ rest := rfl
  rw [List.singleton_append, hclose, String.ofList_toList]

/-! ### Numbers -/

/-- What begins here cannot go on with a number. -/
def Delimited (rest : List Char) : Prop :=
  ∀ c ∈ rest.head?, ¬ isNumberChar c

lemma delimited_cons (hc : isNumberChar c = false) (rest : List Char) : Delimited (c :: rest) := by
  rintro d hd
  cases hd
  simp [hc]

lemma delimited_newline (depth : Nat) (rest : List Char) : Delimited (newline depth ++ rest) :=
  delimited_cons rfl _

lemma step_value_number (first : Bool) (h : c = '-' ∨ c.isDigit) :
    step ⟨frames, .value first⟩ c = some ⟨frames, .number [c]⟩ := by
  have hne : ∀ d, d ≠ '-' → d.isDigit = false → c ≠ d := by
    rintro d hminus hdigit rfl
    rcases h with h | h
    · exact hminus h
    · rw [hdigit] at h
      cases h
  have hspace : ¬ isSpace c := by
    simp [isSpace, hne ' ' (by decide) rfl, hne '\t' (by decide) rfl, hne '\n' (by decide) rfl,
      hne '\r' (by decide) rfl]
  show stepValue frames first c = _
  rw [stepValue.eq_def, if_neg hspace, if_neg (hne _ (by decide) rfl), if_neg (hne _ (by decide) rfl),
    if_neg (hne _ (by decide) rfl), if_pos h]

/-- A number is read on as long as its characters go on. -/
lemma read_number_append (literal : List Char) (hcs : ∀ c ∈ cs, isNumberChar c)
    (rest : List Char) :
    read ⟨frames, .number literal⟩ (cs ++ rest) = read ⟨frames, .number (literal ++ cs)⟩ rest := by
  induction cs generalizing literal with
  | nil => simp
  | cons c cs ih =>
    have hstep : step ⟨frames, .number literal⟩ c = some ⟨frames, .number (literal ++ [c])⟩ :=
      if_pos (hcs c List.mem_cons_self)
    rw [List.cons_append, read_cons hstep, ih _ fun c hc => hcs c (List.mem_cons_of_mem _ hc),
      List.append_assoc]
    rfl

/-- A number ends where something follows that cannot belong to it. -/
lemma read_number_end {literal : List Char} (h : isNumber literal)
    (hrest : Delimited rest) :
    read ⟨frames, .number literal⟩ rest =
      read ⟨frames, .after (.number (String.ofList literal))⟩ rest := by
  cases rest with
  | nil => cases frames <;> simp [read, result, h]
  | cons c rest =>
    have hstep : step ⟨frames, .number literal⟩ c =
        step ⟨frames, .after (.number (String.ofList literal))⟩ c := by
      show stepNumber frames literal c = _
      rw [stepNumber, if_neg (hrest c rfl), if_pos h]
      rfl
    rw [read, read, hstep]

/-- A number ends where something begins that cannot belong to it. -/
lemma read_number (first : Bool) {literal : String} (h : isNumber literal.toList)
    (hrest : Delimited rest) :
    read ⟨frames, .value first⟩ (literal.toList ++ rest) =
      read ⟨frames, .after (.number literal)⟩ rest := by
  obtain ⟨c, cs, hliteral, hc⟩ := head_of_isNumber h
  have hcs : ∀ d ∈ cs, isNumberChar d := by
    intro d hd
    apply isNumberChar_of_isNumber h
    rw [hliteral]
    exact List.mem_cons_of_mem c hd
  rw [hliteral, List.cons_append, read_cons (step_value_number first hc), read_number_append _ hcs,
    List.singleton_append, ← hliteral, read_number_end h hrest, String.ofList_toList]

/-! ### Arrays and objects -/

/-- A printed value is read, wherever it stands, up to what follows it and cannot belong to it. -/
def ReadsBack (v : Json) : Prop :=
  ∀ depth first frames rest, Delimited rest →
    read ⟨frames, .value first⟩ (print depth v ++ rest) = read ⟨frames, .after v⟩ rest

/-- An array is read to its end. What was read of it before stands in the frame. -/
lemma read_printElements {es : List Json} (h : ∀ e ∈ es, ReadsBack e) (hne : es ≠ [])
    (first : Bool) (before : List Json) (depth depth' : Nat) (rest : List Char) :
    read ⟨.elements before :: frames, .value first⟩
        (printElements depth es ++ (newline depth' ++ ']' :: rest)) =
      read ⟨frames, .after (.array (before ++ es))⟩ rest := by
  induction es generalizing before first with
  | nil => exact absurd rfl hne
  | cons e es ih =>
    have he := h e List.mem_cons_self
    -- The last element is followed by the bracket and any other one by a comma, none of which can
    -- belong to a number.
    cases es with
    | nil =>
      rw [printElements, List.append_assoc, read_newline (fun c => step_value_space first),
        he _ _ _ _ (delimited_newline _ _), read_newline (fun c => step_after_space)]
      rfl
    | cons e' es =>
      have hrest := ih (fun e he => h e (List.mem_cons_of_mem _ he)) (List.cons_ne_nil _ _) false
        (before ++ [e])
      rw [List.append_assoc, List.singleton_append] at hrest
      rw [printElements, List.append_assoc, List.append_assoc, List.cons_append,
        read_newline (fun c => step_value_space first), he _ _ _ _ (delimited_cons rfl _), ← hrest]
      · rfl
      · exact fun heq => by cases heq

/-- An object is read to its end. What was read of it before stands in the frame. -/
lemma read_printFields {fs : List (String × Json)} (h : ∀ f ∈ fs, ReadsBack f.2) (hne : fs ≠ [])
    (first : Bool) (before : List (String × Json)) (depth depth' : Nat) (rest : List Char) :
    read ⟨.fields before :: frames, .name first⟩
        (printFields depth fs ++ (newline depth' ++ '\x7d' :: rest)) =
      read ⟨frames, .after (.object (before ++ fs))⟩ rest := by
  induction fs generalizing before first with
  | nil => exact absurd rfl hne
  | cons f fs ih =>
    obtain ⟨name, v⟩ := f
    have hv : ReadsBack v := h (name, v) List.mem_cons_self
    cases fs with
    | nil =>
      rw [printFields, printField, List.append_assoc, List.append_assoc,
        read_newline (fun c => step_name_space first), List.cons_append, List.cons_append, read_name,
        hv _ _ _ _ (delimited_newline _ _), read_newline (fun c => step_after_space)]
      rfl
    | cons f' fs =>
      have hrest := ih (fun f hf => h f (List.mem_cons_of_mem _ hf)) (List.cons_ne_nil _ _) false
        (before ++ [(name, v)])
      rw [List.append_assoc, List.singleton_append] at hrest
      rw [printFields, printField, List.append_assoc, List.append_assoc, List.append_assoc,
        read_newline (fun c => step_name_space first), List.cons_append, List.cons_append,
        List.cons_append, read_name, hv _ _ _ _ (delimited_cons rfl _), ← hrest]
      · rfl
      · exact fun heq => by cases heq

/-- Every printed value is read back, by induction on what it holds. -/
lemma readsBack_of_sound (h : Sound v) : ReadsBack v := by
  induction h with
  | string text =>
    intro depth first frames rest _
    exact read_quote first text rest
  | number hliteral =>
    intro depth first frames rest hrest
    exact read_number first hliteral hrest
  | @array es _ ih =>
    intro depth first frames rest _
    cases es with
    | nil => rfl
    | cons e es =>
      have helements := @read_printElements frames _ ih (List.cons_ne_nil e es) true [] (depth + 1)
        depth rest
      rw [print, List.append_assoc, List.append_assoc]
      exact helements
  | @object fs _ ih =>
    intro depth first frames rest _
    cases fs with
    | nil => rfl
    | cons f fs =>
      have hfields := @read_printFields frames _ ih (List.cons_ne_nil f fs) true [] (depth + 1)
        depth rest
      rw [print, List.append_assoc, List.append_assoc]
      exact hfields

end Reader

/-- A printed value is read as itself. -/
theorem parse?_render (h : Sound v) : parse? v.render = some v := by
  have hread := Reader.readsBack_of_sound h 0 false [] [] (fun c hc => by cases hc)
  rw [List.append_nil] at hread
  exact hread

example : parse? "[1, \"\\ud83d\\ude00\"]".toList = some (.array [.natural 1, .string "😀"]) := by
  rfl

example : parse? "[1,]".toList = none := by
  rfl

example : parse? "[01]".toList = none := by
  rfl

end LicenseHeader.Json
