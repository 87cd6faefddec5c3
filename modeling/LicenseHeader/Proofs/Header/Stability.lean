import LicenseHeader.Proofs.Header.Rereading

/-!
# Installing the header again

A header that is found is installed in its own place, and of the lines around it only the blank ones
below are touched: the second installation leaves a single one of them, and a third one finds
nothing to do. This carries over from lines to texts. The one kind of text in which the first
installation joins the header to another line, a bare interpreter line, is settled by the second one
all the same, provided that a comment without text is not a blank line.
-/

namespace LicenseHeader.Header

open Text

variable {marker text : List Char} {lines above header below : List Line}

/-! ### Blank lines below the header -/

lemma drop_leadingBlanks (ls : List Line) :
    ls.drop (leadingBlanks ls) = ls.dropWhile allBlank := by
  have h := List.takeWhile_append_dropWhile (p := allBlank) (l := ls)
  nth_rewrite 2 [← h]
  exact List.drop_left

/-- Lines that say the header are found together with the blank lines below them, unless a header
stands above. -/
lemma SaysHeader.locate_eq (h : SaysHeader marker header)
    (hl : ∀ l ∈ above ++ (header ++ below), IsLine l) (habove : ∀ j, ¬ HeaderAt marker above j) :
    locate marker (above ++ (header ++ below)) =
      some ⟨above.length, above.length + 7 + leadingBlanks below⟩ := by
  have hrun := blankRun_leadingBlanks (h.headerAt_append above below).fits
  rw [← List.drop_drop, List.drop_left, List.drop_left' h.length_eq] at hrun
  exact (locate_eq_some_iff hl).mpr ⟨h.isLeast_headerAt habove below, hrun⟩

/-- Where such lines are found, the block takes their place, and the blank lines below them go. -/
lemma SaysHeader.install_eq (h : SaysHeader marker header)
    (hl : ∀ l ∈ above ++ (header ++ below), IsLine l) (habove : ∀ j, ¬ HeaderAt marker above j) :
    install marker (above ++ (header ++ below)) =
      above ++ (block marker ++ below.dropWhile allBlank) := by
  have hdrop : (above ++ (header ++ below)).drop (above.length + 7 + leadingBlanks below) =
      below.dropWhile allBlank := by
    rw [← List.drop_drop, ← List.drop_drop, List.drop_left, List.drop_left' h.length_eq,
      drop_leadingBlanks]
  rw [Header.install_eq, target_of_locate_eq_some (h.locate_eq hl habove), List.take_left, hdrop]

/-- Where a block is found, another one takes its place, and the blank lines below it go. -/
lemma install_block (hl : ∀ l ∈ above ++ (block marker ++ below), IsLine l)
    (habove : ∀ j, ¬ HeaderAt marker above j) :
    install marker (above ++ (block marker ++ below)) =
      above ++ (block marker ++ below.dropWhile allBlank) := by
  rw [block_append] at hl ⊢
  rw [(saysHeader_commentLines marker).install_eq hl habove]
  rfl

/-! ### The second and the third installation -/

/-- The second installation removes the blank lines below the header but one. -/
lemma install_install (hm : '\n' ∉ marker) (hl : ∀ l ∈ lines, IsLine l) :
    install marker (install marker lines) = lines.take (target marker lines).start ++
      (block marker ++ (lines.drop (target marker lines).stop).dropWhile allBlank) := by
  have hl' := isLine_of_mem_install hm hl
  rw [install_eq marker lines] at hl' ⊢
  exact install_block hl' (not_headerAt_above_target hl)

/-- The second installation changes nothing unless there are blank lines to remove. -/
lemma install_install_of_dropWhile (hm : '\n' ∉ marker) (hl : ∀ l ∈ lines, IsLine l)
    (h : (lines.drop (target marker lines).stop).dropWhile allBlank =
      lines.drop (target marker lines).stop) :
    install marker (install marker lines) = install marker lines := by
  rw [install_install hm hl, h, ← install_eq]

/-- A header that was found needs to be installed once only. -/
lemma install_install_of_locate_eq_some (hm : '\n' ∉ marker) (hl : ∀ l ∈ lines, IsLine l)
    {r : Range} (hr : locate marker lines = some r) :
    install marker (install marker lines) = install marker lines := by
  apply install_install_of_dropWhile hm hl
  rw [target_of_locate_eq_some hr, List.dropWhile_eq_self_iff]
  intro hlt hblank
  have hrun := ((locate_eq_some_iff hl).mp hr).2
  rw [List.getElem_drop, allBlank_iff] at hblank
  exact hrun.stops _ (List.getElem?_eq_getElem _) hblank

/-- The third installation finds nothing to do. -/
lemma install_install_install (hm : '\n' ∉ marker) (hl : ∀ l ∈ lines, IsLine l) :
    install marker (install marker (install marker lines)) = install marker (install marker lines) := by
  obtain ⟨r, hr, -⟩ := exists_locate_install hm hl
  exact install_install_of_locate_eq_some hm (isLine_of_mem_install hm hl) hr

/-! ### Bare interpreter lines -/

/-- A comment without text is not blank if its marker is not. -/
lemma not_allBlank_commentLine_nil (hv : ∃ c ∈ marker, ¬ isBlank c) :
    ¬ allBlank (commentLine marker []) := by
  obtain ⟨c, hc, hblank⟩ := hv
  have hne : marker ≠ [] := List.ne_nil_of_mem hc
  have hline : commentLine marker [] = trimEnd marker ++ ['\n'] := by
    rw [commentLine, if_neg (by simpa using hne), trimEnd_append_of_blank isBlank_of_mem_space]
  rw [allBlank_iff, hline, trim_append_newline, trim_eq_nil_iff, trimEnd_all_blank_iff]
  exact fun h => hblank (h c hc)

lemma block_eq_cons (marker : List Char) :
    block marker = commentLine marker (bareLine 0) :: commentLine marker [] ::
      (block marker).drop 2 := rfl

/-- The line of the interpreter is not trimmed, and neither is the header behind it. -/
lemma BareInterpreter.trim_append (h : BareInterpreter text) :
    trim (text ++ (bareLine 0 ++ ['\n'])) = text ++ bareLine 0 := by
  obtain ⟨rest, rfl⟩ := h.1
  have hstart : trimStart (interpreterMark ++ rest ++ bareLine 0) =
      interpreterMark ++ rest ++ bareLine 0 := rfl
  have hend : trimEnd (bareLine 0) = bareLine 0 := (bareLine_tidy 0).2.2
  rw [← List.append_assoc, trim_append_newline, trim, hstart, trimEnd_append (by rw [hend]; decide),
    hend]

/-- Without a marker the header is found although its first line follows the interpreter. -/
lemma BareInterpreter.headerAt_nil (h : BareInterpreter text) {rest : List Line}
    (hb : block [] = commentLine [] (bareLine 0) :: rest) :
    HeaderAt [] ((text ++ commentLine [] (bareLine 0)) :: rest) 0 := by
  have hrow : ∀ k, 1 ≤ k → k < 7 →
      commentAt [] ((text ++ commentLine [] (bareLine 0)) :: rest) (0 + k) = bareLine k := by
    intro k hk hk7
    obtain ⟨i, rfl⟩ := Nat.exists_eq_add_of_le' hk
    have hblock : commentAt [] (block []) (0 + (i + 1)) = bareLine (i + 1) :=
      (saysHeader_commentLines []).commentAt_append [] [['\n']] hk7
    rw [hb, Nat.zero_add] at hblock
    rwa [Nat.zero_add]
  have hlen := congrArg List.length hb
  rw [length_block, List.length_cons] at hlen
  refine ⟨?_, ?_, fun k h1 h5 => hrow k h1 (by omega), ?_⟩
  · rw [List.length_cons]
    omega
  · have hline : commentLine [] (bareLine 0) = bareLine 0 ++ ['\n'] := by decide +kernel
    show bareLine 0 <:+ reduceLine [] ([] ++ (text ++ commentLine [] (bareLine 0)))
    rw [reduceLine_append, hline, h.trim_append]
    exact List.suffix_append text _
  · exact (hrow 6 (by decide) (by decide)).symm ▸ List.prefix_rfl

/-- Reading a bare interpreter line with the header joined to it, and installing the header once
more, gives a text that stays. -/
lemma BareInterpreter.install_install (h : BareInterpreter text) (hm : '\n' ∉ marker)
    (hv : marker = [] ∨ ∃ c ∈ marker, ¬ isBlank c) :
    install marker (install marker (splitLines (installText marker text))) =
      install marker (splitLines (installText marker text)) := by
  have hl := (canonical_splitLines (installText marker text)).isLine
  cases hfound : locate marker (splitLines (installText marker text)) with
  | some r => exact install_install_of_locate_eq_some hm hl hfound
  | none =>
    obtain ⟨first, rest, hb, hlen, hsplit⟩ := h.splitLines_installText hm
    obtain ⟨rfl, hrest⟩ := List.cons.inj ((block_eq_cons marker).symm.trans hb)
    rw [hsplit] at hl hfound ⊢
    rcases hv with rfl | hv
    · exact absurd (h.headerAt_nil hb) ((locate_eq_none_iff hl).mp hfound 0)
    · have hindex : insertionIndex ((text ++ commentLine marker (bareLine 0)) :: rest) = 1 :=
        insertionIndex_of_interpreter rfl (h.1.trans (List.prefix_append text _))
      apply install_install_of_dropWhile hm hl
      rw [target_of_locate_eq_none hfound, hindex, List.drop_one, List.tail_cons, ← hrest]
      exact List.dropWhile_cons_of_neg (not_allBlank_commentLine_nil hv)

/-! ### Texts -/

/-- The header of a text is there, and as it should be. -/
def Installed (marker text : List Char) : Prop :=
  install marker (splitLines text) = splitLines text

instance (marker text : List Char) : Decidable (Installed marker text) :=
  inferInstanceAs (Decidable (_ = _))

/-- Whatever the text was, with a header it has a line feed. -/
lemma newline_mem_installText (marker text : List Char) :
    '\n' ∈ installText marker text := by
  rw [installText, install_eq, joinLines_append, joinLines_append]
  apply List.mem_append_right
  apply List.mem_append_left
  exact List.mem_flatten_of_mem (List.mem_append_right _ (List.mem_singleton_self _))
    (List.mem_singleton_self '\n')

/-- A text with the header is no bare interpreter line: it is read back as it was meant. -/
lemma splitLines_installText_installText (hm : '\n' ∉ marker) (text : List Char) :
    splitLines (installText marker (installText marker text)) =
      install marker (splitLines (installText marker text)) :=
  (splitLines_installText_iff _ hm).mpr fun h => h.2 (newline_mem_installText marker text)

/-- A text is changed just when its lines are. -/
lemma installText_eq_iff (hm : '\n' ∉ marker) (text : List Char) :
    installText marker text = text ↔ Installed marker text := by
  constructor
  · intro h
    by_cases hbare : BareInterpreter text
    · exact absurd (h ▸ newline_mem_installText marker text) hbare.2
    · rw [Installed, ← (splitLines_installText_iff text hm).mpr hbare, h]
  · intro h
    rw [installText, h, joinLines_splitLines]

/-- After two installations the header is there, and as it should be. -/
lemma installed_installText_installText (hm : '\n' ∉ marker)
    (hv : marker = [] ∨ ∃ c ∈ marker, ¬ isBlank c) (text : List Char) :
    Installed marker (installText marker (installText marker text)) := by
  rw [Installed, splitLines_installText_installText hm]
  by_cases h : BareInterpreter text
  · exact h.install_install hm hv
  · rw [(splitLines_installText_iff text hm).mpr h]
    exact install_install_install hm (canonical_splitLines text).isLine

end LicenseHeader.Header
