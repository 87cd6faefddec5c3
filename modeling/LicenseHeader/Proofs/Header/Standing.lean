import LicenseHeader.Proofs.Header.Idempotence

/-!
# Headers that stay

Installing the header changes nothing exactly if the block is there already, no header stands above
it, and no blank line follows its own one (`Standing`). The place of such a header for a reader are
the seven lines that are written behind the marker.
-/

namespace LicenseHeader.Header

open Text

/-- The lines that a reader counts from the first to the last one of a span. -/
def Span.lines (span : Span) (all : List Line) : List Line :=
  (all.take span.lastLine).drop (span.firstLine - 1)

variable {marker : List Char} {lines above below : List Line}

/-- The lines hold the block between `above`, where no header is found, and `below`, which does not
start with a blank line. -/
structure Standing (marker : List Char) (lines above below : List Line) : Prop where
  lines_eq : lines = above ++ (block marker ++ below)
  first : locate marker above = none
  separate : ∀ l ∈ below.head?, trim l ≠ []

namespace Standing

lemma not_headerAt_above (h : Standing marker lines above below) (hl : ∀ l ∈ lines, IsLine l)
    (j : Nat) : ¬ HeaderAt marker above j := by
  rw [h.lines_eq] at hl
  exact (locate_eq_none_iff fun l hmem => hl l (List.mem_append_left _ hmem)).mp h.first j

/-- The header is found with one blank line below it. -/
lemma locate_eq (h : Standing marker lines above below) (hl : ∀ l ∈ lines, IsLine l) :
    locate marker lines = some ⟨above.length, above.length + 8⟩ := by
  have hnone := h.not_headerAt_above hl
  obtain ⟨rfl, -, hseparate⟩ := h
  have hblanks : leadingBlanks (['\n'] :: below) = 1 := by
    have hall : allBlank ['\n'] := by decide
    have hrest := List.takeWhile_append_dropWhile (p := allBlank) (l := below)
    rw [dropWhile_allBlank_eq_self_iff.mpr hseparate, List.append_left_eq_self] at hrest
    rw [leadingBlanks, List.takeWhile_cons_of_pos hall, hrest, List.length_singleton]
  rw [block_append] at hl ⊢
  rw [(saysHeader_commentLines marker).locate_eq hl hnone, hblanks]

lemma install_eq (h : Standing marker lines above below) (hl : ∀ l ∈ lines, IsLine l) :
    install marker lines = lines := by
  have hnone := h.not_headerAt_above hl
  obtain ⟨rfl, -, hseparate⟩ := h
  rw [install_block hl hnone, dropWhile_allBlank_eq_self_iff.mpr hseparate]

/-- The span of the header holds its seven lines behind the marker. -/
lemma lines_span (h : Standing marker lines above below) :
    Span.lines ⟨above.length + 1, above.length + 7⟩ lines = bareLines.map (commentLine marker) := by
  rw [Span.lines, h.lines_eq, block_append, Nat.add_sub_cancel, List.drop_take, List.drop_left,
    Nat.add_sub_cancel_left]
  exact List.take_left' (saysHeader_commentLines marker).length_eq

end Standing

/-- A header that is missing is put between lines that were there before. -/
lemma install_ne_self_of_locate_eq_none (h : locate marker lines = none) :
    install marker lines ≠ lines := by
  intro heq
  have hlength := congrArg List.length heq
  have hle := insertionIndex_le_length lines
  rw [install_eq, target_of_locate_eq_none h] at hlength
  simp only [List.length_append, List.length_take, List.length_drop, length_block] at hlength
  omega

/-- Only a text that holds the block as it should be stays as it is. -/
lemma install_eq_self_iff (hl : ∀ l ∈ lines, IsLine l) :
    install marker lines = lines ↔ ∃ above below, Standing marker lines above below := by
  constructor
  · intro hsame
    cases hfound : locate marker lines with
    | none => exact absurd hsame (install_ne_self_of_locate_eq_none hfound)
    | some r =>
      have htarget := target_of_locate_eq_some hfound
      have habove : ∀ j, ¬ HeaderAt marker (lines.take (target marker lines).start) j :=
        not_headerAt_above_target hl
      rw [install_eq, htarget] at hsame
      rw [htarget] at habove
      refine ⟨lines.take r.start, lines.drop r.stop, hsame.symm, ?_, ?_⟩
      · exact (locate_eq_none_iff fun l hmem => hl l (List.mem_of_mem_take hmem)).mpr habove
      · rw [List.head?_drop]
        exact ((locate_eq_some_iff hl).mp hfound).2.stops
  · rintro ⟨above, below, h⟩
    exact h.install_eq hl

end LicenseHeader.Header
