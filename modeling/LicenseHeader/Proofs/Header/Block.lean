import LicenseHeader.Proofs.Header.Placement
import Mathlib.Data.List.GetD

/-!
# The block that is written

Behind any marker the lines of the block say exactly the lines of the header (`SaysHeader`), and the
header stands wherever such lines are put. A header cannot begin above them and end inside: the
first line of the header is none of its other lines.
-/

namespace LicenseHeader.Header

open Text

variable {marker : List Char} {lines above header below : List Line}

/-! ### Comment lines -/

lemma reduceLine_append (marker rest : List Char) :
    reduceLine marker (marker ++ rest) = trim rest := by
  rw [reduceLine, if_pos (List.isPrefixOf_iff_prefix.mpr (List.prefix_append marker rest)),
    List.drop_left]

lemma commentLine_of_ne_nil {line : List Char} (hm : marker ≠ []) (hl : trimEnd line = line)
    (hne : line ≠ []) : commentLine marker line = marker ++ (' ' :: line ++ ['\n']) := by
  have hspace : trimEnd (' ' :: line) = ' ' :: line := by
    show trimEnd ([' '] ++ line) = [' '] ++ line
    rw [trimEnd_append (by rwa [hl]), hl]
  rw [commentLine, if_neg (by simpa using hm), trimEnd_append (by simp [hspace]), hspace,
    List.append_assoc]

/-- Where the header has a blank line, a comment line has nothing behind its marker. -/
lemma reduceLine_commentLine_nil (marker : List Char) :
    reduceLine marker (commentLine marker []) = [] := by
  rw [reduceLine]
  split_ifs with h
  · have hlen : (trimEnd (if marker.isEmpty then [] else marker ++ [' '])).length ≤
        marker.length := by
      split_ifs
      · simp [trimEnd]
      · rw [trimEnd_append_of_blank isBlank_of_mem_space]
        exact (trimEnd_isPrefix marker).length_le
    rw [trim_eq_nil_iff, commentLine, List.drop_append, List.drop_eq_nil_of_le hlen,
      List.nil_append]
    intro c hc
    rw [List.mem_singleton.mp (List.mem_of_mem_drop hc)]
    exact isBlank_newline
  · rfl

/-- A comment line says the line of the header that it was made of. -/
lemma reduceLine_commentLine {line : List Char} (ht : trim line = line)
    (hl : trimEnd line = line) : reduceLine marker (commentLine marker line) = line := by
  rcases eq_or_ne line [] with rfl | hne
  · exact reduceLine_commentLine_nil marker
  · rcases eq_or_ne marker [] with rfl | hm
    · show reduceLine [] ([] ++ (trimEnd line ++ ['\n'])) = line
      rw [reduceLine_append, hl, trim_append_newline, ht]
    · rw [commentLine_of_ne_nil hm hl hne, reduceLine_append, trim_append_newline]
      exact (trim_blank_append isBlank_of_mem_space line).trans ht

lemma mem_commentText {line : List Char} {c : Char}
    (h : c ∈ trimEnd (if marker.isEmpty then line else marker ++ ' ' :: line)) :
    c ∈ marker ∨ c ∈ ' ' :: line := by
  have hmem := (trimEnd_isPrefix _).subset h
  split_ifs at hmem with hempty
  · exact Or.inr (List.mem_cons_of_mem ' ' hmem)
  · exact List.mem_append.mp hmem

lemma terminated_commentLine {line : List Char} (hm : '\n' ∉ marker) (hl : '\n' ∉ line) :
    Terminated (commentLine marker line) := by
  refine ⟨_, fun h => ?_, rfl⟩
  rcases mem_commentText h with h | h
  · exact hm h
  · exact hl (by simpa using h)

/-! ### The lines of the block -/

lemma block_eq (marker : List Char) :
    block marker =
      (List.range 7).map (fun k => commentLine marker (bareLine k)) ++ [['\n']] := rfl

lemma terminated_of_mem_block (hm : '\n' ∉ marker) : ∀ l ∈ block marker, Terminated l := by
  intro l hl
  rw [block_eq] at hl
  rcases List.mem_append.mp hl with hl | hl
  · obtain ⟨k, -, rfl⟩ := List.mem_map.mp hl
    exact terminated_commentLine hm (newline_notMem_bareLine k)
  · exact ⟨[], by simp, List.mem_singleton.mp hl⟩

lemma return_notMem_bareLines : ∀ line ∈ bareLines, '\r' ∉ line := by
  decide +kernel

/-- A header holds no carriage return unless its marker does. -/
lemma return_notMem_block (hmarker : '\r' ∉ marker) : '\r' ∉ joinLines (block marker) := by
  rw [joinLines, List.mem_flatten, block]
  rintro ⟨l, hl, hmem⟩
  rcases List.mem_append.mp hl with hl | hl
  · obtain ⟨line, hline, rfl⟩ := List.mem_map.mp hl
    rcases List.mem_append.mp hmem with hmem | hmem
    · rcases mem_commentText hmem with hmem | hmem
      · exact hmarker hmem
      · exact return_notMem_bareLines line hline (by simpa using hmem)
    · simp at hmem
  · rw [List.mem_singleton.mp hl] at hmem
    simp at hmem

/-- The block is the header behind the marker, and an empty line. -/
lemma block_append (marker : List Char) (below : List Line) :
    block marker ++ below = bareLines.map (commentLine marker) ++ (['\n'] :: below) := by
  rw [block, List.append_assoc, List.singleton_append]

lemma take_block_append (marker : List Char) (below : List Line) :
    (block marker ++ below).take 8 = block marker :=
  List.take_left' (length_block marker)

/-! ### Lines put together -/

lemma commentAt_append_left {i : Nat} (hi : i < above.length) (below : List Line) :
    commentAt marker (above ++ below) i = commentAt marker above i := by
  rw [commentAt, commentAt, List.getD_append _ _ _ _ hi]

lemma commentAt_append_right (above below : List Line) (i : Nat) :
    commentAt marker (above ++ below) (above.length + i) = commentAt marker below i := by
  rw [commentAt, commentAt, List.getD_append_right _ _ _ _ (Nat.le_add_right _ i),
    Nat.add_sub_cancel_left]

/-- The first line of the header is none of its other lines. -/
lemma bareLine_zero_ne {k : Nat} (h1 : 1 ≤ k) (h5 : k ≤ 5) : bareLine 0 ≠ bareLine k := by
  have hall : ∀ k < 6, 1 ≤ k → bareLine 0 ≠ bareLine k := by decide +kernel
  exact hall k (by omega) h1

/-- A header that begins above the first line of a header ends above it. -/
lemma HeaderAt.le_of_commentAt_eq {i j : Nat} (h : HeaderAt marker lines j)
    (hfirst : commentAt marker lines i = bareLine 0) (hj : j < i) : j + 7 ≤ i := by
  by_contra hlt
  obtain ⟨k, rfl⟩ := Nat.exists_eq_add_of_le hj.le
  by_cases h5 : k ≤ 5
  · exact bareLine_zero_ne (by omega) h5 (hfirst.symm.trans (h.inner k (by omega) h5))
  · have hlast := h.last
    rw [show j + 6 = j + k by omega, hfirst] at hlast
    exact absurd hlast (by decide +kernel)

/-- Whether a header stands above a place does not depend on what is below that place. -/
lemma HeaderAt.of_append_left {j : Nat} (h : HeaderAt marker (above ++ below) j)
    (hj : j + 7 ≤ above.length) (below' : List Line) : HeaderAt marker (above ++ below') j where
  fits := by
    rw [List.length_append]
    omega
  first := by
    have := h.first
    rwa [commentAt_append_left (by omega)] at this ⊢
  inner k h1 h5 := by
    have := h.inner k h1 h5
    rwa [commentAt_append_left (by omega)] at this ⊢
  last := by
    have := h.last
    rwa [commentAt_append_left (by omega)] at this ⊢

/-! ### Lines that say the header -/

/-- The lines say the lines of the header, one each, and nothing else. -/
def SaysHeader (marker : List Char) (header : List Line) : Prop :=
  header.map (reduceLine marker) = bareLines

instance (marker : List Char) (header : List Line) : Decidable (SaysHeader marker header) :=
  inferInstanceAs (Decidable (_ = _))

lemma saysHeader_commentLines (marker : List Char) :
    SaysHeader marker (bareLines.map (commentLine marker)) := by
  have htidy : ∀ l ∈ bareLines, trim l = l ∧ trimEnd l = l := by decide +kernel
  have hsaid : ∀ l ∈ bareLines, reduceLine marker (commentLine marker l) = l := fun l hl =>
    reduceLine_commentLine (htidy l hl).1 (htidy l hl).2
  rw [SaysHeader, List.map_map]
  exact (List.map_congr_left hsaid).trans (List.map_id bareLines)

lemma SaysHeader.length_eq (h : SaysHeader marker header) : header.length = 7 := by
  rw [← length_bareLines, ← h, List.length_map]

lemma SaysHeader.commentAt_append (h : SaysHeader marker header) (above below : List Line) {k : Nat}
    (hk : k < 7) :
    commentAt marker (above ++ (header ++ below)) (above.length + k) = bareLine k := by
  rw [← h.length_eq] at hk
  rw [commentAt_append_right, commentAt_append_left hk, commentAt, bareLine, ← h]
  simp [hk]

/-- Where lines say the header, it is found. -/
lemma SaysHeader.headerAt_append (h : SaysHeader marker header) (above below : List Line) :
    HeaderAt marker (above ++ (header ++ below)) above.length := by
  have hrow : ∀ k < 7, commentAt marker (above ++ (header ++ below)) (above.length + k) =
      bareLine k := fun k => h.commentAt_append above below
  refine ⟨?_, ?_, fun k _ h5 => hrow k (by omega), ?_⟩
  · rw [List.length_append, List.length_append, h.length_eq]
    omega
  · exact (hrow 0 (by decide)).symm ▸ List.suffix_rfl
  · exact (hrow 6 (by decide)).symm ▸ List.prefix_rfl

/-- Where no header stands above such lines, their place is the first one. -/
lemma SaysHeader.isLeast_headerAt (h : SaysHeader marker header)
    (habove : ∀ j, ¬ HeaderAt marker above j) (below : List Line) :
    IsLeast {j | HeaderAt marker (above ++ (header ++ below)) j} above.length := by
  refine ⟨h.headerAt_append above below, fun j hj => Nat.le_of_not_lt fun hlt => ?_⟩
  have hfirst := h.commentAt_append above below (k := 0) (by decide)
  have hj7 : j + 7 ≤ above.length := HeaderAt.le_of_commentAt_eq hj hfirst hlt
  have hat : HeaderAt marker (above ++ []) j := HeaderAt.of_append_left hj hj7 []
  rw [List.append_nil] at hat
  exact habove j hat

end LicenseHeader.Header
