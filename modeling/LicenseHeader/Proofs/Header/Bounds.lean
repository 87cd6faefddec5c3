import LicenseHeader.Header.Installation
import LicenseHeader.Proofs.Header.Installation

/-!
# Lists of any texts

The header may be looked for in any list of texts, also if one of them holds several lines. It then
begins in one of the elements, but its place is counted in lines, and lines that an element holds
inside are counted too. If there are more of them above the header than elements from it on, the
place lies behind the end of the list (`Overrun`). This is the only case in which the range is not
one of the list and the header cannot be installed.
-/

namespace LicenseHeader.Header

open Text

variable {marker : List Char} {lines : List Line}

/-! ### The range -/

lemma stop_le_length {r : Range} (h : locate marker lines = some r) : r.stop ≤ lines.length := by
  obtain ⟨before, -, rfl⟩ := Option.map_eq_some_iff.mp h
  exact (blankRun_leadingBlanks (Nat.min_le_right _ _)).le_length

/-- The range stops before it starts only if it starts behind the end of the list. -/
lemma start_le_stop_iff {r : Range} (h : locate marker lines = some r) :
    r.start ≤ r.stop ↔ r.start ≤ lines.length := by
  refine ⟨fun hle => hle.trans (stop_le_length h), fun hle => ?_⟩
  obtain ⟨before, -, rfl⟩ := Option.map_eq_some_iff.mp h
  exact Nat.le_add_right_of_le (Nat.le_min.mpr ⟨Nat.le_add_right _ _, hle⟩)

/-- What is taken away lies in the text, even if a header overruns its lines. -/
lemma target_stop_le_length (marker : List Char) (lines : List Line) :
    (target marker lines).stop ≤ lines.length := by
  cases h : locate marker lines with
  | none =>
    rw [target_of_locate_eq_none h]
    exact insertionIndex_le_length lines
  | some r =>
    rw [target_of_locate_eq_some h]
    exact stop_le_length h

/-! ### The place of the header -/

/-- The header begins first in element `p`, and above it the elements hold more line feeds than
there are elements from `p` on. -/
def Overrun (marker : List Char) (lines : List Line) : Prop :=
  let rows := lines.map (reduceLine marker)
  ∃ p q, FirstBegin '\n' bareText rows p q ∧ rows.length < p + heldAbove '\n' rows p q

/-- An overrun is seen in the result: the header starts behind the end. -/
lemma Overrun.iff_of_locate_eq_some {r : Range} (h : locate marker lines = some r) :
    Overrun marker lines ↔ lines.length < r.start := by
  obtain ⟨before, hbefore, rfl⟩ := Option.map_eq_some_iff.mp h
  obtain ⟨p, q, hfirst, hcount⟩ :=
    exists_firstBegin_of_firstOccurrence? (by decide +kernel) hbefore
  show _ ↔ lines.length < ((reducedText marker lines).take before).count '\n'
  rw [reducedText, hcount, Overrun, List.length_map]
  constructor
  · rintro ⟨p', q', hfirst', hlt⟩
    obtain ⟨rfl, rfl⟩ := hfirst.unique hfirst'
    exact hlt
  · exact fun hlt => ⟨p, q, hfirst, hlt⟩

lemma not_overrun_of_locate_eq_none (h : locate marker lines = none) : ¬ Overrun marker lines := by
  rintro ⟨p, q, hfirst, -⟩
  exact not_beginsAt_of_firstOccurrence? (Option.map_eq_none_iff.mp h) hfirst.begins

/-- In proper lines no header overruns them. -/
lemma not_overrun_of_newline_notMem (h : ∀ l ∈ lines, '\n' ∉ reduceLine marker l) :
    ¬ Overrun marker lines := by
  rintro ⟨p, q, hfirst, hlt⟩
  rw [heldAbove_eq_zero (by simpa using h)] at hlt
  have hp := hfirst.begins.lt_length
  omega

/-! ### Installing the header -/

lemma install?_of_start_le_stop (h : (target marker lines).start ≤ (target marker lines).stop) :
    install? marker lines = some (install marker lines) := by
  have hstop := target_stop_le_length marker lines
  have hsize : (target marker lines).size ≤ lines.length := (Nat.sub_le _ _).trans hstop
  rw [install?, Range.size?, if_pos h, front?, if_pos (h.trans hstop), back?, if_pos hstop]
  simp [guard, hsize, install]

lemma install?_of_stop_lt_start (h : (target marker lines).stop < (target marker lines).start) :
    install? marker lines = none := by
  rw [install?, Range.size?, if_neg (Nat.not_le_of_lt h)]
  rfl

/-- What is to be replaced is a range exactly if nothing overruns the lines. -/
lemma target_start_le_stop_iff :
    (target marker lines).start ≤ (target marker lines).stop ↔ ¬ Overrun marker lines := by
  cases h : locate marker lines with
  | none =>
    rw [target_of_locate_eq_none h]
    exact iff_of_true (Nat.le_refl _) (not_overrun_of_locate_eq_none h)
  | some r =>
    rw [target_of_locate_eq_some h, start_le_stop_iff h, Overrun.iff_of_locate_eq_some h,
      Nat.not_lt]

/-- The range of a header stops within the list, and it starts before it stops unless the place of
the header lies behind the end of the list. In that case alone the header cannot be installed, and
it never arises from texts that are single lines behind their marker. -/
theorem install?_eq_none_iff (marker : List Char) (lines : List Line) :
    (install? marker lines = none ↔ Overrun marker lines) ∧
      (¬ Overrun marker lines → install? marker lines = some (install marker lines)) ∧
      (∀ r, locate marker lines = some r →
        r.stop ≤ lines.length ∧ (r.start ≤ r.stop ↔ ¬ Overrun marker lines)) ∧
      ((∀ l ∈ lines, '\n' ∉ reduceLine marker l) → ¬ Overrun marker lines) := by
  have hsome : ¬ Overrun marker lines → install? marker lines = some (install marker lines) :=
    fun h => install?_of_start_le_stop (target_start_le_stop_iff.mpr h)
  refine ⟨⟨fun hnone => ?_, fun hover => ?_⟩, hsome, fun r hr => ⟨stop_le_length hr, ?_⟩,
    not_overrun_of_newline_notMem⟩
  · by_contra h
    rw [hsome h] at hnone
    exact Option.some_ne_none _ hnone
  · apply install?_of_stop_lt_start
    by_contra h
    exact target_start_le_stop_iff.mp (Nat.le_of_not_lt h) hover
  · rw [← target_start_le_stop_iff, target_of_locate_eq_some hr]

/-- A text of nine lines in one element, and the header in the seven elements below it. -/
def crowdedLines : List Line :=
  "a\nb\nc\nd\ne\nf\ng\nh\ni\n".toList :: bareLines.map (commentLine [])

theorem overrun_crowdedLines :
    locate [] crowdedLines = some ⟨9, 8⟩ ∧ Overrun [] crowdedLines := by
  have hr : locate [] crowdedLines = some ⟨9, 8⟩ := by decide +kernel
  obtain ⟨-, -, hrange, -⟩ := install?_eq_none_iff [] crowdedLines
  refine ⟨hr, by_contra fun h => ?_⟩
  exact absurd ((hrange _ hr).2.mpr h) (by decide)

/-- The header is found behind the end of the list, which the range cannot be cut out of. -/
theorem install?_crowdedLines :
    crowdedLines.length = 8 ∧ locate [] crowdedLines = some ⟨9, 8⟩ ∧
      Range.size? ⟨9, 8⟩ = none ∧ front? 9 crowdedLines = none ∧
      install? [] crowdedLines = none := by
  decide +kernel

end LicenseHeader.Header
