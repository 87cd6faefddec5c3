import LicenseHeader.Header.Installation
import LicenseHeader.Proofs.Text.Search
import LicenseHeader.Proofs.Text.Splitting

/-!
# Where the header stands

The header is looked for in one long text, and the line in which it begins is counted afterwards.
Here its place is described line by line (`HeaderAt`), and the search is shown to find the first
such place, together with the longest run of blank lines below it (`BlankRun`).
-/

namespace LicenseHeader.Header

open Text

variable {marker : List Char} {lines : List Line}

/-- Line `k` of the header, without marker and terminator. -/
def bareLine (k : Nat) : List Char :=
  bareLines.getD k []

/-- What line `i` says behind its marker. -/
def commentAt (marker : List Char) (lines : List Line) (i : Nat) : List Char :=
  reduceLine marker (lines.getD i [])

/-- The header stands in the seven lines from `j` on. Its first line may follow other text, and
other text may follow its last line. -/
structure HeaderAt (marker : List Char) (lines : List Line) (j : Nat) : Prop where
  fits : j + 7 ≤ lines.length
  first : bareLine 0 <:+ commentAt marker lines j
  inner : ∀ k, 1 ≤ k → k ≤ 5 → commentAt marker lines (j + k) = bareLine k
  last : bareLine 6 <+: commentAt marker lines (j + 6)

/-- The lines from `i` up to, but without, `j` are the longest run of blank lines from `i` on. -/
structure BlankRun (lines : List Line) (i j : Nat) : Prop where
  le : i ≤ j
  le_length : j ≤ lines.length
  blank : ∀ n, i ≤ n → n < j → ∀ l ∈ lines[n]?, trim l = []
  /-- The run is ended by a line that is not blank or by the end of the file. -/
  stops : ∀ l ∈ lines[j]?, trim l ≠ []

/-! ### Runs of blank lines -/

/-- The leading blank lines are the longest run of blank lines. -/
lemma blankRun_leadingBlanks {i : Nat} (hi : i ≤ lines.length) :
    BlankRun lines i (i + leadingBlanks (lines.drop i)) := by
  have hle : leadingBlanks (lines.drop i) ≤ lines.length - i := by
    rw [← List.length_drop]
    exact (List.takeWhile_prefix allBlank).length_le
  have hget : ∀ m, lines[i + m]? =
      ((lines.drop i).takeWhile allBlank ++ (lines.drop i).dropWhile allBlank)[m]? := by
    intro m
    rw [List.takeWhile_append_dropWhile, List.getElem?_drop]
  refine ⟨Nat.le_add_right i _, by omega, fun n hn hlt l hl => ?_, fun l hl => ?_⟩
  · obtain ⟨m, rfl⟩ := Nat.exists_eq_add_of_le hn
    rw [hget, List.getElem?_append_left (Nat.lt_of_add_lt_add_left hlt)] at hl
    exact allBlank_iff.mp (List.mem_takeWhile_imp (List.mem_of_getElem? hl))
  · rw [hget, leadingBlanks, List.getElem?_append_right (Nat.le_refl _), Nat.sub_self,
      ← List.head?_eq_getElem?] at hl
    have hnot := List.head?_dropWhile_not allBlank (lines.drop i)
    rw [hl] at hnot
    exact fun h => by simp [allBlank_iff.mpr h] at hnot

/-- The longest run of blank lines is the only one. -/
lemma BlankRun.le_of_blankRun {i j k : Nat} (hj : BlankRun lines i j) (hk : BlankRun lines i k) :
    k ≤ j := by
  by_contra hlt
  have hlen : j < lines.length := by
    have := hk.le_length
    omega
  have hget : lines[j]? = some lines[j] := List.getElem?_eq_getElem hlen
  exact hj.stops _ hget (hk.blank j hj.le (by omega) _ hget)

lemma BlankRun.unique {i j k : Nat} (hj : BlankRun lines i j) (hk : BlankRun lines i k) : j = k :=
  Nat.le_antisymm (hk.le_of_blankRun hj) (hj.le_of_blankRun hk)

/-! ### The lines of the header -/

lemma bareText_eq :
    bareText = ['\n'].intercalate
      (bareLine 0 :: ((List.range' 1 5).map bareLine ++ [bareLine 6])) := by
  simp only [bareText, bareLine, bareLines, headerLines, List.map_cons, List.map_nil,
    List.getD_cons_zero, List.getD_cons_succ, List.range', List.cons_append, List.nil_append]

/-- Outside of the header `bareLine` is empty. -/
lemma bareLine_induction {P : List Char → Prop} (empty : P []) (line : ∀ l ∈ bareLines, P l)
    (k : Nat) : P (bareLine k) := by
  rw [bareLine, List.getD_eq_getElem?_getD]
  cases h : bareLines[k]? with
  | none => exact empty
  | some l => exact line l (List.mem_of_getElem? h)

/-- A line of the header is no more than one line and has no white space at its ends. -/
lemma bareLine_tidy (k : Nat) :
    '\n' ∉ bareLine k ∧ trim (bareLine k) = bareLine k ∧ trimEnd (bareLine k) = bareLine k :=
  bareLine_induction (P := fun l => '\n' ∉ l ∧ trim l = l ∧ trimEnd l = l) (by decide)
    (by decide +kernel) k

lemma newline_notMem_bareLine (k : Nat) : '\n' ∉ bareLine k :=
  (bareLine_tidy k).1

lemma newline_notMem_inner : ∀ r ∈ (List.range' 1 5).map bareLine, '\n' ∉ r := by
  intro r hr
  obtain ⟨k, -, rfl⟩ := List.mem_map.mp hr
  exact newline_notMem_bareLine k

/-- In a proper line the text behind the marker has no line feed. -/
lemma newline_notMem_reduceLine {l : Line} (hl : IsLine l) : '\n' ∉ reduceLine marker l := by
  rw [reduceLine]
  split_ifs
  · exact (hl.suffix (List.drop_suffix _ _)).newline_notMem_trim
  · simp

lemma drop_map_reduceLine {i : Nat} (hi : i < lines.length) :
    (lines.map (reduceLine marker)).drop i =
      commentAt marker lines i :: (lines.map (reduceLine marker)).drop (i + 1) := by
  rw [List.drop_eq_getElem_cons (by simpa using hi)]
  simp [commentAt, hi]

lemma drop_map_reduceLine_of_fits {j : Nat} (h : j + 7 ≤ lines.length) :
    (lines.map (reduceLine marker)).drop j =
      commentAt marker lines j ::
        ((List.range' 1 5).map (fun k => commentAt marker lines (j + k)) ++
          commentAt marker lines (j + 6) :: (lines.map (reduceLine marker)).drop (j + 7)) := by
  rw [drop_map_reduceLine (by omega), drop_map_reduceLine (by omega),
    drop_map_reduceLine (by omega), drop_map_reduceLine (by omega),
    drop_map_reduceLine (by omega), drop_map_reduceLine (by omega),
    drop_map_reduceLine (by omega)]
  rfl

/-- The header stands where its text occurs in the reduced lines. -/
lemma headerAt_iff_occursAt {j : Nat} :
    HeaderAt marker lines j ↔
      OccursAt (bareLine 0) ((List.range' 1 5).map bareLine) (bareLine 6)
        (lines.map (reduceLine marker)) j := by
  constructor
  · intro h
    rw [OccursAt, drop_map_reduceLine_of_fits h.fits]
    refine ⟨_, _, _, congrArg _ (congrArg (· ++ _) ?_), h.first, h.last⟩
    apply List.map_congr_left
    intro k hk
    rw [List.mem_range'_1] at hk
    exact h.inner k hk.1 (by omega)
  · intro h
    have hfits : j + 7 ≤ lines.length := by simpa using h.fits
    rw [OccursAt, drop_map_reduceLine_of_fits hfits] at h
    obtain ⟨r, r', rest, heq, hfirst, hlast⟩ := h
    obtain ⟨rfl, htail⟩ := List.cons.inj heq
    obtain ⟨hinner, hrest⟩ := List.append_inj htail (by simp only [List.length_map])
    obtain ⟨rfl, -⟩ := List.cons.inj hrest
    refine ⟨hfits, hfirst, fun k h1 h5 => ?_, hlast⟩
    exact List.map_inj_left.mp hinner k (List.mem_range'_1.mpr ⟨h1, by omega⟩)

/-! ### The place that is found -/

lemma newline_notMem_of_mem_map_reduceLine (hl : ∀ l ∈ lines, IsLine l) :
    ∀ r ∈ lines.map (reduceLine marker), '\n' ∉ r := by
  intro r hr
  obtain ⟨l, hmem, rfl⟩ := List.mem_map.mp hr
  exact newline_notMem_reduceLine (hl l hmem)

/-- What the search does not find is not there. -/
lemma not_headerAt_of_locate_eq_none (hl : ∀ l ∈ lines, IsLine l)
    (h : locate marker lines = none) (j : Nat) : ¬ HeaderAt marker lines j := by
  rw [locate, Option.map_eq_none_iff, bareText_eq, reducedText] at h
  rw [headerAt_iff_occursAt]
  exact not_occursAt_of_firstOccurrence? (newline_notMem_bareLine 0) newline_notMem_inner
    (newline_notMem_bareLine 6) (newline_notMem_of_mem_map_reduceLine hl) h j

/-- The search finds the first header that there is. -/
lemma isLeast_start (hl : ∀ l ∈ lines, IsLine l) {r : Range} (h : locate marker lines = some r) :
    IsLeast {j | HeaderAt marker lines j} r.start := by
  rw [locate, Option.map_eq_some_iff, bareText_eq] at h
  obtain ⟨before, hbefore, rfl⟩ := h
  simp only [headerAt_iff_occursAt]
  exact isLeast_count_of_firstOccurrence? (newline_notMem_bareLine 0) newline_notMem_inner
    (newline_notMem_bareLine 6) (newline_notMem_of_mem_map_reduceLine hl) hbefore

lemma blankRun_stop {r : Range} (h : locate marker lines = some r)
    (hfits : r.start + 7 ≤ lines.length) : BlankRun lines (r.start + 7) r.stop := by
  rw [locate, Option.map_eq_some_iff] at h
  obtain ⟨before, -, rfl⟩ := h
  simp only [length_headerLines, Nat.min_eq_left hfits]
  exact blankRun_leadingBlanks hfits

/-- The header is found at the first place where it stands, and the range ends with the blank
lines below it. -/
lemma locate_eq_some_iff (hl : ∀ l ∈ lines, IsLine l) {r : Range} :
    locate marker lines = some r ↔
      IsLeast {j | HeaderAt marker lines j} r.start ∧ BlankRun lines (r.start + 7) r.stop := by
  refine ⟨fun h => ?_, fun ⟨hstart, hstop⟩ => ?_⟩
  · have hstart := isLeast_start hl h
    exact ⟨hstart, blankRun_stop h hstart.1.fits⟩
  · cases h : locate marker lines with
    | none => exact absurd hstart.1 (not_headerAt_of_locate_eq_none hl h r.start)
    | some r' =>
      have hstart' := isLeast_start hl h
      have hstop' := blankRun_stop h hstart'.1.fits
      rw [← hstart.unique hstart'] at hstop'
      rw [Option.some.injEq, Range.mk.injEq]
      exact ⟨hstart'.unique hstart, hstop'.unique hstop⟩

lemma locate_eq_none_iff (hl : ∀ l ∈ lines, IsLine l) :
    locate marker lines = none ↔ ∀ j, ¬ HeaderAt marker lines j := by
  refine ⟨not_headerAt_of_locate_eq_none hl, fun h => ?_⟩
  cases hr : locate marker lines with
  | none => rfl
  | some r => exact absurd (isLeast_start hl hr).1 (h r.start)

/-- The header is found just when it stands somewhere. Its range begins at the first such place,
has seven lines of header text, and ends with the longest run of blank lines below them. -/
theorem locate_eq_first_headerAt (marker : List Char) (lines : List Line)
    (hl : ∀ l ∈ lines, IsLine l) :
    ((∃ r, locate marker lines = some r) ↔ ∃ j, HeaderAt marker lines j) ∧
      ∀ r, locate marker lines = some r →
        IsLeast {j | HeaderAt marker lines j} r.start ∧
          BlankRun lines (r.start + 7) r.stop ∧ r.headerEnd = r.start + 7 := by
  refine ⟨⟨?_, ?_⟩, fun r hr => ?_⟩
  · rintro ⟨r, hr⟩
    exact ⟨r.start, ((locate_eq_some_iff hl).mp hr).1.1⟩
  · rintro ⟨j, hj⟩
    apply Option.ne_none_iff_exists'.mp
    exact fun hnone => (locate_eq_none_iff hl).mp hnone j hj
  · obtain ⟨hstart, hstop⟩ := (locate_eq_some_iff hl).mp hr
    exact ⟨hstart, hstop, Nat.min_eq_left hstop.le⟩

/-- A script with the header below its first line, two blank lines and a command. -/
def script : List Line :=
  "#!/bin/sh\n".toList :: (block ['#'] ++ [['\t', '\n'], "echo\n".toList])

theorem locate_script :
    (∀ l ∈ script, IsLine l) ∧ locate ['#'] script = some ⟨1, 10⟩ ∧
      IsLeast {j | HeaderAt ['#'] script j} 1 ∧ BlankRun script 8 10 := by
  obtain ⟨hl, hr⟩ : (∀ l ∈ script, IsLine l) ∧ locate ['#'] script = some ⟨1, 10⟩ := by
    decide +kernel
  obtain ⟨hstart, hstop, -⟩ := (locate_eq_first_headerAt ['#'] script hl).2 _ hr
  exact ⟨hl, hr, hstart, hstop⟩

end LicenseHeader.Header
