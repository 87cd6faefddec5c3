import LicenseHeader.Proofs.Patch.Hunk
import LicenseHeader.Proofs.Patch.Reading

/-!
# Reading hunks

A reader that stands behind the same lines of both texts takes a hunk that leads on from there, and
stands behind the lines of the hunk afterwards, if the header is right. If it is not, the reader
gives up: the lines of the hunk do not come to the numbers in the header, or do not stand at the
place.
-/

namespace LicenseHeader.Patch

open Text

variable {old new : List Line} {i j i' j' k n p q : Nat} {b : Block} {bs : List Block}
  {body more : List Line} {r : Reader}

/-! ### The lines of a hunk -/

/-- The lines of a block behind their tags. -/
def blockLines (old new : List Line) (b : Block) : List Line :=
  if b.isKept then (b.old.lines old).map (' ' :: ·)
  else (b.old.lines old).map ('-' :: ·) ++ (b.new.lines new).map ('+' :: ·)

/-- The lines of a hunk, of which the first one is its header. -/
def hunkLines (old new : List Line) (blocks : List Block) : List Line :=
  match blocks.head?, blocks.getLast? with
  | some first, some last =>
    (renderHunkHeader first last).toList :: blocks.flatMap (blockLines old new)
  | _, _ => []

lemma exists_hunkLines (old new : List Line) (hne : bs ≠ []) :
    ∃ header, readHeader header = some (headerExtents bs) ∧ header.head? = some '@' ∧
      hunkLines old new bs = header :: bs.flatMap (blockLines old new) := by
  obtain ⟨first, last, hfirst, hlast⟩ := exists_ends hne
  refine ⟨(renderHunkHeader first last).toList, ?_, ?_, ?_⟩
  · rw [readHeader_renderHunkHeader, headerExtents, hfirst, hlast]
  · simp [renderHunkHeader]
  · rw [hunkLines, hfirst, hlast]

/-! ### Reading the lines of a block -/

/-- A reader behind `i` old and `j` new lines, in a hunk with so many lines left. -/
def Reader.midway (old new : List Line) (i j oldLeft newLeft : Nat) : Reader where
  rest := old.drop i
  passed := i
  written := new.take j
  oldLeft
  newLeft

lemma slice_succ {l : List Line} (h : i < l.length) (n : Nat) :
    slice l i (n + 1) = l[i] :: slice l (i + 1) n := by
  rw [slice, List.drop_eq_getElem_cons h, List.take_succ_cons, slice]

section Step

variable (hi : i < old.length) (hj : j < new.length) (a c : Nat)

include hi hj in
lemma readLine_kept (hline : old[i] = new[j]) :
    (Reader.midway old new i j (a + 1) (c + 1)).readLine (' ' :: old[i]) =
      some (Reader.midway old new (i + 1) (j + 1) a c) := by
  simp [Reader.readLine, Reader.continueHunk, Reader.midway, hi, hline]

include hi in
lemma readLine_deleted :
    (Reader.midway old new i j (a + 1) c).readLine ('-' :: old[i]) =
      some (Reader.midway old new (i + 1) j a c) := by
  simp [Reader.readLine, Reader.continueHunk, Reader.midway, hi]

include hj in
lemma readLine_inserted :
    (Reader.midway old new i j a (c + 1)).readLine ('+' :: new[j]) =
      some (Reader.midway old new i (j + 1) a c) := by
  simp [Reader.readLine, Reader.continueHunk, Reader.midway]

end Step

/-- The reader takes kept lines from the old text, where it finds them. -/
lemma readLines_kept (a c : Nat) (more : List Line) (hlines : slice old i n = slice new j n)
    (hi : i + n ≤ old.length) (hj : j + n ≤ new.length) :
    (Reader.midway old new i j (a + n) (c + n)).readLines ((slice old i n).map (' ' :: ·) ++ more) =
      (Reader.midway old new (i + n) (j + n) a c).readLines more := by
  induction n generalizing i j with
  | zero => simp
  | succ n ih =>
    have hi' : i < old.length := by omega
    have hj' : j < new.length := by omega
    rw [slice_succ hi', slice_succ hj'] at hlines
    obtain ⟨hline, hlines⟩ := List.cons.inj hlines
    have hrest := ih hlines (by omega) (by omega)
    rw [Nat.add_right_comm i, Nat.add_right_comm j] at hrest
    rw [slice_succ hi', List.map_cons, List.cons_append, Reader.readLines, ← Nat.add_assoc,
      ← Nat.add_assoc, readLine_kept hi' hj' _ _ hline, Option.bind_some, hrest, Nat.add_assoc,
      Nat.add_assoc]

/-- The reader finds deleted lines in the old text, and leaves them out. -/
lemma readLines_deleted (a c : Nat) (more : List Line) (hi : i + n ≤ old.length) :
    (Reader.midway old new i j (a + n) c).readLines ((slice old i n).map ('-' :: ·) ++ more) =
      (Reader.midway old new (i + n) j a c).readLines more := by
  induction n generalizing i with
  | zero => simp
  | succ n ih =>
    have hi' : i < old.length := by omega
    have hrest := ih (i := i + 1) (by omega)
    rw [Nat.add_right_comm i] at hrest
    rw [slice_succ hi', List.map_cons, List.cons_append, Reader.readLines, ← Nat.add_assoc,
      readLine_deleted hi', Option.bind_some, hrest, Nat.add_assoc]

/-- The reader takes inserted lines from the patch. -/
lemma readLines_inserted (a c : Nat) (more : List Line) (hj : j + n ≤ new.length) :
    (Reader.midway old new i j a (c + n)).readLines ((slice new j n).map ('+' :: ·) ++ more) =
      (Reader.midway old new i (j + n) a c).readLines more := by
  induction n generalizing j with
  | zero => simp
  | succ n ih =>
    have hj' : j < new.length := by omega
    have hrest := ih (j := j + 1) (by omega)
    rw [Nat.add_right_comm j] at hrest
    rw [slice_succ hj', List.map_cons, List.cons_append, Reader.readLines, ← Nat.add_assoc,
      readLine_inserted hj', Option.bind_some, hrest, Nat.add_assoc]

/-- The reader goes on behind both parts of a block. -/
lemma readLines_block (hb : b.Fits old new i j) (a c : Nat) (more : List Line)
    (hi : i + b.old.size ≤ old.length) (hj : j + b.new.size ≤ new.length) :
    (Reader.midway old new i j (a + b.old.size) (c + b.new.size)).readLines
        (blockLines old new b ++ more) =
      (Reader.midway old new (i + b.old.size) (j + b.new.size) a c).readLines more := by
  rw [blockLines]
  split_ifs with hkept
  · obtain ⟨hsize, hlines⟩ := hb.kept hkept
    rw [← hsize] at hlines hj ⊢
    rw [hb.oldLines_eq]
    exact readLines_kept a c more hlines hi hj
  · rw [hb.oldLines_eq, hb.newLines_eq, List.append_assoc, readLines_deleted _ _ _ hi,
      readLines_inserted _ _ _ hj]

/-- A reader takes the lines of a hunk if so many lines are announced as there are. -/
lemma readLines_chain (h : Chain old new i j bs i' j') (a c : Nat) (more : List Line)
    (hi : i' ≤ old.length) (hj : j' ≤ new.length) :
    (Reader.midway old new i j (a + (i' - i)) (c + (j' - j))).readLines
        (bs.flatMap (blockLines old new) ++ more) =
      (Reader.midway old new i' j' a c).readLines more := by
  induction bs generalizing i j with
  | nil =>
    obtain ⟨rfl, rfl⟩ := h
    simp
  | cons b bs ih =>
    obtain ⟨hfits, hrest⟩ := h
    have hle := Chain.le hrest
    have hsizes : a + (i' - i) = a + (i' - (i + b.old.size)) + b.old.size := by omega
    have hsizes' : c + (j' - j) = c + (j' - (j + b.new.size)) + b.new.size := by omega
    rw [List.flatMap_cons, List.append_assoc, hsizes, hsizes',
      readLines_block hfits _ _ _ (by omega) (by omega), ih hrest]

/-! ### Counting the lines of a hunk -/

/-- Whether a line of a hunk stands in the old text. -/
def isOldLine (l : Line) : Bool :=
  l.head? = some ' ' ∨ l.head? = some '-'

def isNewLine (l : Line) : Bool :=
  l.head? = some ' ' ∨ l.head? = some '+'

/-- A line inside a hunk uses up what the header has announced. -/
lemma left_of_continueHunk {r' : Reader} {l : Line} (h : r.continueHunk l = some r') :
    r.oldLeft = r'.oldLeft + (if isOldLine l then 1 else 0) ∧
      r.newLeft = r'.newLeft + (if isNewLine l then 1 else 0) := by
  revert h
  fun_cases Reader.continueHunk r l
  case case1 line hleft =>
    rintro ⟨⟩
    simp only [isOldLine, isNewLine, List.head?_cons]
    simp
    omega
  case case3 line hleft =>
    rintro ⟨⟩
    simp [isOldLine, isNewLine]
    omega
  case case5 line hleft =>
    rintro ⟨⟩
    simp [isOldLine, isNewLine]
    omega
  all_goals simp

lemma head?_of_readHeader {l : Line} {extents : Extent × Extent} (h : readHeader l = some extents) :
    l.head? = some '@' := by
  obtain ⟨cs, hcs, -⟩ := Option.bind_eq_some_iff.mp h
  cases l with
  | nil => simp [List.isPrefixOf?] at hcs
  | cons c l =>
    have hc : '@' = c := by
      by_contra hne
      simp [List.isPrefixOf?, hne] at hcs
    rw [← hc, List.head?_cons]

lemma head?_of_beginHunk {r' : Reader} {l : Line} (h : r.beginHunk l = some r') :
    l.head? = some '@' := by
  obtain ⟨extents, hheader, -⟩ := Option.bind_eq_some_iff.mp h
  exact head?_of_readHeader hheader

lemma head?_of_continueHunk {r' : Reader} {l : Line} (h : r.continueHunk l = some r') :
    l.head? ≠ some '@' := by
  revert h
  fun_cases Reader.continueHunk r l <;> simp_all

/-- A reader that gets to the end has found as many lines in a hunk as were announced. -/
lemma left_of_readLines (hbody : ∀ l ∈ body, l.head? ≠ some '@')
    (hmore : ∀ l ∈ more.head?, l.head? = some '@') (h : (r.readLines (body ++ more)).isSome) :
    r.oldLeft = body.countP isOldLine ∧ r.newLeft = body.countP isNewLine := by
  induction body generalizing r with
  | nil =>
    by_contra hleft
    have hleft : ¬ (r.oldLeft = 0 ∧ r.newLeft = 0) := hleft
    cases more with
    | nil => simp [Reader.readLines, hleft] at h
    | cons l more =>
      obtain ⟨text, htext⟩ := Option.isSome_iff_exists.mp h
      obtain ⟨r', hr', -⟩ := Option.bind_eq_some_iff.mp htext
      rw [Reader.readLine, if_neg hleft] at hr'
      exact head?_of_continueHunk hr' (hmore l rfl)
  | cons l body ih =>
    obtain ⟨text, htext⟩ := Option.isSome_iff_exists.mp h
    obtain ⟨r', hr', hrest⟩ := Option.bind_eq_some_iff.mp htext
    obtain ⟨hold, hnew⟩ := ih (fun m hm => hbody m (List.mem_cons_of_mem l hm))
      (Option.isSome_iff_exists.mpr ⟨text, hrest⟩)
    rw [Reader.readLine] at hr'
    split_ifs at hr'
    · exact absurd (head?_of_beginHunk hr') (hbody l List.mem_cons_self)
    · obtain ⟨hleft, hleft'⟩ := left_of_continueHunk hr'
      rw [List.countP_cons, List.countP_cons, ← hold, ← hnew]
      exact ⟨hleft, hleft'⟩

lemma head?_blockLines : ∀ l ∈ blockLines old new b, l.head? ≠ some '@' := by
  rw [blockLines]
  split_ifs <;> simp +contextual [or_imp, forall_and]

/-- The tags of a block tell how many of its lines are old and how many are new. -/
lemma countP_blockLines (hb : b.Fits old new i j) (hi : i + b.old.size ≤ old.length)
    (hj : j + b.new.size ≤ new.length) :
    (blockLines old new b).countP isOldLine = b.old.size ∧
      (blockLines old new b).countP isNewLine = b.new.size := by
  have hold := length_slice hi
  have hnew := length_slice hj
  rw [blockLines, hb.oldLines_eq, hb.newLines_eq]
  split_ifs with hkept
  · simp [List.countP_map, isOldLine, isNewLine, Function.comp_def, hold, (hb.kept hkept).1.symm]
  · simp [List.countP_map, isOldLine, isNewLine, Function.comp_def, hold, hnew]

/-- The lines of a hunk are as many as those that it leads over. -/
lemma countP_chain (h : Chain old new i j bs i' j') (hi : i' ≤ old.length) (hj : j' ≤ new.length) :
    (bs.flatMap (blockLines old new)).countP isOldLine = i' - i ∧
      (bs.flatMap (blockLines old new)).countP isNewLine = j' - j := by
  induction bs generalizing i j with
  | nil =>
    obtain ⟨rfl, rfl⟩ := h
    simp
  | cons b bs ih =>
    obtain ⟨hfits, hrest⟩ := h
    have hle := hrest.le
    obtain ⟨hold, hnew⟩ := countP_blockLines hfits (by omega) (by omega)
    obtain ⟨hold', hnew'⟩ := ih hrest
    rw [List.flatMap_cons, List.countP_append, List.countP_append, hold, hnew, hold', hnew']
    omega

/-! ### Reading hunks -/

/-- The first block of a hunk has lines, so one of the ranges in the header starts where it should.
-/
lemma start_headerExtents (h : Chain old new i j bs i' j') (hne : bs ≠ []) :
    (headerExtents bs).1.start = i ∨ (headerExtents bs).2.start = j := by
  obtain ⟨first, last, hfirst, hlast⟩ := exists_ends hne
  obtain ⟨b, bs, rfl⟩ := List.exists_cons_of_ne_nil hne
  obtain rfl : b = first := Option.some.inj hfirst
  have hpos := h.1.nonempty
  simp only [headerExtents, hfirst, hlast]
  rcases Nat.eq_zero_or_pos b.old.size with hzero | hold
  · exact Or.inr (h.1.newStart (by omega))
  · exact Or.inl (h.1.oldStart hold)

lemma beginHunk_eq {header : Line} {d e : Extent} (h : readHeader header = some (d, e)) :
    r.beginHunk header =
      if r.passed ≤ d.start ∧ d.start - r.passed ≤ r.rest.length ∧
          e.start = r.written.length + (d.start - r.passed) then
        some ⟨r.rest.drop (d.start - r.passed), d.start,
          r.written ++ r.rest.take (d.start - r.passed), d.size, e.size⟩
      else none := by
  rw [Reader.beginHunk, h]
  rfl

/-- A hunk begins at the lines where it stands. -/
lemma beginHunk_midway {header : Line} (hlines : slice old i k = slice new j k)
    (hi : i + k ≤ old.length) (hj : j + k ≤ new.length)
    (h : readHeader header = some (⟨i + k, p⟩, ⟨j + k, q⟩)) :
    (Reader.midway old new i j 0 0).beginHunk header =
      some (Reader.midway old new (i + k) (j + k) p q) := by
  have hlength : (new.take j).length = j := List.length_take_of_le (by omega)
  have hwritten : new.take j ++ (old.drop i).take k = new.take (j + k) := by
    rw [← take_append_slice, ← hlines, slice]
  rw [beginHunk_eq h, if_pos]
  · simp [Reader.midway, hwritten]
  · simp only [Reader.midway, List.length_drop, hlength]
    omega

lemma head?_hunks {hs : List (List Block)} {extents : List (Extent × Extent)}
    (h : Hunks old new i j hs extents) :
    ∀ l ∈ (hs.flatMap (hunkLines old new)).head?, l.head? = some '@' := by
  cases h with
  | nil => simp
  | cons _ hne =>
    obtain ⟨header, -, hhead, hlines⟩ := exists_hunkLines old new hne
    simp [hlines, hhead]

/-- A header with which a reader gets through the hunk is right: the lines tell how many there are,
and of the places one is right, from which the other one follows. -/
lemma headerExtents_eq_of_readLines {header : Line} (h : Chain old new (i + k) (j + k) bs i' j')
    (hne : bs ≠ []) (hi : i' ≤ old.length) (hj : j' ≤ new.length)
    (hheader : readHeader header = some (headerExtents bs))
    (hmore : ∀ l ∈ more.head?, l.head? = some '@')
    (hbegin : (Reader.midway old new i j 0 0).beginHunk header = some r)
    (hread : (r.readLines (bs.flatMap (blockLines old new) ++ more)).isSome) :
    headerExtents bs = (⟨i + k, i' - (i + k)⟩, ⟨j + k, j' - (j + k)⟩) := by
  have hle := h.le
  have hbody : ∀ l ∈ bs.flatMap (blockLines old new), l.head? ≠ some '@' := by
    intro l hl
    obtain ⟨b, -, hlb⟩ := List.mem_flatMap.mp hl
    exact head?_blockLines l hlb
  have hleft := left_of_readLines hbody hmore hread
  have hcount := countP_chain h hi hj
  have hstart := start_headerExtents h hne
  generalize headerExtents bs = extents at hheader hstart ⊢
  obtain ⟨⟨a, m⟩, c, n⟩ := extents
  rw [beginHunk_eq hheader, Option.ite_none_right_eq_some] at hbegin
  obtain ⟨⟨hpassed, -, hwritten⟩, hr⟩ := hbegin
  have hlength : (new.take j).length = j := List.length_take_of_le (by omega)
  simp only [Reader.midway, hlength] at hpassed hwritten
  simp only [← Option.some.inj hr, hcount] at hleft
  simp only [Prod.mk.injEq, Extent.mk.injEq] at hstart ⊢
  omega

/-- A reader that stands where the hunks start gets to the new text if the headers are right, and
nowhere if they are not. -/
lemma readLines_hunks {hs : List (List Block)} {extents : List (Extent × Extent)}
    (h : Hunks old new i j hs extents) (hj : j ≤ new.length) :
    (Reader.midway old new i j 0 0).readLines (hs.flatMap (hunkLines old new)) =
      if hs.map headerExtents = extents then some new else none := by
  induction h with
  | nil hend => simp [Reader.readLines, Reader.midway, hend, List.take_append_drop]
  | @cons i j k i' j' blocks hunks extents hgap hne hchain hi' hj' hrest ih =>
    obtain ⟨header, hheader, -, hlines⟩ := exists_hunkLines old new hne
    have hle := hchain.le
    rw [List.flatMap_cons, hlines, List.cons_append, Reader.readLines, Reader.readLine,
      if_pos ⟨rfl, rfl⟩]
    by_cases hright : headerExtents blocks = (⟨i + k, i' - (i + k)⟩, ⟨j + k, j' - (j + k)⟩)
    · have hread := readLines_chain hchain 0 0 (hunks.flatMap (hunkLines old new)) hi' hj'
      rw [Nat.zero_add, Nat.zero_add] at hread
      rw [beginHunk_midway hgap (by omega) (by omega) (hright ▸ hheader), Option.bind_some, hread,
        ih hj']
      simp [hright]
    · rw [List.map_cons, if_neg fun h => hright (List.cons.inj h).1,
        Option.eq_none_iff_forall_ne_some]
      intro text htext
      obtain ⟨r, hr, hread⟩ := Option.bind_eq_some_iff.mp htext
      exact hright (headerExtents_eq_of_readLines hchain hne hi' hj' hheader (head?_hunks hrest) hr
        (Option.isSome_iff_exists.mpr ⟨text, hread⟩))

end LicenseHeader.Patch
