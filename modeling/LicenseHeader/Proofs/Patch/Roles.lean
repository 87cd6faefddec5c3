import LicenseHeader.Proofs.Patch.Correctness

/-!
# What the lines of a patch are for

A line of a patch names the files, is the header of a hunk, keeps, deletes or inserts a line, or
notes that the line above has no line feed. Which of these it does comes from its place in the
change and not from what is written on it. How it opens depends on what it does, but lines that do
different things may open alike.
-/

namespace LicenseHeader.Patch

open Text

variable {path : Path}

/-- What a line of a patch does. -/
inductive Role where
  /-- It names the files. -/
  | name
  /-- It is the header of a hunk. -/
  | header
  | kept
  | deleted
  | inserted
  /-- It notes that the line above has no line feed. -/
  | missingEnd
deriving DecidableEq, Repr

def Role.opening : Role → List Char
  | name => []
  | header => "@@".toList
  | kept => [' ']
  | deleted => ['-']
  | inserted => ['+']
  | missingEnd => ['\\']

/-- A line of a patch and what it does. -/
structure PlacedLine where
  role : Role
  line : Line
deriving DecidableEq, Repr

variable {x : PlacedLine}

/-! ### Lines with their roles -/

def blockRoles (old new : List Line) (b : Block) : List PlacedLine :=
  if b.isKept then (b.old.lines old).map fun l => ⟨.kept, ' ' :: l⟩
  else (b.old.lines old).map (fun l => ⟨.deleted, '-' :: l⟩) ++
    (b.new.lines new).map fun l => ⟨.inserted, '+' :: l⟩

def hunkRoles (old new : List Line) (blocks : List Block) : List PlacedLine :=
  match blocks.head?, blocks.getLast? with
  | some first, some last =>
    ⟨.header, (renderHunkHeader first last).toList⟩ :: blocks.flatMap (blockRoles old new)
  | _, _ => []

/-- A line as it is written: behind one without a line feed there is a note. -/
def writtenRoles (x : PlacedLine) : List PlacedLine :=
  if x.line.getLast? = some '\n' then [x] else [⟨x.role, x.line ++ ['\n']⟩, ⟨.missingEnd, note⟩]

/-- The lines behind the names in the patch from `old` to `new`. -/
def changeRoles (old new : List Line) : List PlacedLine :=
  ((hunks old new).flatMap (hunkRoles old new)).flatMap writtenRoles

/-- The lines of the patch from `old` to `new`. -/
def patchRoles (path : Path) (old new : List Char) : List PlacedLine :=
  (nameLines path).map (⟨.name, ·⟩) ++ changeRoles (splitLines old) (splitLines new)

/-! ### The lines are those of the patch -/

section Lines

variable (old new : List Line)

lemma map_line_blockRoles (b : Block) :
    (blockRoles old new b).map PlacedLine.line = blockLines old new b := by
  rw [blockRoles, blockLines]
  split_ifs <;> simp [Function.comp_def]

lemma map_line_hunkRoles (blocks : List Block) :
    (hunkRoles old new blocks).map PlacedLine.line = hunkLines old new blocks := by
  by_cases hne : blocks = []
  · simp [hne, hunkRoles, hunkLines]
  · obtain ⟨first, last, hfirst, hlast⟩ := exists_ends hne
    simp only [hunkRoles, hunkLines, hfirst, hlast, List.map_cons, List.map_flatMap,
      map_line_blockRoles]

lemma map_line_writtenRoles (x : PlacedLine) :
    (writtenRoles x).map PlacedLine.line = writtenLine x.line := by
  rw [writtenRoles, writtenLine]
  split_ifs <;> rfl

/-- Without their roles, the lines are those that are printed. -/
lemma map_line_changeRoles :
    (changeRoles old new).map PlacedLine.line =
      ((hunks old new).flatMap (hunkLines old new)).flatMap writtenLine := by
  rw [changeRoles, List.map_flatMap]
  simp only [map_line_writtenRoles]
  rw [← List.flatMap_map, List.map_flatMap]
  simp only [map_line_hunkRoles]

end Lines

/-- Whoever splits a patch gets these lines. -/
lemma map_line_patchRoles {old new : List Char} (hpath : '\n' ∉ path.text.toList)
    (hne : old ≠ new) (hold : ReturnsFed old) (hnew : ReturnsFed new) :
    (patchRoles path old new).map PlacedLine.line = splitLines (render path old new).toList := by
  rw [splitLines_render hpath hne hold hnew, patchRoles, List.map_append, map_line_changeRoles,
    List.map_map]
  simp [Function.comp_def]

/-! ### How lines open -/

/-- A line that does not name the files, and that opens as its role wants it. -/
def OpensByRole (x : PlacedLine) : Prop :=
  x.role ≠ .name ∧ x.role.opening <+: x.line

lemma opensByRole_of_mem_blockRoles {old new : List Line} {b : Block}
    (h : x ∈ blockRoles old new b) : OpensByRole x := by
  rw [blockRoles] at h
  split_ifs at h
  · obtain ⟨l, -, rfl⟩ := List.mem_map.mp h
    exact ⟨by simp, by simp [Role.opening]⟩
  · rcases List.mem_append.mp h with h | h
    · obtain ⟨l, -, rfl⟩ := List.mem_map.mp h
      exact ⟨by simp, by simp [Role.opening]⟩
    · obtain ⟨l, -, rfl⟩ := List.mem_map.mp h
      exact ⟨by simp, by simp [Role.opening]⟩

lemma opensByRole_of_mem_hunkRoles {old new : List Line} {blocks : List Block}
    (h : x ∈ hunkRoles old new blocks) : OpensByRole x := by
  rw [hunkRoles] at h
  split at h
  · rcases List.mem_cons.mp h with rfl | h
    · exact ⟨by simp, by simp [Role.opening, renderHunkHeader]⟩
    · obtain ⟨b, -, hb⟩ := List.mem_flatMap.mp h
      exact opensByRole_of_mem_blockRoles hb
  · simp at h

/-- A line and the note behind it open as their roles want it. -/
lemma OpensByRole.written {y : PlacedLine} (h : OpensByRole x) (hy : y ∈ writtenRoles x) :
    OpensByRole y := by
  rw [writtenRoles] at hy
  split_ifs at hy
  · rwa [List.mem_singleton.mp hy]
  · rcases List.mem_cons.mp hy with rfl | hy
    · exact ⟨h.1, h.2.trans (List.prefix_append _ _)⟩
    · rw [List.mem_singleton.mp hy]
      exact ⟨by simp, by decide⟩

/-- Behind the names every line opens as its role wants it. -/
lemma opensByRole_of_mem_changeRoles {old new : List Line} (h : x ∈ changeRoles old new) :
    OpensByRole x := by
  obtain ⟨y, hy, hx⟩ := List.mem_flatMap.mp h
  obtain ⟨blocks, -, hblocks⟩ := List.mem_flatMap.mp hy
  exact (opensByRole_of_mem_hunkRoles hblocks).written hx

/-- Just the first three lines name the files. -/
lemma role_eq_name_iff {old new : List Char} {i : Nat} (h : (patchRoles path old new)[i]? = some x) :
    x.role = .name ↔ i < 3 := by
  have hlength : ((nameLines path).map fun l => (⟨.name, l⟩ : PlacedLine)).length = 3 := rfl
  rw [patchRoles] at h
  by_cases hi : i < 3
  · rw [List.getElem?_append_left (by rwa [hlength])] at h
    obtain ⟨l, -, rfl⟩ := List.mem_map.mp (List.mem_of_getElem? h)
    simp [hi]
  · rw [List.getElem?_append_right (by omega)] at h
    simp [hi, (opensByRole_of_mem_changeRoles (List.mem_of_getElem? h)).1]

end LicenseHeader.Patch
