import LicenseHeader.Patch.Compaction
import LicenseHeader.Patch.Script

/-!
# Hunks

Neighbouring edits that keep lines, and neighbouring edits that do not, are joined to blocks. A hunk
is a run of blocks with at most three kept lines around them; a longer run of kept lines ends one
hunk and starts the next.
-/

namespace LicenseHeader.Patch

open Text

/-- A part of a sequence of lines. -/
structure Extent where
  /-- The number of lines in front. -/
  start : Nat
  size : Nat
deriving DecidableEq, Repr

def Extent.lines (e : Extent) (all : List Line) : List Line :=
  slice all e.start e.size

/-- The number of lines in front and inside. -/
def Extent.stop (e : Extent) : Nat :=
  e.start + e.size

/-- A part of the old and the part of the new sequence that takes its place. -/
structure Block where
  /-- Whether the lines are the same in both. -/
  isKept : Bool
  old : Extent
  new : Extent
deriving DecidableEq, Repr

namespace Block

def ofEdit (e : Edit) : Block where
  isKept := e.kind = .keep
  old := ⟨e.oldStart, e.oldSize⟩
  new := ⟨e.newStart, e.newSize⟩

/-- The extent of two neighbouring parts; it starts where the first one with lines starts. -/
def joinExtents (a b : Extent) : Extent :=
  if a.size = 0 ∧ b.size ≠ 0 then b else ⟨a.start, a.size + b.size⟩

/-- The block of two neighbouring blocks. -/
def join (a b : Block) : Block where
  isKept := a.isKept
  old := joinExtents a.old b.old
  new := joinExtents a.new b.new

def ofScript : List Edit → List Block
  | [] => []
  | e :: es => go (ofEdit e) es
where
  /-- The blocks of what follows a block that may still grow. -/
  go (block : Block) : List Edit → List Block
    | [] => [block]
    | e :: es =>
      if (ofEdit e).isKept = block.isKept then go (block.join (ofEdit e)) es
      else block :: go (ofEdit e) es

/-- The last `n` of the kept lines of a block. -/
def lastLines (n : Nat) (b : Block) : Block :=
  let k := b.old.size - n
  { b with old := ⟨b.old.start + k, b.old.size - k⟩, new := ⟨b.new.start + k, b.new.size - k⟩ }

/-- The first `n` of the kept lines of a block. -/
def firstLines (n : Nat) (b : Block) : Block :=
  { b with old := ⟨b.old.start, min n b.old.size⟩, new := ⟨b.new.start, min n b.new.size⟩ }

end Block

/-- The number of kept lines around the changes of a hunk. -/
def contextSize : Nat := 3

/-- Cuts the kept lines at the start of a list of blocks. -/
def trimFirst : List Block → List Block
  | b :: bs => (if b.isKept then b.lastLines contextSize else b) :: bs
  | [] => []

/-- Cuts the kept lines at the end of a list of blocks. -/
def trimLast : List Block → List Block
  | [] => []
  | [b] => [if b.isKept then b.firstLines contextSize else b]
  | b :: bs => b :: trimLast bs

/-- The blocks in groups: a long block of kept lines ends the current group, whose blocks so far are
`group`, last one first, and starts the next. -/
def groupBlocks (group : List Block) : List Block → List (List Block)
  | [] => if group.all Block.isKept && group.length ≤ 1 then [] else [group.reverse]
  | b :: bs =>
    if b.isKept && decide (2 * contextSize < b.old.size) then
      (b.firstLines contextSize :: group).reverse :: groupBlocks [b.lastLines contextSize] bs
    else groupBlocks (b :: group) bs

/-- The hunks of the change from `old` to `new`. -/
def hunks (old new : List Line) : List (List Block) :=
  groupBlocks [] (trimLast (trimFirst (Block.ofScript (compact old new (script 0 0 old new)))))

end LicenseHeader.Patch
