import LicenseHeader.Patch.Hunk
import LicenseHeader.Path.Basic

/-!
# Patches

The text of a change to one file in the unified format: a line with both names, two lines with one
name each, and the hunks. A range of lines is given by the number of its first line, counted from
one, and its length unless that is one; an empty range is given by the line in front of it. A line
without a line end is followed by a note that says so.
-/

namespace LicenseHeader.Patch

open Text

def renderRange (start stop : Nat) : String :=
  match stop - start with
  | 0 => s!"{start},0"
  | 1 => s!"{start + 1}"
  | n => s!"{start + 1},{n}"

/-- The header of the hunk that starts with the block `first` and ends with the block `last`. -/
def renderHunkHeader (first last : Block) : String :=
  s!"@@ -{renderRange first.old.start last.old.stop} +{renderRange first.new.start last.new.stop} @@\n"

/-- What follows a line that has no line end. -/
def missingEndNote : List Char :=
  "\n\\ No newline at end of file\n".toList

/-- A line of a hunk behind its tag. -/
def renderLine (tag : Char) (line : Line) : List Char :=
  let ended := line.getLast?.any fun c => c == '\n' || c == '\r'
  tag :: line ++ (if ended then [] else missingEndNote)

/-- The lines of a block; of a change the old lines come before the new ones. -/
def renderBlock (old new : List Line) (b : Block) : List Char :=
  if b.isKept then (b.old.lines old).flatMap (renderLine ' ')
  else (b.old.lines old).flatMap (renderLine '-') ++ (b.new.lines new).flatMap (renderLine '+')

def renderHunk (old new : List Line) (blocks : List Block) : List Char :=
  match blocks.head?, blocks.getLast? with
  | some first, some last =>
    (renderHunkHeader first last).toList ++ blocks.flatMap (renderBlock old new)
  | _, _ => []

/-- The lines in front of the hunks. -/
def renderNames (path : Path) : String :=
  s!"diff a/{path.text} b/{path.text}\n--- a/{path.text}\n+++ b/{path.text}\n"

/-- The patch that leads from one text to another; empty if they are equal. -/
def render (path : Path) (old new : List Char) : String :=
  if old = new then ""
  else
    let oldLines := compareLines old
    let newLines := compareLines new
    renderNames path ++
      String.ofList ((hunks oldLines newLines).flatMap (renderHunk oldLines newLines))

end LicenseHeader.Patch
