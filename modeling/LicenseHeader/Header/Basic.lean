import LicenseHeader.Text.Basic

/-!
# The header

The license header that every file has to carry, the lines a header occupies in a file, and the
block in which it is written. A comment marker is the text that opens a comment line; the empty
marker stands for files in which the header is written as plain text.
-/

namespace LicenseHeader.Header

open Text

/-- The lines of the header, without marker and terminator. -/
def headerLines : List String :=
  ["SPDX-License-Identifier: MPL-2.0",
    "",
    "This Source Code Form is subject to the terms of the Mozilla Public",
    "License, v. 2.0.  If a copy of the MPL was not distributed with this",
    "file, You can obtain one at http://mozilla.org/MPL/2.0/.",
    "",
    "Copyright 2024 MonetDB Foundation"]

/-- The header as it is laid out on paper: an empty line comes first. -/
def canonicalHeader : String :=
  "\n" ++ "\n".intercalate headerLines ++ "\n"

def bareLines : List (List Char) :=
  headerLines.map String.toList

/-- The header as one text, its lines separated by line feeds. -/
def bareText : List Char :=
  ['\n'].intercalate bareLines

/-- The lines from `start` up to, but without, `stop`. -/
structure Range where
  /-- The index of the first line of the header. -/
  start : Nat
  /-- The index after the last blank line that follows the header. -/
  stop : Nat
deriving DecidableEq, Repr

namespace Range

/-- The index after the last line of header text. -/
def headerEnd (r : Range) : Nat :=
  min (r.start + headerLines.length) r.stop

/-- The number of lines, blank lines included. -/
def size (r : Range) : Nat :=
  r.stop - r.start

/-- The number of lines, unless the range stops before it starts. -/
def size? (r : Range) : Option Nat :=
  if r.start ≤ r.stop then some r.size else none

def isEmpty (r : Range) : Bool :=
  r.start == r.stop

end Range

/-- The place of a header for a reader: lines count from one, and the last one is included. -/
structure Span where
  /-- The number of the first line of the header. -/
  firstLine : Nat
  /-- The number of the last line of header text. -/
  lastLine : Nat
deriving DecidableEq, Repr

/-- The lines of header text in a range. -/
def Range.span (r : Range) : Span where
  firstLine := r.start + 1
  lastLine := r.headerEnd

/-- One line of the header behind a marker. A blank line keeps no space after the marker. -/
def commentLine (marker line : List Char) : Line :=
  let text := if marker.isEmpty then line else marker ++ ' ' :: line
  trimEnd text ++ ['\n']

/-- The header behind a marker, followed by one empty line. -/
def block (marker : List Char) : List Line :=
  bareLines.map (commentLine marker) ++ [['\n']]

@[simp] theorem length_headerLines : headerLines.length = 7 := rfl

@[simp] theorem length_bareLines : bareLines.length = 7 := rfl

@[simp] theorem length_block (marker : List Char) : (block marker).length = 8 := by
  simp [block]

end LicenseHeader.Header
