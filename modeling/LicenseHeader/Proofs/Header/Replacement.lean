import LicenseHeader.Proofs.Header.Installation

/-!
# What a replaced header takes with it

The lines in which a header is found make room for the new one. They hold nothing but the header
and blank lines just when no other text stands before its first line or behind its last one, and the
places of its two empty lines are taken by comments or by blank lines. The search asks for none of
this, so that a rewrite may remove other text of a file.
-/

namespace LicenseHeader.Header

open Text

variable {marker text : List Char} {lines : List Line}

/-- The line says line `k` of the header and nothing else. Where the header has an empty line, it is
blank or holds the marker alone. -/
def SaysBareLine (marker : List Char) (k : Nat) (l : Line) : Prop :=
  if bareLine k = [] then trim l = [] ∨ trim l = trim marker
  else ∃ rest, l = marker ++ rest ∧ trim rest = bareLine k

/-- The lines of the range are the header and blank lines. -/
structure OnlyHeader (marker : List Char) (lines : List Line) (r : Range) : Prop where
  header : ∀ k < 7, ∀ l ∈ lines[r.start + k]?, SaysBareLine marker k l
  blank : ∀ n, r.start + 7 ≤ n → n < r.stop → ∀ l ∈ lines[n]?, trim l = []

/-! ### Lines and their reductions -/

lemma commentAt_of_mem {i : Nat} {l : Line} (h : l ∈ lines[i]?) :
    commentAt marker lines i = reduceLine marker l := by
  rw [commentAt, List.getD_eq_getElem?_getD, Option.mem_def.mp h, Option.getD_some]

/-- A line says something behind its marker exactly if it is the marker with that text around
spaces. -/
lemma reduceLine_eq_iff {said : List Char} (hne : said ≠ []) {l : Line} :
    reduceLine marker l = said ↔ ∃ rest, l = marker ++ rest ∧ trim rest = said := by
  constructor
  · intro h
    rw [reduceLine] at h
    split_ifs at h with hp
    · obtain ⟨rest, rfl⟩ := List.isPrefixOf_iff_prefix.mp hp
      rw [List.drop_left] at h
      exact ⟨rest, rfl, h⟩
    · exact absurd h.symm hne
  · rintro ⟨rest, rfl, h⟩
    rw [reduceLine_append, h]

/-- A comment that says nothing is its marker and white space. -/
lemma trim_eq_of_reduceLine_eq_nil {l : Line} (hp : marker <+: l) (h : reduceLine marker l = []) :
    trim l = trim marker := by
  obtain ⟨rest, rfl⟩ := hp
  rw [reduceLine_append, trim_eq_nil_iff] at h
  exact trim_append_of_blank h marker

lemma bareLine_eq_nil_iff {k : Nat} (hk : k < 7) : bareLine k = [] ↔ k = 1 ∨ k = 5 := by
  have hall : ∀ k < 7, bareLine k = [] ↔ k = 1 ∨ k = 5 := by decide +kernel
  exact hall k hk

lemma bareLine_ne_nil {k : Nat} (hk : k < 7) (h1 : k ≠ 1) (h5 : k ≠ 5) : bareLine k ≠ [] :=
  fun h => ((bareLine_eq_nil_iff hk).mp h).elim h1 h5

lemma saysBareLine_iff {k : Nat} {l : Line} (hne : bareLine k ≠ []) :
    SaysBareLine marker k l ↔ reduceLine marker l = bareLine k := by
  rw [SaysBareLine, if_neg hne, reduceLine_eq_iff hne]

lemma saysBareLine_of_comment {k : Nat} {l : Line} (hp : marker <+: l)
    (h : reduceLine marker l = bareLine k) : SaysBareLine marker k l := by
  by_cases hk : bareLine k = []
  · rw [SaysBareLine, if_pos hk]
    exact Or.inr (trim_eq_of_reduceLine_eq_nil hp (h.trans hk))
  · exact (saysBareLine_iff hk).mpr h

/-! ### The lines of a header that is found -/

lemma HeaderAt.exists_getElem? {j k : Nat} (h : HeaderAt marker lines j) (hk : k < 7) :
    ∃ l, lines[j + k]? = some l := by
  have hlt : j + k < lines.length := by
    have := h.fits
    omega
  exact ⟨lines[j + k], List.getElem?_eq_getElem hlt⟩

/-- Only the first and the last line of a header may say more than the header. -/
lemma HeaderAt.commentAt_eq {j : Nat} (h : HeaderAt marker lines j)
    (hfirst : commentAt marker lines j = bareLine 0)
    (hlast : commentAt marker lines (j + 6) = bareLine 6) {k : Nat} (hk : k < 7) :
    commentAt marker lines (j + k) = bareLine k := by
  rcases Nat.eq_zero_or_pos k with rfl | h1
  · exact hfirst
  · rcases Nat.lt_or_ge 5 k with h6 | h5
    · rwa [show k = 6 by omega]
    · exact h.inner k h1 h5

lemma OnlyHeader.commentAt_eq {r : Range} (h : OnlyHeader marker lines r)
    (hat : HeaderAt marker lines r.start) {k : Nat} (hk : k < 7) (hne : bareLine k ≠ []) :
    commentAt marker lines (r.start + k) = bareLine k := by
  obtain ⟨l, hl⟩ := hat.exists_getElem? hk
  rw [commentAt_of_mem hl]
  exact (saysBareLine_iff hne).mp (h.header k hk l hl)

lemma OnlyHeader.blank_of_bareLine_eq_nil {r : Range} (h : OnlyHeader marker lines r) {k : Nat}
    (hk : k < 7) (hnil : bareLine k = []) {l : Line} (hl : l ∈ lines[r.start + k]?) :
    trim l = [] ∨ trim l = trim marker := by
  have hsaid := h.header k hk l hl
  rwa [SaysBareLine, if_pos hnil] at hsaid

/-- The lines of the header that is found are those that a rewrite removes. They are all header text
or blank just when nothing stands before the first line or behind the last one, and each of the two
empty lines is a comment or blank. -/
theorem onlyHeader_removed_iff (marker text : List Char) (r : Range)
    (hr : locate marker (splitLines text) = some r) :
    install marker (splitLines text) =
        (splitLines text).take r.start ++ block marker ++ (splitLines text).drop r.stop ∧
      (OnlyHeader marker (splitLines text) r ↔
        commentAt marker (splitLines text) r.start = bareLine 0 ∧
          commentAt marker (splitLines text) (r.start + 6) = bareLine 6 ∧
          ∀ k, k = 1 ∨ k = 5 → ∀ l ∈ (splitLines text)[r.start + k]?,
            marker <+: l ∨ trim l = [] ∨ trim l = trim marker) := by
  refine ⟨by rw [install, target_of_locate_eq_some hr], ?_⟩
  obtain ⟨⟨hat, -⟩, hrun⟩ := (locate_eq_some_iff (canonical_splitLines text).isLine).mp hr
  constructor
  · intro h
    have h0 : bareLine 0 ≠ [] := bareLine_ne_nil (by decide) (by decide) (by decide)
    have h6 : bareLine 6 ≠ [] := bareLine_ne_nil (by decide) (by decide) (by decide)
    refine ⟨h.commentAt_eq hat (by decide) h0, h.commentAt_eq hat (by decide) h6, ?_⟩
    intro k hk l hl
    have hk7 : k < 7 := by omega
    exact Or.inr (h.blank_of_bareLine_eq_nil hk7 ((bareLine_eq_nil_iff hk7).mpr hk) hl)
  · rintro ⟨hfirst, hlast, hempty⟩
    refine ⟨fun k hk l hl => ?_, hrun.blank⟩
    have hsaid : reduceLine marker l = bareLine k :=
      (commentAt_of_mem hl).symm.trans (hat.commentAt_eq hfirst hlast hk)
    by_cases hnil : bareLine k = []
    · rcases hempty k ((bareLine_eq_nil_iff hk).mp hnil) l hl with hp | hblank
      · exact saysBareLine_of_comment hp hsaid
      · rwa [SaysBareLine, if_pos hnil]
    · exact (saysBareLine_iff hnil).mpr hsaid

theorem onlyHeader_script :
    locate ['#'] (splitLines (joinLines script)) = some ⟨1, 10⟩ ∧
      OnlyHeader ['#'] (splitLines (joinLines script)) ⟨1, 10⟩ := by
  obtain ⟨hr, hfirst, hlast, h1, h5⟩ :
      locate ['#'] (splitLines (joinLines script)) = some ⟨1, 10⟩ ∧
        commentAt ['#'] (splitLines (joinLines script)) 1 = bareLine 0 ∧
        commentAt ['#'] (splitLines (joinLines script)) (1 + 6) = bareLine 6 ∧
        (splitLines (joinLines script))[1 + 1]? = some ['#', '\n'] ∧
        (splitLines (joinLines script))[1 + 5]? = some ['#', '\n'] := by decide +kernel
  refine ⟨hr, (onlyHeader_removed_iff ['#'] (joinLines script) _ hr).2.mpr
    ⟨hfirst, hlast, ?_⟩⟩
  rintro k (rfl | rfl) l hl
  · rw [h1] at hl
    exact Or.inl (Option.some.inj hl ▸ by decide)
  · rw [h5] at hl
    exact Or.inl (Option.some.inj hl ▸ by decide)

/-- A script whose lines all belong to a header as it is searched for: its first line ends with the
first line of the header, a command stands where the header has an empty line, and its last line
begins with the last line of the header. -/
def entangledScript : List Line :=
  ["#!/bin/sh ".toList ++ bareLine 0 ++ ['\n'], "exit 1\n".toList] ++
    [2, 3, 4, 5].map (fun k => commentLine ['#'] (bareLine k)) ++
    ["# ".toList ++ bareLine 6 ++ " and others\n".toList]

/-- Nothing is left of the script when the header is installed. -/
theorem install_entangledScript :
    locate ['#'] (splitLines (joinLines entangledScript)) = some ⟨0, 7⟩ ∧
      install ['#'] (splitLines (joinLines entangledScript)) = block ['#'] ∧
      ¬ OnlyHeader ['#'] (splitLines (joinLines entangledScript)) ⟨0, 7⟩ := by
  obtain ⟨hr, hinstall, hmem, hblank⟩ :
      locate ['#'] (splitLines (joinLines entangledScript)) = some ⟨0, 7⟩ ∧
        install ['#'] (splitLines (joinLines entangledScript)) = block ['#'] ∧
        (splitLines (joinLines entangledScript))[0 + 1]? = some "exit 1\n".toList ∧
        ¬ (trim "exit 1\n".toList = [] ∨ trim "exit 1\n".toList = trim ['#']) := by
    decide +kernel
  refine ⟨hr, hinstall, fun h => ?_⟩
  have hnil : bareLine 1 = [] := (bareLine_eq_nil_iff (by decide)).mpr (Or.inl rfl)
  exact hblank (h.blank_of_bareLine_eq_nil (by decide) hnil hmem)

end LicenseHeader.Header
