import LicenseHeader.Proofs.Patch.WholeText

/-!
# Patches that are read line by line

Whoever reads a patch takes it for a sequence of lines, each of which is a header of a hunk, a note,
or a line of one of the texts behind a tag (`Legible`). A patch is one if carriage returns stand in
front of line feeds only. A text with another carriage return has no such patch when it is removed
or put in as a whole.
-/

namespace LicenseHeader.Patch

open Text

variable {path : Path} {text : List Char} {old new : List Line} {i j i' j' : Nat} {b : Block}
  {bs : List Block} {l m : Line} {tag : Char}

/-- A line with a line feed, whether it has one in the text or not. -/
def ended (l : Line) : Line :=
  if l.getLast? = some '\n' then l else l ++ ['\n']

/-- A line behind the names in a patch from `old` to `new`. -/
inductive PatchLine (old new : List Char) : Line → Prop
  | header {m : Line} {extents : Extent × Extent} :
      readHeader m = some extents → PatchLine old new m
  | missingEnd : PatchLine old new note
  | kept {l : Line} : l ∈ splitLines old → l ∈ splitLines new → PatchLine old new (' ' :: ended l)
  | deleted {l : Line} : l ∈ splitLines old → PatchLine old new ('-' :: ended l)
  | inserted {l : Line} : l ∈ splitLines new → PatchLine old new ('+' :: ended l)

/-- A text that is read as a patch from `old` to `new`, line by line. -/
structure Legible (path : Path) (old new patch : List Char) : Prop where
  names : (splitLines patch).take 3 = nameLines path
  lines : ∀ m ∈ (splitLines patch).drop 3, PatchLine old new m
  /-- Another patch may follow. -/
  closed : patch.getLast? = some '\n'

lemma length_nameLines (path : Path) : (nameLines path).length = 3 := rfl

/-! ### Lines with a line feed -/

lemma ended_cons (c : Char) (hne : l ≠ []) : ended (c :: l) = c :: ended l := by
  obtain ⟨front, d, rfl⟩ := (List.eq_nil_or_concat' l).resolve_left hne
  rw [ended, ended, ← List.cons_append, List.getLast?_concat, List.getLast?_concat]
  split_ifs <;> rfl

lemma ended_of_terminated (h : Terminated l) : ended l = l := by
  obtain ⟨body, -, rfl⟩ := h
  rw [ended, if_pos List.getLast?_concat]

lemma length_ended_le (l : Line) : (ended l).length ≤ l.length + 1 := by
  rw [ended]
  split_ifs <;> simp

lemma length_le_of_mem_splitLines (h : l ∈ splitLines text) : l.length ≤ text.length := by
  have hle := (List.sublist_flatten_of_mem h).length_le
  rwa [← joinLines, joinLines_splitLines] at hle

lemma ended_mem_writtenLine (l : Line) : ended l ∈ writtenLine l := by
  rw [ended, writtenLine]
  split_ifs <;> simp

lemma eq_of_mem_writtenLine (h : m ∈ writtenLine l) : m = ended l ∨ m = note := by
  rw [writtenLine] at h
  rw [ended]
  split_ifs at h ⊢
  · exact Or.inl (List.mem_singleton.mp h)
  · simpa using h

/-- A line feed at the end hides no carriage return. -/
lemma holdsReturn_ended_iff : HoldsReturn (ended l) ↔ HoldsReturn l := by
  rw [ended]
  split_ifs
  · rfl
  · constructor
    · rintro ⟨front, c, back, h, hc⟩
      rcases List.eq_nil_or_concat' back with rfl | ⟨back, d, rfl⟩
      · have hlast : front ++ ['\r', c] = (front ++ ['\r']) ++ [c] := by simp
        rw [hlast] at h
        exact absurd (List.singleton_inj.mp (List.append_inj' h rfl).2).symm hc
      · have hlast : front ++ '\r' :: c :: (back ++ [d]) = (front ++ '\r' :: c :: back) ++ [d] := by
          simp
        rw [hlast] at h
        exact ⟨front, c, back, (List.append_inj' h rfl).1, hc⟩
    · rintro ⟨front, c, back, rfl, hc⟩
      exact ⟨front, c, back ++ ['\n'], by simp, hc⟩

/-! ### Legible patches -/

/-- What is kept stands in both texts. -/
lemma Chain.lines_eq (h : Chain old new i j bs i' j') :
    ∀ b ∈ bs, b.isKept → b.old.lines old = b.new.lines new := by
  induction bs generalizing i j with
  | nil => simp
  | cons c bs ih =>
    obtain ⟨hfits, hrest⟩ := h
    intro b hb hkept
    rcases List.mem_cons.mp hb with rfl | hb
    · rw [hfits.oldLines_eq, hfits.newLines_eq, (hfits.kept hkept).2]
    · exact ih hrest b hb hkept

/-- Kept blocks hold the same lines of both texts. -/
lemma Hunks.lines_eq {hs : List (List Block)} {extents : List (Extent × Extent)}
    (h : Hunks old new i j hs extents) :
    ∀ bs ∈ hs, bs ≠ [] ∧ ∀ b ∈ bs, b.isKept → b.old.lines old = b.new.lines new := by
  induction h with
  | nil => simp
  | cons _ hne hchain _ _ _ ih =>
    intro bs hbs
    rcases List.mem_cons.mp hbs with rfl | hbs
    · exact ⟨hne, hchain.lines_eq⟩
    · exact ih bs hbs

section Texts

variable {old new : List Char}

lemma patchLine_of_mem_blockLines
    (hkept : b.isKept → b.old.lines (splitLines old) = b.new.lines (splitLines new))
    (hl : l ∈ blockLines (splitLines old) (splitLines new) b) : PatchLine old new (ended l) := by
  have hne := (canonical_splitLines old).ne_nil
  have hne' := (canonical_splitLines new).ne_nil
  rw [blockLines] at hl
  split_ifs at hl with hb
  · obtain ⟨k, hk, rfl⟩ := List.mem_map.mp hl
    have hk' := hkept hb ▸ hk
    rw [ended_cons ' ' (hne k (mem_of_mem_lines hk))]
    exact .kept (mem_of_mem_lines hk) (mem_of_mem_lines hk')
  · rcases List.mem_append.mp hl with hl | hl
    · obtain ⟨k, hk, rfl⟩ := List.mem_map.mp hl
      rw [ended_cons '-' (hne k (mem_of_mem_lines hk))]
      exact .deleted (mem_of_mem_lines hk)
    · obtain ⟨k, hk, rfl⟩ := List.mem_map.mp hl
      rw [ended_cons '+' (hne' k (mem_of_mem_lines hk))]
      exact .inserted (mem_of_mem_lines hk)

lemma patchLine_of_mem_hunkLines (hne : bs ≠ [])
    (hkept : ∀ b ∈ bs, b.isKept → b.old.lines (splitLines old) = b.new.lines (splitLines new))
    (hl : l ∈ hunkLines (splitLines old) (splitLines new) bs) : PatchLine old new (ended l) := by
  obtain ⟨first, last, hfirst, hlast⟩ := exists_ends hne
  rw [hunkLines, hfirst, hlast] at hl
  rcases List.mem_cons.mp hl with rfl | hl
  · rw [ended_of_terminated (terminated_header first last)]
    exact .header (readHeader_renderHunkHeader first last)
  · obtain ⟨b, hb, hl⟩ := List.mem_flatMap.mp hl
    exact patchLine_of_mem_blockLines (hkept b hb) hl

/-- Where carriage returns stand in front of line feeds only, a patch is legible. -/
lemma legible_of_returnsFed (hpath : '\n' ∉ path.text.toList) (hne : old ≠ new)
    (hold : ReturnsFed old) (hnew : ReturnsFed new) :
    Legible path old new (render path old new).toList := by
  have hwritable := writable_patchLines hpath (patchable_splitLines hold)
    (patchable_splitLines hnew)
  have hterminated := terminated_of_mem_flatMap_writtenLine hwritable
  obtain ⟨extents, hhunks, -⟩ := exists_hunks (splitLines old) (splitLines new)
  have hnames := flatMap_writtenLine_of_terminated (terminated_nameLines hpath)
  have hlines := splitLines_render hpath hne hold hnew
  refine ⟨?_, fun m hm => ?_, ?_⟩
  · rw [hlines]
    exact List.take_left' (length_nameLines path)
  · rw [hlines, List.drop_left' (length_nameLines path)] at hm
    obtain ⟨l, hl, hml⟩ := List.mem_flatMap.mp hm
    obtain ⟨bs, hbs, hl⟩ := List.mem_flatMap.mp hl
    obtain ⟨hne, hkept⟩ := hhunks.lines_eq bs hbs
    rcases eq_of_mem_writtenLine hml with rfl | rfl
    · exact patchLine_of_mem_hunkLines hne hkept hl
    · exact .missingEnd
  · rw [toList_render hpath hne hold hnew, ← joinLines_flatMap_writtenLine]
    refine getLast?_joinLines hterminated ?_
    rw [patchLines, List.flatMap_append, hnames]
    exact List.append_ne_nil_of_left_ne_nil (List.cons_ne_nil _ _) _

end Texts

/-! ### Patches of whole texts -/

section Whole

variable {header : Line} (hpath : '\n' ∉ path.text.toList) (hheader : Terminated header)
  (htag : tag ≠ '\n') (hnote : tag ≠ '\\')

include hpath hheader htag hnote

/-- The lines of the text are read with tags inside. -/
lemma ended_tagged_mem_drop_splitLines (hlast : text.getLast? ≠ some '\r')
    (hl : l ∈ splitLines text) :
    ended (tagged tag l) ∈ (splitLines (wholePatch path header tag text)).drop 3 := by
  have habove : ∀ m ∈ nameLines path ++ [header], Terminated m := by
    intro m hm
    rcases List.mem_append.mp hm with hm | hm
    · exact terminated_nameLines hpath m hm
    · exact List.mem_singleton.mp hm ▸ hheader
  have hwritable : ∀ m ∈ (splitLines text).map (tagged tag), Writable m := by
    intro m hm
    obtain ⟨k, hk, rfl⟩ := List.mem_map.mp hm
    have hcanonical := canonical_splitLines text
    exact writable_tagged htag hnote (hcanonical.ne_nil k hk) (hcanonical.isLine k hk)
  rw [wholePatch, splitLines_joinLines_append habove, flatMap_renderLine_eq_written tag hlast,
    splitLines_written hwritable, List.append_assoc, List.drop_left' (length_nameLines path)]
  refine List.mem_append_right _ (List.mem_flatMap.mpr ⟨tagged tag l, ?_, ended_mem_writtenLine _⟩)
  exact List.mem_map_of_mem hl

variable {old new : List Char}
  (hread : ∀ m, PatchLine old new (tag :: m) → ∃ l ∈ splitLines text, m = ended l)

include hread

/-- In a legible patch a line with a carriage return inside is read as a longer line of the text. -/
lemma Legible.exists_longer (h : Legible path old new (wholePatch path header tag text))
    (hlast : text.getLast? ≠ some '\r') (hl : l ∈ splitLines text) (hreturn : HoldsReturn l) :
    ∃ m ∈ splitLines text, HoldsReturn m ∧ (ended l).length < (ended m).length := by
  obtain ⟨k, htagged, hreturn', hlength, hlast'⟩ := exists_tagged_of_holdsReturn htag hreturn
  have hline := h.lines _ (ended_tagged_mem_drop_splitLines hpath hheader htag hnote hlast hl)
  rw [htagged, ended_cons tag (List.ne_nil_of_length_pos (by omega))] at hline
  obtain ⟨m, hm, hended⟩ := hread _ hline
  refine ⟨m, hm, ?_, ?_⟩
  · rwa [← holdsReturn_ended_iff, ← hended, holdsReturn_ended_iff]
  · rw [← hended, ended, ended, hlast']
    split_ifs
    · exact hlength
    · simpa using hlength

/-- A text with a lone carriage return makes a patch that is not legible. -/
lemma not_legible_wholePatch (hfed : ¬ ReturnsFed text) :
    ¬ Legible path old new (wholePatch path header tag text) := by
  intro h
  by_cases hlast : text.getLast? = some '\r'
  · have hclosed := h.closed
    have hend := getLast?_flatMap_renderLine tag hlast
    rw [wholePatch, List.getLast?_append, hend] at hclosed
    exact absurd hclosed (by simp)
  · obtain ⟨l, hl, hreturn⟩ := exists_mem_splitLines_holdsReturn hfed hlast
    -- one such line needs another one that is longer, but the text is not endless
    have hlong : ∀ n, ∃ l ∈ splitLines text, HoldsReturn l ∧ n ≤ (ended l).length := by
      intro n
      induction n with
      | zero => exact ⟨l, hl, hreturn, Nat.zero_le _⟩
      | succ n ih =>
        obtain ⟨m, hm, hreturn', hle⟩ := ih
        obtain ⟨k, hk, hreturn'', hlt⟩ :=
          h.exists_longer hpath hheader htag hnote hread hlast hm hreturn'
        exact ⟨k, hk, hreturn'', by omega⟩
    obtain ⟨m, hm, -, hlong⟩ := hlong (text.length + 2)
    have hle := length_le_of_mem_splitLines hm
    have hended := length_ended_le m
    omega

end Whole

/-! ### Which patches are legible -/

section Texts

variable {old new : List Char}

/-- What stands behind a tag is a line of the text that the tag is for. -/
lemma exists_of_patchLine (h : PatchLine old new (tag :: m)) :
    (tag = '-' → ∃ l ∈ splitLines old, m = ended l) ∧
      (tag = '+' → ∃ l ∈ splitLines new, m = ended l) := by
  generalize hk : tag :: m = k at h
  cases h with
  | header hheader =>
    have hhead := head?_of_readHeader hheader
    rw [← hk, List.head?_cons, Option.some.injEq] at hhead
    simp [hhead]
  | missingEnd =>
    have hhead : tag = '\\' := Option.some.inj (congrArg List.head? hk)
    simp [hhead]
  | kept =>
    rw [(List.cons.inj hk).1]
    simp
  | deleted hl =>
    rw [(List.cons.inj hk).1]
    exact ⟨fun _ => ⟨_, hl, (List.cons.inj hk).2⟩, by simp⟩
  | inserted hl =>
    rw [(List.cons.inj hk).1]
    exact ⟨by simp, fun _ => ⟨_, hl, (List.cons.inj hk).2⟩⟩

end Texts

/-- A patch between texts in which carriage returns stand in front of line feeds only is read line
by line, and so is what is appended to it. A text with another carriage return has no legible patch
when it is removed, and none when it is put in. -/
theorem legible_render (path : Path) (hpath : '\n' ∉ path.text.toList) :
    (∀ old new, old ≠ new → ReturnsFed old → ReturnsFed new →
      Legible path old new (render path old new).toList ∧
        ∀ next, splitLines ((render path old new).toList ++ next) =
          splitLines (render path old new).toList ++ splitLines next) ∧
      ∀ text, ¬ ReturnsFed text →
        ¬ Legible path text [] (render path text []).toList ∧
          ¬ Legible path [] text (render path [] text).toList := by
  refine ⟨fun old new hne hold hnew => ?_, fun text hfed => ?_⟩
  · have hlegible := legible_of_returnsFed hpath hne hold hnew
    exact ⟨hlegible, splitLines_append hlegible.closed⟩
  · have hne : text ≠ [] := by
      rintro rfl
      exact hfed returnsFed_nil
    obtain ⟨header, hheader, hremoval⟩ := exists_render_eq_removal path hne
    obtain ⟨header', hheader', hinstallation⟩ := exists_render_eq_installation path hne
    rw [hremoval, hinstallation]
    exact ⟨not_legible_wholePatch hpath hheader (by decide) (by decide)
        (fun _ h => (exists_of_patchLine h).1 rfl) hfed,
      not_legible_wholePatch hpath hheader' (by decide) (by decide)
        (fun _ h => (exists_of_patchLine h).2 rfl) hfed⟩

/-- Two lines, of which the first one ends with a carriage return and a line feed. -/
def mixedEnds : List Char :=
  "a\r\nb".toList

/-- One line, with a carriage return inside. -/
def brokenLine : List Char :=
  "a\rb\n".toList

theorem legible_render_mixedEnds :
    '\n' ∉ "f".toList ∧ mixedEnds ≠ [] ∧ ReturnsFed mixedEnds ∧
      Legible ⟨"f"⟩ mixedEnds [] (render ⟨"f"⟩ mixedEnds []).toList ∧ ¬ ReturnsFed brokenLine ∧
      ¬ Legible ⟨"f"⟩ brokenLine [] (render ⟨"f"⟩ brokenLine []).toList := by
  have hfed : ReturnsFed mixedEnds := by decide
  have hbroken : ¬ ReturnsFed brokenLine := by decide
  obtain ⟨hlegible, hnot⟩ := legible_render ⟨"f"⟩ (by decide)
  exact ⟨by decide, by decide, hfed,
    (hlegible mixedEnds [] (by decide) hfed returnsFed_nil).1, hbroken,
    (hnot brokenLine hbroken).1⟩

/-- The only line of the old text is written behind two tags, and nothing ends the last line of a
new text that stops with a carriage return. -/
theorem render_brokenLine :
    splitLines brokenLine = [brokenLine] ∧
      render ⟨"f"⟩ brokenLine "c\n".toList =
        "diff a/f b/f\n--- a/f\n+++ b/f\n@@ -1,2 +1 @@\n-a\r-b\n+c\n" ∧
      ¬ PatchLine brokenLine "c\n".toList "-a\r-b\n".toList ∧
      render ⟨"f"⟩ "b\n".toList "a\r".toList =
        "diff a/f b/f\n--- a/f\n+++ b/f\n@@ -1 +1 @@\n-b\n+a\r" := by
  have hlines : splitLines brokenLine = [brokenLine] := by decide
  refine ⟨hlines, by decide +kernel, fun h => ?_, by decide +kernel⟩
  obtain ⟨l, hl, hended⟩ := (exists_of_patchLine (m := "a\r-b\n".toList) h).1 rfl
  rw [hlines] at hl
  rw [List.mem_singleton.mp hl] at hended
  exact absurd hended (by decide)

end LicenseHeader.Patch
