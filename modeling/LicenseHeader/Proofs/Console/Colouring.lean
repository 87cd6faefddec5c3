import LicenseHeader.Console.Message
import LicenseHeader.Proofs.Patch.Roles
import LicenseHeader.Proofs.Text.Search

/-!
# The colours of a patch

The colour of a line of a patch is to tell what the line does. It is told from how the line starts,
and lines with names start like some lines that delete or insert: a line that deletes one with two
hyphens in front, as comments have in some languages, is bold and not red. All other lines have the
right colour. Colours do not change the text, so that it can be read back from what is said.
-/

namespace LicenseHeader.Console

open Text Patch

variable {path : Path} {old new : List Char} {l : Line} {x : PlacedLine}

/-- The colour or face that tells what a line does. -/
def rolePaint? : Role → Option Paint
  | .name => some .bold
  | .header => some .cyan
  | .inserted => some .green
  | .deleted => some .red
  | .kept | .missingEnd => none

/-- A line that deletes or inserts, but opens like one with a name. -/
def LooksLikeName (x : PlacedLine) : Prop :=
  x.role = .deleted ∧ "---".toList <+: x.line ∨ x.role = .inserted ∧ "+++".toList <+: x.line

instance : DecidablePred LooksLikeName := fun _ => inferInstanceAs (Decidable (_ ∨ _))

/-- The colour or face that a line has. -/
def seenPaint? (x : PlacedLine) : Option Paint :=
  if LooksLikeName x then some .bold else rolePaint? x.role

/-- A line in a colour or face; its line feed stays outside. -/
def inPaint (p? : Option Paint) (l : Line) : Line :=
  match p? with
  | some p => (paint true p (String.ofList l.dropLast)).toList ++ ['\n']
  | none => l

/-- The text of some lines in colours, below an empty line. -/
def coloured (paint? : PlacedLine → Option Paint) (xs : List PlacedLine) : List Char :=
  joinLines (['\n'] :: xs.map fun x => inPaint (paint? x) x.line)

/-! ### What is said -/

lemma said_patch (voice : Voice) (hne : old ≠ new) :
    said voice .output [.patch (render path old new)] =
      "\n" ++ paintPatch (voice.isColoured .output) (render path old new) := by
  have hrender : (render path old new).isEmpty = false := by
    simp [render, hne, renderNames]
  simp [said, Message.stream, Message.isHeard, Message.text, hrender]

/-- Without colours a line stays as it is. -/
lemma paintPatchLine_false (l : Line) : paintPatchLine false l = l := by
  by_cases hlast : l.getLast? = some '\n'
  · have htext : l.dropLast ++ ['\n'] = l := List.dropLast_append_getLast? _ hlast
    cases hp : patchPaint? l.dropLast <;> simp [paintPatchLine, paint, hlast, hp, htext]
  · cases hp : patchPaint? l <;> simp [paintPatchLine, paint, hlast, hp]

/-- Without colours a patch is said as it is. -/
lemma paintPatch_false (patch : String) : paintPatch false patch = patch := by
  have hlines : paintPatchLine false = fun l => l := funext paintPatchLine_false
  have htext : (splitLines patch.toList).flatMap (fun l => l) = patch.toList := by
    rw [List.flatMap_id', ← joinLines, joinLines_splitLines]
  rw [paintPatch, hlines, htext, String.ofList_toList]

/-- The line feed of a line does not count. -/
lemma patchPaint?_dropLast (h : Terminated l) : patchPaint? l.dropLast = patchPaint? l := by
  obtain ⟨body, -, rfl⟩ := h
  have hopens : ∀ s : List Char, '\n' ∉ s → s.isPrefixOf (body ++ ['\n']) = s.isPrefixOf body := by
    intro s hs
    rw [Bool.eq_iff_iff, List.isPrefixOf_iff_prefix, List.isPrefixOf_iff_prefix,
      prefix_append_separator_iff hs]
  have hname : '\n' ∉ "diff ".toList ∧ '\n' ∉ "---".toList ∧ '\n' ∉ "+++".toList := by decide
  have htag : '\n' ∉ "@@".toList ∧ '\n' ∉ "+".toList ∧ '\n' ∉ "-".toList := by decide
  rw [List.dropLast_concat, patchPaint?, patchPaint?, hopens _ hname.1, hopens _ hname.2.1,
    hopens _ hname.2.2, hopens _ htag.1, hopens _ htag.2.1, hopens _ htag.2.2]

lemma paintPatchLine_true (h : Terminated l) :
    paintPatchLine true l = inPaint (patchPaint? l) l := by
  have hlast : l.getLast? = some '\n' := h.isLine.terminated_iff.mp h
  have htext : l.dropLast ++ ['\n'] = l := List.dropLast_append_getLast? _ hlast
  simp only [paintPatchLine, hlast, patchPaint?_dropLast h, beq_self_eq_true, if_true]
  cases patchPaint? l with
  | some p => rfl
  | none => exact htext

/-! ### The colours of the lines -/

lemma patchPaint?_of_mem_nameLines (h : l ∈ nameLines path) : patchPaint? l = some .bold := by
  simp only [nameLines, List.mem_cons, List.not_mem_nil, or_false] at h
  rcases h with rfl | rfl | rfl <;> simp [patchPaint?]

/-- A line that opens as its role wants it may still look like one with a name. -/
lemma patchPaint?_of_opensByRole (h : OpensByRole x) : patchPaint? x.line = seenPaint? x := by
  obtain ⟨role, l⟩ := x
  obtain ⟨hname, t, ht⟩ := h
  change role.opening ++ t = l at ht
  subst ht
  cases role with
  | name => exact absurd rfl hname
  | _ => simp [seenPaint?, LooksLikeName, rolePaint?, Role.opening, patchPaint?]

/-- The program tells the colour of a line from how it opens. -/
lemma patchPaint?_of_mem (h : x ∈ patchRoles path old new) : patchPaint? x.line = seenPaint? x := by
  rcases List.mem_append.mp h with h | h
  · obtain ⟨l, hl, rfl⟩ := List.mem_map.mp h
    rw [patchPaint?_of_mem_nameLines hl]
    rfl
  · exact patchPaint?_of_opensByRole (opensByRole_of_mem_changeRoles h)

/-! ### Reading a patch without its colours -/

/-- The first character of a control sequence. -/
def escape : Char := '\x1b'

/-- A line without the control sequence that it opens with and the one in front of its line feed. -/
def unpaintLine (l : Line) : Line :=
  if l.head? = some escape then
    ((l.dropWhile (· ≠ 'm')).tail.rdropWhile (· ≠ escape)).dropLast ++ ['\n']
  else l

/-- A text without its colours. -/
def unpainted (text : List Char) : List Char :=
  joinLines ((splitLines text).map unpaintLine)

lemma toList_controlSequence (code : String) :
    (controlSequence code).toList = escape :: '[' :: (code.toList ++ ['m']) := by
  simp [controlSequence, escape]

lemma notMem_codes (p : Paint) :
    'm' ∉ escape :: '[' :: p.codes.1.toList ∧ escape ∉ '[' :: (p.codes.2.toList ++ ['m', '\n']) ∧
      '\n' ∉ p.codes.1.toList ++ p.codes.2.toList := by
  cases p <;> decide

lemma inPaint_some (p : Paint) (l : Line) :
    inPaint (some p) l = escape :: '[' :: p.codes.1.toList ++ 'm' :: (l.dropLast ++
      escape :: '[' :: (p.codes.2.toList ++ ['m', '\n'])) := by
  simp [inPaint, paint, toList_controlSequence]

lemma dropWhile_ne_append_cons {a : Char} {front back : List Char} (h : a ∉ front) :
    (front ++ a :: back).dropWhile (· ≠ a) = a :: back := by
  have hfront : ∀ c ∈ front, decide (c ≠ a) = true := fun c hc =>
    decide_eq_true (ne_of_mem_of_not_mem hc h)
  rw [List.dropWhile_append_of_pos hfront, List.dropWhile_cons_of_neg (by simp)]

/-- What takes the colours away undoes the painting of a line, if the line itself opens no sequence.
-/
lemma unpaintLine_inPaint {p? : Option Paint} (h : Terminated l) (hhead : l.head? ≠ some escape) :
    unpaintLine (inPaint p? l) = l := by
  cases p? with
  | none => rw [inPaint, unpaintLine, if_neg hhead]
  | some p =>
    obtain ⟨hfront, hback, -⟩ := notMem_codes p
    have htext : l.dropLast ++ ['\n'] = l :=
      List.dropLast_append_getLast? _ (h.isLine.terminated_iff.mp h)
    -- The first `m` ends the sequence in front, the last escape begins the one behind the text.
    rw [inPaint_some, unpaintLine, if_pos (by simp), dropWhile_ne_append_cons hfront]
    simp only [List.tail_cons]
    rw [List.rdropWhile, List.reverse_append, List.reverse_cons, List.append_assoc,
      List.singleton_append, dropWhile_ne_append_cons (mt List.mem_reverse.mp hback)]
    simp [htext]

lemma terminated_inPaint (p? : Option Paint) (h : Terminated l) : Terminated (inPaint p? l) := by
  cases p? with
  | none => exact h
  | some p =>
    obtain ⟨-, -, hcodes⟩ := notMem_codes p
    have htext : '\n' ∉ l.dropLast := h.isLine
    refine ⟨(paint true p (String.ofList l.dropLast)).toList, ?_, rfl⟩
    simp_all [paint, toList_controlSequence, escape]

section Lines

variable {xs : List PlacedLine} {paint? paint?' : PlacedLine → Option Paint}
  (hterminated : ∀ x ∈ xs, Terminated x.line)

include hterminated

/-- Painting does not move the ends of lines. -/
lemma splitLines_coloured :
    splitLines (coloured paint? xs) = ['\n'] :: xs.map fun x => inPaint (paint? x) x.line := by
  refine splitLines_joinLines_of_canonical (canonical_of_terminated fun l hl => ?_)
  rcases List.mem_cons.mp hl with rfl | hl
  · exact ⟨[], by simp, rfl⟩
  · obtain ⟨x, hx, rfl⟩ := List.mem_map.mp hl
    exact terminated_inPaint _ (hterminated x hx)

/-- Texts in colours are equal only if each of their lines is. -/
lemma coloured_eq_iff :
    coloured paint? xs = coloured paint?' xs ↔
      ∀ x ∈ xs, inPaint (paint? x) x.line = inPaint (paint?' x) x.line := by
  constructor
  · intro h
    have hlines := congrArg splitLines h
    rw [splitLines_coloured hterminated, splitLines_coloured hterminated] at hlines
    exact List.map_inj_left.mp (List.cons.inj hlines).2
  · intro h
    rw [coloured, coloured, List.map_congr_left h]

lemma unpainted_coloured (hhead : ∀ x ∈ xs, x.line.head? ≠ some escape) :
    unpainted (coloured paint? xs) = '\n' :: joinLines (xs.map PlacedLine.line) := by
  have hlines : (xs.map fun x => inPaint (paint? x) x.line).map unpaintLine =
      xs.map PlacedLine.line := by
    rw [List.map_map]
    exact List.map_congr_left fun x hx => unpaintLine_inPaint (hterminated x hx) (hhead x hx)
  rw [unpainted, splitLines_coloured hterminated, List.map_cons, hlines, joinLines_cons]
  rfl

end Lines

/-! ### The colours of a patch -/

/-- No line of a patch opens with a control sequence, since each one has a tag or is a header. -/
lemma head?_of_mem (h : x ∈ patchRoles path old new) : x.line.head? ≠ some escape := by
  rcases List.mem_append.mp h with h | h
  · obtain ⟨l, hl, rfl⟩ := List.mem_map.mp h
    simp only [nameLines, List.mem_cons, List.not_mem_nil, or_false] at hl
    rcases hl with rfl | rfl | rfl <;> simp [escape]
  · obtain ⟨hname, t, ht⟩ := opensByRole_of_mem_changeRoles h
    rw [← ht]
    cases hrole : x.role with
    | name => exact absurd hrole hname
    | _ => simp [Role.opening, escape]

/-- A line that looks like one with a name does not have the colour that it should have. -/
lemma inPaint_seenPaint?_eq_iff :
    inPaint (seenPaint? x) x.line = inPaint (rolePaint? x.role) x.line ↔ ¬ LooksLikeName x := by
  constructor
  · rintro heq hlooks
    rw [seenPaint?, if_pos hlooks] at heq
    -- Bold is neither red nor green.
    rcases hlooks with ⟨hrole, -⟩ | ⟨hrole, -⟩ <;>
      simp [hrole, rolePaint?, inPaint_some, Paint.codes] at heq
  · intro h
    rw [seenPaint?, if_neg h]

section Texts

variable (hpath : '\n' ∉ path.text.toList) (hne : old ≠ new) (hold : ReturnsFed old)
  (hnew : ReturnsFed new)

include hpath hne hold hnew

lemma terminated_of_mem_patchRoles : ∀ x ∈ patchRoles path old new, Terminated x.line := by
  intro x hx
  have hline := List.mem_map_of_mem (f := PlacedLine.line) hx
  rw [map_line_patchRoles hpath hne hold hnew] at hline
  exact terminated_of_mem_splitLines_render hpath hne hold hnew x.line hline

/-- Each line has the colour that its start asks for. -/
lemma toList_paintPatch_true :
    '\n' :: (paintPatch true (render path old new)).toList =
      coloured seenPaint? (patchRoles path old new) := by
  have hlines : (patchRoles path old new).map (fun x => paintPatchLine true x.line) =
      (patchRoles path old new).map fun x => inPaint (seenPaint? x) x.line := by
    refine List.map_congr_left fun x hx => ?_
    rw [paintPatchLine_true (terminated_of_mem_patchRoles hpath hne hold hnew x hx),
      patchPaint?_of_mem hx]
  rw [paintPatch, String.toList_ofList, ← map_line_patchRoles hpath hne hold hnew, List.flatMap_map,
    coloured, ← hlines, joinLines_cons, joinLines, List.flatMap_def]
  rfl

end Texts

/-- Colours do not change a patch, and its lines have the colours that tell what they do, just when
no line that deletes or inserts looks like one with a name. -/
theorem said_patch_by_role (path : Path) {old new : List Char} (hpath : '\n' ∉ path.text.toList)
    (hne : old ≠ new) (hold : ReturnsFed old) (hnew : ReturnsFed new) (voice : Voice) :
    let patch := render path old new
    let lines := patchRoles path old new
    let text := (said voice .output [.patch patch]).toList
    lines.map PlacedLine.line = splitLines patch.toList ∧
      (∀ i x, lines[i]? = some x → (x.role = .name ↔ i < 3)) ∧
      (voice.isColoured .output = false → text = '\n' :: patch.toList) ∧
      (voice.isColoured .output →
        unpainted text = '\n' :: patch.toList ∧ text = coloured seenPaint? lines ∧
          (text = coloured (fun x => rolePaint? x.role) lines ↔ ∀ x ∈ lines, ¬ LooksLikeName x)) := by
  have hterminated := terminated_of_mem_patchRoles hpath hne hold hnew
  have hlines := map_line_patchRoles hpath hne hold hnew
  have htext : (said voice .output [.patch (render path old new)]).toList =
      '\n' :: (paintPatch (voice.isColoured .output) (render path old new)).toList := by
    simp [said_patch voice hne]
  refine ⟨hlines, fun i x => role_eq_name_iff, fun h => ?_, fun h => ?_⟩
  · rw [htext, h, paintPatch_false]
  · rw [h, toList_paintPatch_true hpath hne hold hnew] at htext
    rw [htext]
    refine ⟨?_, rfl, ?_⟩
    · rw [unpainted_coloured hterminated fun x hx => head?_of_mem hx, hlines, joinLines_splitLines]
    · rw [coloured_eq_iff hterminated]
      exact forall₂_congr fun x _ => inPaint_seenPaint?_eq_iff

/-- A query below a comment. -/
def commentedQuery : List Char :=
  "-- old\nSELECT 1;\n".toList

def bareQuery : List Char :=
  "SELECT 1;\n".toList

theorem said_patch_by_role_plain :
    '\n' ∉ "q.sql".toList ∧ bareQuery ≠ [] ∧ ReturnsFed bareQuery ∧ ReturnsFed [] ∧
      (said { colours := .always } .output [.patch (render ⟨"q.sql"⟩ bareQuery [])]).toList =
        coloured (fun x => rolePaint? x.role) (patchRoles ⟨"q.sql"⟩ bareQuery []) := by
  have hbare : ReturnsFed bareQuery := by decide
  obtain ⟨-, -, -, hcoloured⟩ := said_patch_by_role ⟨"q.sql"⟩ (by decide) (by decide) hbare
    returnsFed_nil { colours := .always }
  obtain ⟨-, -, hrole⟩ := hcoloured rfl
  exact ⟨by decide, by decide, hbare, returnsFed_nil, hrole.mpr (by decide +kernel)⟩

/-- The comment is bold, though it is deleted. -/
theorem said_patch_commentedQuery :
    ReturnsFed commentedQuery ∧
      ⟨.deleted, "--- old\n".toList⟩ ∈ patchRoles ⟨"q.sql"⟩ commentedQuery bareQuery ∧
      said { colours := .always } .output [.patch (render ⟨"q.sql"⟩ commentedQuery bareQuery)] =
        "\n\x1b[1mdiff a/q.sql b/q.sql\x1b[0m\n\x1b[1m--- a/q.sql\x1b[0m\n" ++
          "\x1b[1m+++ b/q.sql\x1b[0m\n\x1b[36m@@ -1,2 +1 @@\x1b[39m\n" ++
          "\x1b[1m--- old\x1b[0m\n SELECT 1;\n" ∧
      (said { colours := .always } .output
          [.patch (render ⟨"q.sql"⟩ commentedQuery bareQuery)]).toList ≠
        coloured (fun x => rolePaint? x.role) (patchRoles ⟨"q.sql"⟩ commentedQuery bareQuery) := by
  decide +kernel

end LicenseHeader.Console
