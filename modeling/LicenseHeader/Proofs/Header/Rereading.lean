import LicenseHeader.Processing.Step
import LicenseHeader.Proofs.Header.Installation

/-!
# Reading an installed header back

The header is installed in a sequence of lines, and what is written is their text. Reading it back
gives the same lines just when every line above the header is ended. This fails for a single kind of
text: a script that consists of the line naming its interpreter, without a line feed. There the
first line of the header is joined to that line.
-/

namespace LicenseHeader.Header

open Text

variable {marker text : List Char} {lines : List Line}

/-- The text is one line that names an interpreter and is not ended by a line feed. -/
def BareInterpreter (text : List Char) : Prop :=
  interpreterMark <+: text ∧ '\n' ∉ text

/-! ### Installation in a canonical sequence of lines -/

/-- An installed header stands on lines of its own if the lines above it are ended. -/
lemma canonical_install_iff (hm : '\n' ∉ marker) (h : Canonical lines) :
    Canonical (install marker lines) ↔
      ∀ l ∈ lines.take (target marker lines).start, Terminated l := by
  rw [install_eq]
  constructor
  · intro hc
    apply hc.terminated_of_append
    simp [block]
  · intro habove
    apply Canonical.append habove
    apply Canonical.append (terminated_of_mem_block hm)
    exact h.drop _

/-! ### Scripts of one line -/

lemma BareInterpreter.splitLines_eq (h : BareInterpreter text) : splitLines text = [text] := by
  apply splitLines_of_notMem _ h.2
  rintro rfl
  exact absurd h.1 (by decide)

/-- A text of fewer than seven lines has no header. -/
lemma locate_eq_none_of_length_lt (hl : ∀ l ∈ lines, IsLine l) (h : lines.length < 7) :
    locate marker lines = none := by
  rw [locate_eq_none_iff hl]
  intro j hj
  have := hj.fits
  omega

lemma BareInterpreter.locate_eq_none (h : BareInterpreter text) (marker : List Char) :
    locate marker (splitLines text) = none := by
  apply locate_eq_none_of_length_lt (canonical_splitLines text).isLine
  rw [h.splitLines_eq]
  simp

/-- The header goes below the line of the interpreter, whether or not that line is ended. -/
lemma BareInterpreter.install_eq (h : BareInterpreter text) (marker : List Char) :
    install marker (splitLines text) = text :: block marker := by
  have hindex : insertionIndex [text] = 1 := insertionIndex_of_interpreter rfl h.1
  have hnone := h.locate_eq_none marker
  rw [Header.install_eq, target_of_locate_eq_none hnone, h.splitLines_eq, hindex]
  simp

/-- The line of the interpreter and the first line of the header become one line. -/
lemma BareInterpreter.splitLines_installText (h : BareInterpreter text) (hm : '\n' ∉ marker) :
    ∃ first rest, block marker = first :: rest ∧ rest.length = 7 ∧
      splitLines (installText marker text) = (text ++ first) :: rest := by
  have hblock := terminated_of_mem_block hm
  obtain ⟨first, rest, hfirst⟩ : ∃ first rest, block marker = first :: rest := ⟨_, _, rfl⟩
  have hlen : (first :: rest).length = 8 := hfirst ▸ length_block marker
  rw [hfirst] at hblock
  refine ⟨first, rest, hfirst, by simpa using hlen, ?_⟩
  obtain ⟨body, hb, rfl⟩ := hblock _ List.mem_cons_self
  have hterm : Terminated (text ++ (body ++ ['\n'])) :=
    ⟨text ++ body, by simp [h.2, hb], by simp⟩
  have hcanonical : Canonical ((text ++ (body ++ ['\n'])) :: rest) := by
    apply canonical_of_terminated
    intro l hl
    rcases List.mem_cons.mp hl with rfl | hl
    · exact hterm
    · exact hblock l (List.mem_cons_of_mem _ hl)
  rw [installText, h.install_eq, hfirst, ← splitLines_joinLines_of_canonical hcanonical]
  simp

/-! ### The lines above the header -/

/-- Every line above the place of a header is ended, unless it is a bare interpreter. -/
lemma terminated_above_insertionIndex (h : ¬ BareInterpreter text) :
    ∀ l ∈ (splitLines text).take (insertionIndex (splitLines text)), Terminated l := by
  have hc := canonical_splitLines text
  have hjoin := joinLines_splitLines text
  cases hs : splitLines text with
  | nil => simp
  | cons first rest =>
    rw [hs] at hc hjoin
    by_cases hp : interpreterMark <+: first
    · rw [insertionIndex_of_interpreter rfl hp]
      rcases eq_or_ne rest [] with rfl | hne
      · -- the line of the interpreter is the whole text
        have hfirst : first = text := by simpa using hjoin
        have hmem : '\n' ∈ first := by
          by_contra hn
          exact h (hfirst ▸ ⟨hp, hn⟩)
        intro l hl
        rw [List.mem_singleton.mp hl]
        exact (hc.isLine first List.mem_cons_self).cases.resolve_left fun hn => hn hmem
      · apply hc.terminated_of_mem_take
        simpa using List.length_pos_iff.mpr hne
    · rw [insertionIndex_of_no_interpreter (by simpa using hp)]
      simp

/-- Only a bare interpreter can be glued to a header. -/
lemma terminated_above_iff (text : List Char) :
    (∀ l ∈ (splitLines text).take (target marker (splitLines text)).start, Terminated l) ↔
      ¬ BareInterpreter text := by
  have hc := canonical_splitLines text
  constructor
  · intro h hbare
    have hindex : insertionIndex [text] = 1 := insertionIndex_of_interpreter rfl hbare.1
    rw [target_of_locate_eq_none (hbare.locate_eq_none marker), hbare.splitLines_eq, hindex] at h
    exact hbare.2 (h text (by simp)).newline_mem
  · intro hbare
    cases hfound : locate marker (splitLines text) with
    | some r =>
      have hfits := ((locate_eq_some_iff hc.isLine).mp hfound).1.1.fits
      rw [target_of_locate_eq_some hfound]
      exact hc.terminated_of_mem_take (by omega)
    | none =>
      rw [target_of_locate_eq_none hfound]
      exact terminated_above_insertionIndex hbare

/-! ### Reading back -/

lemma splitLines_installText_iff (text : List Char) (hm : '\n' ∉ marker) :
    splitLines (installText marker text) = install marker (splitLines text) ↔
      ¬ BareInterpreter text := by
  rw [installText, splitLines_joinLines_iff, canonical_install_iff hm (canonical_splitLines text),
    terminated_above_iff]

/-- The line of the interpreter stays the first line of the text, ended or not as it was, and the
header starts below it. -/
def KeepsInterpreter (marker text : List Char) : Prop :=
  (∃ l ∈ (splitLines (installText marker text)).head?,
      ∃ first ∈ (splitLines text).head?, l.takeWhile (· ≠ '\n') = first.takeWhile (· ≠ '\n')) ∧
    ((splitLines (installText marker text)).drop 1).take 8 = block marker

/-- The line of a bare interpreter does not stay as it was. -/
lemma BareInterpreter.not_keepsInterpreter (h : BareInterpreter text) (hm : '\n' ∉ marker) :
    ¬ KeepsInterpreter marker text := by
  rintro ⟨-, hblock⟩
  obtain ⟨first, rest, -, hlen, hsplit⟩ := h.splitLines_installText hm
  have hlength := congrArg List.length hblock
  rw [hsplit, List.drop_one, List.tail_cons, length_block, List.length_take, hlen] at hlength
  omega

lemma keepsInterpreter_of_not_bareInterpreter (hm : '\n' ∉ marker) (h : ¬ BareInterpreter text)
    (hnone : locate marker (splitLines text) = none) {first : Line}
    (hf : first ∈ (splitLines text).head?) (hp : interpreterMark <+: first) :
    KeepsInterpreter marker text := by
  obtain ⟨rest, hs⟩ : ∃ rest, splitLines text = first :: rest :=
    ⟨_, List.eq_cons_of_mem_head? hf⟩
  have hinstall : install marker (splitLines text) = first :: (block marker ++ rest) := by
    rw [install_eq, target_of_locate_eq_none hnone, insertionIndex_of_interpreter hf hp, hs]
    simp
  rw [KeepsInterpreter, (splitLines_installText_iff text hm).mpr h, hinstall]
  refine ⟨⟨first, rfl, first, hf, rfl⟩, ?_⟩
  rw [List.drop_one, List.tail_cons, take_block_append]

/-- What is to be written to a file is the text of its lines with the header installed. -/
lemma text_of_inspect_fix {s : Subject} {report : FileReport} {new : List Char}
    (h : Processing.inspect .fix s text = .pending report new) :
    new = installText s.style.marker.toList text := by
  simp only [Processing.inspect] at h
  split_ifs at h
  rw [Processing.Outcome.pending.injEq] at h
  exact h.2.symm

/-- What is written to a file is read back as the lines that were meant, and keeps the line of the
interpreter apart from the header, just when the text is not a bare interpreter line. -/
theorem reread_install_iff (marker text : List Char) (hm : '\n' ∉ marker) :
    (splitLines (installText marker text) = install marker (splitLines text) ↔
      ¬ (interpreterMark <+: text ∧ '\n' ∉ text)) ∧
    (locate marker (splitLines text) = none →
      (∃ first ∈ (splitLines text).head?, interpreterMark <+: first) →
        (KeepsInterpreter marker text ↔ '\n' ∈ text)) ∧
    ∀ (s : Subject) (report : FileReport) (new : List Char), s.style.marker.toList = marker →
      Processing.inspect .fix s text = .pending report new → new = installText marker text := by
  refine ⟨splitLines_installText_iff text hm, ?_, ?_⟩
  · rintro hnone ⟨first, hf, hp⟩
    have hbare : BareInterpreter text ↔ '\n' ∉ text := by
      refine ⟨fun h => h.2, fun h => ⟨hp.trans ?_, h⟩⟩
      obtain ⟨rest, hs⟩ : ∃ rest, splitLines text = first :: rest :=
        ⟨_, List.eq_cons_of_mem_head? hf⟩
      rw [← joinLines_splitLines text, hs, joinLines_cons]
      exact List.prefix_append first _
    constructor
    · intro hkeeps
      by_contra hn
      exact (hbare.mpr hn).not_keepsInterpreter hm hkeeps
    · intro hmem
      exact keepsInterpreter_of_not_bareInterpreter hm (fun h => h.2 hmem) hnone hf hp
  · rintro s report new rfl h
    exact text_of_inspect_fix h

theorem reread_install_script :
    '\n' ∉ ['#'] ∧
      splitLines (installText ['#'] "#!/bin/sh\n".toList) =
        install ['#'] (splitLines "#!/bin/sh\n".toList) ∧
      KeepsInterpreter ['#'] "#!/bin/sh\n".toList ∧
      ∃ report new, Processing.inspect .fix ⟨⟨"run.sh"⟩, ⟨"#"⟩⟩ "#!/bin/sh\n".toList =
          .pending report new ∧ new = installText ['#'] "#!/bin/sh\n".toList := by
  have hm : '\n' ∉ ['#'] := by decide
  have hmem : '\n' ∈ "#!/bin/sh\n".toList := by decide +kernel
  have hnone : locate ['#'] (splitLines "#!/bin/sh\n".toList) = none := by decide +kernel
  have hfirst : ∃ first ∈ (splitLines "#!/bin/sh\n".toList).head?, interpreterMark <+: first :=
    ⟨"#!/bin/sh\n".toList, by decide +kernel, by decide +kernel⟩
  have hfix : Processing.inspect .fix ⟨⟨"run.sh"⟩, ⟨"#"⟩⟩ "#!/bin/sh\n".toList =
      .pending { path := ⟨"run.sh"⟩, marker := "#", status := .fixed }
        (joinLines ("#!/bin/sh\n".toList :: block ['#'])) := by decide +kernel
  obtain ⟨hread, hkeeps, hnew⟩ := reread_install_iff ['#'] "#!/bin/sh\n".toList hm
  exact ⟨hm, hread.mpr fun h => h.2 hmem, (hkeeps hnone hfirst).mpr hmem,
    _, _, hfix, hnew _ _ _ (by decide +kernel) hfix⟩

/-- The line of the interpreter is joined to the header when it is not ended. -/
theorem installText_bare_script :
    locate ['#'] (splitLines "#!/bin/sh".toList) = none ∧
      splitLines (installText ['#'] "#!/bin/sh".toList) ≠
        install ['#'] (splitLines "#!/bin/sh".toList) ∧
      (splitLines (installText ['#'] "#!/bin/sh".toList)).head? =
        some "#!/bin/sh# SPDX-License-Identifier: MPL-2.0\n".toList ∧
      ¬ KeepsInterpreter ['#'] "#!/bin/sh".toList := by
  have hbare : BareInterpreter "#!/bin/sh".toList := ⟨by decide +kernel, by decide +kernel⟩
  exact ⟨by decide +kernel, by decide +kernel, by decide +kernel,
    hbare.not_keepsInterpreter (by decide)⟩

end LicenseHeader.Header
