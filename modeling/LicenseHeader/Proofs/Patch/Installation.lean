import LicenseHeader.Proofs.Header.Rereading
import LicenseHeader.Proofs.Patch.Correctness

/-!
# Patches that install a header

Where no header is found, the header is inserted between two lines. The patch for this is always
right, unless the text is nothing but an interpreter line without a line feed.
-/

namespace LicenseHeader.Patch

open Text Header

variable {text front back marker : List Char} {ls : List Line}

/-- The patch that installs a missing header can be applied. -/
theorem patched?_render_installText (path : Path) (hpath : '\n' ∉ path.text.toList)
    (hmarker : '\n' ∉ marker ∧ '\r' ∉ marker) (htext : ReturnsFed text)
    (hbare : ¬ BareInterpreter text) (hnone : locate marker (splitLines text) = none) :
    patched? path (render path text (installText marker text)).toList text =
      some (installText marker text) := by
  obtain ⟨n, hn⟩ : ∃ n, n = insertionIndex (splitLines text) := ⟨_, rfl⟩
  have habove : ∀ l ∈ (splitLines text).take n, Terminated l := by
    rw [hn]
    exact terminated_above_insertionIndex hbare
  have hblock : ∀ l ∈ block marker, Terminated l := terminated_of_mem_block hmarker.1
  have hbelow : Canonical ((splitLines text).drop n) := (canonical_splitLines text).drop n
  have hold : joinLines ((splitLines text).take n ++ (splitLines text).drop n) = text := by
    rw [List.take_append_drop, joinLines_splitLines]
  have hnew : joinLines ((splitLines text).take n ++ block marker ++ (splitLines text).drop n) =
      installText marker text := by
    rw [installText, install, target_of_locate_eq_none hnone, hn]
  have hfed : ReturnsFed (joinLines ((splitLines text).take n)) ∧
      ReturnsFed (joinLines ((splitLines text).drop n)) := by
    rw [← hold, joinLines_append] at htext
    exact ⟨htext.of_append_left (getLast?_joinLines_ne_return habove), htext.of_append⟩
  have hfed' : ReturnsFed (installText marker text) := by
    rw [← hnew, joinLines_append, joinLines_append]
    exact (hfed.1.append (returnsFed_of_notMem (return_notMem_block hmarker.2))).append hfed.2
  have hpatched := patched?_render_insertion path hpath (by simp [block]) habove hblock hbelow
    (by rwa [hold]) (by rwa [hnew])
  rwa [hold, hnew] at hpatched

end LicenseHeader.Patch
