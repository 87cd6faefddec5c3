import LicenseHeader.Proofs.Header.Idempotence

/-!
# Headers in another layout

Whatever the space in the lines of a header, and however its empty lines are written, the header is
put into its one written form in the place where it stands.
-/

namespace LicenseHeader.Header

open Text

variable {marker : List Char} {above header blanks below : List Line}

/-- Blank lines in front of a line that is not blank are dropped. -/
lemma dropWhile_allBlank_append (hblanks : ∀ l ∈ blanks, trim l = [])
    (hbelow : ∀ l ∈ below.head?, trim l ≠ []) :
    (blanks ++ below).dropWhile allBlank = below := by
  have hall : ∀ l ∈ blanks, allBlank l := fun l hl => allBlank_iff.mpr (hblanks l hl)
  rw [List.dropWhile_append_of_pos hall, dropWhile_allBlank_eq_self_iff.mpr hbelow]

/-- Lines that say the header, together with all blank lines below them, make room for the block. No
header stands above them. -/
theorem install_reformatted (marker : List Char)
    (hl : ∀ l ∈ above ++ (header ++ (blanks ++ below)), IsLine l)
    (habove : locate marker above = none) (hheader : SaysHeader marker header)
    (hblanks : ∀ l ∈ blanks, trim l = []) (hbelow : ∀ l ∈ below.head?, trim l ≠ []) :
    install marker (above ++ (header ++ (blanks ++ below))) = above ++ (block marker ++ below) := by
  have hlines : ∀ l ∈ above, IsLine l := fun l h => hl l (List.mem_append_left _ h)
  rw [hheader.install_eq hl ((locate_eq_none_iff hlines).mp habove),
    dropWhile_allBlank_append hblanks hbelow]

/-- The header as an editor may leave it: ended in another way, with more space or none behind the
marker, with an empty line that is blank and one that is a comment. -/
def untidyHeader : List Line :=
  ["//".toList ++ bareLine 0 ++ "\r\n".toList, " \t\n".toList,
    "//\t ".toList ++ bareLine 2 ++ ['\n'], "// ".toList ++ bareLine 3 ++ "  \n".toList,
    "//  ".toList ++ bareLine 4 ++ ['\n'], "//  \r\n".toList,
    "// ".toList ++ bareLine 6 ++ ['\n']]

/-- The first lines of the header stand above the whole header. -/
theorem install_reformatted_untidyHeader :
    (∀ l ∈ untidyHeader.take 6 ++ (untidyHeader ++ (["\r\n".toList, ['\n']] ++ ["return\n".toList])),
        IsLine l) ∧
      locate ['/', '/'] (untidyHeader.take 6) = none ∧ SaysHeader ['/', '/'] untidyHeader ∧
      install ['/', '/']
          (untidyHeader.take 6 ++ (untidyHeader ++ (["\r\n".toList, ['\n']] ++ ["return\n".toList]))) =
        untidyHeader.take 6 ++ (block ['/', '/'] ++ ["return\n".toList]) := by
  have hl : ∀ l ∈ untidyHeader.take 6 ++ (untidyHeader ++ (["\r\n".toList, ['\n']] ++ ["return\n".toList])),
      IsLine l := by decide +kernel
  have habove : locate ['/', '/'] (untidyHeader.take 6) = none := by decide +kernel
  have hheader : SaysHeader ['/', '/'] untidyHeader := by decide +kernel
  exact ⟨hl, habove, hheader, install_reformatted ['/', '/'] hl habove hheader (by decide +kernel)
    (by decide +kernel)⟩

end LicenseHeader.Header
