import LicenseHeader.Proofs.Workspace.Relative

/-!
# Paths that lead nowhere

A path that leads nowhere is compared with the root of a workspace by its components alone. It is
below the root exactly if it starts with the components of the root, and what is left of it then is
its way from there.
-/

namespace LicenseHeader

open LicenseHeader.Path (Component)

namespace Workspace

/-- Seen from a root that does not exist, a path that does not exist either is what comes behind the
components of the root. There is no such path if it does not start with these. Put behind the root,
it gives the components of the path back. Only the root directory may exist. -/
theorem relativize?_eq_drop (t : FileTree) (w : Workspace) (p here : Path)
    (hroot : w.root.isAbsolute) (hhere : here.isAbsolute)
    (hplain : ∀ q ∈ [w.root, here, p], q.IsPlain)
    (hmissing : ∀ q ∈ [w.root, here.join p], t.contains q → q.components = [.root]) :
    let way := if p.isAbsolute then p.components else here.components ++ p.components
    w.relativize? t p here =
        (if w.root.components <+: way then
          some (.ofComponents (way.drop w.root.components.length)) else none) ∧
      ∀ rel, w.relativize? t p here = some rel →
        w.root.components ++ rel.components = way ∧ (w.root.join rel).components = way := by
  simp only [List.forall_mem_cons] at hplain hmissing
  obtain ⟨hplainRoot, hplainHere, hplainPath, -⟩ := hplain
  obtain ⟨hmissingRoot, hmissingPath, -⟩ := hmissing
  have habs := Path.isAbsolute_join (q := p) hhere
  intro way
  have hway : (here.join p).components = way := Path.components_join_of_isPlain hhere hplainPath
  obtain ⟨r, -, hr⟩ := hplainRoot.exists_names
  obtain ⟨l, hnames, hl⟩ := (hplainHere.join hplainPath hhere).exists_names
  rw [if_pos hroot, List.singleton_append] at hr
  rw [if_pos habs, List.singleton_append] at hl
  have hiff : ∀ rel, w.relativize? t p here = some rel ↔
      ∃ names, l = r ++ names ∧ rel = .ofComponents (names.map .name) := fun rel =>
    relativize?_eq_some_iff_append ((FileTree.components_canonical habs hmissingPath).trans hl)
      ((FileTree.components_canonical hroot hmissingRoot).trans hr) hnames
  have hbelow : ∀ names, l = r ++ names → way = w.root.components ++ names.map .name := by
    rintro names rfl
    rw [← hway, hl, hr, List.map_append, List.cons_append]
  constructor
  · cases hrel : w.relativize? t p here with
    | some rel =>
      obtain ⟨names, hnames', rfl⟩ := (hiff rel).mp hrel
      rw [hbelow names hnames', if_pos (List.prefix_append _ _), List.drop_left]
    | none =>
      rw [if_neg]
      rintro ⟨rest, hrest⟩
      rw [← hway, hl, hr, List.cons_append] at hrest
      obtain ⟨front, names, hfront, hr', -⟩ := List.map_eq_append_iff.mp (List.cons.inj hrest).2.symm
      have hinj : Function.Injective Component.name := fun _ _ => Component.name.inj
      rw [List.map_injective_iff.mpr hinj hr'] at hfront
      have hsome := (hiff _).mpr ⟨names, hfront, rfl⟩
      rw [hrel] at hsome
      cases hsome
  · intro rel hrel
    obtain ⟨names, hnames', rfl⟩ := (hiff rel).mp hrel
    have hrest : ∀ n ∈ names, Path.IsName n := fun n hn =>
      hnames n (hnames' ▸ List.mem_append_right r hn)
    have hcomponents := Path.components_ofComponents hrest
    rw [hbelow names hnames', Path.components_join hroot hcomponents, hcomponents]
    exact ⟨rfl, rfl⟩

/-- A name may begin with two dots, and it is not the beginning of a longer name. -/
theorem relativize?_eq_drop_dottedName :
    (∀ q ∈ [⟨"/a"⟩, ⟨"/a/b"⟩, ⟨"..x/y"⟩], Path.IsPlain q) ∧
      (∀ q ∈ [⟨"/a"⟩, Path.join ⟨"/a/b"⟩ ⟨"..x/y"⟩],
        FileTree.contains {} q → q.components = [.root]) ∧
      relativize? {} (.directory ⟨"/a"⟩) ⟨"..x/y"⟩ ⟨"/a/b"⟩ = some ⟨"b/..x/y"⟩ ∧
      relativize? {} (.directory ⟨"/a/b"⟩) ⟨"/a/bc"⟩ ⟨"/"⟩ = none := by
  have hplain : ∀ q ∈ [⟨"/a"⟩, ⟨"/a/b"⟩, ⟨"..x/y"⟩], Path.IsPlain q := by decide
  have hmissing : ∀ q ∈ [⟨"/a"⟩, Path.join ⟨"/a/b"⟩ ⟨"..x/y"⟩],
      FileTree.contains {} q → q.components = [.root] := by decide
  have hbelow := (relativize?_eq_drop {} (.directory ⟨"/a"⟩) ⟨"..x/y"⟩ ⟨"/a/b"⟩ (by decide)
    (by decide) hplain hmissing).1
  have hbeside := (relativize?_eq_drop {} (.directory ⟨"/a/b"⟩) ⟨"/a/bc"⟩ ⟨"/"⟩ (by decide)
    (by decide) (by decide) (by decide)).1
  exact ⟨hplain, hmissing, hbelow.trans (by decide), hbeside.trans (by decide)⟩

end Workspace

end LicenseHeader
