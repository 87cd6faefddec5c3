import LicenseHeader.FileTree.Basic
import LicenseHeader.Path.Basic
import LicenseHeader.Proofs.Path.Components

/-!
# Locations and relative paths

The path of a location tells its names. Seen from a location, what is at another one is below it, or
the way to it starts with a step up.
-/

namespace LicenseHeader

lemma Text.exists_intercalate_concat (separator : List Char) (parts : List (List Char))
    (last : List Char) : ∃ front, separator.intercalate (parts ++ [last]) = front ++ last := by
  induction parts with
  | nil => exact ⟨[], by simp⟩
  | cons part parts ih =>
    obtain ⟨front, hfront⟩ := ih
    refine ⟨part ++ separator ++ front, ?_⟩
    rw [List.append_assoc, ← hfront]
    cases parts <;> simp [List.intercalate_cons_cons]

namespace Path

open Text

variable {p q : Path} {up : Nat} {down : List String}

/-! ### Absolute paths -/

lemma join_of_isAbsolute (h : q.isAbsolute) : p.join q = q := by
  rw [join, if_pos h]

/-- A relative path stands at the end of what it is joined to. -/
lemma exists_text_join (p : Path) (h : q.isAbsolute = false) :
    ∃ front, (p.join q).text.toList = front ++ q.text.toList := by
  rw [join, if_neg (by simp [h])]
  split_ifs
  · exact ⟨p.text.toList, by simp⟩
  · exact ⟨p.text.toList ++ ['/'], by simp⟩

lemma isAbsolute_append_separator (h : p.isAbsolute) : (Path.mk (p.text ++ "/")).isAbsolute := by
  have hhead : p.text.toList.head? = some '/' := by simpa [isAbsolute] using h
  simp [isAbsolute, hhead]

/-- A separator at the end does not count. -/
lemma components_append_separator (h : p.isAbsolute) :
    (Path.mk (p.text ++ "/")).components = p.components := by
  rw [components_of_isAbsolute (isAbsolute_append_separator h), components_of_isAbsolute h]
  simp [partComponents, fields_append_separator, fields, Component.ofPart?]

/-- Behind the separator at the start there come the names. -/
lemma components_path {l : Location} (h : ∀ n ∈ l, IsName n) :
    l.path.components = .root :: l.map .name := by
  have habs : l.path.isAbsolute := by simp [Location.path, ofComponents, isAbsolute]
  have htext : l.path.text = "/" ++ (ofComponents (l.map .name)).text := by
    cases l <;> rfl
  have hnames := (components_eq_partComponents (components_ofComponents h)).2
  have hfields : fields '/' l.path.text.toList =
      [] :: fields '/' (ofComponents (l.map .name)).text.toList := by
    rw [htext, String.toList_append]
    exact fields_append_separator [] _
  rw [components_of_isAbsolute habs, ← components_ofComponents h, hnames, partComponents, hfields]
  rfl

/-! ### Relative paths -/

/-- A path leads so many steps up, and then down along some names. -/
structure Descends (p : Path) (up : Nat) (down : List String) : Prop where
  relative : p.isAbsolute = false
  components : p.components.filter (· ≠ .current) = List.replicate up .parent ++ down.map .name

lemma ofPart?_ne_current (part : List Char) : Component.ofPart? part ≠ some .current := by
  rw [Component.ofPart?]
  split_ifs <;> simp

/-- Parts that stay in place are no components. -/
lemma filter_partComponents (p : Path) :
    p.partComponents.filter (· ≠ .current) = p.partComponents := by
  apply List.filter_eq_self.mpr
  intro c hc
  obtain ⟨part, -, hpart⟩ := List.mem_filterMap.mp hc
  rw [decide_eq_true_eq]
  rintro rfl
  exact ofPart?_ne_current part hpart

/-- Apart from the dot at the start the components come from the parts. -/
lemma Descends.partComponents (h : p.Descends up down) :
    p.partComponents = List.replicate up .parent ++ down.map .name := by
  rw [← h.components, Path.components, h.relative, if_neg Bool.false_ne_true, List.filter_append]
  change _ = _ ++ p.partComponents.filter _
  rw [filter_partComponents]
  split_ifs <;> rfl

lemma components_join_of_descends (hp : p.isAbsolute) (h : q.Descends up down) :
    (p.join q).components = p.components ++ List.replicate up .parent ++ down.map .name := by
  rw [components_of_isAbsolute (isAbsolute_join hp), components_of_isAbsolute hp,
    partComponents_join h.relative, h.partComponents, List.append_assoc]
  rfl

/-! ### From one location to another -/

lemma startsAbove_ofComponents (cs : List Component) :
    (ofComponents (.parent :: cs)).startsAbove := by
  cases cs with
  | nil => decide
  | cons c cs =>
    let rest := "/".intercalate ((c :: cs).map Component.text)
    have htext : (ofComponents (.parent :: c :: cs)).text.toList =
        ['.', '.'] ++ '/' :: rest.toList := by
      simp [rest, ofComponents, Component.text, String.toList_intercalate]
    have hfields : fields '/' (['.', '.'] ++ '/' :: rest.toList) =
        ['.', '.'] :: fields '/' rest.toList :=
      fields_append_separator ['.', '.'] rest.toList
    rw [startsAbove, components, isAbsolute, htext, hfields]
    simp [Component.ofPart?]

lemma not_startsAbove_ofComponents {names : List String} (h : ∀ n ∈ names, IsName n) :
    (ofComponents (names.map .name)).startsAbove = false := by
  rw [startsAbove, components_ofComponents h]
  cases names <;> rfl

/-- Behind what both have in common, the way leads down from `r` to `l`, or it starts with a step
up. -/
lemma leadFrom?_dropCommon (l r : Location) :
    (∃ rest, l = r ++ rest ∧
        leadFrom? (dropCommon (l.map .name) (r.map .name)).1
          (dropCommon (l.map .name) (r.map .name)).2 = some (rest.map .name)) ∨
      ((¬ ∃ rest, l = r ++ rest) ∧ ∃ cs,
        leadFrom? (dropCommon (l.map .name) (r.map .name)).1
          (dropCommon (l.map .name) (r.map .name)).2 = some (.parent :: cs)) := by
  induction r generalizing l with
  | nil =>
    refine Or.inl ⟨l, rfl, ?_⟩
    cases l <;> rfl
  | cons b r ih =>
    cases l with
    | nil => exact Or.inr ⟨by simp, _, rfl⟩
    | cons a l =>
      by_cases hab : a = b
      · subst hab
        simpa [dropCommon] using ih l
      · refine Or.inr ⟨?_, r.map (fun _ => .parent) ++ .name a :: l.map .name, ?_⟩
        · rintro ⟨rest, hrest⟩
          exact hab (List.cons.inj hrest).1
        · simp [dropCommon, hab, leadFrom?, Function.comp_def]

/-- Of two locations one is told by the names behind the other, or by a way that starts with a step
up. -/
lemma relativeTo?_cases {l r : Location} (hp : p.components = .root :: l.map .name)
    (hq : q.components = .root :: r.map .name) :
    (∃ rest, l = r ++ rest ∧ p.relativeTo? q = some (.ofComponents (rest.map .name))) ∨
      ((¬ ∃ rest, l = r ++ rest) ∧ ∃ cs, p.relativeTo? q = some (.ofComponents (.parent :: cs))) := by
  have hcommon : dropCommon p.components q.components =
      dropCommon (l.map .name) (r.map .name) := by
    rw [hp, hq, dropCommon, if_pos rfl]
  have habs : p.isAbsolute = q.isAbsolute :=
    (isAbsolute_of_components hp).trans (isAbsolute_of_components hq).symm
  rw [relativeTo?, if_pos habs]
  dsimp only
  rw [hcommon]
  rcases leadFrom?_dropCommon l r with ⟨rest, hrest, hlead⟩ | ⟨hnone, cs, hlead⟩
  · exact Or.inl ⟨rest, hrest, by rw [hlead, Option.map_some]⟩
  · exact Or.inr ⟨hnone, cs, by rw [hlead, Option.map_some]⟩

/-! ### Plain paths -/

/-- A plain path goes on from the directory from which it is seen, unless it is absolute. -/
lemma components_join_of_isPlain (hp : p.isAbsolute) (hq : q.IsPlain) :
    (p.join q).components = if q.isAbsolute then q.components else p.components ++ q.components := by
  split_ifs with habs
  · rw [join_of_isAbsolute habs]
  · obtain ⟨names, -, hnames⟩ := hq.exists_names
    rw [if_neg habs, List.nil_append] at hnames
    rw [components_join hp hnames, hnames]

/-- A plain path that is seen from a plain one is plain. -/
lemma IsPlain.join (hp : p.IsPlain) (hq : q.IsPlain) (habs : p.isAbsolute) :
    (p.join q).IsPlain := by
  obtain ⟨hcurrent, hparent⟩ := hp
  obtain ⟨hcurrent', hparent'⟩ := hq
  rw [IsPlain, components_join_of_isPlain habs ⟨hcurrent', hparent'⟩]
  split_ifs
  · exact ⟨hcurrent', hparent'⟩
  · simp [hcurrent, hcurrent', hparent, hparent']

end Path

end LicenseHeader
