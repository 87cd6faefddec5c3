import LicenseHeader.Path.Basic
import Mathlib.Data.List.Basic
import Mathlib.Tactic.Lemma

/-!
# The components of paths

A path that consists of names only can be put together from them and taken apart again, and it can
be joined to any absolute path, whose components then come first.
-/

namespace LicenseHeader

namespace Text

variable {separator : Char} {cs : List Char}

/-- At a separator the parts of a text come apart. -/
lemma fields_append_separator (as bs : List Char) :
    fields separator (as ++ separator :: bs) = fields separator as ++ fields separator bs := by
  induction as with
  | nil =>
    obtain ⟨f, fs, hf⟩ := List.exists_cons_of_ne_nil (fields_ne_nil separator bs)
    simp [fields, hf]
  | cons a as ih =>
    obtain ⟨f, fs, hf⟩ := List.exists_cons_of_ne_nil (fields_ne_nil separator as)
    by_cases ha : a = separator
    · simp [fields, ih, hf, ha]
    · simp [fields, ih, hf, ha]

lemma fields_of_notMem (h : separator ∉ cs) : fields separator cs = [cs] := by
  induction cs with
  | nil => rfl
  | cons c cs ih =>
    rw [List.mem_cons, not_or] at h
    simp [fields, ih h.2, Ne.symm h.1]

/-- Parts without a separator are the fields of the text that is put together from them. -/
lemma fields_intercalate {parts : List (List Char)} (hne : parts ≠ [])
    (h : ∀ part ∈ parts, separator ∉ part) :
    fields separator ([separator].intercalate parts) = parts := by
  induction parts with
  | nil => exact absurd rfl hne
  | cons part parts ih =>
    have hpart := h part List.mem_cons_self
    cases parts with
    | nil => simpa using fields_of_notMem hpart
    | cons next parts =>
      rw [List.intercalate_cons_cons, List.append_assoc, List.singleton_append,
        fields_append_separator, fields_of_notMem hpart, ih (List.cons_ne_nil _ _)]
      · rfl
      · intro part' hpart'
        exact h part' (List.mem_cons_of_mem _ hpart')

/-- No field holds the separator. -/
lemma notMem_of_mem_fields {part : List Char} (h : part ∈ fields separator cs) :
    separator ∉ part := by
  induction cs generalizing part with
  | nil =>
    rw [fields, List.mem_singleton] at h
    simp [h]
  | cons c cs ih =>
    obtain ⟨f, fs, hf⟩ := List.exists_cons_of_ne_nil (fields_ne_nil separator cs)
    have hfirst := ih (hf ▸ List.mem_cons_self)
    have hrest : ∀ part ∈ fs, separator ∉ part := fun part hpart =>
      ih (hf ▸ List.mem_cons_of_mem f hpart)
    simp only [fields, hf] at h
    split_ifs at h with hc
    · rcases List.mem_cons.mp h with rfl | h
      · simp
      · rcases List.mem_cons.mp h with rfl | h
        · exact hfirst
        · exact hrest part h
    · rcases List.mem_cons.mp h with rfl | h
      · rw [List.mem_cons, not_or]
        exact ⟨Ne.symm hc, hfirst⟩
      · exact hrest part h

end Text

namespace Path

open Text

variable {p q : Path} {names : List String}

/-- Whether a text can be the name of an entry in a directory. -/
def IsName (n : String) : Prop :=
  n ≠ "" ∧ n ≠ "." ∧ n ≠ ".." ∧ '/' ∉ n.toList

instance (n : String) : Decidable (IsName n) :=
  inferInstanceAs (Decidable (_ ∧ _))

lemma IsName.toList_ne_nil {n : String} (h : IsName n) : n.toList ≠ [] := by
  intro hnil
  exact h.1 (String.toList_eq_nil_iff.mp hnil)

lemma IsName.ofPart? {n : String} (h : IsName n) :
    Component.ofPart? n.toList = some (.name n) := by
  have hcurrent : n.toList ≠ ['.'] := fun heq => h.2.1 (String.toList_inj.mp heq)
  have hparent : n.toList ≠ ['.', '.'] := fun heq => h.2.2.1 (String.toList_inj.mp heq)
  simp [Component.ofPart?, h.toList_ne_nil, hcurrent, hparent]

/-! ### Joined paths -/

/-- The components that come from the parts between the separators. -/
def partComponents (p : Path) : List Component :=
  (fields '/' p.text.toList).filterMap Component.ofPart?

lemma components_of_isAbsolute (h : p.isAbsolute) :
    p.components = .root :: p.partComponents := by
  simp [components, partComponents, h]

/-- A path that consists of names is relative and does not start with a dot. -/
lemma components_eq_partComponents (h : p.components = names.map .name) :
    p.isAbsolute = false ∧ p.components = p.partComponents := by
  rw [components] at h ⊢
  split_ifs at h ⊢ with habs hdot
  · cases names <;> simp at h
  · cases names <;> simp at h
  · exact ⟨Bool.eq_false_iff.mpr habs, rfl⟩

/-- A path that starts anywhere else goes on behind the components of the first one. -/
lemma partComponents_join (h : q.isAbsolute = false) :
    (p.join q).partComponents = p.partComponents ++ q.partComponents := by
  rw [join, if_neg (by simp [h])]
  split_ifs with hlast
  · cases hp : p.text.toList.getLast? with
    | none =>
      have hnil := List.getLast?_eq_none_iff.mp hp
      simp [partComponents, hnil, fields, Component.ofPart?]
    | some c =>
      obtain ⟨start, hstart⟩ := List.getLast?_eq_some_iff.mp hp
      obtain rfl : c = '/' := by simpa [hp] using hlast
      simp [partComponents, hstart, fields_append_separator, fields, Component.ofPart?]
  · simp [partComponents, fields_append_separator]

lemma isAbsolute_join (h : p.isAbsolute) : (p.join q).isAbsolute := by
  have hhead : p.text.toList.head? = some '/' := by simpa [isAbsolute] using h
  rw [join]
  split_ifs with hq
  · exact hq
  · simp [isAbsolute, hhead]
  · simp [isAbsolute, hhead]

/-- Behind an absolute path come the names of the path that is joined to it. -/
lemma components_join (hp : p.isAbsolute) (hq : q.components = names.map .name) :
    (p.join q).components = p.components ++ names.map .name := by
  obtain ⟨hrelative, hparts⟩ := components_eq_partComponents hq
  rw [components_of_isAbsolute (isAbsolute_join hp), components_of_isAbsolute hp,
    partComponents_join hrelative, ← hparts, hq, List.cons_append]

/-! ### Paths from names -/

lemma toList_text_ofComponents (names : List String) :
    (ofComponents (names.map .name)).text.toList = ['/'].intercalate (names.map String.toList) := by
  have htext : (ofComponents (names.map .name)).text =
      "/".intercalate ((names.map Component.name).map Component.text) := by
    cases names <;> rfl
  have hnames : (names.map Component.name).map Component.text = names := by
    rw [List.map_map]
    exact List.map_id names
  rw [htext, hnames, String.toList_intercalate]
  rfl

lemma filterMap_ofPart? (h : ∀ n ∈ names, IsName n) :
    (names.map String.toList).filterMap Component.ofPart? = names.map .name := by
  rw [List.filterMap_map, ← List.filterMap_eq_map]
  apply List.filterMap_congr
  intro n hn
  exact (h n hn).ofPart?

/-- The components of a way are the names that it was made of. -/
lemma components_ofComponents (h : ∀ n ∈ names, IsName n) :
    (ofComponents (names.map .name)).components = names.map .name := by
  cases names with
  | nil => decide
  | cons first rest =>
    have hfirst := h first List.mem_cons_self
    have hdot : first.toList ≠ ['.'] := fun heq => hfirst.2.1 (String.toList_inj.mp heq)
    have hrelative : (ofComponents ((first :: rest).map .name)).isAbsolute = false := by
      obtain ⟨c, cs, hc⟩ := List.exists_cons_of_ne_nil hfirst.toList_ne_nil
      have hslash : c ≠ '/' := by
        rintro rfl
        exact hfirst.2.2.2 (by simp [hc])
      rw [isAbsolute, toList_text_ofComponents]
      cases rest <;> simp [hc, hslash]
    have hfields : fields '/' (ofComponents ((first :: rest).map .name)).text.toList =
        (first :: rest).map String.toList := by
      rw [toList_text_ofComponents]
      apply fields_intercalate (by simp)
      intro part hpart
      obtain ⟨n, hn, rfl⟩ := List.mem_map.mp hpart
      exact (h n hn).2.2.2
    rw [components, hfields, filterMap_ofPart? h, hrelative, if_neg Bool.false_ne_true, if_neg]
    · rfl
    · simpa using hdot

/-! ### Plain paths -/

/-- What stands between two separators is a step up or a name, if it counts. -/
lemma eq_parent_or_name_of_mem {c : Component} (h : c ∈ p.partComponents) :
    c = .parent ∨ ∃ n, IsName n ∧ c = .name n := by
  obtain ⟨part, hpart, hc⟩ := List.mem_filterMap.mp h
  have hslash := notMem_of_mem_fields hpart
  rw [Component.ofPart?] at hc
  split_ifs at hc with hvoid hparent
  · exact Or.inl (Option.some.inj hc).symm
  · rw [not_or] at hvoid
    refine Or.inr ⟨String.ofList part, ⟨?_, ?_, ?_, ?_⟩, (Option.some.inj hc).symm⟩
    · exact fun heq => hvoid.1 (by simpa using congrArg String.toList heq)
    · exact fun heq => hvoid.2 (by simpa using congrArg String.toList heq)
    · exact fun heq => hparent (by simpa using congrArg String.toList heq)
    · simpa using hslash

lemma isAbsolute_of_components {cs : List Component} (h : p.components = .root :: cs) :
    p.isAbsolute := by
  by_contra habs
  rw [components, if_neg habs] at h
  split_ifs at h
  · cases h
  · change p.partComponents = _ at h
    have hroot : .root ∈ p.partComponents := h ▸ List.mem_cons_self
    rcases eq_parent_or_name_of_mem hroot with heq | ⟨n, -, heq⟩ <;> cases heq

/-- A path without steps that stay in place or lead up. -/
def IsPlain (p : Path) : Prop :=
  .current ∉ p.components ∧ .parent ∉ p.components

instance (p : Path) : Decidable p.IsPlain :=
  inferInstanceAs (Decidable (_ ∧ _))

lemma exists_names_of_forall {cs : List Component} (h : ∀ c ∈ cs, ∃ n, IsName n ∧ c = .name n) :
    ∃ names : List String, (∀ n ∈ names, IsName n) ∧ cs = names.map .name := by
  induction cs with
  | nil => exact ⟨[], by simp⟩
  | cons c cs ih =>
    obtain ⟨n, hn, rfl⟩ := h c List.mem_cons_self
    obtain ⟨names, hnames, rfl⟩ := ih fun c hc => h c (List.mem_cons_of_mem _ hc)
    exact ⟨n :: names, by simpa using ⟨hn, hnames⟩, rfl⟩

/-- A plain path consists of names, behind the root directory if it is absolute. -/
lemma IsPlain.exists_names (h : p.IsPlain) :
    ∃ names : List String, (∀ n ∈ names, IsName n) ∧
      p.components = (if p.isAbsolute then [.root] else []) ++ names.map .name := by
  obtain ⟨hcurrent, hparent⟩ := h
  have hparts : p.components = (if p.isAbsolute then [.root] else []) ++ p.partComponents := by
    rw [components] at hcurrent ⊢
    split_ifs at hcurrent ⊢
    · rfl
    · simp at hcurrent
    · rfl
  have hall : ∀ c ∈ p.partComponents, ∃ n, IsName n ∧ c = .name n := by
    intro c hc
    refine (eq_parent_or_name_of_mem hc).resolve_left ?_
    rintro rfl
    exact hparent (hparts ▸ List.mem_append_right _ hc)
  obtain ⟨names, hnames, heq⟩ := exists_names_of_forall hall
  exact ⟨names, hnames, heq ▸ hparts⟩

end Path

end LicenseHeader
