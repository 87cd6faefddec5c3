import LicenseHeader.Proofs.FileTree.Links
import LicenseHeader.Proofs.Path.Relative

/-!
# Ways up and down

Names lead down through the directories that they tell, and steps up lead back again. Two ways to
write down the same way lead to the same place.
-/

namespace LicenseHeader.FileTree

open LicenseHeader.Path (Component)

variable {t : FileTree} {here l : Location} {names : List String} {p q : Path}

/-! ### Names -/

lemma Proper.isName_of_entry? (ht : t.Proper) {e : Entry} (h : t.entry? l = some e) :
    ∀ n ∈ l, Path.IsName n := by
  rcases eq_or_ne l [] with rfl | hl
  · simp
  · exact ht.isName (l, e) (mem_entries_of_eq_some hl h)

lemma Entered.isName (h : t.Entered l) (ht : t.Proper) : ∀ n ∈ l, Path.IsName n :=
  ht.isName_of_entry? (eq_of_beq h.isDirectory)

lemma Entered.components_path (h : t.Entered l) (ht : t.Proper) :
    l.path.components = .root :: l.map .name :=
  Path.components_path (h.isName ht)

/-- A path with a name at its end does not want a directory. -/
lemma not_wantsDirectory_of_isName {front : List Char} {n : String} (hn : Path.IsName n)
    (hp : p.text.toList = front ++ n.toList) : p.wantsDirectory = false := by
  have hslash : '/' ∉ n.toList := hn.2.2.2
  have hlast : p.endsWithSeparator = false := by
    rw [Path.endsWithSeparator, hp, List.getLast?_append_of_ne_nil _ hn.toList_ne_nil]
    apply beq_eq_false_iff_ne.mpr
    intro heq
    exact hslash (List.mem_of_getLast? heq)
  have hdot : ¬ ['/', '.'] <:+ front ++ n.toList := by
    rintro ⟨before, hbefore⟩
    rcases List.append_eq_append_iff.mp hbefore with ⟨middle, -, hmiddle⟩ | ⟨middle, -, hmiddle⟩
    · -- The name would be what is left of the two characters.
      match middle, hmiddle with
      | [], hmiddle =>
        rw [List.nil_append] at hmiddle
        exact hslash (hmiddle ▸ List.mem_cons_self)
      | [c], hmiddle =>
        obtain ⟨-, hn'⟩ := List.cons.inj hmiddle
        exact hn.2.1 (String.toList_inj.mp hn'.symm)
      | c :: d :: rest, hmiddle =>
        have hnil : rest ++ n.toList = [] := (List.cons.inj (List.cons.inj hmiddle).2).2.symm
        exact hn.toList_ne_nil (List.append_eq_nil_iff.mp hnil).2
    · exact hslash (by simp [hmiddle])
  rw [Path.wantsDirectory, hlast, hp, Bool.false_or, Bool.eq_false_iff]
  intro h
  exact hdot (List.isSuffixOf_iff_suffix.mp h)

/-- A path that ends with names is followed along these and no further. -/
lemma steps_join_ofComponents (hp : p.isAbsolute) (hne : names ≠ [])
    (hnames : ∀ n ∈ names, Path.IsName n) :
    (p.join (.ofComponents (names.map .name))).steps = p.components ++ names.map .name := by
  have hcomponents := Path.components_ofComponents hnames
  obtain ⟨front, hfront⟩ :=
    Path.exists_text_join p (Path.components_eq_partComponents hcomponents).1
  obtain ⟨names, last, rfl⟩ := (List.eq_nil_or_concat' names).resolve_left hne
  obtain ⟨front', hfront'⟩ :=
    Text.exists_intercalate_concat ['/'] (names.map String.toList) last.toList
  have htext : (p.join (.ofComponents ((names ++ [last]).map .name))).text.toList =
      front ++ front' ++ last.toList := by
    rw [hfront, Path.toList_text_ofComponents, List.map_append, List.map_singleton, hfront',
      List.append_assoc]
  rw [Path.steps, not_wantsDirectory_of_isName (hnames last (by simp)) htext,
    Path.components_join hp hcomponents]
  simp

/-! ### Ways -/

/-- Whoever is in a directory came through all directories above it. -/
lemma Entered.take (h : t.Entered l) (n : Nat) : t.Entered (l.take n) := by
  rcases Nat.lt_or_ge n l.length with hn | hn
  · constructor
    · intro k hk
      rw [List.length_take, Nat.lt_min] at hk
      rw [List.take_take, Nat.min_eq_left (Nat.le_of_lt hk.1)]
      exact h.reached k hk.2
    · exact h.reached n hn
  · rw [List.take_of_length_le hn]
    exact h

/-- The names of directories lead down to the last one of them. -/
lemma pass_names (h : t.Entered (here ++ names)) (way : List Component) :
    t.pass here (names.map .name ++ way) = t.pass (here ++ names) way := by
  induction names generalizing here with
  | nil => simp
  | cons n names ih =>
    have hassoc : here ++ n :: names = here ++ [n] ++ names := by simp
    rw [hassoc] at h ⊢
    have hd : t.entry? (here ++ [n]) = some .directory := by
      have := (h.take (here ++ [n]).length).isDirectory
      rw [List.take_left] at this
      exact eq_of_beq this
    rw [← ih h, List.map_cons, List.cons_append, pass]
    simp only [hd]

/-- The names of a directory lead to it. -/
lemma Entered.pass_names (h : t.Entered l) (way : List Component) :
    t.pass [] (l.map .name ++ way) = t.pass l way := by
  have h' : t.Entered ([] ++ l) := h
  exact FileTree.pass_names h' way

/-- Steps up lead to the directory that is so many names higher, and never above the root directory.
-/
lemma pass_parents (here : Location) (up : Nat) (way : List Component) :
    t.pass here (List.replicate up .parent ++ way) = t.pass (here.take (here.length - up)) way := by
  induction up generalizing here with
  | zero => simp
  | succ up ih =>
    rw [List.replicate_succ, List.cons_append, pass, ih, List.dropLast_eq_take, List.take_take,
      List.length_take]
    congr 2
    omega

lemma walk_congr {here' : Location} {way way' : List Component}
    (h : t.pass here way = t.pass here' way') (links : Nat) :
    t.walk links here way = t.walk links here' way' := by
  cases links with
  | zero => rw [walk, walk, h]
  | succ links => rw [walk, walk, h]

/-- Paths that go the same way up to the first link lead to the same place. -/
lemma resolve_congr (hp : p.isAbsolute) (hq : q.isAbsolute)
    (h : t.pass [] p.steps = t.pass [] q.steps) : t.resolve p = t.resolve q := by
  rw [resolve, resolve, place, place, if_pos hp, if_pos hq, walk_congr h]

/-! ### Locations -/

lemma isAbsolute_path (l : Location) : l.path.isAbsolute := by
  simp [Location.path, Path.ofComponents, Path.isAbsolute]

/-- The way of an absolute path that tells the names of a directory. -/
lemma Entered.resolve_of_components (h : t.Entered l) (hp : p.isAbsolute)
    (hl : p.components = .root :: l.map .name) : t.resolve p = .ok l := by
  have hpass : t.pass [] p.steps = .ok (.ended (.present l)) := by
    rw [Path.steps, hl, List.cons_append, pass, h.pass_names]
    split_ifs <;> rfl
  rw [resolve, place, if_pos hp, linkLimit, walk, hpass]

/-- A path that leads nowhere stays as it is, and so does the way to the root directory. -/
lemma components_canonical (hp : p.isAbsolute) (h : t.contains p → p.components = [.root]) :
    (t.canonical p).components = p.components := by
  rw [canonical]
  cases hl : t.resolve p with
  | error fault => rfl
  | ok l =>
    have hroot := h (contains_of_resolve hl)
    cases hl.symm.trans ((entered_nil t).resolve_of_components hp hroot)
    rw [hroot]
    exact Path.components_path (by simp)

/-- The names of a file that is reached through directories lead to it. -/
lemma Reached.pass_of_file (h : t.Reached l) {c : ByteArray} (hc : t.entry? l = some (.file c)) :
    t.pass [] (l.map .name) = .ok (.ended (.present l)) := by
  rcases List.eq_nil_or_concat' l with rfl | ⟨front, n, rfl⟩
  · simp at hc
  · have hfront : t.Entered front := by
      constructor
      · intro k hk
        have := h k (by simp; omega)
        rwa [List.take_append_of_le_length (Nat.le_of_lt hk)] at this
      · simpa using h front.length (by simp)
    rw [List.map_append, List.map_singleton, hfront.pass_names, pass]
    simp [hc]

end LicenseHeader.FileTree
