import LicenseHeader.Proofs.FileTree.Resolution

/-!
# Links on a way

A path never leads to a link. A way of names leads to the place that the names tell exactly if no
link stands on it; otherwise it leads elsewhere.
-/

namespace LicenseHeader.FileTree

open LicenseHeader.Path (Component)

variable {t : FileTree} {here l m : Location} {way : List Component} {names : List String}
  {links : Nat}

/-- No link stands on the way that starts at `here` and goes along some names. -/
def NoLinks (t : FileTree) (here : Location) (names : List String) : Prop :=
  ∀ n ≤ names.length, ∀ target, t.entry? (here ++ names.take n) ≠ some (.link target)

/-! ### The end of a way -/

lemma pass_of_leads {p : Passage} (h : t.Leads here way p) : t.pass here way = .ok p := by
  induction h with
  | nil here => rfl
  | root _ ih => exact ih
  | current _ ih => exact ih
  | parent _ ih => exact ih
  | enter he _ ih =>
    rw [pass]
    simp only [he, ih]
  | file he => simp [pass, he]
  | vacant he => simp [pass, he]
  | link he =>
    rw [pass]
    simp only [he]

lemma walk_of_walks {place : Place} (h : t.Walks links here way place) :
    t.walk links here way = .ok place := by
  induction h with
  | @ended links _ _ _ hlead => cases links <;> simp [walk, pass_of_leads hlead]
  | follow hlead _ ih => simp [walk, pass_of_leads hlead, ih]

/-- A way has only one end. -/
lemma Walks.unique {place place' : Place} (h : t.Walks links here way place)
    (h' : t.Walks links here way place') : place = place' :=
  Except.ok.inj ((walk_of_walks h).symm.trans (walk_of_walks h'))

/-- At the end of a way there is a directory or a file. -/
lemma Leads.stands (h : t.Leads here way (.ended (.present l))) (hhere : t.Entered here) :
    t.entry? l = some .directory ∨ ∃ c, t.entry? l = some (.file c) := by
  generalize hp : Passage.ended (.present l) = p at h
  induction h with
  | nil here =>
    cases hp
    exact Or.inl (eq_of_beq hhere.isDirectory)
  | root _ ih => exact ih (entered_nil t) hp
  | current _ ih => exact ih hhere hp
  | parent _ ih => exact ih hhere.dropLast hp
  | enter he _ ih => exact ih (hhere.concat he) hp
  | file he =>
    cases hp
    exact Or.inr ⟨_, he⟩
  | vacant _ => cases hp
  | link _ => cases hp

/-- Where a way ends there is a directory or a file, and never a link. -/
lemma Walks.stands (h : t.Walks links here way (.present l)) (hhere : t.Entered here) :
    t.entry? l = some .directory ∨ ∃ c, t.entry? l = some (.file c) := by
  generalize hplace : Place.present l = place at h
  induction h with
  | ended hlead =>
    subst hplace
    exact hlead.stands hhere
  | follow hlead _ ih => exact ih (hlead.sound hhere) hplace

lemma stands_of_resolve {p : Path} (h : t.resolve p = .ok l) :
    t.entry? l = some .directory ∨ ∃ c, t.entry? l = some (.file c) :=
  (walks_of_resolve h).stands (entered_nil t)

lemma not_link_of_resolve {p : Path} (h : t.resolve p = .ok l) (target : Path) :
    t.entry? l ≠ some (.link target) := by
  rcases stands_of_resolve h with hd | ⟨c, hc⟩
  · simp [hd]
  · simp [hc]

lemma contains_of_resolve {p : Path} (h : t.resolve p = .ok l) : t.contains p := by
  rw [contains, find?, h]
  rcases stands_of_resolve h with hd | ⟨c, hc⟩
  · simp [hd]
  · simp [hc]

/-! ### Ways of names -/

lemma NoLinks.tail {n : String} (h : t.NoLinks here (n :: names)) :
    t.NoLinks (here ++ [n]) names := by
  intro k hk target
  have := h (k + 1) (Nat.succ_le_succ hk) target
  simpa using this

/-- Without a link on it, a way of names ends at the place that the names tell. -/
lemma Walks.eq_append (h : t.Walks links here (names.map .name) (.present l))
    (hno : t.NoLinks here names) : l = here ++ names := by
  induction names generalizing here with
  | nil =>
    cases h with
    | ended hlead =>
      cases hlead
      simp
    | follow hlead _ => cases hlead
  | cons n names ih =>
    rw [List.map_cons] at h
    generalize hrest : List.map Component.name names = rest at h
    cases h with
    | ended hlead =>
      cases hlead with
      | enter _ hlead =>
        subst hrest
        simpa using ih (.ended hlead) hno.tail
      | file _ =>
        obtain rfl := List.map_eq_nil_iff.mp hrest
        rfl
    | follow hlead hwalk =>
      cases hlead with
      | enter _ hlead =>
        subst hrest
        simpa using ih (.follow hlead hwalk) hno.tail
      | link he => exact absurd he (by simpa using hno 1 (by simp) _)

/-- A way through directories is one without links, unless a link comes last. -/
lemma noLinks_of_reached (hreached : t.Reached (here ++ names))
    (hend : ∀ target, t.entry? (here ++ names) ≠ some (.link target)) : t.NoLinks here names := by
  intro n hn target
  rcases Nat.lt_or_ge n names.length with hlt | hge
  · have hdirectory := hreached (here.length + n) (by simpa using hlt)
    rw [List.take_length_add_append] at hdirectory
    intro hlink
    simp [isDirectory, hlink] at hdirectory
  · rw [List.take_of_length_le hge]
    exact hend target

/-- Seen from a directory, a path of names leads to the place that the names tell exactly if there
is no link on the way. -/
theorem eq_append_iff_noLinks {root q : Path} {r : Location} (hr : t.resolve root = .ok r)
    (hq : q.components = names.map .name) (hl : t.resolve (root.join q) = .ok l) :
    l = r ++ names ↔ t.NoLinks r names := by
  constructor
  · rintro rfl
    exact noLinks_of_reached (reached_of_resolve hl) (not_link_of_resolve hl)
  · intro hno
    have hroot := (walks_components_of_resolve hr).1
    have hwalk := (walks_components_of_resolve hl).1
    rw [Path.components_join (isAbsolute_of_resolve hr) hq] at hwalk
    rcases eq_or_ne names [] with rfl | hne
    · rw [List.map_nil, List.append_nil] at hwalk
      rw [List.append_nil]
      exact Place.present.inj (hwalk.unique hroot)
    · -- The way passes the end of the root's own way, and goes on from there along the names.
      obtain ⟨m, links, hm, -, hrest⟩ := hwalk.append_inv (by simpa using hne) (entered_nil t)
      cases hm.unique hroot
      exact hrest.eq_append hno

end LicenseHeader.FileTree
