import LicenseHeader.Proofs.FileTree.Entries

/-!
# The ways in a tree

Resolving a path looks at directories and links, but not at the content of a file, so that trees
which are alike in this sense resolve every path alike. On its way a resolution enters directories
only; a path that wants a directory therefore never leads to a file.
-/

namespace LicenseHeader.FileTree

open LicenseHeader.Path (Component)

variable {t t' u : FileTree} {here l m : Location} {way rest : List Component}

/-! ### Trees that are alike -/

/-- Two trees differ in the contents of their files at most. -/
structure Alike (t t' : FileTree) : Prop where
  entry? : ∀ l, t.entry? l = t'.entry? l ∨
    ∃ c c', t.entry? l = some (.file c) ∧ t'.entry? l = some (.file c')
  locked : t.locked = t'.locked

lemma Alike.refl (t : FileTree) : Alike t t := ⟨fun _ => Or.inl rfl, rfl⟩

lemma Alike.symm (h : Alike t t') : Alike t' t := by
  refine ⟨fun l => ?_, h.locked.symm⟩
  rcases h.entry? l with heq | ⟨c, c', hc, hc'⟩
  · exact Or.inl heq.symm
  · exact Or.inr ⟨c', c, hc', hc⟩

lemma Alike.trans (h : Alike t t') (h' : Alike t' u) : Alike t u := by
  refine ⟨fun l => ?_, h.locked.trans h'.locked⟩
  rcases h.entry? l with heq | ⟨c, c', hc, hc'⟩
  · rw [heq]
    exact h'.entry? l
  · rcases h'.entry? l with heq' | ⟨d, d', -, hd'⟩
    · exact Or.inr ⟨c, c', hc, heq' ▸ hc'⟩
    · exact Or.inr ⟨c, d', hc, hd'⟩

lemma Alike.exists_file (h : Alike t t') {c : ByteArray} (hc : t.entry? l = some (.file c)) :
    ∃ c', t'.entry? l = some (.file c') := by
  rcases h.entry? l with heq | ⟨-, c', -, hc'⟩
  · exact ⟨c, heq ▸ hc⟩
  · exact ⟨c', hc'⟩

/-- A file with another content is a file. -/
lemma alike_put {c : ByteArray} (h : t.entry? l = some (.file c)) (c' : ByteArray) :
    Alike t (t.put l (.file c')) := by
  have hl : l ≠ [] := by
    rintro rfl
    simp at h
  refine ⟨fun m => ?_, rfl⟩
  rcases eq_or_ne m l with rfl | hm
  · exact Or.inr ⟨c, c', h, entry?_put_self hl⟩
  · exact Or.inl (entry?_put_of_ne hm).symm

lemma Alike.isDirectory (h : Alike t t') (l : Location) : t.isDirectory l = t'.isDirectory l := by
  rcases h.entry? l with heq | ⟨c, c', hc, hc'⟩
  · rw [FileTree.isDirectory, FileTree.isDirectory, heq]
  · rw [FileTree.isDirectory, FileTree.isDirectory, hc, hc']
    rfl

/-- A way does not depend on what the files hold. -/
lemma Alike.pass (h : Alike t t') (here : Location) (way : List Component) :
    t.pass here way = t'.pass here way := by
  induction way generalizing here with
  | nil => rfl
  | cons step way ih =>
    cases step with
    | root => exact ih []
    | current => exact ih here
    | parent => exact ih here.dropLast
    | name n =>
      rw [FileTree.pass, FileTree.pass]
      rcases h.entry? (here ++ [n]) with heq | ⟨c, c', hc, hc'⟩
      · simp only [heq, ih]
      · simp only [hc, hc']

/-- Not even links lead elsewhere when files change. -/
lemma Alike.walk (h : Alike t t') (links : Nat) (here : Location) (way : List Component) :
    t.walk links here way = t'.walk links here way := by
  induction links generalizing here way with
  | zero => rw [FileTree.walk, FileTree.walk, h.pass]
  | succ links ih =>
    rw [FileTree.walk, FileTree.walk, h.pass]
    simp only [ih]

lemma Alike.place (h : Alike t t') (p : Path) : t.place p = t'.place p := by
  rw [FileTree.place, FileTree.place, h.walk]

lemma Alike.resolve (h : Alike t t') (p : Path) : t.resolve p = t'.resolve p := by
  rw [FileTree.resolve, FileTree.resolve, h.place]

lemma Alike.writeTarget (h : Alike t t') (p : Path) : t.writeTarget p = t'.writeTarget p := by
  simp only [FileTree.writeTarget, h.walk, h.place, h.isDirectory, h.locked]

lemma Alike.contains (h : Alike t t') (p : Path) : t.contains p = t'.contains p := by
  rw [FileTree.contains, FileTree.contains, find?, find?, ← h.resolve p]
  cases t.resolve p with
  | error fault => rfl
  | ok l =>
    rcases h.entry? l with heq | ⟨c, c', hc, hc'⟩
    · simp only [heq]
    · simp only [hc, hc', Option.isSome_some]

lemma Alike.isFile (h : Alike t t') (p : Path) : t.isFile p = t'.isFile p := by
  rw [FileTree.isFile, FileTree.isFile, find?, find?, ← h.resolve p]
  cases t.resolve p with
  | error fault => rfl
  | ok l =>
    rcases h.entry? l with heq | ⟨c, c', hc, hc'⟩
    · simp only [heq]
    · simp only [hc, hc']

/-! ### Directories on a way -/

/-- All locations on the way to a location are directories. -/
def Reached (t : FileTree) (l : Location) : Prop :=
  ∀ n < l.length, t.isDirectory (l.take n)

/-- A directory to which a way leads. -/
structure Entered (t : FileTree) (l : Location) : Prop where
  reached : t.Reached l
  isDirectory : t.isDirectory l

lemma entered_nil (t : FileTree) : t.Entered [] := by
  constructor
  · intro n hn
    simp at hn
  · simp [isDirectory]

lemma Reached.dropLast (h : t.Reached l) : t.Reached l.dropLast := by
  intro n hn
  rw [List.length_dropLast] at hn
  rw [List.dropLast_eq_take, List.take_take, Nat.min_eq_left (Nat.le_of_lt hn)]
  exact h n (by omega)

lemma Entered.dropLast (h : t.Entered here) : t.Entered here.dropLast := by
  rcases eq_or_ne here [] with rfl | hne
  · exact h
  · have hlt : here.length - 1 < here.length := by
      have := List.length_pos_iff.mpr hne
      omega
    refine ⟨h.reached.dropLast, ?_⟩
    rw [List.dropLast_eq_take]
    exact h.reached _ hlt

/-- From a directory one comes to all that stands in it. -/
lemma Entered.reached_concat (h : t.Entered here) (n : String) : t.Reached (here ++ [n]) := by
  intro k hk
  rw [List.length_append, List.length_singleton] at hk
  rw [List.take_append_of_le_length (by omega)]
  rcases Nat.lt_or_ge k here.length with hlt | hge
  · exact h.reached k hlt
  · rw [List.take_of_length_le hge]
    exact h.isDirectory

lemma Entered.concat (h : t.Entered here) {n : String}
    (hn : t.entry? (here ++ [n]) = some .directory) : t.Entered (here ++ [n]) := by
  constructor
  · exact h.reached_concat n
  · simp [FileTree.isDirectory, hn]

/-! ### Ways -/

/-- How a way goes on from a directory up to its end or to the first link on it. -/
inductive Leads (t : FileTree) : Location → List Component → Passage → Prop
  | nil (here : Location) : Leads t here [] (.ended (.present here))
  | root {here way p} : Leads t [] way p → Leads t here (.root :: way) p
  | current {here way p} : Leads t here way p → Leads t here (.current :: way) p
  | parent {here way p} : Leads t here.dropLast way p → Leads t here (.parent :: way) p
  | enter {here n way p} : t.entry? (here ++ [n]) = some .directory →
      Leads t (here ++ [n]) way p → Leads t here (.name n :: way) p
  | file {here n c} : t.entry? (here ++ [n]) = some (.file c) →
      Leads t here [.name n] (.ended (.present (here ++ [n])))
  | vacant {here n} : t.entry? (here ++ [n]) = none →
      Leads t here [.name n] (.ended (.vacant (here ++ [n])))
  | link {here n way target} : t.entry? (here ++ [n]) = some (.link target) →
      Leads t here (.name n :: way) (.atLink here target way)

/-- How a way goes on to its end, when so many links may be followed. -/
inductive Walks (t : FileTree) : Nat → Location → List Component → Place → Prop
  | ended {links here way place} : t.Leads here way (.ended place) → Walks t links here way place
  | follow {links here way m target rest place} : t.Leads here way (.atLink m target rest) →
      Walks t links m (target.steps ++ rest) place → Walks t (links + 1) here way place

/-- Induction on the components, one case for each kind of step and what stands there. -/
lemma leads_of_pass {p : Passage} (h : t.pass here way = .ok p) : t.Leads here way p := by
  induction way generalizing here with
  | nil =>
    cases h
    exact .nil here
  | cons step way ih =>
    cases step with
    | root => exact .root (ih h)
    | current => exact .current (ih h)
    | parent => exact .parent (ih h)
    | name n =>
      rw [FileTree.pass] at h
      cases he : t.entry? (here ++ [n]) with
      | none =>
        simp only [he] at h
        split_ifs at h with hway
        cases h
        exact hway ▸ .vacant he
      | some e =>
        cases e with
        | directory =>
          simp only [he] at h
          exact .enter he (ih h)
        | file c =>
          simp only [he] at h
          split_ifs at h with hway
          cases h
          exact hway ▸ .file he
        | link target =>
          simp only [he] at h
          cases h
          exact .link he

/-- Induction on the number of links that may be followed. -/
lemma walks_of_walk {links : Nat} {place : Place} (h : t.walk links here way = .ok place) :
    t.Walks links here way place := by
  induction links generalizing here way with
  | zero =>
    rw [FileTree.walk] at h
    split at h
    · cases h
    case h_2 hp =>
      cases h
      exact .ended (leads_of_pass hp)
    · cases h
  | succ links ih =>
    rw [FileTree.walk] at h
    split at h
    · cases h
    case h_2 hp =>
      cases h
      exact .ended (leads_of_pass hp)
    case h_3 hp => exact .follow (leads_of_pass hp) (ih h)

/-- What stands at the end of a way, or at a link on it, is reached through directories. -/
def Passage.Sound (t : FileTree) : Passage → Prop
  | .ended (.present l) => t.Reached l
  | .ended (.vacant l) => t.Reached l
  | .atLink m _ _ => t.Entered m

lemma Leads.sound {p : Passage} (h : t.Leads here way p) (hhere : t.Entered here) :
    Passage.Sound t p := by
  induction h with
  | nil here => exact hhere.reached
  | root _ ih => exact ih (entered_nil t)
  | current _ ih => exact ih hhere
  | parent _ ih => exact ih hhere.dropLast
  | enter he _ ih => exact ih (hhere.concat he)
  | file _ => exact hhere.reached_concat _
  | vacant _ => exact hhere.reached_concat _
  | link _ => exact hhere

/-- A way from a directory ends below directories. -/
lemma Walks.reached {links : Nat} (h : t.Walks links here way (.present l))
    (hhere : t.Entered here) : t.Reached l := by
  generalize hplace : Place.present l = place at h
  induction h with
  | ended hlead =>
    subst hplace
    exact hlead.sound hhere
  | follow hlead _ ih => exact ih (hlead.sound hhere) hplace

/-- A way that goes on goes on from a directory, or from the first link on it. -/
lemma Leads.append_inv {p : Passage} (h : t.Leads here (way ++ rest) p) (hrest : rest ≠ [])
    (hhere : t.Entered here) :
    (∃ m, t.Leads here way (.ended (.present m)) ∧ t.Entered m ∧ t.Leads m rest p) ∨
      ∃ m target way', t.Leads here way (.atLink m target way') ∧
        p = .atLink m target (way' ++ rest) := by
  induction way generalizing here with
  | nil => exact Or.inl ⟨here, .nil here, hhere, h⟩
  | cons step way ih =>
    rw [List.cons_append] at h
    generalize hall : step :: (way ++ rest) = all at h
    cases h with
    | nil => simp at hall
    | root h =>
      obtain ⟨rfl, rfl⟩ := List.cons.inj hall
      rcases ih h (entered_nil t) with ⟨m, hm, hd, hr⟩ | ⟨m, target, way', hm, hp⟩
      · exact Or.inl ⟨m, .root hm, hd, hr⟩
      · exact Or.inr ⟨m, target, way', .root hm, hp⟩
    | current h =>
      obtain ⟨rfl, rfl⟩ := List.cons.inj hall
      rcases ih h hhere with ⟨m, hm, hd, hr⟩ | ⟨m, target, way', hm, hp⟩
      · exact Or.inl ⟨m, .current hm, hd, hr⟩
      · exact Or.inr ⟨m, target, way', .current hm, hp⟩
    | parent h =>
      obtain ⟨rfl, rfl⟩ := List.cons.inj hall
      rcases ih h hhere.dropLast with ⟨m, hm, hd, hr⟩ | ⟨m, target, way', hm, hp⟩
      · exact Or.inl ⟨m, .parent hm, hd, hr⟩
      · exact Or.inr ⟨m, target, way', .parent hm, hp⟩
    | enter he h =>
      obtain ⟨rfl, rfl⟩ := List.cons.inj hall
      rcases ih h (hhere.concat he) with ⟨m, hm, hd, hr⟩ | ⟨m, target, way', hm, hp⟩
      · exact Or.inl ⟨m, .enter he hm, hd, hr⟩
      · exact Or.inr ⟨m, target, way', .enter he hm, hp⟩
    | file _ | vacant _ => simp [hrest] at hall
    | link he =>
      obtain ⟨rfl, rfl⟩ := List.cons.inj hall
      exact Or.inr ⟨here, _, way, .link he, rfl⟩

/-- A way that goes on behind its first part comes by a directory in between. -/
lemma Walks.append_inv {links : Nat} {place : Place} (h : t.Walks links here (way ++ rest) place)
    (hrest : rest ≠ []) (hhere : t.Entered here) :
    ∃ m links', t.Walks links here way (.present m) ∧ t.Entered m ∧
      t.Walks links' m rest place := by
  generalize hall : way ++ rest = all at h
  induction h generalizing way with
  | @ended links _ _ _ hlead =>
    subst hall
    rcases hlead.append_inv hrest hhere with ⟨m, hm, hd, hr⟩ | ⟨m, target, way', -, hp⟩
    · exact ⟨m, links, .ended hm, hd, .ended hr⟩
    · cases hp
  | @follow links _ _ m' _ _ _ hlead hwalk ih =>
    subst hall
    rcases hlead.append_inv hrest hhere with ⟨m, hm, hd, hr⟩ | ⟨m, target, way', hm, hp⟩
    · exact ⟨m, links + 1, .ended hm, hd, .follow hr hwalk⟩
    · cases hp
      obtain ⟨d, links', hw, hd, hr⟩ := ih (hm.sound hhere) (List.append_assoc _ _ _)
      exact ⟨d, links', .follow hm hw, hd, hr⟩

/-! ### Paths -/

lemma isFile_iff {p : Path} :
    t.isFile p ↔ ∃ l c, t.resolve p = .ok l ∧ t.entry? l = some (.file c) := by
  rw [FileTree.isFile, FileTree.find?]
  constructor
  · intro h
    split at h
    case h_1 c hc =>
      split at hc
      case h_1 l hl => exact ⟨l, c, hl, hc⟩
      case h_2 => cases hc
    case h_2 => cases h
  · rintro ⟨l, c, hl, hc⟩
    simp only [hl, hc]

lemma walks_of_resolve {p : Path} (h : t.resolve p = .ok l) :
    t.Walks linkLimit [] p.steps (.present l) := by
  rw [FileTree.resolve] at h
  split at h
  case h_1 hplace =>
    cases h
    rw [FileTree.place] at hplace
    split_ifs at hplace
    exact walks_of_walk hplace
  · cases h
  · cases h

lemma isAbsolute_of_resolve {p : Path} (h : t.resolve p = .ok l) : p.isAbsolute := by
  by_contra habs
  rw [FileTree.resolve, FileTree.place, if_neg habs] at h
  cases h

lemma place_of_resolve {p : Path} (h : t.resolve p = .ok l) : t.place p = .ok (.present l) := by
  rw [FileTree.resolve] at h
  split at h
  case h_1 hplace =>
    cases h
    exact hplace
  · cases h
  · cases h

lemma reached_of_resolve {p : Path} (h : t.resolve p = .ok l) : t.Reached l :=
  (walks_of_resolve h).reached (entered_nil t)

/-- A path is followed to the end of its components, where it stays. -/
lemma walks_components_of_resolve {p : Path} (h : t.resolve p = .ok l) :
    t.Walks linkLimit [] p.components (.present l) ∧
      (p.wantsDirectory → t.isDirectory l) := by
  have hwalk := walks_of_resolve h
  rw [Path.steps] at hwalk
  split_ifs at hwalk with hwants
  · obtain ⟨m, links, hm, hd, hstay⟩ := hwalk.append_inv (by simp) (entered_nil t)
    have hml : m = l := by
      cases hstay with
      | ended hlead =>
        cases hlead with
        | current hlead =>
          cases hlead
          rfl
      | follow hlead _ =>
        cases hlead with
        | current hlead => cases hlead
    subst hml
    exact ⟨hm, fun _ => hd.isDirectory⟩
  · rw [List.append_nil] at hwalk
    exact ⟨hwalk, fun hw => absurd hw hwants⟩

end LicenseHeader.FileTree
