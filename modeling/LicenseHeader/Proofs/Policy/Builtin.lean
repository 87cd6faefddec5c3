import LicenseHeader.Proofs.Policy.Compilation

/-!
# The builtin rules on every path

No path is covered by two rows of the builtin table, so that their order does not matter. What the
builtin rules say can be read off the end of a path, or off the whole path for the few files at the
root that need no header.
-/

namespace LicenseHeader

open Policy (builtinTable)

variable {path : Path} {row row' : Row}

/-! ### Ends of paths -/

/-- Whether a path is written with some characters at its end. -/
def Path.EndsWith (path : Path) (ending : String) : Prop :=
  ending.toList <:+ path.text.toList

/-- The characters behind the star that may stand in front of a pattern. -/
def Row.ending (row : Row) : List Char :=
  if row.1.toList.head? = some '*' then row.1.toList.tail else row.1.toList

/-- A path that a simple row covers ends with the characters behind its star. -/
lemma Row.IsSimple.ending_suffix (h : row.IsSimple) (hcovers : Covers row.1 path) :
    row.ending <:+ path.text.toList := by
  rw [Row.ending]
  split_ifs with hstar
  · have hpattern := List.eq_cons_of_mem_head? hstar
    rcases h with h | ⟨-, h⟩
    · exact absurd rfl (h '*' (List.mem_of_mem_head? hstar)).2.1
    · exact (covers_iff_of_star hpattern h).mp hcovers
  · rcases h with h | ⟨hstar', -⟩
    · exact (covers_iff_of_isPlain h).mp hcovers ▸ List.suffix_rfl
    · exact absurd hstar' hstar

namespace Policy

lemma eq_of_ending_suffix :
    ∀ row ∈ builtinTable, ∀ row' ∈ builtinTable,
      Row.ending row <:+ Row.ending row' → row = row' := by
  decide

/-- No path is covered by two builtin rows. -/
lemma eq_of_covers (hrow : row ∈ builtinTable) (hrow' : row' ∈ builtinTable)
    (hcovers : Covers row.1 path) (hcovers' : Covers row'.1 path) : row = row' := by
  have hend := (isSimple_of_mem_builtinTable row hrow).ending_suffix hcovers
  have hend' := (isSimple_of_mem_builtinTable row' hrow').ending_suffix hcovers'
  rcases List.suffix_or_suffix_of_suffix hend hend' with h | h
  · exact eq_of_ending_suffix row hrow row' hrow' h
  · exact (eq_of_ending_suffix row' hrow' row hrow h).symm

/-- No two builtin rows cover one path, so their order does not matter. -/
lemma firstRow?_builtinTable_eq_some_iff :
    firstRow? builtinTable path = some row ↔ row ∈ builtinTable ∧ Covers row.1 path := by
  constructor
  · intro h
    exact ⟨List.mem_of_find?_eq_some h, by simpa using List.find?_some h⟩
  · rintro ⟨hrow, hcovers⟩
    cases hfirst : firstRow? builtinTable path with
    | none =>
      have hnone := List.find?_eq_none.mp hfirst row hrow
      simp [hcovers] at hnone
    | some row' =>
      have hcovers' : Covers row'.1 path := by simpa using List.find?_some hfirst
      rw [eq_of_covers (List.mem_of_find?_eq_some hfirst) hrow hcovers' hcovers]

/-! ### What the builtin rules say -/

/-- The ends of paths for which there is a builtin style, with its marker. -/
def styledEndings : List (String × String) :=
  [(".rs", "//"), (".md", ""), (".yml", "#"), (".yaml", "#"), (".py", "#"), (".sh", "#")]

/-- The files that need no header; each of them is exempt at the root of the workspace only. -/
def exemptNames : List String :=
  [".gitignore", "Cargo.toml", "Cargo.lock", "release.toml", "LICENSE", "TODO.org",
    ".headerfix.toml"]

lemma builtinTable_eq :
    builtinTable = styledEndings.map (fun e => ("*" ++ e.1, some e.2)) ++
      exemptNames.map fun name => (name, none) := by
  decide

lemma covers_styled_iff {e : String × String} (he : e ∈ styledEndings) :
    Covers ("*" ++ e.1) path ↔ path.EndsWith e.1 := by
  have hplain : ∀ e ∈ styledEndings, Glob.IsPlain e.1.toList := by decide +kernel
  exact covers_iff_of_star (by simp) (hplain e he)

lemma covers_exempt_iff {name : String} (hname : name ∈ exemptNames) :
    Covers name path ↔ path.text = name := by
  have hplain : ∀ name ∈ exemptNames, Glob.IsPlain name.toList := by decide +kernel
  exact covers_iff_of_isPlain (hplain name hname)

section

variable {policy : Policy}

/-- The builtin rules speak about a path exactly if it ends as one of the rows wants, or is exempt.
-/
lemma action?_eq_some_iff {action : Action} (h : Config.policy none = .ok policy) :
    policy.action? path = some action ↔
      (∃ e ∈ styledEndings, path.EndsWith e.1 ∧ .comment ⟨e.2⟩ = action) ∨
        path.text ∈ exemptNames ∧ .skip = action := by
  rw [Config.action?_eq h, Config.ownRows, Config.builtinRows, firstRow?, List.find?_nil,
    Option.none_or, Option.map_eq_some_iff]
  simp only [firstRow?_builtinTable_eq_some_iff]
  constructor
  · rintro ⟨row, ⟨hrow, hcovers⟩, haction⟩
    rw [builtinTable_eq, List.mem_append, List.mem_map, List.mem_map] at hrow
    rcases hrow with ⟨e, he, rfl⟩ | ⟨name, hname, rfl⟩
    · exact Or.inl ⟨e, he, (covers_styled_iff he).mp hcovers, haction⟩
    · exact Or.inr ⟨(covers_exempt_iff hname).mp hcovers ▸ hname, haction⟩
  · rw [builtinTable_eq]
    rintro (⟨e, he, hend, haction⟩ | ⟨hname, haction⟩)
    · exact ⟨_, ⟨List.mem_append_left _ (List.mem_map_of_mem he),
        (covers_styled_iff he).mpr hend⟩, haction⟩
    · exact ⟨_, ⟨List.mem_append_right _ (List.mem_map_of_mem hname),
        (covers_exempt_iff hname).mpr rfl⟩, haction⟩

/-- About all other paths the builtin rules say nothing. -/
lemma action?_eq_none_iff (h : Config.policy none = .ok policy) :
    policy.action? path = none ↔
      (∀ e ∈ styledEndings, ¬ path.EndsWith e.1) ∧ path.text ∉ exemptNames := by
  rw [Option.eq_none_iff_forall_ne_some]
  simp only [ne_eq, action?_eq_some_iff h, not_or, not_exists, not_and]
  constructor
  · intro hnone
    exact ⟨fun e he hend => (hnone _).1 e he hend rfl, fun hname => (hnone _).2 hname rfl⟩
  · rintro ⟨hendings, hname⟩ action
    exact ⟨fun e he hend => absurd hend (hendings e he), fun hname' => absurd hname' hname⟩

end

end Policy

/-- The builtin rules ask for a style by the end of the path, at any depth and for hidden files too,
and exempt a few files at the root; about all other paths they say nothing. -/
theorem builtin_action?_iff :
    ∃ policy, Config.policy none = .ok policy ∧ ∀ path : Path,
      (policy.action? path = some (.comment ⟨"//"⟩) ↔ path.EndsWith ".rs") ∧
      (policy.action? path = some (.comment ⟨""⟩) ↔ path.EndsWith ".md") ∧
      (policy.action? path = some (.comment ⟨"#"⟩) ↔
        path.EndsWith ".yml" ∨ path.EndsWith ".yaml" ∨ path.EndsWith ".py" ∨
          path.EndsWith ".sh") ∧
      (policy.action? path = some .skip ↔
        path.text ∈ [".gitignore", "Cargo.toml", "Cargo.lock", "release.toml", "LICENSE",
          "TODO.org", ".headerfix.toml"]) ∧
      (policy.action? path = none ↔
        (∀ ending ∈ [".rs", ".md", ".yml", ".yaml", ".py", ".sh"], ¬ path.EndsWith ending) ∧
          path.text ∉ [".gitignore", "Cargo.toml", "Cargo.lock", "release.toml", "LICENSE",
            "TODO.org", ".headerfix.toml"]) := by
  obtain ⟨policy, h⟩ : ∃ policy, Config.policy none = .ok policy := Config.exists_policy nofun
  refine ⟨policy, h, fun path => ⟨?_, ?_, ?_, ?_, ?_⟩⟩
  · simp [Policy.action?_eq_some_iff h, Policy.styledEndings]
  · simp [Policy.action?_eq_some_iff h, Policy.styledEndings]
  · simp [Policy.action?_eq_some_iff h, Policy.styledEndings]
  · simp [Policy.action?_eq_some_iff h, Policy.exemptNames]
  · simp [Policy.action?_eq_none_iff h, Policy.styledEndings, Policy.exemptNames]

end LicenseHeader
