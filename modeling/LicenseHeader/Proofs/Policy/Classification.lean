import LicenseHeader.Proofs.Policy.Compilation

/-!
# Classified files

A policy makes of some paths the files that need a header, or it gives all of its gaps. Which of the
two, and which files, can be told from the rows of the configuration and the builtin table alone:
the first row that covers a path decides, and the gaps are the paths that no row covers.
-/

namespace LicenseHeader

variable {config : Option Config} {policy : Policy} {path : Path} {paths gaps : List Path}
  {subjects : List Subject} {s : Subject}

namespace Policy

/-! ### Subjects and gaps -/

lemma subject?_eq_some_iff :
    policy.subject? path = some s ↔
      path = s.path ∧ policy.action? s.path = some (.comment s.style) := by
  rw [subject?]
  constructor
  · intro h
    split at h
    case h_1 style haction =>
      cases h
      exact ⟨rfl, haction⟩
    · cases h
  · rintro ⟨rfl, haction⟩
    rw [haction]

lemma mem_gaps_iff : path ∈ policy.gaps paths ↔ path ∈ paths ∧ policy.action? path = none := by
  rw [gaps, List.mem_filter, Option.isNone_iff_eq_none]

lemma classify_eq_ok_iff :
    policy.classify paths = .ok subjects ↔
      policy.gaps paths = [] ∧ paths.filterMap policy.subject? = subjects := by
  rw [classify]
  split_ifs with hnone
  · simp [hnone]
  · simp [hnone]

/-- There are gaps in the result exactly if there are gaps. -/
lemma classify_eq_error_iff :
    policy.classify paths = .error gaps ↔ gaps = policy.gaps paths ∧ gaps ≠ [] := by
  rw [classify]
  split_ifs with hnone
  · simp [hnone]
  · constructor
    · intro h
      cases h
      exact ⟨rfl, hnone⟩
    · rintro ⟨rfl, -⟩
      rfl

/-- A classified file is one for which the policy has a style. -/
lemma mem_classify_iff (h : policy.classify paths = .ok subjects) :
    s ∈ subjects ↔ s.path ∈ paths ∧ policy.action? s.path = some (.comment s.style) := by
  obtain ⟨-, rfl⟩ := classify_eq_ok_iff.mp h
  rw [List.mem_filterMap]
  constructor
  · rintro ⟨path, hpath, hs⟩
    obtain ⟨rfl, haction⟩ := subject?_eq_some_iff.mp hs
    exact ⟨hpath, haction⟩
  · rintro ⟨hpath, haction⟩
    exact ⟨s.path, hpath, subject?_eq_some_iff.mpr ⟨rfl, haction⟩⟩

lemma pairwise_classify (h : policy.classify paths = .ok subjects)
    (hpaths : paths.Pairwise fun p q => p.compare q = .lt) :
    subjects.Pairwise fun a b => a.path.compare b.path = .lt := by
  obtain ⟨-, rfl⟩ := classify_eq_ok_iff.mp h
  rw [List.pairwise_filterMap]
  refine hpaths.imp fun {a b} hab s hs s' hs' => ?_
  obtain ⟨rfl, -⟩ := subject?_eq_some_iff.mp hs
  obtain ⟨rfl, -⟩ := subject?_eq_some_iff.mp hs'
  exact hab

lemma length_classify_le (h : policy.classify paths = .ok subjects) :
    subjects.length ≤ paths.length := by
  obtain ⟨-, rfl⟩ := classify_eq_ok_iff.mp h
  exact List.length_filterMap_le _ _

end Policy

/-! ### Rulings -/

/-- What the first row that covers a path says: the marker of its header, or that it is exempt. The
builtin rows are asked only if no configured row covers the path. -/
def Config.ruling? (config : Option Config) (path : Path) : Option (Option String) :=
  ((firstRow? (ownRows config) path).or (firstRow? (builtinRows config) path)).map Prod.snd

namespace Policy

lemma action?_eq_map_ruling? (h : Config.policy config = .ok policy) (path : Path) :
    policy.action? path = (Config.ruling? config path).map actionOfMarker := by
  rw [Config.action?_eq h, Config.ruling?, Option.map_map]
  rfl

/-- A file gets the marker of the first row that covers its path. -/
lemma action?_eq_comment_iff (h : Config.policy config = .ok policy) {style : Style} :
    policy.action? path = some (.comment style) ↔
      Config.ruling? config path = some (some style.marker) := by
  rw [action?_eq_map_ruling? h, Option.map_eq_some_iff]
  constructor
  · rintro ⟨_ | marker, hruling, haction⟩
    · cases haction
    · cases haction
      exact hruling
  · intro hruling
    exact ⟨_, hruling, rfl⟩

lemma subject?_eq_map_ruling? (h : Config.policy config = .ok policy) (path : Path) :
    policy.subject? path = (Config.ruling? config path).join.map fun marker => ⟨path, ⟨marker⟩⟩ := by
  rw [subject?, action?_eq_map_ruling? h]
  rcases Config.ruling? config path with _ | _ | marker <;> rfl

/-- The gaps are the paths that no row covers. -/
lemma gaps_eq_filter_ruling? (h : Config.policy config = .ok policy) (paths : List Path) :
    policy.gaps paths = paths.filter fun path => Config.ruling? config path = none := by
  rw [gaps]
  apply List.filter_congr
  intro path _
  rw [action?_eq_map_ruling? h]
  cases Config.ruling? config path <;> rfl

/-- The classified files are in the order of the paths, as often as they occur there. -/
lemma map_path_filterMap_subject? (h : Config.policy config = .ok policy) (paths : List Path) :
    (paths.filterMap policy.subject?).map Subject.path =
      paths.filter fun path => (Config.ruling? config path).join.isSome := by
  induction paths with
  | nil => rfl
  | cons path paths ih =>
    cases hruling : (Config.ruling? config path).join with
    | none => simpa [subject?_eq_map_ruling? h, hruling] using ih
    | some marker => simpa [subject?_eq_map_ruling? h, hruling] using ih

/-- If the configured patterns compile, there is a policy, and it classifies by the first row that
covers a path. It succeeds exactly if there is such a row for each path; then it gives, in the order
of the paths, those for which the row has a marker, each with this marker. Otherwise it gives all
paths without a row, in their order. -/
theorem classify_by_first_row
    (h : ∀ c, config = some c → ∀ r ∈ c.rules,
      ∃ compiled, Glob.compile r.pattern = .ok compiled) :
    ∃ policy, Config.policy config = .ok policy ∧ ∀ paths : List Path,
      ((∃ subjects, policy.classify paths = .ok subjects) ↔
        ∀ path ∈ paths, Config.ruling? config path ≠ none) ∧
      (∀ subjects, policy.classify paths = .ok subjects →
        subjects.map Subject.path =
            paths.filter (fun path => (Config.ruling? config path).join.isSome) ∧
          ∀ s ∈ subjects, Config.ruling? config s.path = some (some s.style.marker)) ∧
      ∀ gaps, policy.classify paths = .error gaps →
        gaps = paths.filter fun path => Config.ruling? config path = none := by
  obtain ⟨policy, hpolicy⟩ := Config.exists_policy (Config.forall_mem_ownRows_iff.mpr h)
  refine ⟨policy, hpolicy, fun paths => ⟨?_, ?_, ?_⟩⟩
  · simp only [classify_eq_ok_iff, exists_and_left, exists_eq', and_true,
      gaps_eq_filter_ruling? hpolicy, List.filter_eq_nil_iff, decide_eq_true_eq, ne_eq]
  · intro subjects hsubjects
    refine ⟨?_, fun s hs => ?_⟩
    · rw [← map_path_filterMap_subject? hpolicy, (classify_eq_ok_iff.mp hsubjects).2]
    · exact (action?_eq_comment_iff hpolicy).mp ((mem_classify_iff hsubjects).mp hs).2
  · intro gaps hgaps
    rw [(classify_eq_error_iff.mp hgaps).1, gaps_eq_filter_ruling? hpolicy]

/-- A configuration that exempts files about which its second rule and a builtin one speak too. -/
def vendoredConfig : Config where
  rules := [⟨"vendor/*", some "--", true⟩, ⟨"*.rs", some "///", false⟩]

/-- The exempt file is left out, the own marker wins over the builtin one, and a gap that is listed
twice is reported twice. -/
theorem classify_by_first_row_vendored :
    (∀ r ∈ vendoredConfig.rules, ∃ compiled, Glob.compile r.pattern = .ok compiled) ∧
      ∃ policy, Config.policy (some vendoredConfig) = .ok policy ∧
        (∃ subjects,
          policy.classify [⟨"vendor/x/lib.rs"⟩, ⟨"src/lib.rs"⟩, ⟨"a.md"⟩] = .ok subjects ∧
          subjects.map Subject.path = [⟨"src/lib.rs"⟩, ⟨"a.md"⟩] ∧
          ∀ s ∈ subjects, s.path = ⟨"src/lib.rs"⟩ → s.style.marker = "///") ∧
        policy.classify [⟨"notes.txt"⟩, ⟨"src/lib.rs"⟩, ⟨"notes.txt"⟩] =
          .error [⟨"notes.txt"⟩, ⟨"notes.txt"⟩] := by
  have hcompile : ∀ r ∈ vendoredConfig.rules,
      ∃ compiled, Glob.compile r.pattern = .ok compiled := by
    simp only [vendoredConfig, List.forall_mem_cons, List.not_mem_nil, false_imp_iff,
      implies_true, and_true]
    exact ⟨⟨⟨"vendor/*", "vendor/".toList.map .literal ++ [.anySequence]⟩, by decide +kernel⟩,
      ⟨_, Glob.compile_star (show "*.rs".toList = '*' :: ".rs".toList from rfl)
        (by decide +kernel)⟩⟩
  have hcompiles : ∀ c, some vendoredConfig = some c → ∀ r ∈ c.rules,
      ∃ compiled, Glob.compile r.pattern = .ok compiled :=
    fun c hc => Option.some.inj hc ▸ hcompile
  obtain ⟨policy, hpolicy, hclassify⟩ := classify_by_first_row hcompiles
  refine ⟨hcompile, policy, hpolicy, ?_, ?_⟩
  · obtain ⟨hok, hsubjects, -⟩ := hclassify [⟨"vendor/x/lib.rs"⟩, ⟨"src/lib.rs"⟩, ⟨"a.md"⟩]
    obtain ⟨subjects, h⟩ := hok.mpr (by decide +kernel)
    obtain ⟨hpaths, hmarkers⟩ := hsubjects subjects h
    refine ⟨subjects, h, hpaths.trans (by decide +kernel), fun s hs hpath => ?_⟩
    have hruling : Config.ruling? (some vendoredConfig) ⟨"src/lib.rs"⟩ = some (some "///") := by
      decide +kernel
    rw [← hpath, hmarkers s hs] at hruling
    exact Option.some.inj (Option.some.inj hruling)
  · obtain ⟨hok, -, hgaps⟩ := hclassify [⟨"notes.txt"⟩, ⟨"src/lib.rs"⟩, ⟨"notes.txt"⟩]
    cases h : policy.classify [⟨"notes.txt"⟩, ⟨"src/lib.rs"⟩, ⟨"notes.txt"⟩] with
    | ok subjects => exact absurd (hok.mp ⟨subjects, h⟩) (by decide +kernel)
    | error gaps => exact congrArg Except.error ((hgaps gaps h).trans (by decide +kernel))

end Policy

end LicenseHeader
