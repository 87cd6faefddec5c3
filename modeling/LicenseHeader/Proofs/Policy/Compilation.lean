import LicenseHeader.Config.Basic
import LicenseHeader.Proofs.Failing
import LicenseHeader.Proofs.Glob.Literal

/-!
# The rules of a workspace

The rules are written as rows, those of the configuration in front of the builtin ones. A policy is
compiled from them row by row. The builtin rows always compile, so that there is a policy exactly if
each pattern of the configuration compiles, and what the policy says about a path is what its first
row that covers the path says.
-/

namespace LicenseHeader

variable {pattern : String} {path : Path} {action : Action} {rule : Rule} {rules : List Rule}
  {policy : Policy} {config : Option Config}

/-! ### Written patterns -/

/-- Whether a written pattern is one that matches a path. -/
def Covers (pattern : String) (path : Path) : Prop :=
  ∃ compiled, Glob.compile pattern = .ok compiled ∧
    Glob.Matches compiled.tokens path.text.toList

/-- Whether a pattern covers a path does not depend on how it was compiled. -/
lemma covers_iff_isMatch {compiled : Glob.Pattern} (h : Glob.compile pattern = .ok compiled) :
    Covers pattern path ↔ compiled.isMatch path.text := by
  rw [Glob.Pattern.isMatch, Glob.matchesAll_iff]
  constructor
  · rintro ⟨compiled', h', hmatches⟩
    cases h.symm.trans h'
    exact hmatches
  · intro hmatches
    exact ⟨compiled, h, hmatches⟩

instance (pattern : String) (path : Path) : Decidable (Covers pattern path) :=
  match h : Glob.compile pattern with
  | .ok compiled => decidable_of_iff (compiled.isMatch path.text) (covers_iff_isMatch h).symm
  | .error _ => isFalse fun ⟨_, h', _⟩ => by cases h.symm.trans h'

lemma covers_iff_of_isPlain (h : Glob.IsPlain pattern.toList) :
    Covers pattern path ↔ path.text = pattern := by
  simp only [Covers, Glob.compile_of_isPlain h, Except.ok.injEq, exists_eq_left',
    Glob.matches_map_literal_iff, String.toList_inj]

lemma covers_iff_of_star {ending : List Char} (hpattern : pattern.toList = '*' :: ending)
    (h : Glob.IsPlain ending) : Covers pattern path ↔ ending <:+ path.text.toList := by
  simp only [Covers, Glob.compile_star hpattern h, Except.ok.injEq, exists_eq_left',
    Glob.matches_star_iff]

/-! ### Rows -/

/-- A rule as it is written: a pattern, and the marker of its files or none if they are exempt. -/
abbrev Row := String × Option String

/-- What it means that a rule is compiled from a row. -/
structure Row.CompilesTo (row : Row) (rule : Rule) : Prop where
  pattern : Glob.compile row.1 = .ok rule.pattern
  action : rule.action = Policy.actionOfMarker row.2

lemma Row.CompilesTo.covers_iff {row : Row} (h : row.CompilesTo rule) :
    rule.covers path ↔ Covers row.1 path :=
  (covers_iff_isMatch h.pattern).symm

lemma Policy.compileRule_eq_ok_iff :
    compileRule pattern action = .ok rule ↔
      Glob.compile pattern = .ok rule.pattern ∧ rule.action = action := by
  rw [compileRule, map_eq_ok_iff]
  constructor
  · rintro ⟨compiled, h, rfl⟩
    exact ⟨h, rfl⟩
  · rintro ⟨h, rfl⟩
    exact ⟨rule.pattern, h, rfl⟩

/-- A configured rule as a row. A marker counts only if the rule does not exempt its files. -/
def RuleEntry.row (r : RuleEntry) : Row :=
  (r.pattern, if r.skip then none else r.marker)

lemma RuleEntry.action_eq (r : RuleEntry) : r.action = Policy.actionOfMarker r.row.2 := by
  rw [action, row]
  cases r.marker <;> cases r.skip <;> rfl

lemma RuleEntry.compile_eq_ok_iff {r : RuleEntry} :
    r.compile = .ok rule ↔ r.row.CompilesTo rule := by
  rw [compile, mapError_eq_ok_iff, Policy.compileRule_eq_ok_iff, action_eq]
  exact ⟨fun ⟨hpattern, haction⟩ => ⟨hpattern, haction⟩, fun h => ⟨h.pattern, h.action⟩⟩

def Config.ownRows (config : Option Config) : List Row :=
  match config with
  | none => []
  | some c => c.rules.map RuleEntry.row

lemma Config.forall_mem_ownRows_iff :
    (∀ row ∈ ownRows config, ∃ compiled, Glob.compile row.1 = .ok compiled) ↔
      ∀ c, config = some c → ∀ r ∈ c.rules,
        ∃ compiled, Glob.compile r.pattern = .ok compiled := by
  cases config with
  | none => simp [ownRows]
  | some c => simp [ownRows, RuleEntry.row]

/-- The builtin rows, if they are wanted. -/
def Config.builtinRows (config : Option Config) : List Row :=
  match config with
  | none => Policy.builtinTable
  | some c => if c.builtinRules then Policy.builtinTable else []

/-! ### Compiled rows -/

/-- Whether a row consists of plain characters behind at most one star in front. -/
def Row.IsSimple (row : Row) : Prop :=
  Glob.IsPlain row.1.toList ∨ row.1.toList.head? = some '*' ∧ Glob.IsPlain row.1.toList.tail

instance : DecidablePred Row.IsSimple := fun _ =>
  inferInstanceAs (Decidable (_ ∨ _))

lemma Row.IsSimple.exists_compile {row : Row} (h : row.IsSimple) :
    ∃ compiled, Glob.compile row.1 = .ok compiled := by
  rcases h with h | ⟨hstar, h⟩
  · exact ⟨_, Glob.compile_of_isPlain h⟩
  · exact ⟨_, Glob.compile_star (List.eq_cons_of_mem_head? hstar) h⟩

lemma Policy.isSimple_of_mem_builtinTable : ∀ row ∈ builtinTable, Row.IsSimple row := by
  decide +kernel

lemma exists_forall₂_compilesTo {rows : List Row}
    (h : ∀ row ∈ rows, ∃ compiled, Glob.compile row.1 = .ok compiled) :
    ∃ rules, List.Forall₂ Row.CompilesTo rows rules := by
  induction rows with
  | nil => exact ⟨[], .nil⟩
  | cons row rows ih =>
    obtain ⟨hrow, hrows⟩ := List.forall_mem_cons.mp h
    obtain ⟨compiled, hcompiled⟩ := hrow
    obtain ⟨rules, hrules⟩ := ih hrows
    exact ⟨⟨compiled, _⟩ :: rules, .cons ⟨hcompiled, rfl⟩ hrules⟩

lemma Policy.builtinRules_eq_ok_iff :
    builtinRules = .ok rules ↔ List.Forall₂ Row.CompilesTo builtinTable rules := by
  rw [builtinRules, mapM_eq_ok_iff]
  simp only [compileRule_eq_ok_iff]
  constructor
  · exact List.Forall₂.imp fun row rule ⟨hpattern, haction⟩ => ⟨hpattern, haction⟩
  · exact List.Forall₂.imp fun row rule h => ⟨h.pattern, h.action⟩

lemma Config.mapM_compile_eq_ok_iff {entries : List RuleEntry} :
    entries.mapM RuleEntry.compile = .ok rules ↔
      List.Forall₂ Row.CompilesTo (entries.map RuleEntry.row) rules := by
  rw [mapM_eq_ok_iff, List.forall₂_map_left_iff]
  simp only [RuleEntry.compile_eq_ok_iff]

/-- Rules are compiled row by row, the configured ones in front of the builtin ones. -/
lemma Config.compileRules_eq_ok_iff {c : Config} :
    c.compileRules = .ok rules ↔
      ∃ own builtin, List.Forall₂ Row.CompilesTo (ownRows (some c)) own ∧
        List.Forall₂ Row.CompilesTo (builtinRows (some c)) builtin ∧ own ++ builtin = rules := by
  rw [compileRules, bind_eq_ok_iff]
  simp only [mapM_compile_eq_ok_iff]
  by_cases hbuiltin : c.builtinRules
  · simp only [hbuiltin, if_true, bind_eq_ok_iff, mapError_eq_ok_iff, Policy.builtinRules_eq_ok_iff,
      builtinRows]
    constructor
    · rintro ⟨own, hown, builtin, hrows, h⟩
      exact ⟨own, builtin, hown, hrows, Except.ok.inj h⟩
    · rintro ⟨own, builtin, hown, hrows, h⟩
      exact ⟨own, hown, builtin, hrows, congrArg Except.ok h⟩
  · simp only [hbuiltin, Bool.false_eq_true, if_false, builtinRows, List.forall₂_nil_left_iff]
    constructor
    · rintro ⟨own, hown, h⟩
      exact ⟨own, [], hown, rfl, (List.append_nil own).trans (Except.ok.inj h)⟩
    · rintro ⟨own, _, hown, rfl, h⟩
      exact ⟨own, hown, congrArg Except.ok ((List.append_nil own).symm.trans h)⟩

/-- A policy has the configured rules in their order, and behind them the builtin ones. -/
theorem Config.policy_eq_ok_iff :
    Config.policy config = .ok policy ↔
      ∃ own builtin, List.Forall₂ Row.CompilesTo (ownRows config) own ∧
        List.Forall₂ Row.CompilesTo (builtinRows config) builtin ∧
          own ++ builtin = policy.rules := by
  cases config with
  | none =>
    rw [Config.policy, map_eq_ok_iff]
    simp only [mapError_eq_ok_iff, Policy.builtinRules_eq_ok_iff, ownRows, builtinRows,
      List.forall₂_nil_left_iff]
    constructor
    · rintro ⟨builtin, hrows, rfl⟩
      exact ⟨[], builtin, rfl, hrows, rfl⟩
    · rintro ⟨_, builtin, rfl, hrows, h⟩
      exact ⟨builtin, hrows, congrArg Policy.mk h⟩
  | some c =>
    rw [Config.policy, map_eq_ok_iff]
    simp only [compileRules_eq_ok_iff]
    constructor
    · rintro ⟨rules, h, rfl⟩
      exact h
    · intro h
      exact ⟨policy.rules, h, rfl⟩

lemma Config.mem_builtinTable_of_mem_builtinRows {row : Row} (h : row ∈ builtinRows config) :
    row ∈ Policy.builtinTable := by
  cases config with
  | none => exact h
  | some c =>
    rw [builtinRows] at h
    split_ifs at h
    · exact h
    · cases h

/-- There is a policy wherever the configured patterns compile. -/
lemma Config.exists_policy
    (h : ∀ row ∈ ownRows config, ∃ compiled, Glob.compile row.1 = .ok compiled) :
    ∃ policy, Config.policy config = .ok policy := by
  obtain ⟨own, hown⟩ := exists_forall₂_compilesTo h
  have hsimple : ∀ row ∈ builtinRows config, row.IsSimple := fun row hrow =>
    Policy.isSimple_of_mem_builtinTable row (mem_builtinTable_of_mem_builtinRows hrow)
  obtain ⟨builtin, hbuiltin⟩ := exists_forall₂_compilesTo fun row hrow =>
    (hsimple row hrow).exists_compile
  exact ⟨⟨own ++ builtin⟩, policy_eq_ok_iff.mpr ⟨own, builtin, hown, hbuiltin, rfl⟩⟩

/-! ### First rows -/

/-- The first row that covers a path. -/
def firstRow? (rows : List Row) (path : Path) : Option Row :=
  rows.find? fun row => Covers row.1 path

/-- Compiled rules say what the first row says that covers the path. -/
lemma action_find?_of_forall₂ {rows : List Row} (h : List.Forall₂ Row.CompilesTo rows rules) :
    (rules.find? (·.covers path)).map Rule.action =
      (firstRow? rows path).map fun row => Policy.actionOfMarker row.2 := by
  induction h with
  | nil => rfl
  | @cons row rule rows rules hrow _ ih =>
    rw [firstRow?, List.find?_cons, List.find?_cons]
    by_cases hcovers : Covers row.1 path
    · simp [hcovers, hrow.covers_iff.mpr hcovers, hrow.action]
    · have hno : rule.covers path = false := by rwa [← Bool.not_eq_true, hrow.covers_iff]
      simpa [firstRow?, hcovers, hno] using ih

/-- The first configured row that covers a path decides about it, and only if there is none the
first builtin row does. -/
theorem Config.action?_eq (h : Config.policy config = .ok policy) (path : Path) :
    policy.action? path =
      ((firstRow? (ownRows config) path).or (firstRow? (builtinRows config) path)).map
        fun row => Policy.actionOfMarker row.2 := by
  obtain ⟨own, builtin, hown, hbuiltin, hrules⟩ := policy_eq_ok_iff.mp h
  rw [Policy.action?, ← hrules, List.find?_append, Option.map_or, Option.map_or,
    action_find?_of_forall₂ hown, action_find?_of_forall₂ hbuiltin]

end LicenseHeader
