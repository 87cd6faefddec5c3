import LicenseHeader.Config.Discovery
import LicenseHeader.Proofs.Header.Block
import LicenseHeader.Proofs.Policy.Compilation
import Mathlib.Logic.Basic

/-!
# Valid configurations

The check of a configuration finds the first rule that is not sound, and says what is wrong with it.
A configuration that passes compiles to a policy rule by rule, and each line of a header that this
policy asks for stays a single line. Every configuration that was loaded has passed.
-/

namespace LicenseHeader

open Text

/-! ### Sound rules -/

def FitsOnLine (marker : String) : Prop :=
  '\n' ∉ marker.toList ∧ '\r' ∉ marker.toList

instance (marker : String) : Decidable (FitsOnLine marker) :=
  inferInstanceAs (Decidable (_ ∧ _))

lemma hasLineBreak_iff {marker : String} : hasLineBreak marker ↔ ¬ FitsOnLine marker := by
  simp only [hasLineBreak, FitsOnLine, List.any_eq_true, Bool.or_eq_true, beq_iff_eq,
    and_or_left, exists_or, exists_eq_right, not_and_or, not_not]

namespace RuleEntry

/-- A rule that a policy can use. -/
structure Sound (r : RuleEntry) : Prop where
  /-- The rule names a marker or exempts its files, but not both. -/
  decided : Xor r.marker.isSome r.skip
  fitsOnLine : ∀ marker, r.marker = some marker → FitsOnLine marker
  compiles : ∃ compiled, Glob.compile r.pattern = .ok compiled

/-- What is wrong with a rule. The pattern counts only if nothing else is wrong. -/
inductive Faulty (r : RuleEntry) : RuleFault → Prop
  | markerAndSkip : r.marker.isSome → r.skip → Faulty r .markerAndSkip
  | noAction : r.marker = none → r.skip = false → Faulty r .noAction
  | lineBreak (marker : String) : r.marker = some marker → r.skip = false → ¬ FitsOnLine marker →
      Faulty r .lineBreak
  | badPattern (error : Glob.PatternError) : Xor r.marker.isSome r.skip →
      (∀ marker, r.marker = some marker → FitsOnLine marker) →
      Glob.compile r.pattern = .error error → Faulty r (.badPattern error)

variable {r : RuleEntry} {fault : RuleFault}

/-- A rule at which something is wrong is of no use. -/
lemma Faulty.not_sound (h : r.Faulty fault) : ¬ r.Sound := by
  intro hsound
  cases h with
  | markerAndSkip hmarker hskip =>
    rcases hsound.decided with ⟨-, hno⟩ | ⟨-, hno⟩
    · exact hno hskip
    · exact hno hmarker
  | noAction hmarker hskip => simpa [hmarker, hskip] using hsound.decided
  | lineBreak marker hmarker hskip hbreak => exact hbreak (hsound.fitsOnLine marker hmarker)
  | badPattern error _ _ herror =>
    obtain ⟨compiled, hcompiled⟩ := hsound.compiles
    cases herror.symm.trans hcompiled

/-- The pattern of a rule is looked at last. -/
lemma patternFault?_cases (hdecided : Xor r.marker.isSome r.skip)
    (hline : ∀ marker, r.marker = some marker → FitsOnLine marker) :
    (fault?.patternFault? r = none ∧ r.Sound) ∨
      ∃ fault, fault?.patternFault? r = some fault ∧ r.Faulty fault := by
  rw [fault?.patternFault?]
  cases hcompile : Glob.compile r.pattern with
  | ok compiled => exact Or.inl ⟨rfl, hdecided, hline, compiled, hcompile⟩
  | error error => exact Or.inr ⟨_, rfl, .badPattern error hdecided hline hcompile⟩

/-- A rule is sound, or the check finds what is wrong with it. -/
lemma fault?_cases (r : RuleEntry) :
    (r.fault? = none ∧ r.Sound) ∨ ∃ fault, r.fault? = some fault ∧ r.Faulty fault := by
  rw [fault?]
  split
  case h_1 marker hmarker hskip =>
    exact Or.inr ⟨_, rfl, .markerAndSkip (by simp [hmarker]) hskip⟩
  case h_2 hmarker hskip => exact Or.inr ⟨_, rfl, .noAction hmarker hskip⟩
  case h_3 marker hmarker hskip =>
    split_ifs with hbreak
    · exact Or.inr ⟨_, rfl, .lineBreak marker hmarker hskip (hasLineBreak_iff.mp hbreak)⟩
    · refine patternFault?_cases (by simp [hmarker, hskip]) fun marker' hmarker' => ?_
      obtain rfl := Option.some.inj (hmarker.symm.trans hmarker')
      exact not_not.mp fun hno => hbreak (hasLineBreak_iff.mpr hno)
  case h_4 hmarker hskip =>
    exact patternFault?_cases (by simp [hmarker, hskip]) fun _ hmarker' => by
      cases hmarker.symm.trans hmarker'

/-- One thing is wrong with a rule at most. -/
lemma Faulty.unique {fault' : RuleFault} (h : r.Faulty fault) (h' : r.Faulty fault') :
    fault = fault' := by
  cases h with
  | markerAndSkip hmarker hskip =>
    cases h' with
    | markerAndSkip => rfl
    | noAction hmarker' => simp [hmarker'] at hmarker
    | lineBreak _ _ hskip' => simp [hskip'] at hskip
    | badPattern _ hdecided => simp [hmarker, hskip] at hdecided
  | noAction hmarker hskip =>
    cases h' with
    | markerAndSkip hmarker' => simp [hmarker] at hmarker'
    | noAction => rfl
    | lineBreak _ hmarker' => simp [hmarker] at hmarker'
    | badPattern _ hdecided => simp [hmarker, hskip] at hdecided
  | lineBreak marker hmarker hskip hbreak =>
    cases h' with
    | markerAndSkip _ hskip' => simp [hskip] at hskip'
    | noAction hmarker' => simp [hmarker] at hmarker'
    | lineBreak => rfl
    | badPattern _ _ hline => exact absurd (hline marker hmarker) hbreak
  | badPattern error hdecided hline herror =>
    cases h' with
    | markerAndSkip hmarker hskip => simp [hmarker, hskip] at hdecided
    | noAction hmarker hskip => simp [hmarker, hskip] at hdecided
    | lineBreak marker hmarker _ hbreak => exact absurd (hline marker hmarker) hbreak
    | badPattern error' _ _ herror' => rw [Except.error.inj (herror.symm.trans herror')]

lemma fault?_eq_some_iff : r.fault? = some fault ↔ r.Faulty fault := by
  rcases fault?_cases r with ⟨hnone, hsound⟩ | ⟨fault', hsome, hfaulty⟩
  · exact iff_of_false (by simp [hnone]) fun h => h.not_sound hsound
  · rw [hsome, Option.some.injEq]
    exact ⟨fun h => h ▸ hfaulty, hfaulty.unique⟩

lemma fault?_eq_none_iff : r.fault? = none ↔ r.Sound := by
  rcases fault?_cases r with ⟨hnone, hsound⟩ | ⟨fault, hsome, hfaulty⟩
  · exact iff_of_true hnone hsound
  · exact iff_of_false (by simp [hsome]) hfaulty.not_sound

/-- What a compiled rule has of the rule of the configuration. -/
structure Gives (r : RuleEntry) (rule : Rule) : Prop where
  pattern : Glob.compile r.pattern = .ok rule.pattern
  comment : ∀ marker, r.marker = some marker → rule.action = .comment ⟨marker⟩
  skip : r.skip → rule.action = .skip

/-- Of a marker and an exemption a sound rule has one, so that its row keeps what it says. -/
lemma Sound.gives {rule : Rule} (h : r.Sound) (hrow : r.row.CompilesTo rule) : r.Gives rule where
  pattern := hrow.pattern
  comment marker hmarker := by
    have hskip : r.skip = false := by simpa [hmarker] using h.decided
    rw [hrow.action, row, hskip, hmarker]
    rfl
  skip hskip := by
    rw [hrow.action, row, if_pos hskip]
    rfl

end RuleEntry

/-! ### Valid configurations -/

namespace Config

variable {c : Config} {error : ConfigError}

/-- All rules of an accepted configuration are usable, and only such configurations are accepted. -/
lemma validate_eq_ok_iff : c.validate = .ok () ↔ ∀ r ∈ c.rules, r.Sound := by
  have hnone : (c.rules.findSome? fun r => r.fault?.map fun fault => (r.pattern, fault)) = none ↔
      ∀ r ∈ c.rules, r.Sound := by
    simp only [List.findSome?_eq_none_iff, Option.map_eq_none_iff, RuleEntry.fault?_eq_none_iff]
  rw [← hnone, validate]
  split
  case h_1 pattern fault hfind => simp [hfind]
  case h_2 hfind => simp [hfind]

/-- The first rule that is not sound is reported, with what is wrong with it. -/
lemma validate_eq_error_iff :
    c.validate = .error error ↔
      ∃ above r below fault, c.rules = above ++ r :: below ∧ (∀ r' ∈ above, r'.Sound) ∧
        r.Faulty fault ∧ error = .invalidRule r.pattern fault := by
  have hfind : c.validate = .error error ↔ ∃ pattern fault,
      (c.rules.findSome? fun r => r.fault?.map fun fault => (r.pattern, fault)) =
          some (pattern, fault) ∧
        error = .invalidRule pattern fault := by
    rw [validate]
    split <;> simp [*, eq_comm]
  simp only [hfind, List.findSome?_eq_some_iff, Option.map_eq_some_iff, Option.map_eq_none_iff,
    RuleEntry.fault?_eq_none_iff, RuleEntry.fault?_eq_some_iff, Prod.mk.injEq]
  constructor
  · rintro ⟨_, _, ⟨above, r, below, hrules, ⟨fault, hfaulty, rfl, rfl⟩, hsound⟩, herror⟩
    exact ⟨above, r, below, fault, hrules, hsound, hfaulty, herror⟩
  · rintro ⟨above, r, below, fault, hrules, hsound, hfaulty, herror⟩
    exact ⟨r.pattern, fault, ⟨above, r, below, hrules, ⟨fault, hfaulty, rfl, rfl⟩, hsound⟩, herror⟩

/-- A valid configuration compiles rule by rule. -/
lemma exists_compileRules (h : c.validate = .ok ()) :
    ∃ own builtin, List.Forall₂ RuleEntry.Gives c.rules own ∧
      Policy.builtinRules = .ok builtin ∧
        c.compileRules = .ok (own ++ if c.builtinRules then builtin else []) := by
  have hsound := validate_eq_ok_iff.mp h
  have hrows : ∀ row ∈ ownRows (some c), ∃ compiled, Glob.compile row.1 = .ok compiled :=
    List.forall_mem_map.mpr fun r hr => (hsound r hr).compiles
  obtain ⟨own, hown⟩ := exists_forall₂_compilesTo hrows
  obtain ⟨builtin, hbuiltin⟩ := exists_forall₂_compilesTo fun row hrow =>
    (Policy.isSimple_of_mem_builtinTable row hrow).exists_compile
  refine ⟨own, builtin, ?_, Policy.builtinRules_eq_ok_iff.mpr hbuiltin,
    compileRules_eq_ok_iff.mpr ⟨own, _, hown, ?_, rfl⟩⟩
  · have hrules := List.forall₂_map_left_iff.mp hown
    rw [List.forall₂_iff_get] at hrules ⊢
    exact ⟨hrules.1, fun i hi hi' => (hsound _ (List.get_mem _ _)).gives (hrules.2 i hi hi')⟩
  · rw [builtinRows]
    split_ifs
    · exact hbuiltin
    · exact .nil

lemma validate_of_parse {path : Path} {text : String} (h : parse path text = .ok c) :
    c.validate = .ok () := by
  rw [parse] at h
  split at h
  · cases h
  · obtain ⟨⟨⟩, hvalid, hc⟩ := map_eq_ok_iff.mp h
    exact hc ▸ hvalid

lemma validate_of_ofContent {path : Path} {content : ByteArray}
    (h : ofContent path content = .ok c) : c.validate = .ok () := by
  rw [ofContent] at h
  split at h
  · cases h
  · exact validate_of_parse h

/-- A configuration that was loaded is valid. -/
lemma Search.validate_of_load {s : Search} {t : FileTree} {disabled : Bool}
    (h : (s.load t disabled).2 = .ok (some c)) : c.validate = .ok () := by
  rw [load] at h
  split_ifs at h
  · cases h
  · split at h
    · cases h
    case h_2 messages path hfind =>
      simp only [map_eq_ok_iff, mapError_eq_ok_iff, Option.some.injEq, exists_eq_right] at h
      unfold read at h
      split at h
      · cases h
      · exact validate_of_ofContent h

/-! ### Header lines -/

lemma fitsOnLine_of_mem_builtinTable :
    ∀ row ∈ Policy.builtinTable, ∀ marker ∈ row.2, FitsOnLine marker := by
  decide

/-- No marker of an accepted configuration goes on in another line. -/
lemma fitsOnLine_of_mem_ownRows {config : Option Config}
    (hvalid : ∀ c, config = some c → c.validate = .ok ()) :
    ∀ row ∈ ownRows config, ∀ marker ∈ row.2, FitsOnLine marker := by
  cases config with
  | none => simp [ownRows]
  | some c =>
    intro row hrow marker hmarker
    obtain ⟨r, hr, rfl⟩ := List.mem_map.mp hrow
    rw [RuleEntry.row] at hmarker
    split_ifs at hmarker
    · cases hmarker
    · exact (validate_eq_ok_iff.mp (hvalid c rfl) r hr).fitsOnLine marker hmarker

/-- Under a valid configuration the markers of all files fit on one line. -/
lemma fitsOnLine_of_action? {config : Option Config} {policy : Policy} {path : Path}
    {style : Style} (hvalid : ∀ c, config = some c → c.validate = .ok ())
    (hpolicy : Config.policy config = .ok policy)
    (h : policy.action? path = some (.comment style)) : FitsOnLine style.marker := by
  rw [action?_eq hpolicy] at h
  obtain ⟨⟨pattern, marker?⟩, hrow, haction⟩ := Option.map_eq_some_iff.mp h
  have hmarker : style.marker ∈ marker? := by
    cases marker? with
    | none => cases haction
    | some marker => rw [← Action.comment.inj haction, Option.mem_def]
  rcases Option.or_eq_some_iff.mp hrow with hrow | ⟨-, hrow⟩
  · exact fitsOnLine_of_mem_ownRows hvalid _ (List.mem_of_find?_eq_some hrow) _ hmarker
  · have hmem := mem_builtinTable_of_mem_builtinRows (List.mem_of_find?_eq_some hrow)
    exact fitsOnLine_of_mem_builtinTable _ hmem _ hmarker

end Config

/-- Of a marker that fits on one line each line of the block is one line. -/
lemma FitsOnLine.block_lines {marker : String} (h : FitsOnLine marker) :
    ∀ l ∈ Header.block marker.toList, ∃ body, l = body ++ ['\n'] ∧ '\n' ∉ body ∧ '\r' ∉ body := by
  intro l hl
  obtain ⟨body, hbody, rfl⟩ := Header.terminated_of_mem_block h.1 l hl
  refine ⟨body, rfl, hbody, fun hreturn => Header.return_notMem_block h.2 ?_⟩
  exact List.mem_flatten.mpr ⟨_, hl, List.mem_append_left _ hreturn⟩

end LicenseHeader
