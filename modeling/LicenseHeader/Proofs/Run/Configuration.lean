import LicenseHeader.Proofs.Config.Validation
import LicenseHeader.Proofs.Run.Course

/-!
# Runs and their configuration

The check of a configuration is enough for all that comes behind it. A configuration that was loaded
has a policy, so that no run ends for the lack of one, and no run asks for a header of which a line
is more than one line.
-/

namespace LicenseHeader

variable {a : Arguments} {env : Environment} {t : FileTree} {plan : Plan} {error : ConfigError}
  {config : Option Config} {s : Subject}

/-- A configuration that was loaded has a policy, since it was validated. -/
lemma Config.Search.exists_policy_of_load {search : Search} {disabled : Bool}
    (h : (search.load t disabled).2 = .ok config) :
    ∃ policy, Config.policy config = .ok policy := by
  apply exists_policy
  rw [forall_mem_ownRows_iff]
  rintro c rfl r hr
  exact (validate_eq_ok_iff.mp (validate_of_load h) r hr).compiles

/-- Where a configuration was loaded, the lack of a policy is not what ends a run. -/
lemma run_ne_error_policy (a : Arguments) (env : Environment) (t : FileTree)
    (error : ConfigError) : (run a env t).result ≠ .error (.policy error) := by
  intro h
  have hobstacle := Plan.obstacle_of_prepare (run_eq_error_isEarly_iff.mp ⟨h, trivial⟩)
  cases hobstacle with
  | policy search config error hload herror =>
    obtain ⟨policy, hpolicy⟩ := Config.Search.exists_policy_of_load hload
    cases herror.symm.trans hpolicy

/-- The markers of the files that a run works on fit on one line. -/
lemma Plan.fitsOnLine_of_mem_subjects (h : (prepare a env t).2 = .ok plan)
    (hs : s ∈ plan.subjects) : FitsOnLine s.style.marker := by
  obtain ⟨config, policy, hload, hpolicy, haction⟩ := ((mem_subjects_iff h).mp hs).classified
  refine Config.fitsOnLine_of_action? (fun c hc => ?_) hpolicy haction
  subst hc
  exact Config.Search.validate_of_load hload

/-- The check of a configuration and its compilation agree. The check accepts exactly the
configurations of which all rules are sound, and reports the first rule that is not. What it accepts
compiles rule by rule. Therefore no run that has loaded its configuration ends for the lack of a
policy, and each line of a header that is installed is one line. -/
theorem Config.validate_agrees_with_compileRules :
    (∀ c : Config,
      (c.validate = .ok () ↔ ∀ r ∈ c.rules, r.Sound) ∧
      (∀ error, c.validate = .error error ↔
        ∃ above r below fault, c.rules = above ++ r :: below ∧ (∀ r' ∈ above, r'.Sound) ∧
          r.Faulty fault ∧ error = .invalidRule r.pattern fault) ∧
      (c.validate = .ok () →
        ∃ own builtin, List.Forall₂ RuleEntry.Gives c.rules own ∧
          Policy.builtinRules = .ok builtin ∧
          c.compileRules = .ok (own ++ if c.builtinRules then builtin else []) ∧
          Config.policy (some c) = .ok ⟨own ++ if c.builtinRules then builtin else []⟩)) ∧
    ∀ a env t,
      (∀ error, (run a env t).result ≠ .error (.policy error)) ∧
      ∀ plan, (Plan.prepare a env t).2 = .ok plan → ∀ s ∈ plan.subjects,
        ∀ l ∈ Header.block s.style.marker.toList,
          ∃ body, l = body ++ ['\n'] ∧ '\n' ∉ body ∧ '\r' ∉ body := by
  refine ⟨fun c => ⟨validate_eq_ok_iff, fun error => validate_eq_error_iff, fun hvalid => ?_⟩,
    fun a env t => ⟨run_ne_error_policy a env t, fun plan hplan s hs =>
      (Plan.fitsOnLine_of_mem_subjects hplan hs).block_lines⟩⟩
  obtain ⟨own, builtin, hown, hbuiltin, hrules⟩ := exists_compileRules hvalid
  exact ⟨own, builtin, hown, hbuiltin, hrules, map_eq_ok_iff.mpr ⟨_, hrules, rfl⟩⟩

/-- Two rules, the second of which exempts files. -/
def Config.vendorRules : List RuleEntry :=
  [⟨"*.c", some "//", false⟩, ⟨"vendor/**", none, true⟩]

lemma Config.actions_vendorRules {own : List Rule} (h : List.Forall₂ RuleEntry.Gives vendorRules own) :
    own.map Rule.action = [.comment ⟨"//"⟩, .skip] := by
  obtain ⟨first, _, hfirst, hrest, rfl⟩ := List.forall₂_cons_left_iff.mp h
  obtain ⟨second, _, hsecond, hnil, rfl⟩ := List.forall₂_cons_left_iff.mp hrest
  obtain rfl := List.forall₂_nil_left_iff.mp hnil
  simp [hfirst.comment "//" rfl, hsecond.skip rfl]

/-- Alone, the two rules compile to two rules; otherwise the builtin ones follow them. -/
theorem Config.validate_agrees_with_compileRules_vendored :
    (∃ own, compileRules ⟨vendorRules, false⟩ = .ok own ∧
      own.map Rule.action = [.comment ⟨"//"⟩, .skip]) ∧
    ∃ own builtin, compileRules ⟨vendorRules, true⟩ = .ok (own ++ builtin) ∧
      own.map Rule.action = [.comment ⟨"//"⟩, .skip] ∧ Policy.builtinRules = .ok builtin ∧
      builtin ≠ [] := by
  obtain ⟨hcompiles, -⟩ := validate_agrees_with_compileRules
  constructor
  · obtain ⟨own, builtin, hown, -, hrules, -⟩ :=
      (hcompiles ⟨vendorRules, false⟩).2.2 (by decide +kernel)
    exact ⟨own, by simpa using hrules, actions_vendorRules hown⟩
  · obtain ⟨own, builtin, hown, hbuiltin, hrules, -⟩ :=
      (hcompiles ⟨vendorRules, true⟩).2.2 (by decide +kernel)
    refine ⟨own, builtin, hrules, actions_vendorRules hown, hbuiltin, ?_⟩
    rintro rfl
    have hlength : Policy.builtinRules.map List.isEmpty = .ok false := by decide +kernel
    rw [hbuiltin] at hlength
    cases hlength

end LicenseHeader
