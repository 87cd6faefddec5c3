import LicenseHeader.Program
import LicenseHeader.Proofs.Failing
import Mathlib.Data.List.TakeWhile

/-!
# Consistent arguments

Accepted arguments select exactly one mode, which is the only one that the command line names. While
the command line is read, the modes that were collected are those that it named so far, each of them
once; a switch that selects a mode is collected at once and never left open. Arguments that are not
accepted lead to a text and a status only.
-/

namespace LicenseHeader

variable {a a' : Arguments} {r r' r'' : Reading} {s : Switch} {value : Option String} {m : Mode}
  {ms ms' : List Mode} {arguments : List String} {argument : String} {cs : List Char}

def Mode.switch : Mode → Switch
  | check => .check
  | patch => .patch
  | fix => .fix

def Switch.mode? : Switch → Option Mode
  | check => some .check
  | patch => some .patch
  | fix => some .fix
  | _ => none

/-- The mode that an argument names. -/
def Mode.ofArgument? (argument : String) : Option Mode :=
  [Mode.check, .patch, .fix].find? fun m => argument == "--" ++ m.name

/-- The modes that a command line names. Behind two dashes there are only files. -/
def namedModes (arguments : List String) : List Mode :=
  (arguments.takeWhile (· ≠ "--")).filterMap Mode.ofArgument?

def Arguments.selects (a : Arguments) : Mode → Bool
  | .check => a.check
  | .patch => a.patch
  | .fix => a.fix

/-! ### The names of the modes -/

lemma Switch.mode?_eq_some_iff : s.mode? = some m ↔ s = m.switch := by
  cases s <;> cases m <;> simp [mode?, Mode.switch]

lemma Switch.mode?_of_arity (h : s.arity ≠ .flag) : s.mode? = none := by
  cases s <;> simp_all [arity, mode?]

lemma Switch.mode?_ofLetter? {c : Char} (h : ofLetter? c = some s) : s.mode? = none := by
  have hletter := List.find?_some h
  cases s <;> simp_all [letter?, mode?]

lemma Switch.ofLongName?_eq_some (h : ofLongName? cs = some s) : s.longName.toList = cs := by
  simpa using List.find?_some h

lemma Mode.longName_switch (m : Mode) : m.switch.longName = m.name := by
  cases m <;> rfl

lemma Switch.ofLongName?_name (m : Mode) : ofLongName? m.name.toList = some m.switch := by
  cases m <;> decide

/-- An argument names a mode exactly if it is written with the name of the mode behind two dashes.
-/
lemma Mode.ofArgument?_eq_some_iff : ofArgument? argument = some m ↔ argument = "--" ++ m.name := by
  constructor
  · intro h
    simpa using List.find?_some h
  · rintro rfl
    cases m <;> decide

lemma Mode.ofArgument?_eq_some_iff_toList (h : argument.toList = '-' :: '-' :: cs) :
    ofArgument? argument = some m ↔ cs = m.name.toList := by
  rw [ofArgument?_eq_some_iff, ← String.toList_inj, h]
  simp

/-- A mode is named by the long name of its switch, without a value. -/
lemma Mode.ofArgument?_of_longName (hargument : argument.toList = '-' :: '-' :: cs)
    (hname : Switch.ofLongName? (cs.takeWhile (· ≠ '=')) = some s) :
    ofArgument? argument = if '=' ∈ cs then none else s.mode? := by
  split_ifs with hvalue
  · rw [Option.eq_none_iff_forall_ne_some]
    intro m hm
    rw [(ofArgument?_eq_some_iff_toList hargument).mp hm] at hvalue
    cases m <;> exact absurd hvalue (by decide)
  · have hall : cs.takeWhile (· ≠ '=') = cs := by
      rw [List.takeWhile_eq_self_iff]
      exact fun c hc => decide_eq_true (ne_of_mem_of_not_mem hc hvalue)
    rw [hall] at hname
    refine Option.ext fun m => ?_
    rw [ofArgument?_eq_some_iff_toList hargument, Switch.mode?_eq_some_iff]
    constructor
    · rintro rfl
      rw [Switch.ofLongName?_name] at hname
      exact (Option.some.inj hname).symm
    · rintro rfl
      rw [← Switch.ofLongName?_eq_some hname, longName_switch]

lemma Mode.ofArgument?_eq_none (h : ¬ ['-', '-'] <+: argument.toList) :
    ofArgument? argument = none := by
  rw [Option.eq_none_iff_forall_not_mem]
  intro m hm
  rw [ofArgument?_eq_some_iff.mp hm] at h
  simp at h

lemma namedModes_cons (argument : String) (arguments : List String) :
    namedModes (argument :: arguments) =
      if argument = "--" then [] else (Mode.ofArgument? argument).toList ++ namedModes arguments := by
  by_cases h : argument = "--"
  · simp [namedModes, h]
  · cases hm : Mode.ofArgument? argument <;> simp [namedModes, h, hm]

/-! ### What is collected -/

namespace Reading

/-- The modes that were collected, in the order of the command line. -/
def modes (r : Reading) : List Mode :=
  r.seen.reverse.filterMap Switch.mode?

/-- The arguments select the modes that were collected, none of which was collected twice or is
still to be collected. -/
structure Sound (r : Reading) : Prop where
  selects : ∀ m, r.arguments.selects m ↔ m ∈ r.modes
  nodup : r.modes.Nodup
  pending : ∀ s value, r.pending = some (.switch s value) → s.mode? = none

/-- On the way to `r'` some modes are collected. -/
structure Collects (r r' : Reading) (ms : List Mode) : Prop where
  sound : r'.Sound
  modes : r'.modes = r.modes ++ ms
  filesOnly : r'.filesOnly = r.filesOnly

lemma Sound.refl (h : r.Sound) : Collects r r [] :=
  ⟨h, (List.append_nil _).symm, rfl⟩

lemma Collects.trans (h : Collects r r' ms) (h' : Collects r' r'' ms') :
    Collects r r'' (ms ++ ms') :=
  ⟨h'.sound, by rw [h'.modes, h.modes, List.append_assoc], h'.filesOnly.trans h.filesOnly⟩

/-- Anything but a mode may be left open. -/
lemma Collects.leave (h : Collects r r' ms) {p : Option Pending}
    (hp : ∀ s value, p = some (.switch s value) → s.mode? = none) :
    Collects r { r' with pending := p } ms :=
  ⟨⟨h.sound.selects, h.sound.nodup, hp⟩, h.modes, h.filesOnly⟩

lemma mem_modes_iff : m ∈ r.modes ↔ m.switch ∈ r.seen := by
  simp [modes, Switch.mode?_eq_some_iff]

end Reading

/-- A switch selects its mode and leaves the other ones as they are. -/
lemma Arguments.selects_insert {value : String} (h : a.insert s value = .ok a') (m : Mode) :
    a'.selects m ↔ a.selects m ∨ s.mode? = some m := by
  cases s with
  | check | patch | fix | noConfig | noGit | verbose | quiet =>
    cases h
    cases m <;> simp [selects, Switch.mode?]
  | output | config | reportJson =>
    obtain ⟨path, -, rfl⟩ := map_eq_ok_iff.mp h
    cases m <;> simp [selects, Switch.mode?]
  | jobs | colors =>
    rw [Arguments.insert] at h
    split at h
    · cases h
      cases m <;> simp [selects, Switch.mode?]
    · cases h
  | help | version => cases h

namespace Reading

/-- A switch is collected only once, unless it is the wish for more talk. -/
lemma collect_eq_ok (h : r.collect s value = .ok r') :
    (s ∈ r.seen → s = .verbose) ∧ ∃ v a, r.arguments.insert s v = .ok a ∧
      r' = { r with arguments := a, seen := s :: r.seen } := by
  by_cases hvalue : s.arity = .one ∧ value.isNone
  · rw [collect, if_pos hvalue] at h
    cases h
  by_cases hseen : s ∈ r.seen ∧ s ≠ .verbose
  · simp only [collect, if_neg hvalue, if_pos hseen] at h
    cases h
  simp only [collect, if_neg hvalue, if_neg hseen] at h
  obtain ⟨a, ha, h⟩ := bind_eq_ok_iff.mp h
  cases h
  exact ⟨by tauto, _, a, ha, rfl⟩

/-- A collected switch adds the mode that it selects, if it selects one. -/
lemma Sound.collect (h : r.Sound) (hr : r.collect s value = .ok r') :
    Collects r r' s.mode?.toList := by
  obtain ⟨hseen, v, a, ha, rfl⟩ := collect_eq_ok hr
  have hmodes : modes { r with arguments := a, seen := s :: r.seen } = r.modes ++ s.mode?.toList := by
    cases hs : s.mode? <;> simp [modes, hs]
  refine ⟨⟨fun m => ?_, ?_, h.pending⟩, hmodes, rfl⟩
  · rw [hmodes, Arguments.selects_insert ha, h.selects]
    simp
  · rw [hmodes]
    cases hs : s.mode? with
    | none => simpa using h.nodup
    | some m =>
      -- Only the wish for more talk may be repeated.
      rw [Switch.mode?_eq_some_iff] at hs
      have hm : m ∉ r.modes := by
        rw [mem_modes_iff, ← hs]
        intro hmem
        cases m <;> cases hs <;> cases hseen hmem
      exact List.perm_append_comm.nodup_iff.mpr (List.nodup_cons.mpr ⟨hm, h.nodup⟩)

/-- No mode is open. -/
lemma Sound.settle (h : r.Sound) (hr : r.settle = .ok r') : Collects r r' [] := by
  rw [Reading.settle] at hr
  split at hr
  case h_1 =>
    cases hr
    exact h.refl
  case h_2 s value hpending =>
    have hcollects := (h.refl.leave (p := none) (by simp)).trans
      (Sound.collect ⟨h.selects, h.nodup, by simp⟩ hr)
    rwa [h.pending s value hpending] at hcollects
  case h_3 paths =>
    obtain ⟨paths', -, hr⟩ := bind_eq_ok_iff.mp hr
    cases hr
    refine ⟨⟨fun m => ?_, h.nodup, by simp⟩, (List.append_nil _).symm, rfl⟩
    cases m
    exacts [h.selects .check, h.selects .patch, h.selects .fix]

/-! ### One argument -/

lemma Sound.addFile (h : r.Sound) (hr : r.addFile argument = .ok r') : Collects r r' [] := by
  rw [Reading.addFile] at hr
  split at hr
  · cases hr
    exact h.refl.leave (by simp)
  · obtain ⟨settled, hsettled, hr⟩ := bind_eq_ok_iff.mp hr
    cases hr
    exact (h.settle hsettled).leave (by simp)

lemma Sound.settle_collect (h : r.Sound) (hr : r.settle = .ok r') (hr' : r'.collect s value = .ok r'') :
    Collects r r'' s.mode?.toList :=
  (h.settle hr).trans ((h.settle hr).sound.collect hr')

/-- A switch with a value selects no mode. -/
lemma Sound.addValued (h : r.Sound) (hs : s.arity ≠ .flag) (hr : r.addValued s value = .ok r') :
    Collects r r' [] := by
  have hmode := Switch.mode?_of_arity hs
  obtain ⟨settled, hsettled, hr⟩ := bind_eq_ok_iff.mp hr
  split_ifs at hr
  · simpa [hmode] using h.settle_collect hsettled hr
  · cases hr
    exact (h.settle hsettled).leave (by simp [hmode])

/-- A mode is named by its long name without a value. -/
lemma Sound.addLong (h : r.Sound) (hargument : argument.toList = '-' :: '-' :: cs)
    (hr : r.addLong cs = .ok r') : Collects r r' (Mode.ofArgument? argument).toList := by
  rw [Reading.addLong] at hr
  cases hname : Switch.ofLongName? (cs.takeWhile (· ≠ '=')) with
  | none =>
    simp only [hname] at hr
    cases hr
  | some s =>
    simp only [hname] at hr
    rw [Mode.ofArgument?_of_longName hargument hname]
    by_cases hs : s.arity ≠ .flag
    · rw [if_pos hs] at hr
      simpa [Switch.mode?_of_arity hs] using h.addValued hs hr
    · rw [if_neg hs] at hr
      by_cases hvalue : '=' ∈ cs
      · simp [hvalue] at hr
      · simp only [hvalue, if_false, Option.isSome_none, Bool.false_eq_true] at hr ⊢
        obtain ⟨settled, hsettled, hr⟩ := bind_eq_ok_iff.mp hr
        exact h.settle_collect hsettled hr

/-- No letter stands for a mode. -/
lemma Sound.addShort (h : r.Sound) (hr : r.addShort cs = .ok r') : Collects r r' [] := by
  induction cs generalizing r with
  | nil =>
    cases hr
    exact h.refl
  | cons c cs ih =>
    unfold Reading.addShort at hr
    split at hr
    · cases hr
    case h_2 s hletter =>
      by_cases hs : s.arity ≠ .flag
      · rw [if_pos hs] at hr
        exact h.addValued hs hr
      · rw [if_neg hs] at hr
        obtain ⟨settled, hsettled, hr⟩ := bind_eq_ok_iff.mp hr
        obtain ⟨collected, hcollected, hr⟩ := bind_eq_ok_iff.mp hr
        have hcollect := h.settle_collect hsettled hcollected
        rw [Switch.mode?_ofLetter? hletter] at hcollect
        exact hcollect.trans (ih hcollect.sound hr)

lemma Sound.addPlain (h : r.Sound) (hr : r.addPlain argument = .ok r') : Collects r r' [] := by
  rw [Reading.addPlain] at hr
  split at hr
  case h_1 s hpending =>
    cases hr
    refine h.refl.leave fun s' value hs => ?_
    cases hs
    exact h.pending s none hpending
  case h_2 => exact h.addFile hr

/-- An argument is collected with the mode that it names. -/
lemma Sound.add (h : r.Sound) (hopen : r.filesOnly = false) (hne : argument ≠ "--")
    (hr : r.add argument = .ok r') : Collects r r' (Mode.ofArgument? argument).toList := by
  rw [Reading.add, if_neg (by simp [hopen])] at hr
  split at hr
  case h_1 hargument => exact absurd (String.toList_inj.mp hargument) hne
  case h_2 cs hargument => exact h.addLong hargument hr
  case h_3 c cs _ hlong hargument =>
    have hshort : ¬ ['-', '-'] <+: argument.toList := by
      rw [hargument]
      simpa [List.cons_prefix_cons, eq_comm] using hlong
    rw [Mode.ofArgument?_eq_none hshort]
    exact h.addShort hr
  case h_4 hplain =>
    have hshort : ¬ ['-', '-'] <+: argument.toList := fun ⟨t, ht⟩ => hplain '-' t ht.symm
    rw [Mode.ofArgument?_eq_none hshort]
    exact h.addPlain hr

/-! ### Whole command lines -/

lemma sound_empty : Sound {} := by
  refine ⟨fun m => ?_, List.nodup_nil, by simp⟩
  cases m <;> simp [modes, Arguments.selects]

lemma add_dashes (hopen : r.filesOnly = false) : r.add "--" = .ok { r with filesOnly := true } := by
  rw [Reading.add, if_neg (by simp [hopen])]
  rfl

/-- A command line is collected with the modes that it names. -/
lemma Sound.foldlM (h : r.Sound) (hr : arguments.foldlM Reading.add r = .ok r') :
    r'.Sound ∧ r'.modes = r.modes ++ if r.filesOnly then [] else namedModes arguments := by
  induction arguments generalizing r with
  | nil =>
    cases hr
    simp [h, namedModes]
  | cons argument arguments ih =>
    rw [List.foldlM_cons] at hr
    obtain ⟨next, hnext, hr⟩ := bind_eq_ok_iff.mp hr
    rw [namedModes_cons]
    cases hfiles : r.filesOnly with
    | true =>
      rw [Reading.add, if_pos hfiles] at hnext
      have hcollects := h.addFile hnext
      have hrest := ih hcollects.sound hr
      rw [hcollects.filesOnly, hfiles, hcollects.modes] at hrest
      simpa using hrest
    | false =>
      by_cases hargument : argument = "--"
      · -- What follows is read as files, whatever it looks like.
        rw [hargument, add_dashes hfiles] at hnext
        cases hnext
        have hclosed : Sound { r with filesOnly := true } := ⟨h.selects, h.nodup, h.pending⟩
        obtain ⟨hsound, hmodes⟩ := ih hclosed hr
        refine ⟨hsound, hmodes.trans ?_⟩
        rw [if_pos rfl, hargument]
        rfl
      · have hcollects := h.add hfiles hargument hnext
        have hrest := ih hcollects.sound hr
        rw [hcollects.filesOnly, hfiles, hcollects.modes] at hrest
        simpa [hargument] using hrest

end Reading

namespace Arguments

/-- Arguments that pass name one mode exactly. -/
lemma validate_eq_ok (h : a.validate = .ok a') :
    a' = a ∧ (a.output.isSome → a.patch) ∧ (a.quiet → a.verbosity = 0) ∧
      ∃ m, ∀ m', a.selects m' ↔ m' = m := by
  rw [validate] at h
  split_ifs at h with hmodes houtput hquiet hnone
  cases h
  simp only [Bool.or_eq_true, Bool.and_eq_true, not_or, not_and, Bool.not_eq_true] at hmodes houtput
  simp only [Bool.and_eq_true, not_and, bne_iff_ne, ne_eq, Decidable.not_not] at hquiet
  simp only [Bool.not_eq_true', Bool.not_eq_false, Bool.or_eq_true] at hnone
  refine ⟨rfl, fun h => ?_, hquiet, ?_⟩
  · simpa [houtput h] using hnone
  · rcases hnone with (h | h) | h
    · exact ⟨.check, fun m' => by cases m' <;> simp_all [selects]⟩
    · exact ⟨.patch, fun m' => by cases m' <;> simp_all [selects]⟩
    · exact ⟨.fix, fun m' => by cases m' <;> simp_all [selects]⟩

lemma mode_of_selects (h : ∀ m', a.selects m' ↔ m' = m) : a.mode = m := by
  have hfix : a.fix ↔ Mode.fix = m := h .fix
  have hpatch : a.patch ↔ Mode.patch = m := h .patch
  rw [Arguments.mode]
  cases m <;> simp_all

/-- The texts about a wrong command line say so at their beginning. -/
lemma argumentText_isError {e : ArgumentError} (hhelp : e ≠ .displayHelp)
    (hversion : e ≠ .displayVersion) :
    "error: ".toList <+: (Program.argumentText e).toList := by
  have hopens : ∀ {reason : String}, "error: ".toList <+: reason.toList →
      "error: ".toList <+: (reason ++ Program.usage).toList := by
    intro reason h
    rw [String.toList_append]
    exact h.trans (List.prefix_append _ _)
  cases e with
  | displayHelp => exact absurd rfl hhelp
  | displayVersion => exact absurd rfl hversion
  | _ => exact hopens (by decide)

/-- Accepted arguments select one mode, the only one that the command line names. A patch is written
to a file in the mode that makes one, and nobody asks for more and for less talk at once. A command
line that is not accepted is answered with a text and a status, and with nothing else, whatever
surrounds the program: on the output stream and with the status 0 where the text was asked for,
otherwise on the error stream and with the status 2. All files stay as they are. -/
theorem parse_consistent (arguments : List String) :
    (∀ a, parse arguments = .ok a →
      (∀ m, a.selects m ↔ m = a.mode) ∧ namedModes arguments = [a.mode] ∧
        (a.output.isSome → a.patch) ∧ (a.quiet → a.verbosity = 0)) ∧
      ∀ e, parse arguments = .error e → ∀ env t,
        (e = .displayHelp ∨ e = .displayVersion →
          Program.execute arguments env t =
            { output := Program.argumentText e, error := "", status := 0, tree := t }) ∧
        (e ≠ .displayHelp ∧ e ≠ .displayVersion →
          Program.execute arguments env t =
              { output := "", error := Program.argumentText e, status := 2, tree := t } ∧
            "error: ".toList <+: (Program.argumentText e).toList) := by
  refine ⟨fun a ha => ?_, fun e he env t => ?_⟩
  · obtain ⟨r, hr, ha⟩ := bind_eq_ok_iff.mp ha
    obtain ⟨settled, hsettled, ha⟩ := bind_eq_ok_iff.mp ha
    obtain ⟨rfl, houtput, hquiet, m, hm⟩ := validate_eq_ok ha
    obtain ⟨hsound, hmodes⟩ := Reading.sound_empty.foldlM hr
    have hsettle := hsound.settle hsettled
    have hnamed : settled.modes = namedModes arguments := by
      rw [hsettle.modes, hmodes, List.append_nil]
      rfl
    rw [mode_of_selects hm]
    refine ⟨hm, ?_, houtput, hquiet⟩
    rw [← hnamed, ← List.perm_singleton,
      List.perm_ext_iff_of_nodup hsettle.sound.nodup (List.nodup_cons.mpr (by simp))]
    intro m'
    rw [← hsettle.sound.selects, hm, List.mem_singleton]
  · have hrefused : Program.execute arguments env t = Program.refuse e t := by
      rw [Program.execute, he]
    rw [hrefused]
    constructor
    · rintro (rfl | rfl) <;> rfl
    · rintro ⟨hhelp, hversion⟩
      refine ⟨?_, argumentText_isError hhelp hversion⟩
      cases e with
      | displayHelp => exact absurd rfl hhelp
      | displayVersion => exact absurd rfl hversion
      | _ => rfl

/-- The last of the arguments stands behind two dashes and is a file. Two modes exclude each other,
so that nothing is read or written. -/
theorem parse_consistent_patch :
    let arguments := ["-vvo", "x.patch", "--patch", "--", "--fix"]
    namedModes arguments = [.patch] ∧ (∃ a, parse arguments = .ok a ∧ a.mode = .patch) ∧
      Program.execute ["--check", "--fix"] { here := ⟨"/"⟩ } {} =
        { output := "", error := "error: conflicting arguments\n\n" ++ Program.usage, status := 2,
          tree := {} } ∧
      Program.execute ["--fix", "--help"] { here := ⟨"/"⟩ } {} =
        { output := Program.usage, error := "", status := 0, tree := {} } := by
  obtain ⟨haccepted, -⟩ := parse_consistent ["-vvo", "x.patch", "--patch", "--", "--fix"]
  obtain ⟨-, hrefused⟩ := parse_consistent ["--check", "--fix"]
  obtain ⟨-, hasked⟩ := parse_consistent ["--fix", "--help"]
  have hparse : parse ["-vvo", "x.patch", "--patch", "--", "--fix"] =
      .ok { files := [⟨"--fix"⟩], patch := true, output := some ⟨"x.patch"⟩, verbosity := 2 } := by
    decide
  obtain ⟨-, hnamed, -⟩ := haccepted _ hparse
  obtain ⟨-, hconflict⟩ := hrefused .argumentConflict (by decide) { here := ⟨"/"⟩ } {}
  obtain ⟨hhelp, -⟩ := hasked .displayHelp (by decide) { here := ⟨"/"⟩ } {}
  exact ⟨hnamed, ⟨_, hparse, rfl⟩, (hconflict (by decide)).1, hhelp (Or.inl rfl)⟩

end Arguments

end LicenseHeader
