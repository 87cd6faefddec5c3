import LicenseHeader.FileTree.Basic
import LicenseHeader.Policy.Basic

/-!
# Configurations

A configuration lists rules that are tried before the builtin ones, and says whether the builtin
ones are tried at all. It is valid when each rule either names a marker or exempts its files, each
marker fits on one line and each pattern compiles; a valid configuration compiles to a policy.
-/

namespace LicenseHeader

structure RuleEntry where
  /-- The pattern of the paths that the rule is about. -/
  pattern : String
  /-- The marker of the files, if the rule names one. -/
  marker : Option String
  /-- Whether the files are exempt. -/
  skip : Bool
deriving DecidableEq, Repr

/-- What a workspace asks for. -/
structure Config where
  /-- The rules that come first. -/
  rules : List RuleEntry := []
  /-- Whether the builtin rules follow. -/
  builtinRules : Bool := true
deriving DecidableEq, Repr

inductive RuleFault where
  /-- The rule names a marker and exempts its files. -/
  | markerAndSkip
  /-- The rule does neither. -/
  | noAction
  /-- The marker does not fit on one line. -/
  | lineBreak
  /-- The pattern does not compile. -/
  | badPattern (error : Glob.PatternError)
deriving DecidableEq, Repr

def RuleFault.message : RuleFault → String
  | .markerAndSkip => "prefix and skip are mutually exclusive"
  | .noAction => "either prefix or skip = true is required"
  | .lineBreak => "prefix cannot contain a line break"
  | .badPattern error => error.message

/-- Why there is no configuration or no policy. -/
inductive ConfigError where
  /-- The file could not be read. -/
  | unreadable (path : Path) (fault : FileFault)
  /-- The file does not hold a configuration. -/
  | malformed (path : Path)
  /-- A rule is not valid. -/
  | invalidRule (pattern : String) (fault : RuleFault)
  /-- A builtin pattern does not compile. -/
  | builtinRule (error : Glob.PatternError)
deriving DecidableEq, Repr

/-- The texts that report the error, the outermost first. What is wrong inside a malformed file is
left to the reader of that file. -/
def ConfigError.reasons : ConfigError → List String
  | .unreadable path fault =>
    [s!"Failed to read config file '{path.text}': {fault.message}", fault.message]
  | .malformed _ => []
  | .invalidRule pattern fault => [s!"Invalid rule for '{pattern}': {fault.message}"]
  | .builtinRule error => [s!"Invalid builtin rule: {error.message}", error.message]

def hasLineBreak (text : String) : Bool :=
  text.toList.any fun c => c == '\n' || c == '\r'

namespace RuleEntry

/-- What is wrong with the rule, if anything is. The action is looked at before the pattern. -/
def fault? (r : RuleEntry) : Option RuleFault :=
  match r.marker, r.skip with
  | some _, true => some .markerAndSkip
  | none, false => some .noAction
  | some marker, false =>
    if hasLineBreak marker then some .lineBreak else patternFault?
  | none, true => patternFault?
where
  /-- What is wrong with the pattern. -/
  patternFault? : Option RuleFault :=
    match Glob.compile r.pattern with
    | .ok _ => none
    | .error error => some (.badPattern error)

/-- What the rule says about its files. A marker counts only in a rule that does not exempt. -/
def action (r : RuleEntry) : Action :=
  match r.marker with
  | some marker => if r.skip then .skip else .comment ⟨marker⟩
  | none => .skip

def compile (r : RuleEntry) : Except ConfigError Rule :=
  (Policy.compileRule r.pattern r.action).mapError fun error =>
    .invalidRule r.pattern (.badPattern error)

end RuleEntry

namespace Config

/-- Accepts a configuration, or names the first rule that is not valid. -/
def validate (c : Config) : Except ConfigError Unit :=
  match c.rules.findSome? fun r => r.fault?.map fun fault => (r.pattern, fault) with
  | some (pattern, fault) => .error (.invalidRule pattern fault)
  | none => .ok ()

/-- The rules of the configuration, followed by the builtin ones if it wants them. -/
def compileRules (c : Config) : Except ConfigError (List Rule) := do
  let own ← c.rules.mapM RuleEntry.compile
  if c.builtinRules then
    return own ++ (← Policy.builtinRules.mapError .builtinRule)
  else return own

/-- The policy of a workspace; without a configuration the builtin rules alone hold. -/
def policy (config : Option Config) : Except ConfigError Policy :=
  match config with
  | some c => c.compileRules.map Policy.mk
  | none => (Policy.builtinRules.mapError .builtinRule).map Policy.mk

end Config

end LicenseHeader
