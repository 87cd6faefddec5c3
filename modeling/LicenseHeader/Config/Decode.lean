import LicenseHeader.Config.Basic
import LicenseHeader.Toml.Document

/-!
# Configurations as documents

The form of a configuration in a document. No key other than the known ones may occur. The rules are
an array, of which each element is a table or lists the fields in their order; the later fields may
be left out, and what follows them does not count.
-/

namespace LicenseHeader

open Toml

/-- The text that a field holds; a field that is absent holds none. -/
def textField? : Option Value → Option (Option String)
  | none => some none
  | some (.string text) => some (some text)
  | some _ => none

/-- The truth value that a field holds, `ifAbsent` if it is absent. -/
def flagField? (ifAbsent : Bool) : Option Value → Option Bool
  | none => some ifAbsent
  | some (.boolean value) => some value
  | some _ => none

namespace RuleEntry

def ofFields? (pattern marker skip : Option Value) : Option RuleEntry := do
  let some pattern ← textField? pattern | none
  return { pattern, marker := ← textField? marker, skip := ← flagField? false skip }

def ofEntries? (entries : Entries) : Option RuleEntry := do
  let fields ← entries.fields? ["pattern", "prefix", "skip"]
  ofFields? (fields.lookup "pattern") (fields.lookup "prefix") (fields.lookup "skip")

def ofValue? : Value → Option RuleEntry
  | .table entries => ofEntries? entries
  | .array elements => ofFields? elements[0]? elements[1]? elements[2]?
  | _ => none

def ofSection? (s : Section) : Option RuleEntry :=
  if s.kind = .arrayElement ∧ s.key = ["rules"] then ofEntries? s.entries else none

end RuleEntry

namespace Config

def ofDocument? (d : Document) : Option Config := do
  let fields ← d.entries.fields? ["rules", "builtin-rules"]
  let builtinRules ← flagField? true (fields.lookup "builtin-rules")
  let rules ← match fields.lookup "rules" with
    | none => d.sections.mapM RuleEntry.ofSection?
    | some (.array elements) =>
      if d.sections.isEmpty then elements.mapM RuleEntry.ofValue? else none
    | some _ => none
  return { rules, builtinRules }

/-- The configuration that a text holds; it is validated. -/
def parse (path : Path) (text : String) : Except ConfigError Config :=
  match (Document.ofText? text).bind ofDocument? with
  | none => .error (.malformed path)
  | some config => config.validate.map fun _ => config

def ofContent (path : Path) (content : ByteArray) : Except ConfigError Config :=
  match String.fromUTF8? content with
  | none => .error (.unreadable path .notText)
  | some text => parse path text

end Config

end LicenseHeader
