/-!
# TOML documents

The content of a TOML document as far as it is laid out in the text: the entries before the first
header, and one section for each header. Keys are sequences of names. Numbers, dates and times are
kept as they are written.
-/

namespace LicenseHeader.Toml

/-- A key, split at its dots. -/
abbrev Key := List String

inductive Value where
  | string (text : String)
  | boolean (value : Bool)
  /-- A number, a date or a time, as it is written. -/
  | literal (text : String)
  | array (elements : List Value)
  /-- A table that is written inside braces. -/
  | table (entries : List (Key × Value))
deriving Repr, Inhabited

/-- The entries of a table in the order of the text. -/
abbrev Entries := List (Key × Value)

inductive HeaderKind where
  | table
  /-- A further table of an array of tables. -/
  | arrayElement
deriving DecidableEq, Repr

/-- A header with the entries below it. -/
structure Section where
  kind : HeaderKind
  key : Key
  /-- The entries up to the next header. -/
  entries : Entries
deriving Repr

structure Document where
  /-- The entries in front of the first header. -/
  entries : Entries
  /-- The headers in the order of the text. -/
  sections : List Section
deriving Repr

/-- Whether no key is, or leads through, another one, so that each entry has a place of its own. -/
def keysDisjoint (entries : Entries) : Bool :=
  match entries with
  | [] => true
  | (k, _) :: rest =>
    rest.all (fun e => !k.isPrefixOf e.1 && !e.1.isPrefixOf k) && keysDisjoint rest

/-- The values under the known names; nothing if another key occurs or a name occurs twice. -/
def Entries.fields? (known : List String) (entries : Entries) : Option (List (String × Value)) := do
  let fields ← entries.mapM fun
    | ([name], value) => if name ∈ known then some (name, value) else none
    | _ => none
  if (fields.map Prod.fst).Nodup then some fields else none

/-- A reader takes a value from the start of a text and gives back the rest. -/
abbrev Reader (α : Type) := List Char → Option (α × List Char)

end LicenseHeader.Toml
