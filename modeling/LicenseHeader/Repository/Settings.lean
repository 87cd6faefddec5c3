import LicenseHeader.FileTree.Access

/-!
# Settings

Repositories and users have settings. A file of settings consists of groups: a line in brackets
begins a group, each other line that is neither empty nor a comment gives a setting of the group a
value, or none. A value may be quoted in part, and a backslash at the end of a line lets it go on in
the next one. What is said last counts, and what a repository says counts more than what its user
says for all repositories.
-/

namespace LicenseHeader

/-- Where a user keeps the settings for all repositories. -/
structure Account where
  home : Option Path := none
  /-- The directory of settings, if it is not the usual one. -/
  configHome : Option Path := none
deriving DecidableEq, Repr

/-- The directory of the settings that have to do with repositories. -/
def Account.settingsDirectory? (a : Account) : Option Path :=
  ((a.configHome.filter (!·.text.isEmpty)).or (a.home.map (·.join ⟨".config"⟩))).map (·.join ⟨"git"⟩)

/-- The files with the settings for all repositories, those that count more in front. -/
def Account.settingsFiles (a : Account) : List Path :=
  (a.home.map (·.join ⟨".gitconfig"⟩)).toList ++ (a.settingsDirectory?.map (·.join ⟨"config"⟩)).toList

/-- The file with the rules for all repositories that is used unless a setting names another one. -/
def Account.usualIgnoreFile? (a : Account) : Option Path :=
  a.settingsDirectory?.map (·.join ⟨"ignore"⟩)

namespace Repository

open Text

/-- A setting and what a line says about it. -/
structure Setting where
  /-- The group and the name in it, in octets, with a point between them. -/
  key : List Char
  /-- The value in octets, if there is one. -/
  value : Option (List Char)
deriving DecidableEq, Repr

namespace Settings

/-- Whether a character belongs to the space inside a line. -/
def isSpace (c : Char) : Bool :=
  c == ' ' || ('\t' ≤ c && c ≤ '\r')

def isNameChar (c : Char) : Bool :=
  c.isAlphanum || c == '-'

/-- The characters up to the mark of a comment that stands neither in quotes nor behind a backslash,
and whether quotes are still open there. -/
def uncomment (quoted : Bool) : List Char → List Char × Bool
  | [] => ([], quoted)
  | '\\' :: c :: cs =>
    let rest := uncomment quoted cs
    ('\\' :: c :: rest.1, rest.2)
  | c :: cs =>
    if !quoted && (c == '#' || c == ';') then ([], quoted)
    else
      let rest := uncomment (quoted != (c == '"')) cs
      (c :: rest.1, rest.2)

/-- A written value without its quotes and escapes, and whether a backslash comes last. There is
none if a backslash stands in front of a character that it cannot change. -/
def unescape? : List Char → Option (List Char × Bool)
  | [] => some ([], false)
  | ['\\'] => some ([], true)
  | '\\' :: c :: cs => do
    let c ← [('n', '\n'), ('t', '\t'), ('b', '\x08'), ('"', '"'), ('\\', '\\')].lookup c
    let rest ← unescape? cs
    return (c :: rest.1, rest.2)
  | c :: cs => do
    let rest ← unescape? cs
    return (if c == '"' then rest.1 else c :: rest.1, rest.2)

/-- A value that goes on in the next line. -/
structure OpenValue where
  key : List Char
  /-- What was read of it. -/
  front : List Char
  /-- Whether it goes on inside quotes. -/
  quoted : Bool
deriving DecidableEq, Repr

/-- How far the reading of a file has come. -/
structure Reading where
  group : List Char := []
  /-- The settings so far, the last one first. -/
  settings : List Setting := []
  pending : Option OpenValue := none
deriving DecidableEq, Repr

namespace Reading

/-- Reads what a line has of a value. -/
def addValue (r : Reading) (v : OpenValue) (written : List Char) : Option Reading := do
  let (written, quoted) := uncomment v.quoted written
  let (text, goesOn) ← unescape? (written.reverse.dropWhile isSpace).reverse
  let front := v.front ++ text
  if goesOn then return { r with pending := some { v with front, quoted } }
  else return { r with pending := none, settings := ⟨v.key, some front⟩ :: r.settings }

/-- Reads a line, or what of it is left behind the name of a group, that may give a setting. -/
def addSetting (r : Reading) (line : List Char) : Option Reading :=
  let line := line.dropWhile isSpace
  if line.head?.all (["#".toList, ";".toList].contains [·]) then some r
  else
    let name := line.takeWhile isNameChar
    let key := r.group ++ '.' :: name.map Char.toLower
    if name = [] then none
    else
      match (line.drop name.length).dropWhile isSpace with
      | [] => some { r with settings := ⟨key, none⟩ :: r.settings }
      | '=' :: written => r.addValue ⟨key, [], false⟩ (written.dropWhile isSpace)
      | _ => none

/-- The characters in front of the quotes that end the name of a part of a group, without the
backslashes, and what stands behind them. -/
def quotedName? : List Char → Option (List Char × List Char)
  | [] => none
  | '"' :: cs => some ([], cs)
  | '\\' :: c :: cs => (quotedName? cs).map fun r => (c :: r.1, r.2)
  | c :: cs => (quotedName? cs).map fun r => (c :: r.1, r.2)

/-- Reads the name of a group, whose opening bracket was read. -/
def addGroup (r : Reading) (line : List Char) : Option Reading :=
  let name := line.takeWhile fun c => isNameChar c || c == '.'
  let group := name.map Char.toLower
  match line.drop name.length with
  | ']' :: rest => if name = [] then none else addSetting { r with group } rest
  | c :: rest =>
    match isSpace c, rest.dropWhile isSpace with
    | true, '"' :: rest =>
      match quotedName? rest with
      | some (part, ']' :: rest) => addSetting { r with group := group ++ '.' :: part } rest
      | _ => none
    | _, _ => none
  | [] => none

def addLine (r : Reading) (line : List Char) : Option Reading :=
  match r.pending with
  | some v => r.addValue v line
  | none =>
    match line.dropWhile isSpace with
    | '[' :: line => r.addGroup line
    | line => r.addSetting line

end Reading

/-- The settings that a file gives, the last one first. There are none if a line makes no sense. -/
def ofContent? (content : ByteArray) : Option (List Setting) := do
  let octets := octetsOf content
  let mark := octetText ['\uFEFF']
  let octets := if mark.isPrefixOf octets then octets.drop mark.length else octets
  return (← (fields '\n' octets).foldlM Reading.addLine {}).settings

/-- The settings in the file that a path leads to; a file that is not there gives none. -/
def ofFile? (t : FileTree) (p : Path) : Option (List Setting) :=
  match t.read p with
  | .ok content => ofContent? content
  | .error .notFound | .error .notDirectory => some []
  | .error _ => none

/-- The settings in some files, those that count more in front. -/
def ofFiles? (t : FileTree) (files : List Path) : Option (List Setting) :=
  (files.mapM (ofFile? t)).map List.flatten

/-! ### Values -/

/-- What is said about a setting: nothing, that it is there, or its value. -/
def find? (settings : List Setting) (key : String) : Option (Option (List Char)) :=
  (settings.find? fun s => s.key == key.toList).map Setting.value

/-- The truth value that a value stands for. A setting without a value is true. -/
def truth? (value : Option (List Char)) : Option Bool :=
  match value.map fun v => String.ofList (v.map Char.toLower) with
  | none | some "true" | some "yes" | some "on" => some true
  | some "false" | some "no" | some "off" | some "" => some false
  | some number =>
    let digits := match number.toList with
      | '-' :: cs => cs
      | cs => cs
    (count? (Nat.pow 2 31 - 1) digits).map (· != 0)

def path? (value : Option (List Char)) : Option Path :=
  (value.bind decoded?).map Path.mk

end Settings

end Repository

end LicenseHeader
