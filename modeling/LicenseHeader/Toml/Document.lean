import LicenseHeader.Toml.Literal
import LicenseHeader.Toml.Text

/-!
# Reading a document

Between the elements of an array and the entries of a table in braces there may be blanks, comments
and line ends; elsewhere an entry and a header take one line each. Every step of the reader gives
back a shorter rest, on which the recursion rests.
-/

namespace LicenseHeader.Toml

def skipBlanks (cs : List Char) : List Char :=
  cs.dropWhile fun c => c == ' ' || c == '\t'

theorem length_skipBlanks_le (cs : List Char) : (skipBlanks cs).length ≤ cs.length :=
  (List.dropWhile_sublist _).length_le

/-- A text without the comment and up to the line end that follows it; nothing if the comment holds
a control character. -/
def skipComment? (cs : List Char) : Option (List Char) :=
  match cs with
  | '#' :: cs =>
    let comment := cs.takeWhile (· ≠ '\n')
    let rest := cs.drop comment.length
    if comment.all isPlain then some rest
    else if comment.getLast? = some '\r' ∧ rest ≠ [] ∧ comment.dropLast.all isPlain then
      some ('\r' :: rest)
    else none
  | cs => some cs

/-- A text without the line end at its start; nothing if something else stands there. -/
def lineEnd? : List Char → Option (List Char)
  | [] => some []
  | '\n' :: cs => some cs
  | '\r' :: '\n' :: cs => some cs
  | _ => none

/-- The text after the end of the line, if nothing but a comment is left on the line. -/
def finishLine? (cs : List Char) : Option (List Char) :=
  (skipComment? (skipBlanks cs)).bind lineEnd?

/-- A text without the blanks, comments and line ends at its start. -/
def skipVoid (cs : List Char) : List Char :=
  let rest := skipBlanks cs
  if rest.isEmpty then rest
  else match finishLine? rest with
    | some next => if next.length < cs.length then skipVoid next else rest
    | none => rest
termination_by cs.length

theorem length_skipVoid_le (cs : List Char) : (skipVoid cs).length ≤ cs.length := by
  have := length_skipBlanks_le cs
  fun_induction skipVoid cs with
  | case1 => assumption
  | case2 cs _ _ next _ hlt ih =>
    have := ih (length_skipBlanks_le next)
    omega
  | case3 => assumption
  | case4 => assumption

def isBareChar (c : Char) : Bool :=
  c.isAlphanum || c == '_' || c == '-'

def readName : Reader String
  | '"' :: cs => readBasic [] cs
  | '\'' :: cs => readLiteral [] cs
  | cs =>
    let name := cs.takeWhile isBareChar
    if name.isEmpty then none else some (String.ofList name, cs.drop name.length)

/-- Reads a key, with the names `read`, last one first, in front of it. -/
def readKey (read : List String) (cs : List Char) : Option (Key × List Char) :=
  match readName (skipBlanks cs) with
  | none => none
  | some (name, rest) =>
    match skipBlanks rest with
    | '.' :: next =>
      if next.length < cs.length then readKey (name :: read) next else none
    | rest => some ((name :: read).reverse, rest)
termination_by cs.length

mutual

def readValue (cs : List Char) : Option (Value × List Char) :=
  match cs with
  | '[' :: cs => readElements [] cs
  | '{' :: cs => readTable [] cs
  | '"' :: cs => (readText ('"' :: cs)).map fun r => (.string r.1, r.2)
  | '\'' :: cs => (readText ('\'' :: cs)).map fun r => (.string r.1, r.2)
  | cs => readLiteralValue cs
termination_by 2 * cs.length

/-- Reads the rest of an array whose elements `read`, last one first, were read. -/
def readElements (read : List Value) (cs : List Char) : Option (Value × List Char) :=
  match _h : skipVoid cs with
  | ']' :: rest => some (.array read.reverse, rest)
  | start =>
    match readValue start with
    | none => none
    | some (value, rest) =>
      match skipVoid rest with
      | ']' :: rest => some (.array (value :: read).reverse, rest)
      | ',' :: next => if next.length < cs.length then readElements (value :: read) next else none
      | _ => none
termination_by 2 * cs.length + 1
decreasing_by
  · have := length_skipVoid_le cs
    rw [_h] at this
    omega
  · omega

/-- Reads the rest of a table in braces whose entries `read`, last one first, were read. -/
def readTable (read : Entries) (cs : List Char) : Option (Value × List Char) :=
  match skipVoid cs with
  | '}' :: rest => some (.table read.reverse, rest)
  | start =>
    match readKey [] start with
    | some (key, '=' :: next) =>
      if (skipBlanks next).length < cs.length then
        match readValue (skipBlanks next) with
        | none => none
        | some (value, rest) =>
          let entries := (key, value) :: read
          if keysDisjoint entries then
            match skipVoid rest with
            | '}' :: rest => some (.table entries.reverse, rest)
            | ',' :: next => if next.length < cs.length then readTable entries next else none
            | _ => none
          else none
      else none
    | _ => none
termination_by 2 * cs.length + 1

end

/-- Reads an entry up to the end of its line. -/
def readEntry (cs : List Char) : Option ((Key × Value) × List Char) := do
  let (key, rest) ← readKey [] cs
  let '=' :: next := rest | none
  let (value, rest) ← readValue (skipBlanks next)
  let rest ← finishLine? rest
  return ((key, value), rest)

/-- Reads a header up to the end of its line. -/
def readHeader (cs : List Char) : Option ((HeaderKind × Key) × List Char) :=
  match cs with
  | '[' :: '[' :: cs => do
    let (key, ']' :: ']' :: rest) ← readKey [] cs | none
    return ((.arrayElement, key), ← finishLine? rest)
  | '[' :: cs => do
    let (key, ']' :: rest) ← readKey [] cs | none
    return ((.table, key), ← finishLine? rest)
  | _ => none

/-- Reads the entries up to the next header or the end of the document. -/
def readEntries (read : Entries) (cs : List Char) : Option (Entries × List Char) :=
  match skipVoid cs with
  | [] => some (read.reverse, [])
  | '[' :: rest => some (read.reverse, '[' :: rest)
  | start =>
    match readEntry start with
    | some (entry, rest) =>
      if rest.length < cs.length then readEntries (entry :: read) rest else none
    | none => none
termination_by cs.length

/-- Reads the sections of a document, with those in `read`, last one first, in front of them. -/
def readSections (read : List Section) (cs : List Char) : Option (List Section) :=
  if cs.isEmpty then some read.reverse
  else
    match readHeader cs with
    | some ((kind, key), rest) =>
      match readEntries [] rest with
      | some (entries, rest) =>
        if rest.length < cs.length then readSections (⟨kind, key, entries⟩ :: read) rest else none
      | none => none
    | none => none
termination_by cs.length

/-- Reads a document; a byte order mark at its start does not count. -/
def Document.ofText? (text : String) : Option Document := do
  let cs := match text.toList with
    | '\uFEFF' :: cs => cs
    | cs => cs
  let (entries, rest) ← readEntries [] cs
  return { entries, sections := ← readSections [] rest }

end LicenseHeader.Toml
