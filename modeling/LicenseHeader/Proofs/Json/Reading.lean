import LicenseHeader.Json.Printer
import Mathlib.Data.List.Basic
import Mathlib.Tactic.Lemma

/-!
# Reading JSON

A JSON text read by somebody who knows nothing about the way it was made, character by character.
The reader keeps in mind what is open around the place where it stands, and what may come there;
whatever may not come there makes the text void. Of the values that JSON knows it reads texts,
numbers, arrays and objects.
-/

namespace LicenseHeader.Json

/-! ### Numbers -/

/-- One digit or more. -/
def isDigits (cs : List Char) : Bool :=
  !cs.isEmpty && cs.all Char.isDigit

/-- The part of a number before the point, which has no zero in front. -/
def isWhole (cs : List Char) : Bool :=
  isDigits cs && (cs.head? != some '0' || cs.length == 1)

/-- The part of a number that tells a power of ten, if there is one. -/
def isExponent : List Char → Bool
  | [] => true
  | c :: sign :: cs =>
    (c == 'e' || c == 'E') &&
      (if sign = '+' ∨ sign = '-' then isDigits cs else isDigits (sign :: cs))
  | _ => false

/-- The part of a number from the point on, if there is one. -/
def isFraction : List Char → Bool
  | '.' :: cs => isDigits (cs.takeWhile Char.isDigit) && isExponent (cs.dropWhile Char.isDigit)
  | cs => isExponent cs

def isUnsigned (cs : List Char) : Bool :=
  isWhole (cs.takeWhile Char.isDigit) && isFraction (cs.dropWhile Char.isDigit)

def isNumber : List Char → Bool
  | '-' :: cs => isUnsigned cs
  | cs => isUnsigned cs

def isNumberChar (c : Char) : Bool :=
  c.isDigit || c == '-' || c == '+' || c == '.' || c == 'e' || c == 'E'

/-! ### Texts -/

/-- How far a character has been read that is not written as itself. -/
inductive Escape where
  | none
  /-- A backslash was read. The number is the first half of a character that is written in two. -/
  | begun (high : Option Nat)
  /-- A part of a code was read, and so many digits are still to come behind the next one. -/
  | code (high : Option Nat) (left : Nat) (known : Nat)
  /-- The first half of a character was read that is written in two. -/
  | half (high : Nat)

def hexValue? (c : Char) : Option Nat :=
  if '0' ≤ c ∧ c ≤ '9' then some (c.toNat - '0'.toNat)
  else if 'a' ≤ c ∧ c ≤ 'f' then some (c.toNat - 'a'.toNat + 10)
  else if 'A' ≤ c ∧ c ≤ 'F' then some (c.toNat - 'A'.toNat + 10)
  else none

/-- The character that a letter behind a backslash stands for. -/
def shorthand? (c : Char) : Option Char :=
  match c with
  | '"' => some '"'
  | '\\' => some '\\'
  | '/' => some '/'
  | 'b' => some (Char.ofNat 0x08)
  | 'f' => some (Char.ofNat 0x0C)
  | 'n' => some '\n'
  | 'r' => some '\r'
  | 't' => some '\t'
  | _ => none

/-- Reads the code of a character, or of a half of one. -/
def readCode (content : List Char) (high : Option Nat) (code : Nat) :
    Option (List Char × Escape) :=
  match high with
  | none =>
    if 0xD800 ≤ code ∧ code < 0xDC00 then some (content, .half code)
    else if code.isValidChar then some (content ++ [Char.ofNat code], .none)
    else none
  | some high =>
    if 0xDC00 ≤ code ∧ code < 0xE000 then
      some (content ++ [Char.ofNat (0x10000 + (high - 0xD800) * 0x400 + (code - 0xDC00))], .none)
    else none

/-- Reads on inside a text. Control characters may not stand there as themselves. -/
def readText (content : List Char) (c : Char) : Escape → Option (List Char × Escape)
  | .none =>
    if c = '\\' then some (content, .begun none)
    else if c.toNat < 0x20 then none
    else some (content ++ [c], .none)
  | .begun high =>
    if c = 'u' then some (content, .code high 3 0)
    else if high.isSome then none
    else (shorthand? c).map fun meant => (content ++ [meant], .none)
  | .code high left known =>
    (hexValue? c).bind fun digit =>
      if left = 0 then readCode content high (16 * known + digit)
      else some (content, .code high (left - 1) (16 * known + digit))
  | .half high => if c = '\\' then some (content, .begun (some high)) else none

/-! ### Documents -/

/-- An array or an object that is not closed yet, with what it holds so far. -/
inductive Frame where
  | elements (before : List Json)
  | fields (before : List (String × Json))
  /-- An object of which the next field has got its name. -/
  | field (before : List (String × Json)) (name : String)

/-- What has just been read. -/
inductive State where
  /-- A value has to come. At the start of an array there may also be its end. -/
  | value (first : Bool)
  /-- The name of a field has to come. At the start of an object there may also be its end. -/
  | name (first : Bool)
  | colon (name : String)
  | text (isName : Bool) (content : List Char) (escape : Escape)
  | number (literal : List Char)
  /-- A value was read that may be the last one. -/
  | after (value : Json)

/-- Where a reader stands. -/
structure Reader where
  /-- What is open, the innermost first. -/
  frames : List Frame
  state : State

/-- A character that may stand between the parts of a JSON text. -/
def isSpace (c : Char) : Bool :=
  c == ' ' || c == '\t' || c == '\n' || c == '\r'

namespace Reader

/-- Reads on where a value has to come. -/
def stepValue (frames : List Frame) (first : Bool) (c : Char) : Option Reader :=
  if isSpace c then some ⟨frames, .value first⟩
  else if c = '"' then some ⟨frames, .text false [] .none⟩
  else if c = '[' then some ⟨.elements [] :: frames, .value true⟩
  else if c = '\x7b' then some ⟨.fields [] :: frames, .name true⟩
  else if c = '-' ∨ c.isDigit then some ⟨frames, .number [c]⟩
  else match frames with
    | .elements es :: frames =>
      if first ∧ c = ']' then some ⟨frames, .after (.array es)⟩ else none
    | _ => none

/-- Reads on where the name of a field has to come. -/
def stepName (frames : List Frame) (first : Bool) (c : Char) : Option Reader :=
  if isSpace c then some ⟨frames, .name first⟩
  else if c = '"' then some ⟨frames, .text true [] .none⟩
  else match frames with
    | .fields fs :: frames =>
      if first ∧ c = '\x7d' then some ⟨frames, .after (.object fs)⟩ else none
    | _ => none

/-- Reads on behind the name of a field. -/
def stepColon (frames : List Frame) (name : String) (c : Char) : Option Reader :=
  if isSpace c then some ⟨frames, .colon name⟩
  else match frames with
    | .fields fs :: frames =>
      if c = ':' then some ⟨.field fs name :: frames, .value false⟩ else none
    | _ => none

def stepText (frames : List Frame) (isName : Bool) (content : List Char) (escape : Escape)
    (c : Char) : Option Reader :=
  match escape, c with
  | .none, '"' =>
    some ⟨frames, if isName then .colon (String.ofList content)
      else .after (.string (String.ofList content))⟩
  | escape, c =>
    (readText content c escape).map fun (content, escape) => ⟨frames, .text isName content escape⟩

def stepAfter (frames : List Frame) (v : Json) (c : Char) : Option Reader :=
  if isSpace c then some ⟨frames, .after v⟩
  else match frames with
    | .elements es :: frames =>
      if c = ',' then some ⟨.elements (es ++ [v]) :: frames, .value false⟩
      else if c = ']' then some ⟨frames, .after (.array (es ++ [v]))⟩
      else none
    | .field fs name :: frames =>
      if c = ',' then some ⟨.fields (fs ++ [(name, v)]) :: frames, .name false⟩
      else if c = '\x7d' then some ⟨frames, .after (.object (fs ++ [(name, v)]))⟩
      else none
    | _ => none

/-- Reads on inside a number, or behind it if the character does not belong to it. -/
def stepNumber (frames : List Frame) (literal : List Char) (c : Char) : Option Reader :=
  if isNumberChar c then some ⟨frames, .number (literal ++ [c])⟩
  else if isNumber literal then stepAfter frames (.number (String.ofList literal)) c
  else none

def step (r : Reader) (c : Char) : Option Reader :=
  match r.state with
  | .value first => stepValue r.frames first c
  | .name first => stepName r.frames first c
  | .colon name => stepColon r.frames name c
  | .text isName content escape => stepText r.frames isName content escape c
  | .number literal => stepNumber r.frames literal c
  | .after v => stepAfter r.frames v c

/-- The value that was read, if nothing is open any more. -/
def result (r : Reader) : Option Json :=
  match r.frames, r.state with
  | [], .after v => some v
  | [], .number literal =>
    if isNumber literal then some (.number (String.ofList literal)) else none
  | _, _ => none

def read (r : Reader) : List Char → Option Json
  | [] => r.result
  | c :: cs => (r.step c).bind fun r => r.read cs

end Reader

/-- The value that a JSON text writes. -/
def parse? (cs : List Char) : Option Json :=
  Reader.read ⟨[], .value false⟩ cs

end LicenseHeader.Json
