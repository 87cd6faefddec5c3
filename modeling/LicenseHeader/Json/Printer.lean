/-!
# JSON

The values from which a report is built, and their printed form. A number is kept in its written
form; the fields of an object keep their order. Every element and every field is printed on a line
of its own, two spaces further in than the value it belongs to; an empty array or object stands on
one line. Inside a text, quotes, backslashes and the control characters below `U+0020` are escaped,
and nothing else.
-/

namespace LicenseHeader

inductive Json where
  | string (text : String)
  /-- A number, in its written form. -/
  | number (literal : String)
  | array (elements : List Json)
  /-- Named values in their order. -/
  | object (fields : List (String × Json))
deriving Repr, Inhabited

namespace Json

def natural (n : Nat) : Json :=
  .number (toString n)

/-! ### Printing -/

def hexDigit (n : Nat) : Char :=
  if n < 10 then Char.ofNat ('0'.toNat + n) else Char.ofNat ('a'.toNat + (n - 10))

/-- A character as it stands inside quotes. -/
def escape (c : Char) : List Char :=
  if c = '"' then ['\\', '"']
  else if c = '\\' then ['\\', '\\']
  else if c = '\n' then ['\\', 'n']
  else if c = '\r' then ['\\', 'r']
  else if c = '\t' then ['\\', 't']
  else if c.toNat = 0x08 then ['\\', 'b']
  else if c.toNat = 0x0C then ['\\', 'f']
  else if c.toNat < 0x20 then
    ['\\', 'u', '0', '0', hexDigit (c.toNat / 16), hexDigit (c.toNat % 16)]
  else [c]

def quote (text : List Char) : List Char :=
  '"' :: text.flatMap escape ++ ['"']

/-- The start of a line inside `depth` arrays and objects. -/
def newline (depth : Nat) : List Char :=
  '\n' :: List.replicate (2 * depth) ' '

mutual

/-- A value that stands inside `depth` arrays and objects. -/
def print (depth : Nat) : Json → List Char
  | .string text => quote text.toList
  | .number literal => literal.toList
  | .array [] => ['[', ']']
  | .array (e :: es) => '[' :: printElements (depth + 1) (e :: es) ++ newline depth ++ [']']
  | .object [] => ['\x7b', '\x7d']
  | .object (f :: fs) => '\x7b' :: printFields (depth + 1) (f :: fs) ++ newline depth ++ ['\x7d']

def printElements (depth : Nat) : List Json → List Char
  | [] => []
  | [e] => newline depth ++ print depth e
  | e :: es => newline depth ++ print depth e ++ ',' :: printElements depth es

def printFields (depth : Nat) : List (String × Json) → List Char
  | [] => []
  | [f] => newline depth ++ printField depth f
  | f :: fs => newline depth ++ printField depth f ++ ',' :: printFields depth fs

def printField (depth : Nat) : String × Json → List Char
  | (name, value) => quote name.toList ++ ':' :: ' ' :: print depth value

end

def render (value : Json) : List Char :=
  print 0 value

end Json

end LicenseHeader
