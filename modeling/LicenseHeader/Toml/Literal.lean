import LicenseHeader.Text.Basic
import LicenseHeader.Toml.Basic

/-!
# Truth values, numbers, dates and times

The values that are written without quotes or brackets. Of numbers, dates and times only the form
is checked: a date has to be in the calendar, a time on the clock.
-/

namespace LicenseHeader.Toml

open Text

/-- Whether digits of a kind are written, single underscores between them allowed. -/
def isDigitRun (isDigit : Char → Bool) (cs : List Char) : Bool :=
  (fields '_' cs).all fun group => !group.isEmpty && group.all isDigit

/-- A text without one sign at its start. -/
def dropSign : List Char → List Char
  | '+' :: cs => cs
  | '-' :: cs => cs
  | cs => cs

/-- Whether a decimal integer is written; a zero stands alone. -/
def isDecimal (cs : List Char) : Bool :=
  let digits := dropSign cs
  isDigitRun Char.isDigit digits && (digits.head? != some '0' || digits.length == 1)

/-- Whether an integer is written, in base ten or behind the mark of another base. -/
def isInteger : List Char → Bool
  | '0' :: 'x' :: cs =>
    isDigitRun (fun c => c.isDigit || ('a' ≤ c && c ≤ 'f') || ('A' ≤ c && c ≤ 'F')) cs
  | '0' :: 'o' :: cs => isDigitRun (fun c => '0' ≤ c && c ≤ '7') cs
  | '0' :: 'b' :: cs => isDigitRun (fun c => c == '0' || c == '1') cs
  | cs => isDecimal cs

/-- Whether the part of a number before its exponent is written, with a fraction or not. -/
def isMantissa (needFraction : Bool) (cs : List Char) : Bool :=
  match fields '.' cs with
  | [whole] => !needFraction && isDecimal whole
  | [whole, fraction] => isDecimal whole && isDigitRun Char.isDigit fraction
  | _ => false

/-- Whether a number with a fraction or an exponent, an infinity or no number is written. -/
def isFloat (cs : List Char) : Bool :=
  dropSign cs == ['i', 'n', 'f'] || dropSign cs == ['n', 'a', 'n'] ||
    match fields 'e' (cs.map fun c => if c == 'E' then 'e' else c) with
    | [mantissa] => isMantissa true mantissa
    | [mantissa, exponent] =>
      isMantissa false mantissa && isDigitRun Char.isDigit (dropSign exponent)
    | _ => false

/-- The number that exactly `n` digits write. -/
def fixedDigits? (n : Nat) (cs : List Char) : Option Nat :=
  if cs.length = n ∧ cs.all Char.isDigit then some (digitsValue cs) else none

def daysInMonth (year month : Nat) : Nat :=
  if month = 2 then
    if year % 4 = 0 ∧ (year % 100 ≠ 0 ∨ year % 400 = 0) then 29 else 28
  else if month = 4 ∨ month = 6 ∨ month = 9 ∨ month = 11 then 30
  else 31

def isDate (cs : List Char) : Bool :=
  match fields '-' cs with
  | [y, m, d] =>
    match fixedDigits? 4 y, fixedDigits? 2 m, fixedDigits? 2 d with
    | some year, some month, some day =>
      1 ≤ month && month ≤ 12 && 1 ≤ day && day ≤ daysInMonth year month
    | _, _, _ => false
  | _ => false

/-- Whether seconds are written, with a fraction or not. -/
def isSeconds (cs : List Char) : Bool :=
  match fields '.' cs with
  | [whole] => (fixedDigits? 2 whole).any (· ≤ 60)
  | [whole, fraction] =>
    (fixedDigits? 2 whole).any (· ≤ 60) && !fraction.isEmpty && fraction.all Char.isDigit
  | _ => false

/-- Whether a time of day is written; seconds may be left out. -/
def isTime (cs : List Char) : Bool :=
  match fields ':' cs with
  | [h, m] => (fixedDigits? 2 h).any (· ≤ 23) && (fixedDigits? 2 m).any (· ≤ 59)
  | [h, m, s] => (fixedDigits? 2 h).any (· ≤ 23) && (fixedDigits? 2 m).any (· ≤ 59) && isSeconds s
  | _ => false

/-- Whether a time of day is written, followed by a distance from universal time or not. -/
def isOffsetTime (cs : List Char) : Bool :=
  match cs.reverse with
  | 'Z' :: r => isTime r.reverse
  | 'z' :: r => isTime r.reverse
  | m₂ :: m₁ :: ':' :: h₂ :: h₁ :: sign :: r =>
    if sign == '+' || sign == '-' then
      isTime r.reverse && (fixedDigits? 2 [h₁, h₂]).any (· ≤ 23) &&
        (fixedDigits? 2 [m₁, m₂]).any (· ≤ 59)
    else isTime cs
  | _ => isTime cs

/-- Whether a date, a time or both are written. -/
def isMoment (cs : List Char) : Bool :=
  isDate cs || isTime cs ||
    match cs.drop 10 with
    | c :: time => (c == 'T' || c == 't' || c == ' ') && isDate (cs.take 10) && isOffsetTime time
    | [] => false

/-- Whether a character may occur in a value of this module. -/
def isLiteralChar (c : Char) : Bool :=
  c.isAlphanum || c == '_' || c == '-' || c == '+' || c == '.' || c == ':'

/-- The characters of the value that a text starts with. A date may be followed by one blank and the
time of day. -/
def literalLength (cs : List Char) : Nat :=
  let first := cs.takeWhile isLiteralChar
  match cs.drop first.length with
  | ' ' :: rest =>
    if isDate first && rest.head?.any Char.isDigit then
      first.length + 1 + (rest.takeWhile isLiteralChar).length
    else first.length
  | _ => first.length

/-- Reads a value of this module. -/
def readLiteralValue : Reader Value := fun cs =>
  let written := cs.take (literalLength cs)
  let rest := cs.drop (literalLength cs)
  if written = ['t', 'r', 'u', 'e'] then some (.boolean true, rest)
  else if written = ['f', 'a', 'l', 's', 'e'] then some (.boolean false, rest)
  else if isInteger written || isFloat written || isMoment written then
    some (.literal (String.ofList written), rest)
  else none

end LicenseHeader.Toml
