import LicenseHeader.Json.Printer
import LicenseHeader.Number.Shortest
import LicenseHeader.Report.Basic

/-!
# Report documents

The form of a report as a JSON document, and of the point in time that stands in it. What is not
known about a file has no field; the patch of a file is not part of the document.
-/

namespace LicenseHeader.Report

open Number

/-- A time in seconds: the shortest decimal that reads back, with at least one digit behind the
point. Numbers from `10 ^ 16` on and below `10 ^ (-5)` are written with an exponent. -/
def secondsText (d : Double) : List Char :=
  if d.significand = 0 then "0.0".toList
  else
    let decimal := d.shortest
    let digits := decimal.digitChars
    let point := decimal.pointPosition
    if 16 < point || point < -4 then
      let fraction := if digits.length = 1 then [] else '.' :: digits.drop 1
      let sign := if 0 < point then '+' else '-'
      digits.take 1 ++ fraction ++ 'e' :: sign :: (toString (point - 1).natAbs).toList
    else if 0 ≤ decimal.exponent then
      digits ++ List.replicate decimal.exponent.toNat '0' ++ ['.', '0']
    else if 0 < point then digits.take point.toNat ++ '.' :: digits.drop point.toNat
    else '0' :: '.' :: List.replicate (-point).toNat '0' ++ digits

def ofSummary (s : Summary) : Json :=
  .object [("total_files", .natural s.total), ("ok", .natural s.ok),
    ("deficient", .natural s.deficient), ("fixed", .natural s.fixed),
    ("errors", .natural s.errors), ("skipped", .natural s.skipped),
    ("processing_time_seconds", .number (String.ofList (secondsText s.elapsed.inSeconds)))]

def ofSpan (s : Header.Span) : Json :=
  .object [("first_line", .natural s.firstLine), ("last_line", .natural s.lastLine)]

/-- What was found out about a file. -/
def ofFile (r : FileReport) : Json :=
  .object <|
    [("path", .string r.path.text), ("prefix", .string r.marker), ("status", .string r.status.name)]
      ++ r.header.toList.map (fun s => ("header", ofSpan s))
      ++ r.error.toList.map (fun e => ("error", .string e))

def document (generatedAt : String) (mode : Mode) (files : List FileReport) (summary : Summary) :
    Json :=
  .object [("generated_at", .string generatedAt), ("mode", .string mode.name),
    ("summary", ofSummary summary), ("files", .array (files.map ofFile))]

def render (generatedAt : String) (mode : Mode) (files : List FileReport) (summary : Summary) :
    String :=
  String.ofList (document generatedAt mode files summary).render

/-! ### Points in time -/

/-- A number with at least `width` digits. -/
def padded (width n : Nat) : String :=
  let digits := toString n
  String.ofList (List.replicate (width - digits.length) '0') ++ digits

structure Day where
  year : Nat
  /-- The month, from one. -/
  month : Nat
  /-- The day of the month, from one. -/
  day : Nat
deriving DecidableEq, Repr

/-- The day that comes so many days after the first day of 1970. Years are counted from the first of
March, so that the leap day comes last, in periods of 400 years. -/
def Day.ofEpoch (days : Nat) : Day :=
  let shifted := days + 719468
  let period := shifted / 146097
  let inPeriod := shifted % 146097
  let year := (inPeriod - inPeriod / 1460 + inPeriod / 36524 - inPeriod / 146096) / 365
  let inYear := inPeriod - (365 * year + year / 4 - year / 100)
  let month := (5 * inYear + 2) / 153
  let day := inYear - (153 * month + 2) / 5 + 1
  if month < 10 then ⟨year + 400 * period, month + 3, day⟩
  else ⟨year + 400 * period + 1, month - 9, day⟩

/-- The time that comes so many seconds and nanoseconds after the start of 1970, in universal time.
-/
def timestamp (seconds nanoseconds : Nat) : String :=
  let day := Day.ofEpoch (seconds / 86400)
  let second := seconds % 86400
  s!"{padded 4 day.year}-{padded 2 day.month}-{padded 2 day.day}" ++
    s!"T{padded 2 (second / 3600)}:{padded 2 (second / 60 % 60)}:{padded 2 (second % 60)}" ++
    s!".{padded 9 nanoseconds}+00:00"

example : timestamp 951782400 5 = "2000-02-29T00:00:00.000000005+00:00" := by decide +kernel

end LicenseHeader.Report
