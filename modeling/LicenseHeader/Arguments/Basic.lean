import LicenseHeader.Console.Colour
import LicenseHeader.Report.Basic

/-!
# Arguments

What a command line can ask for: the switches with their names and values, the collected arguments,
and the reasons for which a command line is not accepted.
-/

namespace LicenseHeader

/-- A switch of the command line. -/
inductive Switch where
  /-- Report files whose header is missing or wrong. -/
  | check
  | patch
  /-- Install the header. -/
  | fix
  | output
  | config
  | noConfig
  /-- Walk the directory instead of asking the repository. -/
  | noGit
  /-- How many files are worked on at once. -/
  | jobs
  | reportJson
  | verbose
  | quiet
  | colors
  | help
  | version
deriving DecidableEq, Repr

/-- How many values a switch takes. -/
inductive Arity where
  /-- None. -/
  | flag
  /-- Exactly one. -/
  | one
  /-- One or none. -/
  | optional
deriving DecidableEq, Repr

namespace Switch

def all : List Switch :=
  [check, patch, fix, output, config, noConfig, noGit, jobs, reportJson, verbose, quiet, colors,
    help, version]

/-- The name behind two dashes. -/
def longName : Switch → String
  | check => "check"
  | patch => "patch"
  | fix => "fix"
  | output => "output"
  | config => "config"
  | noConfig => "no-config"
  | noGit => "no-git"
  | jobs => "jobs"
  | reportJson => "report-json"
  | verbose => "verbose"
  | quiet => "quiet"
  | colors => "colors"
  | help => "help"
  | version => "version"

/-- The letter behind one dash. -/
def letter? : Switch → Option Char
  | output => some 'o'
  | jobs => some 'j'
  | verbose => some 'v'
  | quiet => some 'q'
  | help => some 'h'
  | version => some 'V'
  | _ => none

def arity : Switch → Arity
  | output | config | jobs | reportJson => .one
  | colors => .optional
  | _ => .flag

def ofLongName? (name : List Char) : Option Switch :=
  all.find? fun s => s.longName.toList == name

def ofLetter? (c : Char) : Option Switch :=
  all.find? fun s => s.letter? == some c

end Switch

structure Arguments where
  /-- The files to which the run is restricted, if there are any. -/
  files : List Path := []
  /-- Whether files are to be reported. -/
  check : Bool := false
  patch : Bool := false
  /-- Whether headers are to be installed. -/
  fix : Bool := false
  output : Option Path := none
  config : Option Path := none
  noConfig : Bool := false
  /-- Whether the repository is not to be asked. -/
  noGit : Bool := false
  /-- How many files are worked on at once. -/
  jobs : Option Nat := none
  reportJson : Option Path := none
  /-- How often more talk was asked for, up to 255. -/
  verbosity : Nat := 0
  quiet : Bool := false
  colours : Console.ColourChoice := .auto
deriving DecidableEq, Repr

def Arguments.mode (a : Arguments) : Mode :=
  if a.fix then .fix else if a.patch then .patch else .check

/-- Why a command line does not lead to a run. -/
inductive ArgumentError where
  | unknownArgument
  /-- A switch has a value and takes none. -/
  | tooManyValues
  /-- A value is missing, empty or not among the possible ones. -/
  | invalidValue
  /-- A value is no number. -/
  | valueValidation
  /-- Two arguments exclude each other, or one is given twice. -/
  | argumentConflict
  /-- No mode is given. -/
  | missingRequiredArgument
  | displayHelp
  | displayVersion
deriving DecidableEq, Repr

def ArgumentError.exitStatus : ArgumentError → Nat
  | .displayHelp | .displayVersion => 0
  | _ => 2

end LicenseHeader
