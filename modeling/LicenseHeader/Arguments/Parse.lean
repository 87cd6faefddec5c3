import LicenseHeader.Arguments.Basic

/-!
# Reading a command line

The arguments are read from left to right. A switch or a run of files stays open until the next
switch or file comes, and is looked at then: a value that is missing or not acceptable shows up only
when something known follows or the line ends. What excludes each other is looked at last.
-/

namespace LicenseHeader

/-- What was read and not yet looked at. -/
inductive Pending where
  /-- A switch, with its value if one came. -/
  | switch (s : Switch) (value : Option String)
  | files (paths : List String)
deriving DecidableEq, Repr

/-- How far the reading of a command line has come. -/
structure Reading where
  /-- What was collected. -/
  arguments : Arguments := {}
  /-- The switches that were collected. -/
  seen : List Switch := []
  /-- What was read and not yet collected. -/
  pending : Option Pending := none
  /-- Whether only files may follow. -/
  filesOnly : Bool := false
deriving DecidableEq, Repr

def pathValue (value : String) : Except ArgumentError Path :=
  if value.isEmpty then .error .invalidValue else .ok ⟨value⟩

def maxJobs : Nat := UInt64.size - 1

namespace Arguments

/-- The arguments with one more switch and its value. -/
def insert (a : Arguments) (s : Switch) (value : String) : Except ArgumentError Arguments :=
  match s with
  | .check => .ok { a with check := true }
  | .patch => .ok { a with patch := true }
  | .fix => .ok { a with fix := true }
  | .output => (pathValue value).map fun path => { a with output := some path }
  | .config => (pathValue value).map fun path => { a with config := some path }
  | .noConfig => .ok { a with noConfig := true }
  | .noGit => .ok { a with noGit := true }
  | .jobs =>
    match Text.count? maxJobs value.toList with
    | some n => .ok { a with jobs := some n }
    | none => .error .valueValidation
  | .reportJson => (pathValue value).map fun path => { a with reportJson := some path }
  | .verbose => .ok { a with verbosity := min 255 (a.verbosity + 1) }
  | .quiet => .ok { a with quiet := true }
  | .colors =>
    match Console.ColourChoice.ofName? value with
    | some choice => .ok { a with colours := choice }
    | none => .error .invalidValue
  | .help => .error .displayHelp
  | .version => .error .displayVersion

/-- Accepts arguments that do not exclude each other and name a mode. -/
def validate (a : Arguments) : Except ArgumentError Arguments :=
  if (a.check && a.patch) || (a.check && a.fix) || (a.patch && a.fix) then .error .argumentConflict
  else if a.output.isSome && (a.check || a.fix) then .error .argumentConflict
  else if a.quiet && a.verbosity != 0 then .error .argumentConflict
  else if !(a.check || a.patch || a.fix) then .error .missingRequiredArgument
  else .ok a

end Arguments

namespace Reading

/-- Collects a switch with its value. Only the wish for more talk may be repeated. -/
def collect (r : Reading) (s : Switch) (value : Option String) : Except ArgumentError Reading := do
  if s.arity = .one ∧ value.isNone then throw .invalidValue
  if s ∈ r.seen ∧ s ≠ .verbose then throw .argumentConflict
  let value := value.getD (if s.arity = .optional then Console.ColourChoice.always.name else "")
  return { r with arguments := ← r.arguments.insert s value, seen := s :: r.seen }

/-- Collects what is pending. -/
def settle (r : Reading) : Except ArgumentError Reading :=
  match r.pending with
  | none => .ok r
  | some (.switch s value) => ({ r with pending := none } : Reading).collect s value
  | some (.files paths) => do
    let paths ← paths.mapM pathValue
    return { r with
      pending := none, arguments := { r.arguments with files := r.arguments.files ++ paths } }

def addFile (r : Reading) (file : String) : Except ArgumentError Reading :=
  match r.pending with
  | some (.files paths) => .ok { r with pending := some (.files (paths ++ [file])) }
  | _ => do return { ← r.settle with pending := some (.files [file]) }

/-- Adds a switch that takes values, with the value attached to it if there is one. -/
def addValued (r : Reading) (s : Switch) (value : Option String) : Except ArgumentError Reading := do
  let r ← r.settle
  if value.isSome then r.collect s value
  else return { r with pending := some (.switch s none) }

/-- Adds a switch that is written with its long name, behind an equals sign its value. -/
def addLong (r : Reading) (cs : List Char) : Except ArgumentError Reading :=
  let name := cs.takeWhile (· ≠ '=')
  let value := if '=' ∈ cs then some (String.ofList (cs.drop (name.length + 1))) else none
  match Switch.ofLongName? name with
  | none => .error .unknownArgument
  | some s =>
    if s.arity ≠ .flag then r.addValued s value
    else if value.isSome then .error .tooManyValues
    else do (← r.settle).collect s none

/-- Adds switches that are written with their letters behind one dash. The letters after one that
takes a value are the value; an equals sign in front of it does not count. -/
def addShort (r : Reading) : List Char → Except ArgumentError Reading
  | [] => .ok r
  | c :: cs =>
    match Switch.ofLetter? c with
    | none => .error .unknownArgument
    | some s =>
      if s.arity ≠ .flag then
        let value := match cs with
          | [] => none
          | '=' :: cs => some (String.ofList cs)
          | cs => some (String.ofList cs)
        r.addValued s value
      else do ((← r.settle).collect s none >>= fun r => r.addShort cs)

/-- Adds an argument that is no switch: the value of the switch in front of it, or a file. -/
def addPlain (r : Reading) (argument : String) : Except ArgumentError Reading :=
  match r.pending with
  | some (.switch s none) => .ok { r with pending := some (.switch s (some argument)) }
  | _ => r.addFile argument

def add (r : Reading) (argument : String) : Except ArgumentError Reading :=
  if r.filesOnly then r.addFile argument
  else match argument.toList with
    | ['-', '-'] => .ok { r with filesOnly := true }
    | '-' :: '-' :: cs => r.addLong cs
    | '-' :: c :: cs => r.addShort (c :: cs)
    | _ => r.addPlain argument

end Reading

/-- The arguments that a command line, without the name of the program, gives. -/
def Arguments.parse (arguments : List String) : Except ArgumentError Arguments := do
  let r ← arguments.foldlM Reading.add {}
  (← r.settle).arguments.validate

end LicenseHeader
