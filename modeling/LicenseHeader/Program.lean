import LicenseHeader.Arguments.Parse
import LicenseHeader.Run

/-!
# The program

From its arguments, its surroundings and the files the program makes all that is seen of it: what is
on its two streams, its exit status and the files that it leaves behind. A command line that is not
accepted does not lead to a run.
-/

namespace LicenseHeader.Program

def usage : String :=
  "\n".intercalate
    ["Usage: headerfix [OPTIONS] <--check|--patch|--fix> [FILE]...", "",
      "  --check              report files without the header",
      "  --patch              show a patch that installs the header",
      "  --fix                install the header",
      "  -o, --output FILE    also write the patch to a file",
      "  --config FILE        use this configuration file",
      "  --no-config          use no configuration file",
      "  --no-git             walk the current directory",
      "  -j, --jobs N         work on so many files at once",
      "  --report-json FILE   write a report",
      "  -v, --verbose        say more",
      "  -q, --quiet          say less",
      "  --colors WHEN        use colours: auto, never or always", ""]

/-- The text for a command line that does not lead to a run. -/
def argumentText : ArgumentError → String
  | .displayHelp => usage
  | .displayVersion => "headerfix\n"
  | .unknownArgument => "error: unknown argument\n\n" ++ usage
  | .tooManyValues => "error: unexpected value\n\n" ++ usage
  | .invalidValue | .valueValidation => "error: invalid value\n\n" ++ usage
  | .argumentConflict => "error: conflicting arguments\n\n" ++ usage
  | .missingRequiredArgument => "error: no mode is given\n\n" ++ usage

def failureText (f : Failure) : String :=
  match f.reasons with
  | [] => "Error\n"
  | [reason] => s!"Error: {reason}\n"
  | reason :: [cause] => s!"Error: {reason}\n\nCaused by:\n    {cause}\n"
  | reason :: causes =>
    s!"Error: {reason}\n\nCaused by:\n" ++
      String.join (causes.zipIdx.map fun c => s!"    {c.2}: {c.1}\n")

/-- What is seen of the program. -/
structure Ending where
  /-- What is on the output stream. -/
  output : String := ""
  /-- What is on the error stream. -/
  error : String := ""
  status : Nat
  /-- The files that are left behind. -/
  tree : FileTree

/-- The end after a command line that does not lead to a run. What was asked for goes to the output
stream, what is wrong to the error stream. -/
def refuse (e : ArgumentError) (t : FileTree) : Ending :=
  match e.exitStatus with
  | 0 => { output := argumentText e, status := 0, tree := t }
  | status => { error := argumentText e, status, tree := t }

/-- The end of a run. -/
def conclude (voice : Console.Voice) (o : RunOutcome) : Ending where
  output := o.said voice .output
  error := o.said voice .error ++ (o.failure?.map failureText).getD ""
  status := o.exitStatus
  tree := o.tree

/-- What the program makes of its arguments. -/
def execute (arguments : List String) (env : Environment) (t : FileTree) : Ending :=
  match Arguments.parse arguments with
  | .ok a => conclude (a.voice env.display) (run a env t)
  | .error e => refuse e t

end LicenseHeader.Program
