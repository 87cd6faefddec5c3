import LicenseHeader.Program
import LicenseHeader.Report.Document

/-!
# The program in its surroundings

Reads the part of the file system that a run can depend on, lets the program make its ending of it,
and writes down what has changed. Files are read twice: first the ones that tell which files need a
header, then these. Nothing is read for a command line that does not lead to a run.
-/

namespace LicenseHeader.Program

abbrev Findings := List (Location × Entry)

/-- How deep directories are looked into. -/
def depthLimit : Nat := 128

/-- The content of a file; nothing if it is not readable. -/
def contentOf (l : Location) : IO ByteArray := do
  try IO.FS.readBinFile l.path.text catch _ => return .empty

/-- Whether the content of a file matters before it is known which files need a header. -/
def isTelling (l : Location) : Bool :=
  l.getLast?.any fun name =>
    [Ignore.fileName, Ignore.walkFileName, Config.fileName, Repository.homeName].contains name

/-- What stands at a location on the disk. A link leads straight to its last target. -/
def look (l : Location) (withContent : Bool) : IO Findings := do
  let some name := l.getLast? | return []
  let entry : IO.FS.DirEntry := { root := (Location.path l.dropLast).text, fileName := name }
  try
    match (← entry.path.symlinkMetadata).type with
    | .dir => return [(l, .directory)]
    | .file => return [(l, .file (← if withContent then contentOf l else pure .empty))]
    | .symlink => return [(l, .link ⟨(← IO.FS.realPath entry.path).toString⟩)]
    | .other => return []
  catch _ => return []

def namesIn (l : Location) : IO (List String) := do
  try
    let entries ← (← IO.FS.realPath l.path.text).readDir
    return entries.toList.map IO.FS.DirEntry.fileName
  catch _ => return []

/-- What stands on the way to a location, and there. -/
def lookAlong (l : Location) : IO Findings := do
  return (← l.waypoints.mapM fun w => look w (w == l)).flatten

/-- The location that a path is written for. -/
def locationOf (p : Path) : Location :=
  p.components.filterMap fun c => match c with
    | .name n => some n
    | _ => none

/-- What stands on the way to a path, as it is written and without links. -/
def lookAt (p : Path) : IO Findings := do
  let target ← try pure (← IO.FS.realPath p.text).toString catch _ => pure p.text
  return (← lookAlong (locationOf p)) ++ (← lookAlong (locationOf ⟨target⟩))

/-- The parts of a repository that matter. -/
def lookIntoHome (home : Location) : IO Findings := do
  let parts := [Repository.headFile, Repository.indexFile, Repository.objectsDirectory,
    Repository.referencesDirectory, Repository.settingsFile, Repository.commonFile,
    Repository.backFile] ++ Repository.excludeFile.waypoints
  return (← parts.mapM fun part => look (home ++ part) true).flatten

/-- What stands in a directory on the disk and below it. -/
def lookInto : (depth : Nat) → Location → IO Findings
  | 0, _ => return []
  | depth + 1, l => do
    let found ← (← namesIn l).mapM fun name => do
      let inner := l ++ [name]
      let entry ← look inner (isTelling inner)
      match entry with
      | [(_, .directory)] =>
        let rest ← if name = Repository.homeName then lookIntoHome inner else lookInto depth inner
        return entry ++ rest
      | _ => return entry
    return found.flatten

/-- What in the directories above a directory tells something about it. -/
def lookAbove (l : Location) : IO Findings := do
  let found ← (List.range l.length).mapM fun n => do
    let above := l.take n
    let home := above ++ [Repository.homeName]
    return (← look (above ++ [Ignore.fileName]) true) ++ (← look (above ++ [Ignore.walkFileName]) true)
      ++ (← look home true) ++ (← lookIntoHome home) ++ (← lookIntoHome above)
  return found.flatten

/-- The nearest directory with a repository, or the directory itself. -/
def topOf (l : Location) : IO Location := do
  for n in (List.range (l.length + 1)).reverse do
    unless (← look (l.take n ++ [Repository.homeName]) false).isEmpty do return l.take n
  return l

/-- The tree with some findings. -/
def learn (t : FileTree) (found : Findings) : FileTree :=
  found.foldl (fun t known => t.put known.1 known.2) t

/-- The tree with the parts of the repository that a path leads to, if one does. -/
def learnHome (t : FileTree) (home : Path) : IO FileTree := do
  let t := learn t (← lookAt home)
  match t.resolve home with
  | .ok l => return learn t (← lookIntoHome l)
  | .error _ => return t

/-- The tree with what stands around the directory `top`: the repository to which it points, the one
with which that shares files, and the working tree. -/
def learnRepository (t : FileTree) (top : Location) (a : Account) : IO FileTree := do
  let pointer := (top ++ [Repository.homeName] : Location).path
  let mark := Repository.homeLinkMark
  let t ← match t.readText pointer with
    | .ok text =>
      learnHome t (top.path.join ⟨String.ofList (Text.trim (text.drop mark.length))⟩)
    | .error _ => pure t
  let .ok (some site) := Repository.nearest t top | return t
  let home := site.home.path
  let t ← match t.readText (site.home ++ Repository.commonFile : Location).path with
    | .ok text => learnHome t (home.join ⟨String.ofList (Text.trimEnd text)⟩)
    | .error _ => pure t
  let .ok r := Repository.open? a t home | return t
  let workTree := r.workTree.getD top
  let personal := (Repository.personalFile? a r workTree).toList
  let t ← if top.isPrefixOf workTree then pure t
    else pure (learn (learn t (← lookAlong workTree)) (← lookInto depthLimit workTree))
  return learn t (← personal.mapM lookAt).flatten

/-- The tree that a run from a directory can depend on; `others` are further paths that it uses. -/
def survey (here : Location) (others : List Path) (a : Account) : IO FileTree := do
  let top ← topOf here
  let settings := a.settingsFiles ++ a.usualIgnoreFile?.toList ++ [Repository.systemSettings]
  let far ← (others.map here.path.join ++ settings).mapM lookAt
  let around := (← lookAlong top) ++ (← lookAbove top) ++ (← lookIntoHome top) ++ far.flatten
  let t := learn ⟨← lookInto depthLimit top, []⟩ around
  let t := learn t (← ((Workspace.personalFile? a t).toList.map here.path.join).mapM lookAt).flatten
  learnRepository t top a

/-- Whether a file is locked: it cannot be opened to be changed. -/
def isLocked (l : Location) : IO Bool := do
  try
    let _ ← IO.FS.Handle.mk l.path.text .readWrite
    return false
  catch _ => return true

/-- The tree with the contents of the files at some paths. -/
def fill (t : FileTree) (paths : List Path) : IO FileTree := do
  let wanted := paths.filterMap fun p => (t.resolve p).toOption
  let entries ← t.entries.mapM fun known => do
    if wanted.contains known.1 then return (known.1, .file (← contentOf known.1)) else return known
  return { entries, locked := ← wanted.filterM isLocked }

/-- Writes down the files that are not as they were. -/
def record (before after : FileTree) : IO Unit := do
  for (l, e) in after.entries do
    if let .file content := e then
      unless before.entries.lookup l == some e do IO.FS.writeBinFile l.path.text content

/-- The time of day, which a file tells that is just made. -/
def now : IO String := do
  let (_, path) ← IO.FS.createTempFile
  let time := (← path.metadata).modified
  IO.FS.removeFile path
  return Report.timestamp time.sec.toNat time.nsec.toNat

/-- The surroundings of the program, apart from the time. -/
def surroundings : IO Environment := do
  let names := ["FORCE_COLOR", "CLICOLOR_FORCE", "NO_COLOR", "TERM", "IGNORE_IS_TERMINAL",
    "COLORTERM", "TERM_PROGRAM", "CLICOLOR", "CI"]
  let known ← names.filterMapM fun name => do
    return (← IO.getEnv name).map fun value => (name, value)
  let shows := Console.showsColours fun name => known.lookup name
  return {
    here := ⟨(← IO.FS.realPath (← IO.currentDir)).toString⟩
    account :=
      { home := (← IO.getEnv "HOME").map Path.mk
        configHome := (← IO.getEnv "XDG_CONFIG_HOME").map Path.mk }
    display :=
      { output := shows (← (← IO.getStdout).isTty)
        error := shows (← (← IO.getStderr).isTty) }
    configVariable := ← IO.getEnv Config.variableName
    generatedAt := ← now }

/-- What the program is to know about its surroundings and the files, to work with some arguments.
-/
def lookAround (a : Arguments) : IO (Environment × FileTree) := do
  let begun ← IO.monoNanosNow
  let env ← surroundings
  let others := a.files ++ a.config.toList ++ a.output.toList ++ a.reportJson.toList
    ++ env.configVariable.toList.map Path.mk
  let outline ← survey (locationOf env.here) others env.account
  let tree ← match (Plan.prepare a env outline).2 with
    | .error _ => pure outline
    | .ok plan => fill outline (plan.subjects.map fun s => plan.workspace.root.join s.path)
  let elapsed := Duration.ofParts 0 ((← IO.monoNanosNow) - begun)
  return ({ env with elapsed }, tree)

end LicenseHeader.Program

def main (arguments : List String) : IO UInt32 := do
  let (env, tree) ← match LicenseHeader.Arguments.parse arguments with
    | .ok a => LicenseHeader.Program.lookAround a
    | .error _ => pure ({ here := ⟨""⟩ }, {})
  let ending := LicenseHeader.Program.execute arguments env tree
  LicenseHeader.Program.record tree ending.tree
  IO.print ending.output
  IO.eprint ending.error
  return ending.status.toUInt32
