import LicenseHeader.Path.Basic

/-!
# File trees

A file tree tells what stands at which location: a directory, a file with its content, or a link
that leads elsewhere. A location is the sequence of names on the way down from the root directory,
without any link on the way; the root directory itself is always there. Some locations are locked:
what stands there can be read but not changed.
-/

namespace LicenseHeader

/-- Why an operation on a file failed. -/
inductive FileFault where
  /-- Nothing is there. -/
  | notFound
  /-- The file is locked, or the directory in which it is to be created. -/
  | denied
  /-- A directory stands where a file is wanted. -/
  | isDirectory
  /-- A file stands where a directory is wanted. -/
  | notDirectory
  /-- Links lead to links without end. -/
  | linkLoop
  /-- The content is no text. -/
  | notText
deriving DecidableEq, Repr

/-- The text that reports a fault; the numbers are those of the operating system. -/
def FileFault.message : FileFault → String
  | .notFound => "No such file or directory (os error 2)"
  | .denied => "Permission denied (os error 13)"
  | .isDirectory => "Is a directory (os error 21)"
  | .notDirectory => "Not a directory (os error 20)"
  | .linkLoop => "Too many levels of symbolic links (os error 40)"
  | .notText => "stream did not contain valid UTF-8"

/-- The names on the way from the root directory. -/
abbrev Location := List String

def Location.path (l : Location) : Path :=
  .ofComponents (.root :: l.map .name)

/-- The locations on the way to a location, itself included; the root directory is left out. -/
def Location.waypoints (l : Location) : List Location :=
  (List.range l.length).map fun n => l.take (n + 1)

inductive Entry where
  | directory
  | file (content : ByteArray)
  | link (target : Path)

instance : DecidableEq Entry
  | .directory, .directory => isTrue rfl
  | .file a, .file b =>
    if h : a.data = b.data then isTrue (congrArg Entry.file (ByteArray.ext h))
    else isFalse fun e => h (congrArg ByteArray.data (Entry.file.inj e))
  | .link a, .link b =>
    if h : a = b then isTrue (congrArg Entry.link h) else isFalse fun e => h (Entry.link.inj e)
  | .directory, .file _ | .directory, .link _ => isFalse nofun
  | .file _, .directory | .file _, .link _ => isFalse nofun
  | .link _, .directory | .link _, .file _ => isFalse nofun

structure FileTree where
  /-- The entries with their locations, the root directory left out. -/
  entries : List (Location × Entry) := []
  /-- The locations of the files and directories that cannot be changed. -/
  locked : List Location := []

namespace FileTree

def entry? (t : FileTree) (l : Location) : Option Entry :=
  if l = [] then some .directory else t.entries.lookup l

def isDirectory (t : FileTree) (l : Location) : Bool :=
  t.entry? l == some .directory

/-- The tree in which an entry stands at a location. -/
def put (t : FileTree) (l : Location) (e : Entry) : FileTree where
  entries :=
    if (t.entries.lookup l).isSome then
      t.entries.map fun known => if known.1 = l then (l, e) else known
    else t.entries ++ [(l, e)]
  locked := t.locked

/-- The tree without what stands at a location and below it. -/
def erase (t : FileTree) (l : Location) : FileTree :=
  { t with entries := t.entries.filter fun known => !l.isPrefixOf known.1 }

/-- What stands below a location, with the names on the way from there. -/
def below (t : FileTree) (l : Location) : List (Location × Entry) :=
  t.entries.filterMap fun known =>
    if l.isPrefixOf known.1 && known.1 != l then some (known.1.drop l.length, known.2) else none

end FileTree

end LicenseHeader
