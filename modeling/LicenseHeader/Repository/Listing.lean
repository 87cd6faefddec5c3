import LicenseHeader.Ignore.Book
import LicenseHeader.Repository.Basic

/-!
# The files of a repository

The files that belong to a working tree: those in the index, ignored or not, and those that are
neither in the index nor ignored, as far as they are there. A directory that is ignored, or that is
a repository of its own, is entered only for the sake of the tracked files below it.
-/

namespace LicenseHeader.Repository

/-- What tells the tracked files of a working tree from the others. -/
structure Snapshot where
  /-- The tree in which the working tree stands. -/
  tree : FileTree
  /-- The root of the working tree. -/
  root : Location
  /-- The tracked files. -/
  index : Index
  /-- What the rules say about an entry, given by the way from the root, if it is a directory and if
  it is none: whether it is ignored, or nothing. -/
  verdict : Location → (isDirectory : Bool) → Option Bool

/-- The rules about the entries of a working tree. -/
structure IgnoreRules where
  /-- Those in the working tree. -/
  book : Ignore.Book
  /-- Those in the repository. -/
  excludes : List Ignore.Rule
  /-- Those that the user has for all repositories. -/
  personal : List Ignore.Rule

/-- The file with the rules that a user has for all repositories. -/
def personalFile? (a : Account) (r : Repository) (root : Location) : Option Path :=
  match Settings.find? r.settings "core.excludesfile" with
  | none => a.usualIgnoreFile?
  | some value => (Settings.path? value).bind fun path =>
    match path.text.toList with
    | '~' :: '/' :: rest => a.home.map fun home => home.join ⟨String.ofList rest⟩
    | _ => some (root.path.join path)

namespace IgnoreRules

/-- The rules about a working tree that have an effect. -/
def of (a : Account) (t : FileTree) (r : Repository) (root : Location) : IgnoreRules where
  book := ((Ignore.Book.ofTree .plain t [Ignore.fileName]).within root).effective
  excludes :=
    Ignore.Rule.effective (Ignore.Rule.ofFile .plain t (r.common ++ excludeFile : Location).path)
  personal := Ignore.Rule.effective
    (((personalFile? a r root).map (Ignore.Rule.ofFile .plain t)).getD [])

/-- What the rules say about an entry, given by the way from the root: whether it is ignored, or
nothing. The rules in the working tree come first, then those in the repository. -/
def verdict (rules : IgnoreRules) (root way : Location) (isDirectory : Bool) : Option Bool :=
  (rules.book.verdict (root ++ way) isDirectory).or
    ((Ignore.Rule.verdict rules.excludes way isDirectory).or
      (Ignore.Rule.verdict rules.personal way isDirectory))

end IgnoreRules

namespace Snapshot

def of (a : Account) (t : FileTree) (r : Repository) (root : Location) (index : Index) : Snapshot where
  tree := t
  root
  index
  verdict := (IgnoreRules.of a t r root).verdict root

/-- The octets of the way to an entry. -/
def octets (way : Location) : List UInt8 :=
  pathOctets (.ofComponents (way.map .name))

/-- Whether a tracked entry stands below a directory. -/
def holdsTracked (s : Snapshot) (way : Location) : Bool :=
  s.index.any fun e => (octets way ++ "/".toUTF8.data.toList).isPrefixOf e.path

/-- Whether an entry is ignored. What nothing is said about goes with its directory. -/
def isIgnored (s : Snapshot) (way : Location) (isDirectory : Bool) : Bool :=
  way.waypoints.foldl
    (fun ignored w => (s.verdict w (isDirectory || w != way)).getD ignored) false

/-- Whether a directory is entered in search of files that are not tracked. -/
def isEntered (s : Snapshot) (way : Location) : Bool :=
  s.tree.isDirectory (s.root ++ way) && way.getLast? != some homeName &&
    (s.holdsTracked way ||
      (!s.isIgnored way true && !s.tree.contains (s.root ++ way ++ [homeName] : Location).path))

/-- Whether an entry is tracked, or belongs to a tracked repository. -/
def isTracked (s : Snapshot) (way : Location) : Bool :=
  s.index.any fun e => e.path == octets way ||
    (e.isGitlink && way.waypoints.any fun w => e.path == octets w)

/-- Whether an entry counts as a new file. -/
def isNew (s : Snapshot) (way : Location) : Bool :=
  !s.isTracked way && way.getLast? != some homeName && way.waypoints.dropLast.all s.isEntered
    && !s.isIgnored way false

def tracked (s : Snapshot) : List Path :=
  (s.index.filter fun e => !e.isGitlink).filterMap IndexEntry.path?

def untracked (s : Snapshot) : List Path :=
  ((s.tree.below s.root).filter fun known => known.2 != .directory && s.isNew known.1).map
    fun known => .ofComponents (known.1.map .name)

end Snapshot

/-- The files of a repository that belong to the working tree at `root`, in the order of paths. -/
def listFiles (t : FileTree) (root : Path) (a : Account := {}) : Except Failure (List Path) := do
  let r ← openAt t root a
  let index ← readIndex t r
  match r.workTree with
  | none => throw .noWorkTree
  | some workTree =>
    let s := Snapshot.of a t r workTree index
    return (Path.sortUnique (s.tracked ++ s.untracked)).filter fun p => t.isFile (root.join p)

end LicenseHeader.Repository
