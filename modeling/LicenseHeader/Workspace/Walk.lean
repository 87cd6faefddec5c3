import LicenseHeader.Ignore.Book
import LicenseHeader.Repository.Basic

/-!
# Walking a directory

The files below a directory that no ignore file tells to leave out. Links are not followed and
repositories are not looked into. Ignore files above the directory count as well, but whether the
directory itself is ignored does not matter. The rules that a user has for all repositories come
last; they are about the way from the directory.
-/

namespace LicenseHeader.Workspace

open Text

/-! ### The rules of the user -/

/-- The path that a line of a file of settings names as that of the user's rules. Only the form of
the line counts, and the path may not hold a blank. -/
def personalPath? (line : List Char) : Option (List Char) :=
  let isSpace := Repository.Settings.isSpace
  let unquoted := fun cs : List Char => if cs.head? == some '"' then cs.drop 1 else cs
  let name := "excludesfile".toList
  let line := line.dropWhile isSpace
  if (line.take name.length).map Char.toLower ≠ name then none
  else
    match (line.drop name.length).dropWhile isSpace with
    | '=' :: written =>
      let path := (unquoted (written.dropWhile isSpace)).dropWhile isSpace
      let path := (path.reverse.dropWhile isSpace).reverse
      let path := ((unquoted path.reverse).dropWhile isSpace).reverse
      if path.isEmpty || path.any isSpace then none else some path
    | _ => none

/-- The file with the user's rules. The file of settings that names it first counts; otherwise it is
the usual one. -/
def personalFile? (a : Account) (t : FileTree) : Option Path :=
  let named := a.settingsFiles.findSome? fun file =>
    match t.read file with
    | .ok content => (fields '\n' (octetsOf content)).findSome? personalPath?
    | .error _ => none
  match named.bind decoded? with
  | none => a.usualIgnoreFile?
  | some path =>
    let home := (a.home.map Path.text).getD "~"
    some ⟨String.join (path.toList.map fun c => if c = '~' then home else c.toString)⟩

/-! ### The walk -/

/-- The rules that a walk obeys. -/
structure WalkRules where
  /-- Those in the tree; those that come first stand in front. -/
  books : List Ignore.Book
  /-- Those of the user. -/
  personal : List Ignore.Rule := []

def WalkRules.of (a : Account) (t : FileTree) (root : Path) : WalkRules where
  books := [.ofTree .braces t [Ignore.walkFileName], .ofTree .braces t [Ignore.fileName],
    .ofTree .braces t (Repository.homeName :: Repository.excludeFile)]
  personal :=
    ((personalFile? a t).map fun file => Ignore.Rule.ofFile .braces t (root.join file)).getD []

/-- Whether the rules tell to leave out an entry, given by the way from the root of the walk. -/
def WalkRules.leaveOut (rules : WalkRules) (root way : Location) (isDirectory : Bool) : Bool :=
  ((rules.books.findSome? fun book => book.verdict (root ++ way) isDirectory).or
    (Ignore.Rule.verdict rules.personal way isDirectory)).getD false

/-- Whether a walk from `root` comes to a file, given by the way from there. -/
def isReached (t : FileTree) (rules : WalkRules) (root way : Location) : Bool :=
  way.waypoints.all fun w =>
    let isDirectory := w != way
    w.getLast? != some Repository.homeName && !rules.leaveOut root w isDirectory
      && (!isDirectory || t.isDirectory (root ++ w))

def isPlainFile : Entry → Bool
  | .file _ => true
  | _ => false

/-- The files of a directory in the order of paths. A file is its own and only file. -/
def walkFiles (t : FileTree) (root : Path) (a : Account := {}) : Except Failure (List Path) :=
  match t.resolve root with
  | .error _ => .error (.noDirectory root)
  | .ok l =>
    if t.isDirectory l then
      let rules := WalkRules.of a t root
      let files := (t.below l).filter fun known =>
        isPlainFile known.2 && isReached t rules l known.1
      .ok (Path.sort (files.map fun known => .ofComponents (known.1.map .name)))
    else .ok [⟨""⟩]

end LicenseHeader.Workspace
