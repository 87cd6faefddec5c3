import LicenseHeader.Failure
import LicenseHeader.Repository.Index
import LicenseHeader.Repository.Settings

/-!
# Repositories

A repository is a directory with a head, objects and references; the latter two may be shared with
other repositories and stand in another directory. It stands in its working tree under the name
`.git`, or a file of that name tells where it is. Its settings may say that it has no working tree,
or another one. The repository of a directory is the nearest one on the way to the root directory.
-/

namespace LicenseHeader

structure Repository where
  /-- Where its own files are. -/
  home : Location
  /-- Where the files are that it may share with others. -/
  common : Location
  /-- The settings of the repository and its user, those that count more in front. -/
  settings : List Repository.Setting
  /-- The root of its working tree, if it has one. -/
  workTree : Option Location
deriving DecidableEq, Repr

namespace Repository

/-! ### Layout -/

/-- The name of a repository in its working tree. -/
def homeName : String := ".git"

/-- The file that names the current branch. -/
def headFile : Location := ["HEAD"]

def objectsDirectory : Location := ["objects"]

def referencesDirectory : Location := ["refs"]

/-- The list of the tracked files. -/
def indexFile : Location := ["index"]

def settingsFile : Location := ["config"]

/-- The settings for all users and repositories. -/
def systemSettings : Path := ⟨"/etc/gitconfig"⟩

/-- The file that tells where the shared files are, if they are elsewhere. -/
def commonFile : Location := ["commondir"]

/-- The file that tells where the working tree points to a repository with shared files. -/
def backFile : Location := ["gitdir"]

/-- The ignore file that is not part of the working tree. -/
def excludeFile : Location := ["info", "exclude"]

/-! ### What stands in a directory -/

/-- Why a repository could not be opened. -/
inductive OpenFault where
  /-- It is not there. -/
  | missing
  /-- What tells about it is not readable. -/
  | broken
deriving DecidableEq, Repr

/-- What is known about a repository before its settings are read. -/
structure Site where
  home : Location
  common : Location
  /-- The working tree, unless something else says where it is. -/
  beside : Location
deriving DecidableEq, Repr

/-- The location that a path in a file leads to, as seen from a location. -/
def follow (t : FileTree) (l : Location) (written : List Char) : Except OpenFault Location :=
  match t.resolve (l.path.join ⟨String.ofList written⟩) with
  | .ok l => .ok l
  | .error .linkLoop => .error .broken
  | .error _ => .error .missing

/-- Where a repository has the files that it may share with others. -/
def commonOf (t : FileTree) (home : Location) : Except OpenFault Location :=
  if t.isFile (home ++ commonFile : Location).path then
    match t.readText (home ++ commonFile : Location).path with
    | .ok text => follow t home (Text.trimEnd text)
    | .error _ => .error .missing
  else .ok home

/-- Whether two directories hold what makes a repository. -/
def isHome (t : FileTree) (home common : Location) : Bool :=
  let holdsDirectory := fun part => t.find? (common ++ part : Location).path == some .directory
  t.isFile (home ++ headFile : Location).path && holdsDirectory objectsDirectory
    && holdsDirectory referencesDirectory

/-- The repository that a directory is, if it is one. -/
def siteAt? (t : FileTree) (home beside : Location) : Except OpenFault (Option Site) := do
  let common ← commonOf t home
  return if isHome t home common then some { home, common, beside } else none

/-- How a file starts that tells where the repository is. -/
def homeLinkMark : List Char := "gitdir:".toList

/-- The repository to which a file in its working tree points. -/
def followHomeLink (t : FileTree) (l : Location) (content : ByteArray) :
    Except OpenFault (Option Site) :=
  match String.fromUTF8? content with
  | none => .error .broken
  | some text =>
    let line := Text.trimEnd text.toList
    if homeLinkMark.isPrefixOf line ∧ homeLinkMark.length < line.length then do
      let home ← follow t l (Text.trimStart (line.drop homeLinkMark.length))
      match ← siteAt? t home l with
      | some site => return some site
      | none => throw .missing
    else .error .broken

/-- The repository that a directory is the working tree of or, failing that, the one that it is. -/
def sight (t : FileTree) (l : Location) : Except OpenFault (Option Site) :=
  let itself := siteAt? t l l.dropLast
  match t.resolve (l ++ [homeName] : Location).path with
  | .error _ => itself
  | .ok home =>
    match t.entry? home with
    | some (.file content) => followHomeLink t l content
    | some .directory => do
      match ← siteAt? t home l with
      | some site => return some site
      | none => itself
    | _ => itself

/-! ### Opening -/

/-- The working tree of a repository that shares files: it holds the file that points back. -/
def linkedWorkTree (t : FileTree) (home : Location) : Except OpenFault Location :=
  match t.readText (home ++ backFile : Location).path with
  | .ok text =>
    let pointer : Path := ⟨String.ofList (Text.trimEnd text)⟩
    (follow t home (Path.ofComponents pointer.components.dropLast).text.toList).mapError
      fun _ => .broken
  | .error _ => .error .broken

/-- Whether the settings say that a repository has no working tree. -/
def isBare (settings : List Setting) : Except OpenFault Bool :=
  match Settings.find? settings "core.bare" with
  | none => .ok false
  | some value =>
    match Settings.truth? value with
    | some bare => .ok bare
    | none => .error .broken

/-- The working tree of a repository, if it has one. A repository that shares files always does. -/
def workTreeOf (t : FileTree) (site : Site) (settings : List Setting) :
    Except OpenFault (Option Location) := do
  let bare ← isBare settings
  if site.common ≠ site.home then return some (← linkedWorkTree t site.home)
  else if bare then return none
  else
    match (Settings.find? settings "core.worktree").bind Settings.path? with
    | some path => return some (← follow t site.home path.text.toList)
    | none => return some site.beside

/-- Whether repositories with these settings have a known format. -/
def isSupported (settings : List Setting) : Bool :=
  match Settings.find? settings "core.repositoryformatversion" with
  | none => true
  | some version => (version.bind (Text.count? 1)).isSome

/-- Opens a repository of a known format. A working tree that is no directory is of no use. -/
def load (a : Account) (t : FileTree) (site : Site) : Except OpenFault Repository := do
  let files := (site.common ++ settingsFile : Location).path :: a.settingsFiles ++ [systemSettings]
  match Settings.ofFiles? t files with
  | none => throw .broken
  | some settings =>
    let workTree ← workTreeOf t site settings
    if isSupported settings ∧ workTree.all t.isDirectory then
      return { home := site.home, common := site.common, settings, workTree }
    else throw .broken

/-- The repository that a path leads to, or to whose working tree it leads. -/
def open? (a : Account) (t : FileTree) (p : Path) : Except OpenFault Repository :=
  match t.resolve p with
  | .error .linkLoop => .error .broken
  | .error _ => .error .missing
  | .ok l => do
    match ← sight t l with
    | some site => load a t site
    | none => throw .missing

def openAt (t : FileTree) (root : Path) (a : Account := {}) : Except Failure Repository :=
  (open? a t root).mapError fun _ => .noRepository root

/-- The nearest repository on the way from a location to the root directory, without its settings.
-/
def nearest (t : FileTree) (l : Location) : Except OpenFault (Option Site) :=
  ((List.range (l.length + 1)).reverse.findSome? fun n =>
    match sight t (l.take n) with
    | .ok none => none
    | known => some known).getD (.ok none)

/-- The repository that a path is in, if it is in one. It is opened by the place of its own files.
-/
def discover (t : FileTree) (path : Path) (a : Account := {}) :
    Except Failure (Option Repository) :=
  match t.resolve path with
  | .error _ => .ok none
  | .ok l =>
    let found := do
      match ← nearest t l with
      | none => return none
      | some site => return some (← open? a t site.home.path)
    match found with
    | .ok r => .ok r
    | .error .missing => .ok none
    | .error .broken => .error (.noRepository path)

/-- The path that shows the root of a working tree; there is a separator at its end. -/
def shownRoot (l : Location) : Path :=
  if l = [] then l.path else ⟨l.path.text ++ "/"⟩

/-- The root of the working tree that a path is in, if it is in one. -/
def discoverRoot (t : FileTree) (path : Path) (a : Account := {}) : Except Failure (Option Path) := do
  return ((← discover t path a).bind Repository.workTree).map shownRoot

/-- The index of a repository; without a file it is empty. -/
def readIndex (t : FileTree) (r : Repository) : Except Failure Index :=
  let path := (r.home ++ indexFile : Location).path
  if t.contains path then
    match (t.read path).toOption.bind fun content => Index.decode? content.data.toList with
    | some index => .ok index
    | none => .error .noIndex
  else .ok []

end Repository

end LicenseHeader
