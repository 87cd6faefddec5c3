import LicenseHeader.Repository.Listing
import LicenseHeader.Workspace.Walk

/-!
# Workspaces

The files that a run is about: those of the repository around the current directory, or those below
the current directory if there is no repository or it is not to be asked.
-/

namespace LicenseHeader

inductive Workspace where
  /-- The working tree of a repository. -/
  | repository (root : Path)
  | directory (root : Path)
deriving DecidableEq, Repr

namespace Workspace

/-- The directory from which the paths of a workspace are seen. -/
def root : Workspace → Path
  | repository root | directory root => root

def isRepository : Workspace → Bool
  | repository _ => true
  | directory _ => false

def around (t : FileTree) (here : Path) (noRepository : Bool) (a : Account := {}) :
    Except Failure Workspace := do
  if noRepository then return directory here
  match ← Repository.discoverRoot t here a with
  | some root => return repository root
  | none => return directory here

/-- The files of the workspace in the order of paths. -/
def candidates (t : FileTree) (w : Workspace) (a : Account := {}) : Except Failure (List Path) :=
  match w with
  | repository root => Repository.listFiles t root a
  | directory root => walkFiles t root a

/-- The path that a user means, who is in the directory `here`, as seen from the root of the
workspace; there is none if it is outside. Paths that lead somewhere are compared without their
links. -/
def relativize? (t : FileTree) (w : Workspace) (path here : Path) : Option Path := do
  let relative ← (t.canonical (here.join path)).relativeTo? (t.canonical w.root)
  if relative.startsAbove then none else return relative

end Workspace

end LicenseHeader
