import LicenseHeader.FileTree.Basic

/-!
# Resolving paths

The location that a path leads to. The components are followed one by one; a link is replaced by its
target. Only so many links are followed on one way, and only from a directory can a way go on.
-/

namespace LicenseHeader

namespace Path

def endsWithSeparator (p : Path) : Bool :=
  p.text.toList.getLast? == some '/'

/-- Whether the path is written so that it can only lead to a directory. -/
def wantsDirectory (p : Path) : Bool :=
  p.endsWithSeparator || "/.".toList.isSuffixOf p.text.toList

/-- The components of a path, with a last step that stays in place if the path wants a directory. -/
def steps (p : Path) : List Component :=
  p.components ++ (if p.wantsDirectory then [.current] else [])

end Path

/-- The end of a way. -/
inductive Place where
  /-- Something stands there. -/
  | present (l : Location)
  /-- Nothing stands there, but the directory around it exists. -/
  | vacant (l : Location)
deriving DecidableEq, Repr

/-- The end of a way, or the first link on it. -/
inductive Passage where
  /-- The way ends without a link. -/
  | ended (place : Place)
  /-- In the directory `here` there is a link, behind which the way goes on with `rest`. -/
  | atLink (here : Location) (target : Path) (rest : List Path.Component)
deriving DecidableEq, Repr

namespace FileTree

/-- Follows components from the directory `here` up to the first link. -/
def pass (t : FileTree) (here : Location) : List Path.Component → Except FileFault Passage
  | [] => .ok (.ended (.present here))
  | .root :: rest => t.pass [] rest
  | .current :: rest => t.pass here rest
  | .parent :: rest => t.pass here.dropLast rest
  | .name n :: rest =>
    let next := here ++ [n]
    match t.entry? next with
    | some .directory => t.pass next rest
    | some (.file _) => if rest = [] then .ok (.ended (.present next)) else .error .notDirectory
    | some (.link target) => .ok (.atLink here target rest)
    | none => if rest = [] then .ok (.ended (.vacant next)) else .error .notFound

/-- Follows components from the directory `here`, and at most `links` links on the way. -/
def walk (t : FileTree) (links : Nat) (here : Location) (way : List Path.Component) :
    Except FileFault Place :=
  match t.pass here way with
  | .error fault => .error fault
  | .ok (.ended place) => .ok place
  | .ok (.atLink here target rest) =>
    match links with
    | 0 => .error .linkLoop
    | links + 1 => t.walk links here (target.steps ++ rest)

def linkLimit : Nat := 40

/-- The place where an absolute path ends. Any other path leads nowhere by itself. -/
def place (t : FileTree) (p : Path) : Except FileFault Place :=
  if p.isAbsolute then t.walk linkLimit [] p.steps else .error .notFound

/-- The location that a path leads to. -/
def resolve (t : FileTree) (p : Path) : Except FileFault Location :=
  match t.place p with
  | .ok (.present l) => .ok l
  | .ok (.vacant _) => .error .notFound
  | .error fault => .error fault

/-- What stands where a path leads to. -/
def find? (t : FileTree) (p : Path) : Option Entry :=
  match t.resolve p with
  | .ok l => t.entry? l
  | .error _ => none

def contains (t : FileTree) (p : Path) : Bool :=
  (t.find? p).isSome

def isFile (t : FileTree) (p : Path) : Bool :=
  match t.find? p with
  | some (.file _) => true
  | _ => false

/-- The path without links and parent steps that leads to the same location; a path that leads
nowhere stays as it is. -/
def canonical (t : FileTree) (p : Path) : Path :=
  match t.resolve p with
  | .ok l => l.path
  | .error _ => p

end FileTree

end LicenseHeader
