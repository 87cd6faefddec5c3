import LicenseHeader.Text.Basic

/-!
# Paths

A path is kept as it was written, which is also how it is shown. What it means is its sequence of
components: repeated separators, separators at the end and inner `.` parts do not count. Paths are
ordered component by component, so that `a/b` comes before `a-b`.
-/

namespace LicenseHeader

/-- A path as it was written. -/
structure Path where
  text : String
deriving DecidableEq, Repr, Inhabited

namespace Path

open Text

/-- A step on the way that a path describes. -/
inductive Component where
  /-- The root directory, at the start of an absolute path. -/
  | root
  /-- The directory itself, at the start of a relative path. -/
  | current
  /-- The directory above. -/
  | parent
  /-- An entry of a directory. -/
  | name (text : String)
deriving DecidableEq, Repr

namespace Component

def text : Component → String
  | root => "/"
  | current => "."
  | parent => ".."
  | name s => s

def rank : Component → Nat
  | root => 0
  | current => 1
  | parent => 2
  | name _ => 3

/-- The order of components; names are ordered by their characters. -/
def compare (a b : Component) : Ordering :=
  (Ord.compare a.rank b.rank).then (Ord.compare a.text b.text)

/-- The component that a part between two separators stands for. -/
def ofPart? (part : List Char) : Option Component :=
  if part = [] ∨ part = ['.'] then none
  else if part = ['.', '.'] then some parent
  else some (name (String.ofList part))

end Component

def isAbsolute (p : Path) : Bool :=
  p.text.toList.head? == some '/'

def components (p : Path) : List Component :=
  let parts := fields '/' p.text.toList
  let start := if p.isAbsolute then [Component.root]
    else if parts.head? = some ['.'] then [Component.current] else []
  start ++ parts.filterMap Component.ofPart?

/-- The lexicographic order of component sequences. -/
def compareComponents : List Component → List Component → Ordering
  | [], [] => .eq
  | [], _ :: _ => .lt
  | _ :: _, [] => .gt
  | a :: as, b :: bs => (a.compare b).then (compareComponents as bs)

def compare (p q : Path) : Ordering :=
  compareComponents p.components q.components

/-- Whether `p` does not come after `q`. -/
def le (p q : Path) : Bool :=
  (p.compare q).isLE

def same (p q : Path) : Bool :=
  p.components == q.components

/-- The path `q` as seen from `p`: an absolute `q` stands for itself. -/
def join (p q : Path) : Path :=
  if q.isAbsolute then q
  else if p.text.toList.getLast?.all (· == '/') then ⟨p.text ++ q.text⟩
  else ⟨p.text ++ "/" ++ q.text⟩

/-- The written form of a sequence of components. -/
def ofComponents : List Component → Path
  | .root :: cs => ⟨"/" ++ "/".intercalate (cs.map Component.text)⟩
  | cs => ⟨"/".intercalate (cs.map Component.text)⟩

/-- The paths in their order; equal ones stay as they are. -/
def sort (paths : List Path) : List Path :=
  paths.mergeSort le

/-- The paths in strictly increasing order, each set of equal ones once. -/
def sortUnique (paths : List Path) : List Path :=
  (sort paths).foldr (fun p ps => if ps.head?.any p.same then p :: ps.tail else p :: ps) []

/-! ### The way from one path to another

It is told from the components alone. No such way is known from a directory that is written with a
parent step behind the part that both have in common. -/

/-- What is left of two sequences of components behind the part that both start with. -/
def dropCommon : List Component → List Component → List Component × List Component
  | a :: as, b :: bs => if a = b then dropCommon as bs else (a :: as, b :: bs)
  | as, bs => (as, bs)

/-- The components that lead from the end of `base` to the end of `path`, where nothing that both
start with is left. -/
def leadFrom? (path base : List Component) : Option (List Component) :=
  match path, base with
  | path, [] => some path
  | [], base => some (base.map fun _ => .parent)
  | a :: path, b :: base =>
    if b = .current then (leadFrom? path base).map (a :: ·)
    else if b = .parent then none
    else some (.parent :: base.map (fun _ => .parent) ++ a :: path)

/-- The path as seen from `base`. An absolute path is its own form as seen from a relative base; the
other way round there is none. -/
def relativeTo? (path base : Path) : Option Path :=
  if path.isAbsolute = base.isAbsolute then
    let rest := dropCommon path.components base.components
    (leadFrom? rest.1 rest.2).map ofComponents
  else if path.isAbsolute then some path
  else none

def startsAbove (p : Path) : Bool :=
  p.components.head? == some .parent

end Path

end LicenseHeader
