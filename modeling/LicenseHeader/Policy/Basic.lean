import LicenseHeader.Glob.Matching
import LicenseHeader.Path.Basic

/-!
# Policies

A policy says which files carry the header and how it is written in them. It is an ordered list of
rules; the first rule whose pattern matches a path decides. A path without a rule is a gap in the
policy, and a policy with gaps classifies nothing. The builtin rules hold for every workspace unless
its configuration turns them off.
-/

namespace LicenseHeader

/-- The way in which a file is commented: the marker that opens a comment line. The empty marker is
that of a file without comments. -/
structure Style where
  marker : String
deriving DecidableEq, Repr

def Style.describe (s : Style) : String :=
  if s.marker.isEmpty then "<plain text>" else s.marker

inductive Action where
  /-- The file carries the header, in this style. -/
  | comment (style : Style)
  /-- The file needs no header. -/
  | skip
deriving DecidableEq, Repr

structure Rule where
  /-- The paths that the rule is about. -/
  pattern : Glob.Pattern
  action : Action
deriving DecidableEq, Repr

def Rule.covers (r : Rule) (path : Path) : Bool :=
  r.pattern.isMatch path.text

/-- A file that has to carry the header. -/
structure Subject where
  /-- Where the file is, seen from the workspace root. -/
  path : Path
  /-- How its header is written. -/
  style : Style
deriving DecidableEq, Repr

/-- The rules in the order in which they are tried. -/
structure Policy where
  rules : List Rule
deriving DecidableEq, Repr

namespace Policy

/-- What the policy says about a path; nothing if the path is a gap. -/
def action? (p : Policy) (path : Path) : Option Action :=
  (p.rules.find? (·.covers path)).map Rule.action

/-- The file at a path, if the policy wants a header in it. -/
def subject? (p : Policy) (path : Path) : Option Subject :=
  match p.action? path with
  | some (.comment style) => some { path, style }
  | _ => none

/-- The paths about which the policy says nothing. -/
def gaps (p : Policy) (paths : List Path) : List Path :=
  paths.filter fun path => (p.action? path).isNone

/-- The files that need a header, or all gaps if there is one. -/
def classify (p : Policy) (paths : List Path) : Except (List Path) (List Subject) :=
  if p.gaps paths = [] then .ok (paths.filterMap p.subject?) else .error (p.gaps paths)

def gapsMessage (gaps : List Path) : String :=
  "Please add rules to categorize the following files: " ++ ", ".intercalate (gaps.map Path.text)

/-! ### Builtin rules -/

/-- The builtin patterns, each with the marker of its files or none if they need no header. A
pattern without a star names a single file at the workspace root. -/
def builtinTable : List (String × Option String) :=
  [("*.rs", some "//"), ("*.md", some ""), ("*.yml", some "#"), ("*.yaml", some "#"),
    ("*.py", some "#"), ("*.sh", some "#"), (".gitignore", none), ("Cargo.toml", none),
    ("Cargo.lock", none), ("release.toml", none), ("LICENSE", none), ("TODO.org", none),
    (".headerfix.toml", none)]

/-- The action for files with a marker, or for files that need no header. -/
def actionOfMarker : Option String → Action
  | some marker => .comment ⟨marker⟩
  | none => .skip

/-- A rule from the written form of its pattern. -/
def compileRule (pattern : String) (action : Action) : Except Glob.PatternError Rule :=
  (Glob.compile pattern).map fun pattern => { pattern, action }

def builtinRules : Except Glob.PatternError (List Rule) :=
  builtinTable.mapM fun entry => compileRule entry.1 (actionOfMarker entry.2)

end Policy

end LicenseHeader
