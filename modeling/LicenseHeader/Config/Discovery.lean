import LicenseHeader.Config.Decode
import LicenseHeader.Console.Message
import LicenseHeader.Failure
import LicenseHeader.FileTree.Access

/-!
# Finding the configuration

A configuration file that is named explicitly is used or, if it does not exist, replaced by nothing.
Otherwise the file that the environment names is used if it exists, and then the one in the
workspace root. The search tells how it went.
-/

namespace LicenseHeader.Config

open Console (Message)

/-- The name of the configuration file in the workspace root. -/
def fileName : String := ".headerfix.toml"

/-- The name of the environment variable that names a configuration file. -/
def variableName : String := "HEADERFIX_CONFIG"

/-- Where a configuration file may be. -/
structure Search where
  /-- The current directory, from which paths are seen. -/
  here : Path
  /-- The root of the workspace. -/
  root : Path
  /-- The file that is named explicitly. -/
  explicit : Option Path := none
  /-- The file that the environment names. -/
  fromEnvironment : Option String := none
deriving DecidableEq, Repr

namespace Search

/-- Whether a path leads to anything. The empty path does not. -/
def holds (s : Search) (t : FileTree) (p : Path) : Bool :=
  !p.text.isEmpty && t.contains (s.here.join p)

def inWorkspace (s : Search) (t : FileTree) : List Message × Option Path :=
  let path := s.root.join ⟨fileName⟩
  if s.holds t path then ([.detail s!"Using workspace config: {path.text}"], some path)
  else ([.detail "No config file found"], none)

/-- The search where the environment points to, and then in the workspace root. -/
def inEnvironment (s : Search) (t : FileTree) : List Message × Option Path :=
  match s.fromEnvironment with
  | none => s.inWorkspace t
  | some text =>
    if s.holds t ⟨text⟩ then
      ([.detail s!"Using config from {variableName}: {text}"], some ⟨text⟩)
    else
      let rest := s.inWorkspace t
      (.detail s!"{variableName} path does not exist: {text}" :: rest.1, rest.2)

/-- The configuration file, and how it was found. -/
def find (s : Search) (t : FileTree) : List Message × Option Path :=
  match s.explicit with
  | none => s.inEnvironment t
  | some path =>
    if s.holds t path then ([.detail s!"Using explicit config path: {path.text}"], some path)
    else ([.detail s!"Explicit config path does not exist: {path.text}"], none)

def read (s : Search) (t : FileTree) (path : Path) : Except ConfigError Config :=
  match t.read (s.here.join path) with
  | .error fault => .error (.unreadable path fault)
  | .ok content => ofContent path content

def loadedMessages : Except ConfigError Config → List Message
  | .ok c => [.detail s!"Loaded {c.rules.length} classification rules"]
  | .error _ => []

/-- The configuration, if there is one, and how it was found. -/
def load (s : Search) (t : FileTree) (disabled : Bool) :
    List Message × Except Failure (Option Config) :=
  if disabled then ([.detail "Config file discovery disabled (--no-config)"], .ok none)
  else
    match s.find t with
    | (messages, none) => (messages, .ok none)
    | (messages, some path) =>
      let config := s.read t path
      (messages ++ .detail s!"Loading config from: {path.text}" :: loadedMessages config,
        (config.mapError (.config path)).map some)

end Search

end LicenseHeader.Config
