import LicenseHeader.Config.Basic

/-!
# Failures

What ends a run before its time.
-/

namespace LicenseHeader

/-- What ends a run before its time. -/
inductive Failure where
  /-- There is no repository, or no working one, where one is wanted. -/
  | noRepository (path : Path)
  /-- The index of the repository is not readable. -/
  | noIndex
  /-- The repository has no working tree. -/
  | noWorkTree
  /-- The directory does not exist. -/
  | noDirectory (path : Path)
  /-- The configuration file does not give a configuration. -/
  | config (path : Path) (error : ConfigError)
  /-- The configuration does not give a policy. -/
  | policy (error : ConfigError)
  /-- The policy has gaps. -/
  | gaps (paths : List Path)
  /-- The file for the patch could not be created. -/
  | patchCreation (path : Path) (fault : FileFault)
  /-- The file for the patch could not be opened again. -/
  | patchExtension (path : Path) (fault : FileFault)
  /-- The file for the report could not be written. -/
  | reportFile (path : Path) (fault : FileFault)
deriving DecidableEq, Repr

/-- The texts that report the failure, the outermost first. -/
def Failure.reasons : Failure → List String
  | .noRepository path => [s!"Failed to open git repository at {path.text}"]
  | .noIndex => ["Failed to read git index"]
  | .noWorkTree => ["Failed to get git status"]
  | .noDirectory path => [s!"Failed to walk {path.text}"]
  | .config path error => s!"Failed to load config from {path.text}" :: error.reasons
  | .policy error => error.reasons
  | .gaps paths => [Policy.gapsMessage paths]
  | .patchCreation path fault => [s!"Failed to create diff file: {path.text}", fault.message]
  | .patchExtension path fault => [s!"Failed to open diff file: {path.text}", fault.message]
  | .reportFile path fault => [s!"Failed to write report to {path.text}", fault.message]

end LicenseHeader
