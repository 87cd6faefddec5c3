import LicenseHeader.Arguments.Basic
import LicenseHeader.Config.Discovery
import LicenseHeader.Processing.Schedule
import LicenseHeader.Report.Document
import LicenseHeader.Workspace.Basic

/-!
# Runs

A run is prepared, carried out and told about. The preparation finds the workspace, its
configuration and the files that need a header; it may fail, and it only looks at the files. Then
the files are worked on. At last the results are said and written where they are wanted.
-/

namespace LicenseHeader

open Console (Message)

structure Environment where
  here : Path
  /-- Where the user keeps settings and rules for all repositories. -/
  account : Account := {}
  /-- Where a reader can see colours. -/
  display : Console.Display := {}
  /-- The configuration file that the environment names. -/
  configVariable : Option String := none
  /-- How many files are worked on at once unless the arguments say so. -/
  processors : Nat := 1
  /-- In which order the steps of the work are done. -/
  schedule : List Nat := []
  /-- The time at which the report is made. -/
  generatedAt : String := ""
  /-- How long the work takes. -/
  elapsed : Duration := ⟨0, 0⟩
deriving DecidableEq, Repr

structure Plan where
  workspace : Workspace
  subjects : List Subject
  /-- How many files of the workspace need no header. -/
  skipped : Nat
deriving DecidableEq, Repr

namespace Plan

/-- The files among `subjects` that the arguments name, or all if they name none. -/
def restrict (t : FileTree) (w : Workspace) (here : Path) (only : List Path)
    (subjects : List Subject) : List Subject :=
  if only.isEmpty then subjects
  else
    let wanted := only.filterMap fun path => w.relativize? t path here
    subjects.filter fun s => wanted.any s.path.same

/-- What is said about a workspace without a repository. -/
def workspaceMessages (w : Workspace) : List Message :=
  if w.isRepository then []
  else [.notice s!"Not in a git repository, scanning {w.root.text}"]

/-- The files of a workspace that the policy of a configuration wants to have a header, as far as
the arguments name them. -/
def make (a : Arguments) (env : Environment) (t : FileTree) (w : Workspace)
    (config : Option Config) : Except Failure Plan := do
  let policy ← (Config.policy config).mapError .policy
  let candidates ← w.candidates t env.account
  let subjects ← (policy.classify candidates).mapError .gaps
  return {
    workspace := w
    subjects := restrict t w env.here a.files subjects
    skipped := candidates.length - subjects.length }

def prepare (a : Arguments) (env : Environment) (t : FileTree) :
    List Message × Except Failure Plan :=
  match Workspace.around t env.here a.noGit env.account with
  | .error failure => ([], .error failure)
  | .ok w =>
    let search : Config.Search :=
      { here := env.here, root := w.root, explicit := a.config,
        fromEnvironment := env.configVariable }
    let (messages, config) := search.load t a.noConfig
    (workspaceMessages w ++ messages, config.bind (make a env t w))

end Plan

structure RunOutcome where
  /-- What was said. -/
  messages : List Message
  /-- Whether all is well, if the run came to its end. -/
  result : Except Failure Bool
  /-- The files after the run. -/
  tree : FileTree

namespace RunOutcome

def exitStatus (o : RunOutcome) : Nat :=
  match o.result with
  | .ok true => 0
  | _ => 1

def failure? (o : RunOutcome) : Option Failure :=
  match o.result with
  | .ok _ => none
  | .error failure => some failure

/-- What is on a stream after the run. -/
def said (o : RunOutcome) (voice : Console.Voice) (stream : Console.Stream) : String :=
  Console.said voice stream o.messages

end RunOutcome

namespace Run

/-- Says the patches one after another, and adds each to the end of a file. -/
def extendPatch (path target : Path) : FileTree → List String → RunOutcome
  | t, [] => { messages := [], result := .ok true, tree := t }
  | t, patch :: patches =>
    match t.append target patch.toUTF8 with
    | .error fault =>
      { messages := [.patch patch], result := .error (.patchExtension path fault), tree := t }
    | .ok t =>
      let rest := extendPatch path target t patches
      { rest with messages := .patch patch :: rest.messages }

/-- Says the patches, and writes them to a file if one is wanted. The file is emptied first. -/
def tellPatches (here : Path) (output : Option Path) (t : FileTree) (patches : List String) :
    RunOutcome :=
  match output with
  | none => { messages := patches.map .patch, result := .ok true, tree := t }
  | some path =>
    match t.write (here.join path) .empty with
    | .error fault => { messages := [], result := .error (.patchCreation path fault), tree := t }
    | .ok t => extendPatch path (here.join path) t patches

def patches (reports : List FileReport) : List String :=
  reports.filterMap fun r => r.patch.filter fun patch => !patch.isEmpty

/-- Says what became of each file, in the way of the mode. -/
def tellFiles (a : Arguments) (env : Environment) (t : FileTree) (reports : List FileReport) :
    RunOutcome :=
  match a.mode with
  | .check => { messages := Console.missingMessages reports, result := .ok true, tree := t }
  | .patch => tellPatches env.here a.output t (patches reports)
  | .fix => { messages := Console.fixedMessages reports, result := .ok true, tree := t }

def advice : String :=
  "Run with --fix to install the header, or --patch to review the changes first."

/-- What is said about all files together. -/
def closingMessages (mode : Mode) (reports : List FileReport) (summary : Summary) : List Message :=
  Console.errorMessages reports
    ++ (if summary.deficient = 0 ∧ summary.errors = 0 then [.allOk] else [])
    ++ [.summary summary mode]
    ++ (if mode = .check ∧ summary.deficient > 0 then [.notice advice] else [])

/-- Whether a run with these counts is a success. -/
def isSuccess (mode : Mode) (summary : Summary) : Bool :=
  summary.errors = 0 ∧ ¬ (mode = .check ∧ summary.deficient > 0)

/-- Writes the report document where it is wanted. -/
def tellReport (a : Arguments) (env : Environment) (t : FileTree) (reports : List FileReport)
    (summary : Summary) : RunOutcome :=
  let result := Except.ok (isSuccess a.mode summary)
  match a.reportJson with
  | none => { messages := [], result, tree := t }
  | some path =>
    let document := Report.render env.generatedAt a.mode reports summary
    match t.write (env.here.join path) document.toUTF8 with
    | .error fault => { messages := [], result := .error (.reportFile path fault), tree := t }
    | .ok t =>
      { messages := [.notice s!"Generated JSON report at {path.text}"], result, tree := t }

def perform (a : Arguments) (env : Environment) (t : FileTree) (plan : Plan) : RunOutcome :=
  let jobs := a.jobs.getD env.processors
  let (reports, t) :=
    Processing.process plan.workspace.root a.mode jobs env.schedule t plan.subjects
  let summary := Summary.ofReports reports plan.skipped env.elapsed
  let start := Message.start plan.subjects.length a.mode
  let files := tellFiles a env t reports
  match files.result with
  | .error _ => { files with messages := start :: files.messages }
  | .ok _ =>
    let report := tellReport a env files.tree reports summary
    { report with
      messages :=
        start :: files.messages ++ closingMessages a.mode reports summary ++ report.messages }

end Run

def run (a : Arguments) (env : Environment) (t : FileTree) : RunOutcome :=
  match Plan.prepare a env t with
  | (messages, .error failure) => { messages, result := .error failure, tree := t }
  | (messages, .ok plan) =>
    let outcome := Run.perform a env t plan
    { outcome with messages := messages ++ outcome.messages }

/-- How the program speaks. The wish for more talk wins over the one for less. -/
def Arguments.voice (a : Arguments) (display : Console.Display := {}) : Console.Voice where
  verbosity := if a.verbosity > 0 then .verbose else if a.quiet then .quiet else .normal
  colours := a.colours
  display

end LicenseHeader
