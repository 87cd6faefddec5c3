import LicenseHeader.Processing.Step

/-!
# Work on many files

Up to a limit, files are worked on at the same time. A schedule tells, step by step, which of the
files at work goes on; each of its numbers counts around the files at work. When the schedule ends,
the files are finished one after another. The reports come in the order of paths.
-/

namespace LicenseHeader.Processing

/-- What comes next for a file at work. -/
inductive Task where
  /-- The file is to be read. -/
  | read (s : Subject)
  /-- The file is to be written. -/
  | write (report : FileReport) (text : List Char)
deriving DecidableEq, Repr

structure Progress where
  /-- The files that nothing was done for. -/
  waiting : List Subject
  /-- The files at work. -/
  active : List Task := []
  /-- The reports on finished files, the last one first. -/
  finished : List FileReport := []
  /-- The files as they are now. -/
  tree : FileTree

namespace Progress

/-- Takes up waiting files until `limit` files are at work. -/
def takeUp (limit : Nat) (p : Progress) : Progress :=
  let n := limit - p.active.length
  { p with waiting := p.waiting.drop n, active := p.active ++ (p.waiting.take n).map .read }

/-- Does the next step for the file at work with an index. -/
def step (root : Path) (mode : Mode) (i : Nat) (p : Progress) : Progress :=
  match p.active[i]? with
  | none => p
  | some (.read s) =>
    match readStep root mode p.tree s with
    | .settled report =>
      { p with active := p.active.eraseIdx i, finished := report :: p.finished }
    | .pending report text => { p with active := p.active.set i (.write report text) }
  | some (.write report text) =>
    let result := writeStep root p.tree report text
    { p with
      active := p.active.eraseIdx i, finished := result.1 :: p.finished, tree := result.2 }

def follow (root : Path) (mode : Mode) (limit : Nat) (schedule : List Nat) (p : Progress) :
    Progress :=
  schedule.foldl (fun p pick =>
    let p := p.takeUp limit
    p.step root mode (pick % p.active.length)) p

/-- The number of steps that are left at most. -/
def stepsLeft (p : Progress) : Nat :=
  2 * (p.waiting.length + p.active.length)

/-- Finishes the files one after another. -/
def finish (root : Path) (mode : Mode) (limit : Nat) (p : Progress) : Progress :=
  p.follow root mode limit (List.replicate p.stepsLeft 0)

end Progress

/-- Works on some files, up to `jobs` of them, but at least one, at the same time. -/
def process (root : Path) (mode : Mode) (jobs : Nat) (schedule : List Nat) (t : FileTree)
    (subjects : List Subject) : List FileReport × FileTree :=
  let limit := max jobs 1
  let start : Progress := { waiting := subjects, tree := t }
  let p := (start.follow root mode limit schedule).finish root mode limit
  (p.finished.reverse.mergeSort fun a b => a.path.le b.path, p.tree)

end LicenseHeader.Processing
