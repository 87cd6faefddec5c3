import LicenseHeader.Processing.Schedule
import LicenseHeader.Proofs.Processing.Step
import Mathlib.Data.List.Perm.Basic
import Mathlib.Logic.Relation

/-!
# Interleavings

Work on many files is a sequence of steps in any order: a waiting file is taken up, a file at work
is read, and one that was read is written if it has to change. Each step keeps the files that the
work is about, and no sequence of steps goes on for ever. Schedules describe some of these
sequences.
-/

namespace LicenseHeader

def FileReport.subject (report : FileReport) : Subject :=
  ⟨report.path, ⟨report.marker⟩⟩

namespace Processing

open Header (Installed)
open Relation (ReflTransGen)

variable {root : Path} {mode : Mode} {limit : Nat} {t : FileTree}

/-- The report that an outcome leads to, if nothing else happens. -/
def Outcome.report : Outcome → FileReport
  | .settled report => report
  | .pending report _ => report

def Task.subject : Task → Subject
  | .read s => s
  | .write report _ => report.subject

def Task.isRead : Task → Bool
  | .read _ => true
  | .write _ _ => false

lemma subject_readStep (root : Path) (mode : Mode) (t : FileTree) (s : Subject) :
    (readStep root mode t s).report.subject = s := by
  cases hr : t.readText (root.join s.path) with
  | error fault =>
    rw [readStep_of_unreadable hr]
    rfl
  | ok text =>
    rw [readStep_of_readText hr]
    by_cases hi : Installed s.style.marker.toList text
    · rw [inspect_of_installed hi]
      rfl
    · cases mode with
      | check =>
        rw [inspect_check hi]
        rfl
      | patch =>
        rw [inspect_patch hi]
        rfl
      | fix =>
        rw [inspect_fix hi]
        rfl

lemma subject_of_settled {s : Subject} {report : FileReport}
    (h : readStep root mode t s = .settled report) : report.subject = s := by
  have hs := subject_readStep root mode t s
  rwa [h] at hs

lemma subject_of_pending {s : Subject} {report : FileReport} {text : List Char}
    (h : readStep root mode t s = .pending report text) : report.subject = s := by
  have hs := subject_readStep root mode t s
  rwa [h] at hs

lemma subject_writeStep (root : Path) (t : FileTree) (report : FileReport) (text : List Char) :
    (writeStep root t report text).1.subject = report.subject := by
  unfold writeStep
  dsimp only
  split <;> rfl

namespace Progress

variable {p p' : Progress}

/-- All files that the work is about. -/
def subjects (p : Progress) : List Subject :=
  p.waiting ++ (p.active.map Task.subject ++ p.finished.map FileReport.subject)

/-- The number of steps that are left at most, not counting the taking up: two for a file that is
still to be read, and one for any other. -/
def taskSteps (p : Progress) : Nat :=
  2 * p.waiting.length + (p.active.length + p.active.countP Task.isRead)

/-- One step for a file at work. -/
inductive Act (root : Path) (mode : Mode) : Progress → Progress → Prop
  | settle {waiting before after s finished t report} :
      readStep root mode t s = .settled report →
      Act root mode ⟨waiting, before ++ .read s :: after, finished, t⟩
        ⟨waiting, before ++ after, report :: finished, t⟩
  | decide {waiting before after s finished t report text} :
      readStep root mode t s = .pending report text →
      Act root mode ⟨waiting, before ++ .read s :: after, finished, t⟩
        ⟨waiting, before ++ .write report text :: after, finished, t⟩
  | write {waiting before after report text finished t} :
      Act root mode ⟨waiting, before ++ .write report text :: after, finished, t⟩
        ⟨waiting, before ++ after, (writeStep root t report text).1 :: finished,
          (writeStep root t report text).2⟩

/-- One step of the work, when up to `limit` files may be at work. -/
inductive Next (root : Path) (mode : Mode) (limit : Nat) : Progress → Progress → Prop
  | start {before after s active finished t} : active.length < limit →
      Next root mode limit ⟨before ++ s :: after, active, finished, t⟩
        ⟨before ++ after, active ++ [.read s], finished, t⟩
  | act {p p' : Progress} : Act root mode p p' → Next root mode limit p p'

/-- What holds before a sequence of steps and is kept by each of them holds behind it. -/
lemma invariant_of_reflTransGen {P : Progress → Prop}
    (hnext : ∀ {p p'}, P p → Next root mode limit p p' → P p') (hp : P p)
    (h : ReflTransGen (Next root mode limit) p p') : P p' := by
  induction h with
  | refl => exact hp
  | tail _ h ih => exact hnext ih h

/-! ### No file is lost -/

/-- No file gets lost on the way, and none is worked on twice. -/
lemma Act.subjects_perm (h : Act root mode p p') : p.subjects.Perm p'.subjects := by
  cases h with
  | @settle waiting before after s finished t report hr =>
    simp only [subjects, List.map_append, List.map_cons, Task.subject, subject_of_settled hr]
    apply List.Perm.append_left
    rw [List.append_assoc, List.append_assoc, List.cons_append]
    apply List.Perm.append_left
    exact List.perm_middle.symm
  | @decide waiting before after s finished t report text hr =>
    simp only [subjects, List.map_append, List.map_cons, Task.subject, subject_of_pending hr]
    exact List.Perm.refl _
  | @write waiting before after report text finished t =>
    simp only [subjects, List.map_append, List.map_cons, Task.subject, subject_writeStep]
    apply List.Perm.append_left
    rw [List.append_assoc, List.append_assoc, List.cons_append]
    apply List.Perm.append_left
    exact List.perm_middle.symm

/-- A step keeps the files that the work is about. -/
lemma Next.subjects_perm (h : Next root mode limit p p') : p.subjects.Perm p'.subjects := by
  cases h with
  | @start before after s active finished t _ =>
    simp only [subjects, List.map_append, List.map_singleton, Task.subject, List.append_assoc,
      List.cons_append, List.nil_append]
    apply List.Perm.append_left
    rw [← List.append_assoc, ← List.append_assoc after]
    exact List.perm_middle.symm
  | act h => exact h.subjects_perm

lemma subjects_perm_of_reflTransGen (h : ReflTransGen (Next root mode limit) p p') :
    p.subjects.Perm p'.subjects := by
  apply invariant_of_reflTransGen _ (List.Perm.refl _) h
  intro q q' hq hnext
  exact hq.trans hnext.subjects_perm

/-- When nothing is left to do, there is one report for each file. -/
lemma finished_perm_of_reflTransGen {subjects : List Subject} {t : FileTree}
    (h : ReflTransGen (Next root mode limit) { waiting := subjects, tree := t } p)
    (hw : p.waiting = []) (ha : p.active = []) :
    (p.finished.map FileReport.subject).Perm subjects := by
  have hperm := subjects_perm_of_reflTransGen h
  simpa [Progress.subjects, hw, ha] using hperm.symm

/-! ### No more files than allowed -/

lemma Act.active_length_le (h : Act root mode p p') : p'.active.length ≤ p.active.length := by
  cases h <;> simp

/-- At no time are more files at work than allowed. -/
lemma Next.active_length_le (h : Next root mode limit p p') (hp : p.active.length ≤ limit) :
    p'.active.length ≤ limit := by
  cases h with
  | start hroom =>
    rw [List.length_append, List.length_singleton]
    exact hroom
  | act h => exact Nat.le_trans h.active_length_le hp

lemma active_length_le (h : ReflTransGen (Next root mode limit) p p')
    (hp : p.active.length ≤ limit) : p'.active.length ≤ limit := by
  apply invariant_of_reflTransGen _ hp h
  intro q q' hq hnext
  exact hnext.active_length_le hq

/-! ### The work comes to its end -/

/-- Each step for a file leaves fewer steps. -/
lemma Act.taskSteps_lt (h : Act root mode p p') : p'.taskSteps < p.taskSteps := by
  cases h with
  | settle _ =>
    simp [taskSteps, Task.isRead, List.countP_cons]
    omega
  | decide _ => simp [taskSteps, Task.isRead, List.countP_cons]
  | write => simp [taskSteps, Task.isRead]

lemma Act.waiting_eq (h : Act root mode p p') : p'.waiting = p.waiting := by
  cases h <;> rfl

/-- Each step of the work leaves fewer steps and files. -/
lemma Next.measure_lt (h : Next root mode limit p p') :
    p'.taskSteps + p'.waiting.length < p.taskSteps + p.waiting.length := by
  cases h with
  | start _ =>
    simp [taskSteps, Task.isRead]
    omega
  | act h =>
    rw [h.waiting_eq]
    exact Nat.add_lt_add_right h.taskSteps_lt _

/-- No sequence of steps goes on for ever. -/
lemma wellFounded_next (root : Path) (mode : Mode) (limit : Nat) :
    WellFounded fun p' p => Next root mode limit p p' := by
  apply Subrelation.wf _ (measure fun p : Progress => p.taskSteps + p.waiting.length).wf
  intro p' p h
  exact h.measure_lt

lemma act_step {i : Nat} (hi : i < p.active.length) : Act root mode p (p.step root mode i) := by
  obtain ⟨waiting, active, finished, t⟩ := p
  obtain ⟨before, task, after, rfl, rfl⟩ :
      ∃ before task after, active = before ++ task :: after ∧ before.length = i := by
    refine ⟨active.take i, active[i], active.drop (i + 1), ?_, ?_⟩
    · simp
    · exact List.length_take_of_le (Nat.le_of_lt hi)
  -- What stands around the task in the list stays as it is.
  have herase : (before ++ task :: after).eraseIdx before.length = before ++ after := by
    rw [List.eraseIdx_append_of_length_le (Nat.le_refl _), Nat.sub_self, List.eraseIdx_cons_zero]
  cases task with
  | read s =>
    cases hr : readStep root mode t s with
    | settled report => simpa [step, hr, herase] using Act.settle hr
    | pending report text => simpa [step, hr] using Act.decide hr
  | write report text => simpa [step, herase] using Act.write

/-- The first of the waiting files can be taken up. -/
lemma next_first {s : Subject} {after : List Subject} {active : List Task}
    {finished : List FileReport} (h : active.length < limit) :
    Next root mode limit ⟨s :: after, active, finished, t⟩
      ⟨after, active ++ [.read s], finished, t⟩ := by
  rw [← List.nil_append (s :: after), ← List.nil_append after]
  exact .start h

/-- As long as not everything is done, there is a next step. -/
lemma eq_nil_of_forall_not_next (hlimit : 0 < limit) (h : ∀ p', ¬ Next root mode limit p p') :
    p.waiting = [] ∧ p.active = [] := by
  have hactive : p.active = [] := by
    by_contra hne
    exact h _ (.act (act_step (List.length_pos_iff.mpr hne)))
  refine ⟨?_, hactive⟩
  obtain ⟨waiting, active, finished, t⟩ := p
  cases waiting with
  | nil => rfl
  | cons s after =>
    subst hactive
    exact absurd (next_first hlimit) (h _)

/-! ### Schedules -/

lemma follow_cons (pick : Nat) (schedule : List Nat) (p : Progress) :
    p.follow root mode limit (pick :: schedule) =
      ((p.takeUp limit).step root mode (pick % (p.takeUp limit).active.length)).follow root mode
        limit schedule := rfl

lemma step_of_active_eq_nil (h : p.active = []) (i : Nat) : p.step root mode i = p := by
  simp [step, h]

/-- Taking up files is a sequence of steps of the work. -/
lemma reflTransGen_takeUp (root : Path) (mode : Mode) (limit : Nat) (p : Progress) :
    ReflTransGen (Next root mode limit) p (p.takeUp limit) := by
  obtain ⟨waiting, active, finished, t⟩ := p
  have hmany : ∀ n ≤ limit - active.length, ReflTransGen (Next root mode limit)
      ⟨waiting, active, finished, t⟩
      ⟨waiting.drop n, active ++ (waiting.take n).map .read, finished, t⟩ := by
    intro n hn
    induction n with
    | zero => simpa using ReflTransGen.refl
    | succ n ih =>
      have hreach := ih (Nat.le_of_succ_le hn)
      rcases Nat.lt_or_ge n waiting.length with hlt | hge
      · have hroom : (active ++ (waiting.take n).map Task.read).length < limit := by
          simp
          omega
        have htake : waiting.take (n + 1) = waiting.take n ++ [waiting[n]] := by simp
        rw [List.drop_eq_getElem_cons hlt] at hreach
        rw [htake, List.map_append, ← List.append_assoc]
        exact hreach.tail (next_first hroom)
      · rw [List.drop_of_length_le hge, List.take_of_length_le hge] at hreach
        rw [List.drop_of_length_le (Nat.le_succ_of_le hge),
          List.take_of_length_le (Nat.le_succ_of_le hge)]
        exact hreach
  exact hmany _ (Nat.le_refl _)

/-- Following a schedule is a sequence of steps. -/
lemma reflTransGen_follow (root : Path) (mode : Mode) (limit : Nat) (schedule : List Nat)
    (p : Progress) : ReflTransGen (Next root mode limit) p (p.follow root mode limit schedule) := by
  induction schedule generalizing p with
  | nil => exact .refl
  | cons pick schedule ih =>
    have htaken := reflTransGen_takeUp root mode limit p
    rw [follow_cons]
    rcases Nat.eq_zero_or_pos (p.takeUp limit).active.length with hnone | hsome
    · rw [step_of_active_eq_nil (List.length_eq_zero_iff.mp hnone)]
      exact htaken.trans (ih _)
    · exact (htaken.tail (.act (act_step (Nat.mod_lt pick hsome)))).trans (ih _)

lemma taskSteps_takeUp (limit : Nat) (p : Progress) : (p.takeUp limit).taskSteps = p.taskSteps := by
  have hread : ∀ subjects : List Subject,
      (subjects.map Task.read).countP Task.isRead = subjects.length := by
    intro subjects
    rw [List.countP_map]
    exact List.countP_eq_length.mpr fun _ _ => rfl
  simp only [takeUp, taskSteps, List.length_append, List.countP_append, List.length_map,
    List.length_take, List.length_drop, hread]
  omega

/-- When some files may be at work, none is at work only if there are none left. -/
lemma taskSteps_of_takeUp_active (hlimit : 0 < limit) (h : (p.takeUp limit).active = []) :
    p.taskSteps = 0 := by
  obtain ⟨waiting, active, finished, t⟩ := p
  simp only [takeUp, List.append_eq_nil_iff, List.map_eq_nil_iff, List.take_eq_nil_iff] at h
  obtain ⟨rfl, hn | rfl⟩ := h
  · simp at hn
    omega
  · rfl

/-- Following a schedule takes one step for each of its numbers, as long as something is left to do.
-/
lemma taskSteps_follow_le (hlimit : 0 < limit) (schedule : List Nat) (p : Progress) :
    (p.follow root mode limit schedule).taskSteps ≤ p.taskSteps - schedule.length := by
  induction schedule generalizing p with
  | nil => exact Nat.le_refl _
  | cons pick schedule ih =>
    rw [follow_cons]
    refine Nat.le_trans (ih _) ?_
    rcases Nat.eq_zero_or_pos (p.takeUp limit).active.length with hnone | hsome
    · have hnil := List.length_eq_zero_iff.mp hnone
      rw [step_of_active_eq_nil hnil, taskSteps_takeUp, taskSteps_of_takeUp_active hlimit hnil]
      omega
    · have hact : Act root mode _ _ := act_step (Nat.mod_lt pick hsome)
      have hlt := hact.taskSteps_lt
      rw [taskSteps_takeUp] at hlt
      rw [List.length_cons]
      omega

lemma taskSteps_le_stepsLeft (p : Progress) : p.taskSteps ≤ p.stepsLeft := by
  have hread : p.active.countP Task.isRead ≤ p.active.length := List.countP_le_length
  rw [taskSteps, stepsLeft]
  omega

/-- If no step is left, no file is. -/
lemma eq_nil_of_taskSteps (h : p.taskSteps = 0) : p.waiting = [] ∧ p.active = [] := by
  obtain ⟨waiting, active, finished, t⟩ := p
  constructor
  · rw [taskSteps] at h
    exact List.length_eq_zero_iff.mp (by omega)
  · cases active with
    | nil => rfl
    | cons task tasks => cases task <;> simp [taskSteps, Task.isRead] at h

/-- Finishing the files leaves nothing to do. -/
lemma finish_eq_nil (root : Path) (mode : Mode) (hlimit : 0 < limit) (p : Progress) :
    (p.finish root mode limit).waiting = [] ∧ (p.finish root mode limit).active = [] := by
  apply eq_nil_of_taskSteps
  have hle : (p.finish root mode limit).taskSteps ≤ _ :=
    taskSteps_follow_le hlimit (List.replicate p.stepsLeft 0) p
  rw [List.length_replicate, Nat.sub_eq_zero_of_le (taskSteps_le_stepsLeft p)] at hle
  exact Nat.le_zero.mp hle

end Progress

/-! ### All the work -/

def byPath (reports : List FileReport) : List FileReport :=
  reports.mergeSort fun a b => a.path.le b.path

/-- What has come of the work so far. -/
def Progress.outcome (p : Progress) : List FileReport × FileTree :=
  (byPath p.finished.reverse, p.tree)

/-- The work is a sequence of steps after which nothing is left to do. -/
lemma exists_steps_process (root : Path) (mode : Mode) (jobs : Nat) (schedule : List Nat)
    (t : FileTree) (subjects : List Subject) :
    ∃ p, ReflTransGen (Progress.Next root mode (max jobs 1)) { waiting := subjects, tree := t } p ∧
      p.waiting = [] ∧ p.active = [] ∧
        process root mode jobs schedule t subjects = p.outcome := by
  have hlimit : 0 < max jobs 1 := Nat.lt_of_lt_of_le Nat.one_pos (Nat.le_max_right jobs 1)
  let start : Progress := { waiting := subjects, tree := t }
  let followed := start.follow root mode (max jobs 1) schedule
  obtain ⟨hw, ha⟩ := Progress.finish_eq_nil root mode hlimit followed
  refine ⟨followed.finish root mode (max jobs 1), ?_, hw, ha, rfl⟩
  have hfollow := Progress.reflTransGen_follow root mode (max jobs 1) schedule start
  exact hfollow.trans (Progress.reflTransGen_follow root mode _ _ followed)

/-- The work reports on each file once. -/
lemma process_perm (root : Path) (mode : Mode) (jobs : Nat) (schedule : List Nat) (t : FileTree)
    (subjects : List Subject) :
    ((process root mode jobs schedule t subjects).1.map FileReport.subject).Perm subjects := by
  obtain ⟨p, hsteps, hw, ha, hp⟩ := exists_steps_process root mode jobs schedule t subjects
  rw [hp]
  have hsorted : (byPath p.finished.reverse).Perm p.finished :=
    (List.mergeSort_perm _ _).trans (List.reverse_perm _)
  exact (hsorted.map _).trans (Progress.finished_perm_of_reflTransGen hsteps hw ha)

end Processing

end LicenseHeader
