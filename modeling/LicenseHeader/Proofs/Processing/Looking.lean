import LicenseHeader.Proofs.Processing.Independence

/-!
# Work that only looks

Only a fix writes files. In the other modes the work leaves the tree as it is, even where several
paths lead to the same file, and reports on each file what the work on that file alone reports.
-/

namespace LicenseHeader.Processing

open Progress (Act Next)
open Relation (ReflTransGen)

variable {root : Path} {mode : Mode} {limit : Nat} {t : FileTree} {p p' : Progress}
  {subjects : List Subject}

/-- Nothing was written so far, nothing is to be written, and all reports are those on single
files. -/
structure Looking (root : Path) (mode : Mode) (t : FileTree) (p : Progress) : Prop where
  tree : p.tree = t
  reading : ∀ task ∈ p.active, task.isRead
  finished : p.finished = p.finished.map fun report => (processFile root mode t report.subject).1

lemma looking_start (root : Path) (mode : Mode) (t : FileTree) (subjects : List Subject) :
    Looking root mode t { waiting := subjects, tree := t } where
  tree := rfl
  reading _ hmem := by cases hmem
  finished := rfl

/-- One step, by the cases of the task: unless files are fixed, there is nothing to write. -/
lemma Looking.act (hmode : mode ≠ .fix) (h : Looking root mode t p) (hact : Act root mode p p') :
    Looking root mode t p' := by
  cases hact with
  | @settle waiting before after s finished u report hr =>
    obtain rfl : u = t := h.tree
    constructor
    · rfl
    · intro task htask
      exact h.reading task (((List.sublist_cons_self _ after).append_left before).subset htask)
    · have hfinished := h.finished
      simp only [List.map_cons, subject_of_settled hr, processFile_of_settled hr]
      exact congrArg _ hfinished
  | decide hr =>
    obtain ⟨-, -, -, hfix, -, -⟩ := readStep_eq_pending hr
    exact absurd hfix hmode
  | write =>
    have hread := h.reading _ (List.mem_append_right _ List.mem_cons_self)
    cases hread

lemma Looking.next (hmode : mode ≠ .fix) (h : Looking root mode t p)
    (hnext : Next root mode limit p p') : Looking root mode t p' := by
  cases hnext with
  | start _ =>
    constructor
    · exact h.tree
    · intro task htask
      rcases List.mem_append.mp htask with htask | htask
      · exact h.reading task htask
      · rw [List.mem_singleton.mp htask]
        rfl
    · exact h.finished
  | act hact => exact h.act hmode hact

/-- Without a fix the reports on files that are in the order of paths come in this order. -/
lemma process_of_ne_fix (hmode : mode ≠ .fix)
    (h : subjects.Pairwise fun a b => a.path.compare b.path = .lt) (jobs : Nat)
    (schedule : List Nat) :
    process root mode jobs schedule t subjects =
      (subjects.map fun s => (processFile root mode t s).1, t) := by
  obtain ⟨p, hsteps, hw, ha, hp⟩ := exists_steps_process root mode jobs schedule t subjects
  have hlooking : Looking root mode t p :=
    Progress.invariant_of_reflTransGen (Looking.next hmode) (looking_start root mode t subjects)
      hsteps
  have hperm := Progress.finished_perm_of_reflTransGen hsteps hw ha
  have hreports : p.finished.reverse.Perm (subjects.map fun s => (processFile root mode t s).1) := by
    have hmap := hperm.map fun s => (processFile root mode t s).1
    rw [List.map_map] at hmap
    rw [hlooking.finished]
    exact (List.reverse_perm _).trans hmap
  have hsorted := pairwise_reports h root mode t
  rw [hp, Progress.outcome, hlooking.tree,
    byPath_eq_of_perm hreports (hsorted.imp Path.ne_of_compare_eq_lt), byPath_eq_self hsorted]

/-! ### What a check finds -/

/-- A file can be read and has its header as it should be. -/
def Carries (root : Path) (t : FileTree) (s : Subject) : Prop :=
  ∃ text, t.readText (root.join s.path) = .ok text ∧ Header.Installed s.style.marker.toList text

/-- A file can be read, but its header is missing or not as it should be. -/
def Lacks (root : Path) (t : FileTree) (s : Subject) : Prop :=
  ∃ text, t.readText (root.join s.path) = .ok text ∧ ¬ Header.Installed s.style.marker.toList text

lemma Lacks.not_carries {s : Subject} (h : Lacks root t s) : ¬ Carries root t s := by
  obtain ⟨text, htext, hi⟩ := h
  rintro ⟨text', htext', hi'⟩
  cases htext.symm.trans htext'
  exact hi hi'

/-- A check finds one of three things about a file. -/
lemma check_cases (root : Path) (t : FileTree) (s : Subject) :
    (Carries root t s ∧ (processFile root .check t s).1.status = .ok) ∨
      (Lacks root t s ∧ (processFile root .check t s).1.status = .missing) ∨
      ((∃ fault, t.readText (root.join s.path) = .error fault) ∧
        (processFile root .check t s).1.status = .error) := by
  cases hr : t.readText (root.join s.path) with
  | error fault =>
    rw [processFile_of_unreadable hr]
    exact Or.inr (Or.inr ⟨⟨fault, rfl⟩, rfl⟩)
  | ok text =>
    by_cases hi : Header.Installed s.style.marker.toList text
    · rw [processFile_of_installed hr hi]
      exact Or.inl ⟨⟨text, hr, hi⟩, rfl⟩
    · rw [processFile_check hr hi]
      exact Or.inr (Or.inl ⟨⟨text, hr, hi⟩, rfl⟩)

/-- A check passes exactly the files that carry the header. -/
lemma status_check_eq_ok_iff {s : Subject} :
    (processFile root .check t s).1.status = .ok ↔ Carries root t s := by
  rcases check_cases root t s with ⟨hs, h⟩ | ⟨hs, h⟩ | ⟨⟨fault, hfault⟩, h⟩
  · simp [h, hs]
  · simp [h, hs.not_carries]
  · simp [h, Carries, hfault]

/-- A check reports exactly the files that lack the header. -/
lemma status_check_eq_missing_iff {s : Subject} :
    (processFile root .check t s).1.status = .missing ↔ Lacks root t s := by
  rcases check_cases root t s with ⟨hs, h⟩ | ⟨hs, h⟩ | ⟨⟨fault, hfault⟩, h⟩
  · simpa [h] using fun hl : Lacks root t s => hl.not_carries hs
  · simp [h, hs]
  · simp [h, Lacks, hfault]

end LicenseHeader.Processing
