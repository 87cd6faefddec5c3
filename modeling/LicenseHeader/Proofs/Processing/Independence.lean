import LicenseHeader.Proofs.Path.Order
import LicenseHeader.Proofs.Processing.Interleaving
import LicenseHeader.Proofs.Processing.Repetition

/-!
# Independence of files

Files at different places do not notice each other: what the work on one of them reads, reports and
writes does not depend on what was done for the others. In whatever order the steps are taken, the
reports and the files are in the end those that come from working on one file after another.
-/

namespace LicenseHeader.Processing

open FileTree (Alike textEntry)
open Progress (Act Next)
open Relation (ReflTransGen)

variable {root : Path} {mode : Mode} {limit : Nat} {t t' : FileTree} {a b s : Subject}
  {l : Location}

/-- Two files with different paths that do not lead to the same place. -/
structure Apart (root : Path) (t : FileTree) (a b : Subject) : Prop where
  path_ne : a.path.components ≠ b.path.components
  resolve_ne : ∀ l, t.resolve (root.join a.path) = .ok l → t.resolve (root.join b.path) ≠ .ok l

/-- The tree after the work on some files, one after another. -/
def inTurn (root : Path) (mode : Mode) (t : FileTree) (subjects : List Subject) : FileTree :=
  subjects.foldl (fun t s => (processFile root mode t s).2) t

lemma inTurn_cons (root : Path) (mode : Mode) (t : FileTree) (s : Subject)
    (subjects : List Subject) :
    inTurn root mode t (s :: subjects) =
      inTurn root mode (processFile root mode t s).2 subjects := by
  rw [inTurn, List.foldl_cons, inTurn]

lemma inTurn_concat (root : Path) (mode : Mode) (t : FileTree) (subjects : List Subject)
    (s : Subject) :
    inTurn root mode t (subjects ++ [s]) =
      (processFile root mode (inTurn root mode t subjects) s).2 := by
  rw [inTurn, List.foldl_concat, inTurn]

/-! ### The work on one file -/

/-- What is done for a file depends on its text only. -/
lemma readStep_congr (h : t'.readText (root.join s.path) = t.readText (root.join s.path)) :
    readStep root mode t' s = readStep root mode t s := by
  unfold readStep
  simp only [h]

/-- The work on a file leaves all trees alone in which the file has the same text, or it gives the
file the same new text in all of them. Whether the file is locked is the same in all of them, too.
-/
lemma processFile_change (root : Path) (mode : Mode) (t : FileTree) (s : Subject) :
    (∃ report, ∀ t', Alike t t' →
      t'.readText (root.join s.path) = t.readText (root.join s.path) →
        processFile root mode t' s = (report, t')) ∨
    ∃ report l old new, t.resolve (root.join s.path) = .ok l ∧
      t.entry? l = some (textEntry old) ∧ ∀ t', Alike t t' →
        t'.readText (root.join s.path) = t.readText (root.join s.path) →
          processFile root mode t' s = (report, t'.put l (textEntry new)) := by
  cases hr : readStep root mode t s with
  | settled report =>
    refine Or.inl ⟨report, fun t' _ hread => processFile_of_settled ?_⟩
    rw [readStep_congr hread, hr]
  | pending report new =>
    obtain ⟨text, htext, -, -, hreport, -⟩ := readStep_eq_pending hr
    obtain ⟨l, hl, he⟩ := FileTree.readText_eq_ok_iff.mp htext
    have hpath : report.path = s.path := by
      rw [hreport]
      rfl
    have hmarker : report.marker = s.style.marker := by
      rw [hreport]
      rfl
    have hstep : ∀ t', t'.readText (root.join s.path) = t.readText (root.join s.path) →
        processFile root mode t' s = writeStep root t' report new := by
      intro t' hread
      apply processFile_of_pending
      rw [readStep_congr hread, hr]
    by_cases hlocked : l ∈ t.locked
    · refine Or.inl ⟨unwritable root s .denied, fun t' halike hread => ?_⟩
      obtain ⟨c, hc⟩ := halike.exists_file he
      rw [hstep t' hread]
      exact writeStep_of_locked (halike.resolve _ ▸ hl) hc hpath hmarker (halike.locked ▸ hlocked) new
    · refine Or.inr ⟨report, l, text, new, hl, he, fun t' halike hread => ?_⟩
      rw [hstep t' hread]
      exact writeStep_of_readText (hread.trans htext) (halike.resolve _ ▸ hl) hpath
        (halike.locked ▸ hlocked) new

/-- Work on one file changes contents only. -/
lemma alike_processFile (root : Path) (mode : Mode) (t : FileTree) (s : Subject) :
    Alike t (processFile root mode t s).2 := by
  rcases processFile_change root mode t s with ⟨report, h⟩ | ⟨report, l, old, new, -, he, h⟩
  · rw [h t (Alike.refl t) rfl]
    exact Alike.refl t
  · rw [h t (Alike.refl t) rfl]
    exact FileTree.alike_put he _

/-- Nothing but the file itself is changed. -/
lemma entry?_processFile (h : t.resolve (root.join s.path) ≠ .ok l) :
    FileTree.entry? (processFile root mode t s).2 l = t.entry? l := by
  rcases processFile_change root mode t s with ⟨report, h'⟩ | ⟨report, m, old, new, hm, -, h'⟩
  · rw [h' t (Alike.refl t) rfl]
  · rw [h' t (Alike.refl t) rfl]
    apply FileTree.entry?_put_of_ne
    rintro rfl
    exact h hm

lemma processFile_fst_congr (halike : Alike t t')
    (hread : t'.readText (root.join s.path) = t.readText (root.join s.path)) :
    (processFile root mode t' s).1 = (processFile root mode t s).1 := by
  rcases processFile_change root mode t s with ⟨report, h⟩ | ⟨report, l, old, new, -, -, h⟩
  · rw [h t' halike hread, h t (Alike.refl t) rfl]
  · rw [h t' halike hread, h t (Alike.refl t) rfl]

/-! ### Two files -/

lemma Apart.symm (h : Apart root t a b) : Apart root t b a := by
  constructor
  · exact h.path_ne.symm
  · intro l hb ha
    exact h.resolve_ne l ha hb

lemma Apart.of_alike (halike : Alike t t') (h : Apart root t a b) : Apart root t' a b := by
  constructor
  · exact h.path_ne
  · intro l ha hb
    rw [← halike.resolve] at ha hb
    exact h.resolve_ne l ha hb

/-- A file does not notice the work on another one. -/
lemma Apart.readText_processFile (h : Apart root t a b) (mode : Mode) :
    (processFile root mode t a).2.readText (root.join b.path) = t.readText (root.join b.path) := by
  apply (alike_processFile root mode t a).readText_congr
  intro l hb
  apply entry?_processFile
  exact fun ha => h.resolve_ne l ha hb

/-- Two files may be worked on in either order. -/
lemma Apart.processFile_comm (h : Apart root t a b) (mode : Mode) :
    (processFile root mode (processFile root mode t a).2 b).2 =
      (processFile root mode (processFile root mode t b).2 a).2 := by
  have hreadb := h.readText_processFile mode
  have hreada := h.symm.readText_processFile mode
  have halikea := alike_processFile root mode t a
  have halikeb := alike_processFile root mode t b
  -- Unless both files are changed, one of the two pieces of work leaves every tree as it is.
  rcases processFile_change root mode t a with ⟨ra, ha⟩ | ⟨ra, la, olda, newa, hla, hea, ha⟩
  · rw [ha _ halikeb hreada, ha t (Alike.refl t) rfl]
  · rcases processFile_change root mode t b with ⟨rb, hb⟩ | ⟨rb, lb, oldb, newb, hlb, heb, hb⟩
    · rw [hb _ halikea hreadb, hb t (Alike.refl t) rfl]
    · have hne : la ≠ lb := by
        rintro rfl
        exact h.resolve_ne la hla hlb
      have hknown : ∀ {l old}, t.entry? l = some (textEntry old) →
          (t.entries.lookup l).isSome := by
        intro l old he
        apply FileTree.lookup_isSome_of_entry?
        · rintro rfl
          rw [FileTree.entry?_nil] at he
          cases he
        · rw [he]
          rfl
      rw [hb _ halikea hreadb, ha _ halikeb hreada, ha t (Alike.refl t) rfl,
        hb t (Alike.refl t) rfl]
      exact FileTree.put_put_comm hne (hknown hea) (hknown heb)

/-! ### Many files -/

lemma alike_inTurn (root : Path) (mode : Mode) (t : FileTree) (subjects : List Subject) :
    Alike t (inTurn root mode t subjects) := by
  induction subjects generalizing t with
  | nil => exact Alike.refl t
  | cons s subjects ih => exact (alike_processFile root mode t s).trans (ih _)

/-- The work on other files leaves a file as it was. -/
lemma readText_inTurn {subjects : List Subject} (h : ∀ a ∈ subjects, Apart root t a s)
    (mode : Mode) :
    (inTurn root mode t subjects).readText (root.join s.path) = t.readText (root.join s.path) := by
  induction subjects generalizing t with
  | nil => rfl
  | cons a subjects ih =>
    rw [inTurn_cons, ih, (h a List.mem_cons_self).readText_processFile]
    intro b hb
    exact (h b (List.mem_cons_of_mem a hb)).of_alike (alike_processFile root mode t a)

/-- What stands elsewhere is not changed by the work on some files. -/
lemma entry?_inTurn_of_ne {subjects : List Subject}
    (h : ∀ s ∈ subjects, t.resolve (root.join s.path) ≠ .ok l) (mode : Mode) :
    FileTree.entry? (inTurn root mode t subjects) l = t.entry? l := by
  induction subjects generalizing t with
  | nil => rfl
  | cons a subjects ih =>
    rw [inTurn_cons, ih, entry?_processFile (h a List.mem_cons_self)]
    intro s hs
    rw [← (alike_processFile root mode t a).resolve]
    exact h s (List.mem_cons_of_mem a hs)

/-- A file does not notice what is done for another one before. -/
lemma Apart.entry?_processFile (h : Apart root t a b) (hl : t.resolve (root.join b.path) = .ok l)
    (mode : Mode) :
    FileTree.entry? (processFile root mode (processFile root mode t a).2 b).2 l =
      FileTree.entry? (processFile root mode t b).2 l := by
  have halike := alike_processFile root mode t a
  have hread := h.readText_processFile mode
  have hother : FileTree.entry? (processFile root mode t a).2 l = t.entry? l :=
    Processing.entry?_processFile fun ha => h.resolve_ne l ha hl
  rcases processFile_change root mode t b with ⟨report, hb⟩ | ⟨report, m, old, new, hm, he, hb⟩
  · rw [hb _ halike hread, hb t (Alike.refl t) rfl]
    exact hother
  · obtain rfl : l = m := Except.ok.inj (hl.symm.trans hm)
    have hne : l ≠ [] := by
      rintro rfl
      rw [FileTree.entry?_nil] at he
      cases he
    rw [hb _ halike hread, hb t (Alike.refl t) rfl]
    exact (FileTree.entry?_put_self hne).trans (FileTree.entry?_put_self hne).symm

/-- Among files at different places each one comes to what the work on it alone makes of it. -/
lemma entry?_inTurn_of_mem {subjects : List Subject} (h : subjects.Pairwise (Apart root t))
    (hs : s ∈ subjects) (hl : t.resolve (root.join s.path) = .ok l) (mode : Mode) :
    FileTree.entry? (inTurn root mode t subjects) l =
      FileTree.entry? (processFile root mode t s).2 l := by
  induction subjects generalizing t with
  | nil => cases hs
  | cons a subjects ih =>
    obtain ⟨ha, hrest⟩ := List.pairwise_cons.mp h
    have halike := alike_processFile root mode t a
    rw [inTurn_cons]
    rcases List.mem_cons.mp hs with rfl | hs
    · apply entry?_inTurn_of_ne
      intro b hb hlb
      rw [← halike.resolve] at hlb
      exact (ha b hb).resolve_ne l hl hlb
    · rw [ih (hrest.imp (Apart.of_alike halike)) hs (halike.resolve _ ▸ hl)]
      exact Apart.entry?_processFile (ha s hs) hl mode

/-- A fix of several files installs the header in each of them that is not locked. -/
lemma readText_inTurn_fix {subjects : List Subject} (h : subjects.Pairwise (Apart root t))
    (hs : s ∈ subjects) {text : List Char} (htext : t.readText (root.join s.path) = .ok text)
    (hw : Writable root t s) :
    (inTurn root .fix t subjects).readText (root.join s.path) =
      .ok (Header.installText s.style.marker.toList text) := by
  induction subjects generalizing t with
  | nil => cases hs
  | cons a subjects ih =>
    obtain ⟨ha, hrest⟩ := List.pairwise_cons.mp h
    have halike := alike_processFile root .fix t a
    rw [inTurn_cons]
    rcases List.mem_cons.mp hs with rfl | hs
    · rw [readText_inTurn fun b hb => ((ha b hb).of_alike halike).symm]
      exact readText_afterFix htext hw
    · apply ih (hrest.imp (Apart.of_alike halike)) hs _ (hw.of_alike halike)
      rw [(ha s hs).readText_processFile]
      exact htext

/-- The order in which separate files are worked on does not matter. -/
lemma inTurn_perm {as bs : List Subject} (hperm : as.Perm bs) (h : as.Pairwise (Apart root t)) :
    inTurn root mode t as = inTurn root mode t bs := by
  induction hperm generalizing t with
  | nil => rfl
  | @cons a as bs _ ih =>
    apply ih
    exact (List.pairwise_cons.mp h).2.imp (Apart.of_alike (alike_processFile root mode t a))
  | @swap a b as =>
    have hab := (List.pairwise_cons.mp h).1 a List.mem_cons_self
    rw [inTurn_cons, inTurn_cons, inTurn_cons, inTurn_cons, hab.processFile_comm]
  | trans hperm _ ih ih' =>
    rw [ih h, ih']
    exact (hperm.pairwise_iff Apart.symm).mp h

/-! ### Interleaved steps -/

/-- Everything that was found out and done so far is what the work on single files comes to. -/
structure Faithful (root : Path) (mode : Mode) (t : FileTree) (p : Progress) : Prop where
  apart : p.subjects.Pairwise (Apart root t)
  pending : ∀ report text, .write report text ∈ p.active →
    readStep root mode t report.subject = .pending report text
  finished : p.finished = p.finished.map fun report => (processFile root mode t report.subject).1
  tree : p.tree = inTurn root mode t (p.finished.reverse.map FileReport.subject)

namespace Faithful

variable {waiting : List Subject} {before after : List Task} {task : Task}
  {finished : List FileReport} {u : FileTree}

/-- A file at work has its text as it was in the beginning. -/
lemma readText (h : Faithful root mode t ⟨waiting, before ++ task :: after, finished, u⟩) :
    u.readText (root.join task.subject.path) = t.readText (root.join task.subject.path) := by
  -- The tree comes from the finished files, and from these the file at work is apart.
  rw [show u = _ from h.tree]
  apply readText_inTurn
  intro a ha
  have hactive := (List.pairwise_append.mp h.apart).2.1
  apply Apart.symm
  apply (List.pairwise_append.mp hactive).2.2 task.subject (by simp) a
  simpa using ha

lemma alike (h : Faithful root mode t ⟨waiting, before ++ task :: after, finished, u⟩) :
    Alike t u := by
  rw [show u = _ from h.tree]
  exact alike_inTurn root mode t _

/-- A file that is finished as if it were worked on now leaves everything faithful. -/
lemma finish (h : Faithful root mode t ⟨waiting, before ++ task :: after, finished, u⟩)
    {report : FileReport} {u' : FileTree}
    (hdone : processFile root mode u task.subject = (report, u'))
    (hsubject : report.subject = task.subject)
    (hact : Act root mode ⟨waiting, before ++ task :: after, finished, u⟩
      ⟨waiting, before ++ after, report :: finished, u'⟩) :
    Faithful root mode t ⟨waiting, before ++ after, report :: finished, u'⟩ where
  apart := (hact.subjects_perm.pairwise_iff Apart.symm).mp h.apart
  pending r text hr := by
    exact h.pending r text (((List.sublist_cons_self _ after).append_left before).subset hr)
  finished := by
    have hreport : (processFile root mode u task.subject).1 = _ :=
      processFile_fst_congr h.alike h.readText
    rw [hdone] at hreport
    rw [List.map_cons, hsubject, ← hreport]
    exact congrArg _ h.finished
  tree := by
    have htree : u = inTurn root mode t (finished.reverse.map FileReport.subject) := h.tree
    simp only [List.reverse_cons, List.map_append, List.map_singleton, inTurn_concat, hsubject]
    rw [← htree, hdone]

end Faithful

/-- One step, by the cases of the task: what it reads and writes is what the work on that file alone
comes to. -/
lemma Faithful.act {p p' : Progress} (h : Faithful root mode t p) (hact : Act root mode p p') :
    Faithful root mode t p' := by
  cases hact with
  | @settle waiting before after s finished u report hr =>
    exact h.finish (processFile_of_settled hr) (subject_of_settled hr) (.settle hr)
  | @decide waiting before after s finished u report text hr =>
    have hr' : readStep root mode t s = .pending report text :=
      (readStep_congr h.readText).symm.trans hr
    constructor
    · exact ((Act.decide hr).subjects_perm.pairwise_iff Apart.symm).mp h.apart
    · intro r new hmem
      rcases List.mem_append.mp hmem with hmem | hmem
      · exact h.pending r new (List.mem_append_left _ hmem)
      · rcases List.mem_cons.mp hmem with heq | hmem
        · cases heq
          rw [subject_of_pending hr]
          exact hr'
        · exact h.pending r new (List.mem_append_right _ (List.mem_cons_of_mem _ hmem))
    · exact h.finished
    · exact h.tree
  | @write waiting before after report text finished u =>
    have hr : readStep root mode u report.subject = .pending report text :=
      (readStep_congr h.readText).trans (h.pending report text (by simp))
    exact h.finish (processFile_of_pending hr) (subject_writeStep root u report text) .write

/-- Taking up a file finds out nothing. -/
lemma Faithful.next {p p' : Progress} (h : Faithful root mode t p)
    (hnext : Next root mode limit p p') : Faithful root mode t p' := by
  have hperm := hnext.subjects_perm
  cases hnext with
  | @start before after s active finished u _ =>
    constructor
    · exact (hperm.pairwise_iff Apart.symm).mp h.apart
    · intro r new hmem
      apply h.pending r new
      simpa using hmem
    · exact h.finished
    · exact h.tree
  | act hact => exact h.act hact

/-! ### Results -/

lemma subject_processFile (root : Path) (mode : Mode) (t : FileTree) (s : Subject) :
    (processFile root mode t s).1.subject = s := by
  cases hr : readStep root mode t s with
  | settled report =>
    rw [processFile_of_settled hr]
    exact subject_of_settled hr
  | pending report text =>
    rw [processFile_of_pending hr, subject_writeStep]
    exact subject_of_pending hr

lemma path_processFile (root : Path) (mode : Mode) (t : FileTree) (s : Subject) :
    (processFile root mode t s).1.path = s.path :=
  congrArg Subject.path (subject_processFile root mode t s)

lemma byPath_perm (reports : List FileReport) : (byPath reports).Perm reports :=
  List.mergeSort_perm reports _

lemma byPath_pairwise {reports : List FileReport}
    (h : reports.Pairwise fun a b => a.path.components ≠ b.path.components) :
    (byPath reports).Pairwise fun a b => a.path.compare b.path = .lt :=
  Path.pairwise_mergeSort_lt h

/-- Sorting forgets the order in which reports with different paths came. -/
lemma byPath_eq_of_perm {as bs : List FileReport} (hperm : as.Perm bs)
    (h : bs.Pairwise fun a b => a.path.components ≠ b.path.components) :
    byPath as = byPath bs := by
  have has := byPath_pairwise ((hperm.pairwise_iff Ne.symm).mpr h)
  have hbs := byPath_pairwise h
  apply List.Perm.eq_of_pairwise _ has hbs
    (((byPath_perm as).trans hperm).trans (byPath_perm bs).symm)
  intro a b _ _ hab hba
  rw [Path.compare_swap, hba] at hab
  cases hab

/-- Reports in the order of paths stay as they are. -/
lemma byPath_eq_self {reports : List FileReport}
    (h : reports.Pairwise fun a b => a.path.compare b.path = .lt) : byPath reports = reports := by
  apply List.mergeSort_of_pairwise
  refine h.imp fun {a b} hab => ?_
  rw [Path.le, hab]
  rfl

section Work

variable {subjects : List Subject} {p : Progress} {jobs : Nat}

lemma pairwise_reports (h : subjects.Pairwise fun a b => a.path.compare b.path = .lt)
    (root : Path) (mode : Mode) (t : FileTree) :
    (subjects.map fun s => (processFile root mode t s).1).Pairwise
      fun a b => a.path.compare b.path = .lt := by
  apply List.pairwise_map.mpr
  simpa only [path_processFile] using h

lemma path_ne_of_apart (h : subjects.Pairwise (Apart root t)) (mode : Mode) :
    (subjects.map fun s => (processFile root mode t s).1).Pairwise
      fun a b => a.path.components ≠ b.path.components := by
  apply List.pairwise_map.mpr
  apply h.imp
  intro a b hab
  rw [path_processFile, path_processFile]
  exact hab.path_ne

lemma faithful_start (h : subjects.Pairwise (Apart root t)) (mode : Mode) :
    Faithful root mode t { waiting := subjects, tree := t } where
  apart := by simpa [Progress.subjects] using h
  pending _ _ hmem := by cases hmem
  finished := rfl
  tree := rfl

/-- When everything is done, the order of the steps cannot be told from what came of them. -/
lemma outcome_eq (h : subjects.Pairwise (Apart root t))
    (hsteps : ReflTransGen (Next root mode limit) { waiting := subjects, tree := t } p)
    (hw : p.waiting = []) (ha : p.active = []) :
    p.outcome = (byPath (subjects.map fun s => (processFile root mode t s).1),
      inTurn root mode t subjects) := by
  have hfaithful : Faithful root mode t p :=
    Progress.invariant_of_reflTransGen Faithful.next (faithful_start h mode) hsteps
  have hperm := Progress.finished_perm_of_reflTransGen hsteps hw ha
  have hreverse : (p.finished.reverse.map FileReport.subject).Perm subjects :=
    ((List.reverse_perm _).map _).trans hperm
  have hreports : p.finished.reverse.Perm (subjects.map fun s => (processFile root mode t s).1) := by
    refine (List.reverse_perm _).trans ?_
    have hmap := hperm.map fun s => (processFile root mode t s).1
    rw [List.map_map] at hmap
    rw [hfaithful.finished]
    exact hmap
  rw [Progress.outcome, byPath_eq_of_perm hreports (path_ne_of_apart h mode), hfaithful.tree,
    inTurn_perm hreverse ((hreverse.pairwise_iff Apart.symm).mpr h)]

lemma process_eq (h : subjects.Pairwise (Apart root t)) (mode : Mode) (jobs : Nat)
    (schedule : List Nat) :
    process root mode jobs schedule t subjects =
      (byPath (subjects.map fun s => (processFile root mode t s).1),
        inTurn root mode t subjects) := by
  obtain ⟨p, hsteps, hw, ha, hp⟩ := exists_steps_process root mode jobs schedule t subjects
  rw [hp]
  exact outcome_eq h hsteps hw ha

/-- For files with different paths that lead to different places, it cannot be seen in which order
the steps are taken and how many files are at work at the same time. Every sequence of steps comes
to an end, with at most `max jobs 1` files at work on the way; then there is one report for each
file, the same as if that file alone were worked on, in strictly increasing order of paths, and the
tree is the one after working on one file after another. A file that cannot be read, or that should
be written but is locked, gives an error of its own. The work itself is such a sequence. -/
theorem process_independent_of_schedule (root : Path) (mode : Mode) (jobs : Nat) (t : FileTree)
    (subjects : List Subject) (h : subjects.Pairwise (Apart root t)) :
    ∃ reports : List FileReport,
      reports.Perm (subjects.map fun s => (processFile root mode t s).1) ∧
      reports.Pairwise (fun a b => a.path.compare b.path = .lt) ∧
      (∀ s ∈ subjects, ∀ fault, t.readText (root.join s.path) = .error fault →
        unreadable root s fault ∈ reports) ∧
      (mode = .fix → ∀ s ∈ subjects, ∀ text, t.readText (root.join s.path) = .ok text →
        ¬ Header.Installed s.style.marker.toList text → ¬ Writable root t s →
          unwritable root s .denied ∈ reports) ∧
      WellFounded (fun p' p => Next root mode (max jobs 1) p p') ∧
      (∀ p, ReflTransGen (Next root mode (max jobs 1)) { waiting := subjects, tree := t } p →
        p.active.length ≤ max jobs 1 ∧ ((∀ p', ¬ Next root mode (max jobs 1) p p') →
          p.outcome = (reports, inTurn root mode t subjects))) ∧
      ∀ schedule, process root mode jobs schedule t subjects =
        (reports, inTurn root mode t subjects) := by
  have hlimit : 0 < max jobs 1 := Nat.lt_of_lt_of_le Nat.one_pos (Nat.le_max_right jobs 1)
  have hperm := byPath_perm (subjects.map fun s => (processFile root mode t s).1)
  have hmem : ∀ s ∈ subjects, ∀ report, (processFile root mode t s).1 = report →
      report ∈ byPath (subjects.map fun s => (processFile root mode t s).1) := by
    rintro s hs report rfl
    exact hperm.mem_iff.mpr (List.mem_map_of_mem hs)
  refine ⟨_, hperm, byPath_pairwise (path_ne_of_apart h mode), ?_, ?_,
    Progress.wellFounded_next root mode _, ?_, ?_⟩
  · intro s hs fault hfault
    exact hmem s hs _ (congrArg Prod.fst (processFile_of_unreadable hfault mode))
  · rintro rfl s hs text htext hi hw
    obtain ⟨l, hl, -⟩ := FileTree.readText_eq_ok_iff.mp htext
    rw [writable_iff hl, not_not] at hw
    exact hmem s hs _ (congrArg Prod.fst (processFile_fix_of_locked htext hi hl hw))
  · intro p hsteps
    refine ⟨Progress.active_length_le hsteps (Nat.zero_le _), fun hrest => ?_⟩
    obtain ⟨hw, ha⟩ := Progress.eq_nil_of_forall_not_next hlimit hrest
    exact outcome_eq h hsteps hw ha
  · exact process_eq h mode jobs

/-- A directory with two files, one with a header for another marker and one without. -/
def twoFiles : FileTree where
  entries := [(["work"], .directory), (["work", "a.rs"], textEntry "fn a() {}\n".toList),
    (["work", "b.sh"], textEntry "#!/bin/sh\nexit 0\n".toList)]

theorem process_independent_of_schedule_twoFiles :
    [⟨⟨"b.sh"⟩, ⟨"#"⟩⟩, ⟨⟨"a.rs"⟩, ⟨"//"⟩⟩].Pairwise (Apart ⟨"/work"⟩ twoFiles) ∧
      ∃ reports : List FileReport,
        reports.Pairwise (fun a b => a.path.compare b.path = .lt) ∧ reports.length = 2 ∧
          ∀ schedule, process ⟨"/work"⟩ .fix 2 schedule twoFiles
              [⟨⟨"b.sh"⟩, ⟨"#"⟩⟩, ⟨⟨"a.rs"⟩, ⟨"//"⟩⟩] =
            (reports, inTurn ⟨"/work"⟩ .fix twoFiles
              [⟨⟨"b.sh"⟩, ⟨"#"⟩⟩, ⟨⟨"a.rs"⟩, ⟨"//"⟩⟩]) := by
  have ha : twoFiles.resolve (Path.join ⟨"/work"⟩ ⟨"a.rs"⟩) = .ok ["work", "a.rs"] := by
    decide +kernel
  have hb : twoFiles.resolve (Path.join ⟨"/work"⟩ ⟨"b.sh"⟩) = .ok ["work", "b.sh"] := by
    decide +kernel
  have hapart : [⟨⟨"b.sh"⟩, ⟨"#"⟩⟩, ⟨⟨"a.rs"⟩, ⟨"//"⟩⟩].Pairwise (Apart ⟨"/work"⟩ twoFiles) := by
    apply List.pairwise_pair.mpr
    constructor
    · decide +kernel
    · intro l hlb hla
      have hsame := Except.ok.inj ((hlb.symm.trans hb).symm.trans (hla.symm.trans ha))
      revert hsame
      decide
  obtain ⟨reports, hperm, hsorted, -, -, -, -, hprocess⟩ :=
    process_independent_of_schedule ⟨"/work"⟩ .fix 2 twoFiles _ hapart
  exact ⟨hapart, reports, hsorted, hperm.length_eq, hprocess⟩

end Work

end LicenseHeader.Processing
