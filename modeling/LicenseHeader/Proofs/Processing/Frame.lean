import LicenseHeader.Proofs.Processing.Interleaving

/-!
# What the work leaves alone

Whatever files the work is about and in whatever order its steps are taken, it changes nothing but
the contents of files to which the paths of these files lead.
-/

namespace LicenseHeader.Processing

open FileTree (Alike)
open Progress (Act Next)

variable {root : Path} {mode : Mode} {limit : Nat} {t : FileTree} {p p' : Progress}

/-- Nothing was changed so far but what the work is about, and only files are to be written. -/
structure Framed (root : Path) (t : FileTree) (p : Progress) : Prop where
  alike : Alike t p.tree
  pending : ∀ report text, .write report text ∈ p.active →
    ∃ l c, t.resolve (root.join report.path) = .ok l ∧ t.entry? l = some (.file c)
  changed : ∀ l, p.tree.entry? l ≠ t.entry? l →
    ∃ s ∈ p.subjects, t.resolve (root.join s.path) = .ok l

lemma framed_start (root : Path) (t : FileTree) (subjects : List Subject) :
    Framed root t { waiting := subjects, tree := t } where
  alike := Alike.refl t
  pending _ _ hmem := by cases hmem
  changed _ hne := absurd rfl hne

/-- One step, by the cases of the task: only writing touches the tree, and only at the file of the
task. -/
lemma Framed.act (h : Framed root t p) (hact : Act root mode p p') : Framed root t p' := by
  have hperm := hact.subjects_perm
  cases hact with
  | @settle waiting before after s finished u report hr =>
    constructor
    · exact h.alike
    · intro r new hmem
      exact h.pending r new (((List.sublist_cons_self _ after).append_left before).subset hmem)
    · intro l hne
      obtain ⟨s', hs', hl⟩ := h.changed l hne
      exact ⟨s', hperm.mem_iff.mp hs', hl⟩
  | @decide waiting before after s finished u report text hr =>
    constructor
    · exact h.alike
    · intro r new hmem
      rcases List.mem_append.mp hmem with hmem | hmem
      · exact h.pending r new (List.mem_append_left _ hmem)
      · rcases List.mem_cons.mp hmem with heq | hmem
        · cases heq
          have halike : Alike t u := h.alike
          obtain ⟨old, hread, -, -, hreport, -⟩ := readStep_eq_pending hr
          obtain ⟨l, hl, he⟩ := FileTree.readText_eq_ok_iff.mp hread
          obtain ⟨c, hc⟩ := halike.symm.exists_file he
          rw [← halike.resolve] at hl
          rw [hreport]
          exact ⟨l, c, hl, hc⟩
        · exact h.pending r new (List.mem_append_right _ (List.mem_cons_of_mem _ hmem))
    · intro l hne
      obtain ⟨s', hs', hl⟩ := h.changed l hne
      exact ⟨s', hperm.mem_iff.mp hs', hl⟩
  | @write waiting before after report text finished u =>
    have halike : Alike t u := h.alike
    -- The file that was read is still there, and nothing else is changed.
    obtain ⟨l, c, hl, hc⟩ := h.pending report text (by simp)
    obtain ⟨c', hc'⟩ := halike.exists_file hc
    obtain ⟨halike', hsame⟩ := writeStep_frame (halike.resolve _ ▸ hl) hc' text
    constructor
    · exact halike.trans halike'
    · intro r new hmem
      exact h.pending r new (((List.sublist_cons_self _ after).append_left before).subset hmem)
    · intro m hne
      rcases eq_or_ne m l with rfl | hml
      · refine ⟨report.subject, ?_, hl⟩
        simp [Progress.subjects, subject_writeStep]
      · have hne' : u.entry? m ≠ t.entry? m := by
          rw [← hsame m hml]
          exact hne
        obtain ⟨s', hs', hl'⟩ := h.changed m hne'
        exact ⟨s', hperm.mem_iff.mp hs', hl'⟩

/-- A step of the work is taking up a file or a step for one. -/
lemma Framed.next (h : Framed root t p) (hnext : Next root mode limit p p') :
    Framed root t p' := by
  have hperm := hnext.subjects_perm
  cases hnext with
  | @start before after s active finished u hroom =>
    constructor
    · exact h.alike
    · intro r new hmem
      apply h.pending r new
      simpa using hmem
    · intro l hne
      obtain ⟨s', hs', hl⟩ := h.changed l hne
      exact ⟨s', hperm.mem_iff.mp hs', hl⟩
  | act hact => exact h.act hact

/-- The work changes contents of files only, and only where the path of one of its files leads. -/
lemma process_frame (root : Path) (mode : Mode) (jobs : Nat) (schedule : List Nat) (t : FileTree)
    (subjects : List Subject) :
    Alike t (process root mode jobs schedule t subjects).2 ∧
      ∀ l, FileTree.entry? (process root mode jobs schedule t subjects).2 l ≠ t.entry? l →
        ∃ s ∈ subjects, t.resolve (root.join s.path) = .ok l := by
  obtain ⟨p, hsteps, -, -, hp⟩ := exists_steps_process root mode jobs schedule t subjects
  have hframed : Framed root t p :=
    Progress.invariant_of_reflTransGen Framed.next (framed_start root t subjects) hsteps
  have hperm := Progress.subjects_perm_of_reflTransGen hsteps
  rw [hp]
  constructor
  · exact hframed.alike
  · intro l hne
    obtain ⟨s, hs, hl⟩ := hframed.changed l hne
    have hs' := hperm.mem_iff.mpr hs
    exact ⟨s, by simpa [Progress.subjects] using hs', hl⟩

end LicenseHeader.Processing
