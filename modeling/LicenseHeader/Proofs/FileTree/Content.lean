import LicenseHeader.Proofs.FileTree.Resolution

/-!
# The contents of files

Where a text is read, another text can be written, and is read then, unless the file is locked. A
writing changes the content of the one file that its path leads to: the tree stays alike, and
whoever reads another file does not notice.
-/

namespace LicenseHeader.FileTree

variable {t t' : FileTree} {p q : Path} {l : Location} {old new text : List Char}

/-- The content of a file that holds a text. -/
def textEntry (text : List Char) : Entry :=
  .file (String.ofList text).toUTF8

/-! ### Reading -/

/-- A content is read as a text exactly if it is the encoding of that text. -/
lemma fromUTF8?_eq_some_iff {content : ByteArray} {s : String} :
    String.fromUTF8? content = some s ↔ content = s.toUTF8 := by
  constructor
  · intro h
    rw [String.fromUTF8?] at h
    split_ifs at h
    cases h
    rfl
  · rintro rfl
    have hvalid : s.toUTF8.IsValidUTF8 := s.isValidUTF8
    rw [String.fromUTF8?, dif_pos hvalid]
    rfl

lemma read_of_resolve (h : t.resolve p = .ok l) :
    t.read p = match t.entry? l with
      | some (.file content) => .ok content
      | some _ => .error FileFault.isDirectory
      | none => .error FileFault.notFound := by
  rw [read, h]
  rfl

lemma read_eq_ok_iff {content : ByteArray} :
    t.read p = .ok content ↔ ∃ l, t.resolve p = .ok l ∧ t.entry? l = some (.file content) := by
  cases hl : t.resolve p with
  | error fault => simp [read, hl, bind, Except.bind]
  | ok l =>
    rw [read_of_resolve hl]
    cases he : t.entry? l with
    | none => simp [he]
    | some e => cases e <;> simp [he]

/-- A text is read exactly where its encoding is. -/
lemma readText_eq_ok_iff_read :
    t.readText p = .ok text ↔ t.read p = .ok (String.ofList text).toUTF8 := by
  rw [readText]
  cases hr : t.read p with
  | error fault => simp [bind, Except.bind]
  | ok content =>
    rw [Except.ok.injEq, ← fromUTF8?_eq_some_iff]
    cases hs : String.fromUTF8? content with
    | none => simp [bind, Except.bind, hs]
    | some s =>
      simp only [bind, Except.bind, hs, pure, Except.pure, Except.ok.injEq, Option.some.injEq]
      constructor
      · rintro rfl
        exact String.ofList_toList.symm
      · rintro rfl
        exact String.toList_ofList

/-- A text is read where a path leads to a file that holds it. -/
lemma readText_eq_ok_iff :
    t.readText p = .ok text ↔ ∃ l, t.resolve p = .ok l ∧ t.entry? l = some (textEntry text) := by
  rw [readText_eq_ok_iff_read, read_eq_ok_iff, textEntry]

/-- Reading looks at the directories, the links, and the one file that the path leads to. -/
lemma Alike.readText_congr (h : Alike t t')
    (hfile : ∀ l, t.resolve p = .ok l → t'.entry? l = t.entry? l) :
    t'.readText p = t.readText p := by
  have hread : t'.read p = t.read p := by
    cases hl : t.resolve p with
    | error fault =>
      rw [read, read, ← h.resolve p, hl]
      rfl
    | ok l => rw [read_of_resolve hl, read_of_resolve (h.resolve p ▸ hl), hfile l hl]
  rw [readText, readText, hread]

/-! ### Writing -/

/-- The file that is read for a path is the one that is written for it, unless it is locked. -/
lemma writeTarget_of_read {content : ByteArray} (hl : t.resolve p = .ok l)
    (he : t.entry? l = some (.file content)) :
    t.writeTarget p = if l ∈ t.locked then .error .denied else .ok l := by
  have hfile : t.isDirectory l = false := by
    rw [isDirectory, he]
    rfl
  have hseparator : p.endsWithSeparator = false := by
    by_contra hsep
    have hwants : p.wantsDirectory := by
      rw [Path.wantsDirectory, eq_true_of_ne_false hsep]
      rfl
    have hdirectory := (walks_components_of_resolve hl).2 hwants
    rw [hfile] at hdirectory
    cases hdirectory
  rw [writeTarget, hseparator, Bool.and_false, place_of_resolve hl]
  show (if t.isDirectory l then Except.error FileFault.isDirectory
    else if l ∈ t.locked then .error .denied else .ok l) = _
  rw [hfile, if_neg Bool.false_ne_true]

/-- Where a text is read another one can be written, unless the file is locked. -/
lemma writeText_of_read {content : ByteArray} (hl : t.resolve p = .ok l)
    (he : t.entry? l = some (.file content)) (hlocked : l ∉ t.locked) (text : List Char) :
    t.writeText p text = .ok (t.put l (textEntry text)) := by
  rw [writeText, write, writeTarget_of_read hl he, if_neg hlocked]
  rfl

lemma writeText_of_locked {content : ByteArray} (hl : t.resolve p = .ok l)
    (he : t.entry? l = some (.file content)) (hlocked : l ∈ t.locked) (text : List Char) :
    t.writeText p text = .error .denied := by
  rw [writeText, write, writeTarget_of_read hl he, if_pos hlocked]
  rfl

/-- What was written is read. -/
lemma readText_put (hl : t.resolve p = .ok l) (he : t.entry? l = some (textEntry old))
    (text : List Char) : (t.put l (textEntry text)).readText p = .ok text := by
  have hne : l ≠ [] := by
    rintro rfl
    rw [entry?_nil] at he
    cases he
  rw [readText_eq_ok_iff]
  exact ⟨l, (alike_put he _).resolve p ▸ hl, entry?_put_self hne⟩

end LicenseHeader.FileTree
