import LicenseHeader.Proofs.Patch.Hunk

/-!
# A single change

If lines are inserted at one place only, no edit ever changes places with another one. The change
names the same place in both texts, wherever it is moved, and so it spans both of them.
-/

namespace LicenseHeader.Patch

open Text

variable {old new : List Line} {i j i' j' n : Nat} {e x : Edit} {es before after : List Edit}
  {b : Block} {bs : List Block}

/-! ### Scripts with one change -/

/-- The edits that change something. -/
def changes (es : List Edit) : List Edit :=
  es.filter fun e => e.kind ≠ .keep

/-- A script in which at most one edit changes something, and this names the same place twice. -/
structure Single (es : List Edit) : Prop where
  length_le : (changes es).length ≤ 1
  start : ∀ x ∈ changes es, x.oldStart = x.newStart

lemma changes_append (es fs : List Edit) : changes (es ++ fs) = changes es ++ changes fs :=
  List.filter_append es fs

lemma changes_eq_nil_iff : changes es = [] ↔ ∀ e ∈ es, e.kind = .keep := by
  simp [changes]

/-- Around a change nothing else changes. -/
lemma single_append_cons (hx : x.kind ≠ .keep) :
    Single (before ++ x :: after) ↔
      changes before = [] ∧ changes after = [] ∧ x.oldStart = x.newStart := by
  have hchanges : changes (before ++ x :: after) = changes before ++ x :: changes after := by
    simp [changes, hx]
  constructor
  · rintro ⟨hlength, hstart⟩
    rw [hchanges] at hlength hstart
    simp only [List.length_append, List.length_cons] at hlength
    exact ⟨List.eq_nil_of_length_eq_zero (by omega), List.eq_nil_of_length_eq_zero (by omega),
      hstart x (by simp)⟩
  · rintro ⟨hbefore, hafter, hstart⟩
    constructor <;> simp [hchanges, hbefore, hafter, hstart]

/-! ### Moves -/

lemma changes_consNonempty (he : e.kind = .keep) (h : changes es = []) :
    changes (consNonempty e es) = [] := by
  rw [consNonempty]
  split_ifs
  · exact h
  · simpa [changes, he] using h

lemma changes_keepBefore {a b : Nat} (h : changes es = []) :
    changes (keepBefore a b n es) = [] := by
  cases es with
  | nil => rfl
  | cons e es =>
    have he : e.kind = .keep := changes_eq_nil_iff.mp h e List.mem_cons_self
    simpa [keepBefore, changes, he, Edit.shiftUp, Edit.grow] using h

lemma changes_keepBehind {a b : Nat} (h : changes es = []) :
    changes (keepBehind a b n es) = [] := by
  cases es with
  | nil => rfl
  | cons e es =>
    have he : e.kind = .keep := changes_eq_nil_iff.mp h e List.mem_cons_self
    simpa [keepBehind, changes, he, Edit.grow] using h

/-- A focus on the only change, which names the same place twice. -/
structure Focus.Lone (f : Focus) : Prop where
  before : changes f.before = []
  after : changes f.after = []
  edit : f.edit.kind ≠ .keep
  start : f.edit.oldStart = f.edit.newStart

/-- Induction on the way up: the only change stays the only one. -/
lemma lone_moveUp (h : Focus.Lone ⟨before, x, after⟩) :
    (moveUp old new before x after).Lone := by
  fun_induction moveUp old new before x after
  case case1 => exact h
  case case2 x after e es hkeep n hguard ih =>
    have hes : changes es = [] := by simpa [changes, hkeep] using h.before
    refine ih ⟨changes_consNonempty hkeep hes, changes_keepBefore h.after, h.edit, ?_⟩
    exact congrArg (· - n) h.start
  case case3 x after e es hkeep n hguard hzero ih =>
    exact ih ⟨by simpa [changes, hkeep] using h.before, h.after, h.edit, h.start⟩
  case case4 => exact h
  case case5 x after e es hkeep hsame ih =>
    exact absurd (changes_eq_nil_iff.mp h.before e List.mem_cons_self) hkeep
  case case6 x after e es hkeep hother ih =>
    exact absurd (changes_eq_nil_iff.mp h.before e List.mem_cons_self) hkeep

/-- Induction on the way down: the only change stays the only one. -/
lemma lone_moveDown (h : Focus.Lone ⟨before, x, after⟩) :
    (moveDown old new before x after).Lone := by
  fun_induction moveDown old new before x after
  case case1 => exact h
  case case2 before x e es hkeep n hguard ih =>
    have hes : changes es = [] := by simpa [changes, hkeep] using h.after
    refine ih ⟨changes_keepBehind h.before, changes_consNonempty hkeep hes, h.edit, ?_⟩
    exact congrArg (· + n) h.start
  case case3 before x e es hkeep n hguard hzero ih =>
    exact ih ⟨h.before, by simpa [changes, hkeep] using h.after, h.edit, h.start⟩
  case case4 => exact h
  case case5 before x e es hkeep hsame ih =>
    exact absurd (changes_eq_nil_iff.mp h.after e List.mem_cons_self) hkeep
  case case6 before x e es hkeep hother ih =>
    exact absurd (changes_eq_nil_iff.mp h.after e List.mem_cons_self) hkeep

/-- Where nothing changes, nothing moves. -/
lemma moveAll_of_changes_eq_nil {kind : EditKind} (hkind : kind ≠ .keep) {moves : Nat}
    (h : changes after = []) : moveAll old new kind before after moves = before.reverse ++ after := by
  induction moves generalizing before after with
  | zero => rfl
  | succ moves ih =>
    cases after with
    | nil => simp [moveAll]
    | cons e after =>
      have he : e.kind = .keep := changes_eq_nil_iff.mp h e List.mem_cons_self
      rw [moveAll, if_neg (by rw [he]; exact hkind.symm), ih (by simpa [changes, he] using h)]
      simp

/-- A script with a single change has one after every number of moves. -/
lemma single_moveAll {kind : EditKind} (hkind : kind ≠ .keep) {moves : Nat}
    (h : Single (before.reverse ++ after)) : Single (moveAll old new kind before after moves) := by
  induction moves generalizing before after with
  | zero => exact h
  | succ moves ih =>
    cases after with
    | nil => simpa [moveAll] using h
    | cons e after =>
      rw [moveAll]
      split_ifs with he
      · obtain ⟨hbefore, hafter, hstart⟩ := (single_append_cons (he ▸ hkind)).mp h
        have hup : Focus.Lone (moveUp old new before e after) :=
          lone_moveUp ⟨by simpa [changes] using hbefore, hafter, he ▸ hkind, hstart⟩
        have hdown : Focus.Lone (moveDown old new (moveUp old new before e after).before
            (moveUp old new before e after).edit (moveUp old new before e after).after) :=
          lone_moveDown hup
        rw [moveAll_of_changes_eq_nil hkind hdown.after, List.reverse_cons, List.append_assoc]
        exact (single_append_cons hdown.edit).mpr
          ⟨by simpa [changes] using hdown.before, hdown.after, hdown.start⟩
      · apply ih
        rwa [List.reverse_cons, List.append_assoc]

lemma single_compact (h : Single es) : Single (compact old new es) := by
  have hdelete : EditKind.delete ≠ .keep := nofun
  have hinsert : EditKind.insert ≠ .keep := nofun
  exact single_moveAll hinsert (single_moveAll hdelete h)

/-! ### Blocks -/

/-- The blocks that change something. -/
def changed (bs : List Block) : List Block :=
  bs.filter fun b => !b.isKept

lemma changed_append (bs cs : List Block) : changed (bs ++ cs) = changed bs ++ changed cs :=
  List.filter_append bs cs

lemma changed_cons_of_isKept (hb : b.isKept) (bs : List Block) : changed (b :: bs) = changed bs := by
  simp [changed, hb]

lemma changed_cons_of_not_isKept (hb : ¬ b.isKept) (bs : List Block) :
    changed (b :: bs) = b :: changed bs := by
  simp [changed, hb]

lemma changed_map_ofEdit (es : List Edit) :
    changed (es.map Block.ofEdit) = (changes es).map Block.ofEdit := by
  rw [changed, List.filter_map, changes]
  congr 2
  funext e
  simp [Block.ofEdit]

/-- A change that has no other one next to it is a block of its own. -/
lemma changed_go (h : (changed (b :: es.map Block.ofEdit)).length ≤ 1) :
    changed (Block.ofScript.go b es) = changed (b :: es.map Block.ofEdit) := by
  induction es generalizing b with
  | nil => rfl
  | cons e es ih =>
    rw [List.map_cons] at h ⊢
    rw [Block.ofScript.go]
    by_cases hb : b.isKept
    · rw [changed_cons_of_isKept hb] at h ⊢
      split_ifs with hkind
      · have he : (Block.ofEdit e).isKept := hkind.trans hb
        have hjoin : (b.join (Block.ofEdit e)).isKept := hb
        rw [changed_cons_of_isKept he] at h ⊢
        rw [ih (by rwa [changed_cons_of_isKept hjoin]), changed_cons_of_isKept hjoin]
      · rw [changed_cons_of_isKept hb, ih h]
    · rw [changed_cons_of_not_isKept hb] at h ⊢
      have hnil : changed (Block.ofEdit e :: es.map Block.ofEdit) = [] :=
        List.eq_nil_of_length_eq_zero (by simpa using h)
      split_ifs with hkind
      · -- Two changes next to each other are one too many.
        have he : ¬ (Block.ofEdit e).isKept := by rwa [hkind]
        simp [changed_cons_of_not_isKept he] at hnil
      · rw [changed_cons_of_not_isKept hb, ih (by simp [hnil]), hnil]

/-- A single change is a block of its own. -/
lemma changed_ofScript (h : (changes es).length ≤ 1) :
    changed (Block.ofScript es) = (changes es).map Block.ofEdit := by
  rw [← changed_map_ofEdit]
  cases es with
  | nil => rfl
  | cons e es =>
    refine changed_go ?_
    rwa [← List.map_cons, changed_map_ofEdit, List.length_map]

/-- Kept lines are as many in both texts. -/
lemma Chain.sub_eq (h : Chain old new i j bs i' j') (hkept : changed bs = []) :
    i' - i = j' - j := by
  induction bs generalizing i j with
  | nil =>
    obtain ⟨rfl, rfl⟩ := h
    simp
  | cons b bs ih =>
    obtain ⟨hfits, hrest⟩ := h
    have hb : b.isKept := by
      by_contra hb
      simp [changed_cons_of_not_isKept hb] at hkept
    rw [changed_cons_of_isKept hb] at hkept
    have hsize := (hfits.start_of_isKept hb).2.2.1
    have hle := hrest.le
    have hsub := ih hrest hkept
    omega

/-- A change that names the same place twice starts there if the texts agree so far. -/
lemma Block.Fits.startsAt_of_start (h : b.Fits old new i i) (hb : b.old.start = b.new.start) :
    b.StartsAt i i := by
  rcases Nat.eq_zero_or_pos b.old.size with hzero | hold
  · have hnew := h.newStart (by have := h.nonempty; omega)
    exact ⟨hb.trans hnew, hnew⟩
  · have hold := h.oldStart hold
    exact ⟨hold, hb.symm.trans hold⟩

/-- A single change that names the same place twice is right at both ends. -/
lemma opens_and_closes (h : Chain old new 0 0 bs i j) (hlength : (changed bs).length ≤ 1)
    (hstart : ∀ b ∈ changed bs, b.old.start = b.new.start) : Opens bs 0 0 ∧ Closes bs i j := by
  constructor
  · intro b hb
    obtain ⟨bs, rfl⟩ := List.head?_eq_some_iff.mp hb
    by_cases hkept : b.isKept
    · exact h.1.startsAt hkept
    · exact h.1.startsAt_of_start (hstart b (by simp [changed_cons_of_not_isKept hkept]))
  · intro b hb
    obtain ⟨bs, rfl⟩ := List.getLast?_eq_some_iff.mp hb
    obtain ⟨m, n, hbs, hfits, rfl, rfl⟩ := chain_append.mp h
    by_cases hkept : b.isKept
    · exact hfits.stopsAt hkept
    · have hlast : changed (bs ++ [b]) = changed bs ++ [b] := by
        rw [changed_append, changed_cons_of_not_isKept hkept]
        rfl
      rw [hlast, List.length_append, List.length_singleton] at hlength
      have hbefore := hbs.sub_eq (List.eq_nil_of_length_eq_zero (by omega))
      obtain rfl : m = n := by omega
      obtain ⟨hold, hnew⟩ := hfits.startsAt_of_start (hstart b (by simp [hlast]))
      exact ⟨congrArg (· + b.old.size) hold, congrArg (· + b.new.size) hnew⟩

/-! ### Insertions -/

section Common

variable {α : Type} [BEq α] [LawfulBEq α]

lemma commonStart_of_prefix {as bs : List α} (h : as <+: bs) : commonStart as bs = as.length := by
  obtain ⟨cs, rfl⟩ := h
  induction as with
  | nil => cases cs <;> rfl
  | cons a as ih => simp [commonStart, ih]

lemma commonEnd_of_suffix {as bs : List α} (h : as <:+ bs) : commonEnd as bs = as.length := by
  rw [commonEnd, commonStart_of_prefix (List.reverse_prefix.mpr h), List.length_reverse]

lemma le_commonStart (as bs cs : List α) : as.length ≤ commonStart (as ++ bs) (as ++ cs) := by
  induction as with
  | nil => simp
  | cons a as ih => simpa [commonStart] using ih

omit [BEq α] [LawfulBEq α] in
lemma drop_suffix {as bs cs : List α} {n : Nat} (h : as.length ≤ n) :
    (as ++ bs).drop n <:+ (as ++ cs ++ bs).drop n := by
  have hdrop : (as ++ bs).drop n <:+ as ++ cs ++ bs := by
    rw [List.drop_append, List.drop_of_length_le h, List.nil_append]
    exact (List.drop_suffix _ bs).trans (List.suffix_append _ bs)
  refine List.suffix_of_suffix_length_le hdrop (List.drop_suffix n _) ?_
  simp
  omega

end Common

lemma changes_editOf_keep (i j n : Nat) : changes (editOf .keep i j n) = [] := by
  rw [editOf]
  split_ifs <;> rfl

/-- Between kept lines, lines are only inserted. -/
lemma single_insert (hkeep : changes before = []) (hkeep' : changes after = []) (m : Nat) :
    Single (before ++ (editOf .delete i i 0 ++ editOf .insert i i m) ++ after) := by
  have hchanges : changes (before ++ (editOf .delete i i 0 ++ editOf .insert i i m) ++ after) =
      changes (editOf .insert i i m) := by
    simp [changes_append, hkeep, hkeep', editOf]
  constructor
  · rw [hchanges]
    by_cases hm : m = 0 <;> simp [editOf, changes, hm]
  · rw [hchanges]
    by_cases hm : m = 0 <;> simp [editOf, changes, hm]

/-- A script for a sequence that is used up by what it has in common with another one. -/
lemma single_script {old new : List Line} {head tail : Nat} (hhead : head = commonStart old new)
    (htail : tail = commonEnd (old.drop head) (new.drop head))
    (h : old.length ≤ head + tail) : Single (script 0 0 old new) := by
  have hn : ((old.drop head).take (old.length - head - tail)).length = 0 := by
    simp
    omega
  have hm : ((new.drop head).take (new.length - head - tail)).length = new.length - head - tail := by
    simp
  rw [script]
  simp only [← hhead, ← htail, hn, hm]
  rw [if_pos (Or.inl trivial), Nat.zero_add]
  exact single_insert (changes_editOf_keep _ _ _) (changes_editOf_keep _ _ _) _

/-- A single change spans both texts. -/
lemma spans_of_single (h : Single (script 0 0 old new)) : Spans old new := by
  have hcompact : Single (compact old new (script 0 0 old new)) := single_compact h
  have hchanged := changed_ofScript hcompact.length_le
  apply opens_and_closes (chain_changeBlocks old new)
  · rw [changeBlocks, hchanged, List.length_map]
    exact hcompact.length_le
  · rw [changeBlocks, hchanged]
    intro b hb
    obtain ⟨x, hx, rfl⟩ := List.mem_map.mp hb
    exact hcompact.start x hx

/-- The insertion of lines in a row spans both texts. -/
theorem spans_insertion (before inserted behind : List Line) :
    Spans (before ++ behind) (before ++ inserted ++ behind) := by
  apply spans_of_single
  have hhead : before.length ≤ commonStart (before ++ behind) (before ++ inserted ++ behind) := by
    rw [List.append_assoc]
    exact le_commonStart before _ _
  refine single_script rfl rfl ?_
  rw [commonEnd_of_suffix (drop_suffix hhead), List.length_drop]
  omega

end LicenseHeader.Patch
