import LicenseHeader.Patch.Edit

/-!
# Edit scripts

A short script is found by divide and conquer. What two sequences have in common at their starts and
ends is kept. For the rest a point is searched at which it may be split: paths through the grid of
old and new lines are followed from both corners, step by step, where a step goes down or to the
right and then along the diagonal as long as the lines agree. The sequences are split where a path
from one corner meets a path from the other.
-/

namespace LicenseHeader.Patch

variable {α : Type} [BEq α]

/-- The places that were reached in `d` steps: entry `j` is the number of old lines passed on the
diagonal `d - 2 * j`, that is with so many old lines passed more than new ones. -/
abbrev Frontier := Array Nat

/-- How many numbers from `i` on, at most `limit`, have the property `p`. -/
def runLength (p : Nat → Bool) (i : Nat) : Nat → Nat
  | 0 => 0
  | limit + 1 => if p i then runLength p (i + 1) limit + 1 else 0

namespace Frontier

/-- Where step `d` starts on its diagonal `j`, before it follows the diagonal. -/
def start (previous : Frontier) (d j : Nat) : Nat :=
  if d = 0 then 0
  else if j = d then previous.getD (j - 1) 0
  else if j = 0 then previous.getD 0 0 + 1
  else if previous.getD j 0 < previous.getD (j - 1) 0 then previous.getD (j - 1) 0
  else previous.getD j 0 + 1

/-- The number of new lines passed on diagonal `j` of step `d` with `x` old lines passed. -/
def newPassed (d j x : Nat) : Nat :=
  x + 2 * j - d

/-- The place reached in `d` steps on the diagonal `k`. -/
def at? (frontier : Frontier) (d : Nat) (k : Int) : Option Nat :=
  let t := (d : Int) - k
  if 0 ≤ t ∧ t ≤ 2 * d ∧ t % 2 = 0 then frontier[t.toNat / 2]? else none

/-- The frontier of step `d`, where `agree x y` is the number of lines that agree from there on. -/
def next (previous : Frontier) (agree : Nat → Nat → Nat) (d : Nat) : Frontier :=
  (Array.range (d + 1)).map fun j =>
    let x := previous.start d j
    x + agree x (newPassed d j x)

end Frontier

/-- The point at which two sequences without common start and end are split. Step `d` is made from
the start with the frontier `forward` behind it and from the end with the frontier `backward`;
`steps` further steps are allowed. -/
def splitPoint? (old new : Array α) (forward backward : Frontier) (d : Nat) :
    (steps : Nat) → Option (Nat × Nat)
  | 0 => none
  | steps + 1 =>
    let n := old.size
    let m := new.size
    let delta : Int := (n : Int) - m
    let diagonal := fun (j : Nat) => (d : Int) - 2 * j
    let ahead := fun x y => runLength (fun i => old[x + i]? == new[y + i]?) 0 (min (n - x) (m - y))
    let behind := fun x y =>
      runLength (fun i => old[n - 1 - x - i]? == new[m - 1 - y - i]?) 0 (min (n - x) (m - y))
    let forward' := forward.next ahead d
    let meetsBackward := fun (j : Nat) =>
      delta % 2 ≠ 0 ∧ 0 < d ∧
        ((backward.at? (d - 1) (delta - diagonal j)).any fun x => n ≤ forward'.getD j 0 + x)
    match (List.range (d + 1)).find? fun j => meetsBackward j with
    | some j => some (forward.start d j, Frontier.newPassed d j (forward.start d j))
    | none =>
      let backward' := backward.next behind d
      let meetsForward := fun (j : Nat) =>
        delta % 2 = 0 ∧
          ((forward'.at? d (delta - diagonal j)).any fun x => n ≤ backward'.getD j 0 + x)
      match (List.range (d + 1)).find? fun j => meetsForward j with
      | some j => some (n - backward'.getD j 0, m - Frontier.newPassed d j (backward'.getD j 0))
      | none => splitPoint? old new forward' backward' (d + 1) steps

/-- An edit, unless it has no lines. -/
def editOf (kind : EditKind) (oldStart newStart size : Nat) : List Edit :=
  if size = 0 then [] else [⟨kind, oldStart, newStart, size⟩]

/-- The script that leads from `old` to `new`, which stand behind `oldStart` and `newStart` other
lines. -/
def script (oldStart newStart : Nat) (old new : List α) : List Edit :=
  let head := commonStart old new
  let tail := commonEnd (old.drop head) (new.drop head)
  let old' := (old.drop head).take (old.length - head - tail)
  let new' := (new.drop head).take (new.length - head - tail)
  let i := oldStart + head
  let j := newStart + head
  let n := old'.length
  let m := new'.length
  let replace := editOf .delete i j n ++ editOf .insert i j m
  let middle :=
    if n = 0 ∨ m = 0 then replace
    else
      match splitPoint? old'.toArray new'.toArray #[] #[] 0 ((n + m + 1) / 2 + 1) with
      | some (x, y) =>
        -- the guard holds for every point that the search finds; it makes both parts smaller
        if 0 < x + y ∧ x ≤ n ∧ y ≤ m ∧ x + y < n + m then
          script i j (old'.take x) (new'.take y) ++ script (i + x) (j + y) (old'.drop x) (new'.drop y)
        else replace
      | none => replace
  editOf .keep oldStart newStart head ++ middle ++ editOf .keep (i + n) (j + m) tail
termination_by old.length + new.length
decreasing_by
  all_goals
    simp only [List.length_take, List.length_drop]
    simp only [n, m, old', new', List.length_take, List.length_drop] at *
    omega

end LicenseHeader.Patch
