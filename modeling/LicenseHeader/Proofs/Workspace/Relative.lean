import LicenseHeader.Proofs.Failing
import LicenseHeader.Proofs.FileTree.Descent
import LicenseHeader.Proofs.Workspace.Roots

/-!
# Paths as a user writes them

The root of a workspace is a directory that is reached without links. A path that a user writes is
seen from there without its links, so that a candidate is found by its own path only if no link
stands on the way to it.
-/

namespace LicenseHeader

open LicenseHeader.Path (Component)

variable {a : Account} {t : FileTree} {h l m r : Location} {w : Workspace} {p q : Path}
  {paths : List Path} {noRepository : Bool}

/-! ### The root of a workspace -/

namespace Repository

variable {repository : Repository} {site : Site} {settings : List Setting}

lemma reached_of_follow {written : List Char} (h : follow t l written = .ok m) : t.Reached m := by
  rw [follow] at h
  split at h
  case h_1 hl =>
    cases h
    exact FileTree.reached_of_resolve hl
  · cases h
  · cases h

lemma beside_of_siteAt? {home beside : Location} (h : siteAt? t home beside = .ok (some site)) :
    site.beside = beside := by
  rw [siteAt?] at h
  obtain ⟨common, -, h⟩ := bind_eq_ok_iff.mp h
  obtain ⟨rfl⟩ := Option.ite_none_right_eq_some.mp (Except.ok.inj h) |>.2
  rfl

lemma beside_of_followHomeLink {content : ByteArray}
    (h : followHomeLink t l content = .ok (some site)) : site.beside = l := by
  rw [followHomeLink] at h
  split at h
  · cases h
  · dsimp only at h
    split_ifs at h
    obtain ⟨home, -, h⟩ := bind_eq_ok_iff.mp h
    obtain ⟨site?, hsite, h⟩ := bind_eq_ok_iff.mp h
    cases site? with
    | some site' =>
      cases h
      exact beside_of_siteAt? hsite
    | none => cases h

/-- A repository stands in the directory that tells about it, or is this directory itself. -/
lemma beside_of_sight (h : sight t l = .ok (some site)) :
    site.beside = l ∨ site.beside = l.dropLast := by
  rw [sight] at h
  split at h
  · exact Or.inr (beside_of_siteAt? h)
  · split at h
    · exact Or.inl (beside_of_followHomeLink h)
    · obtain ⟨site?, hsite, h⟩ := bind_eq_ok_iff.mp h
      cases site? with
      | some site' =>
        cases h
        exact Or.inl (beside_of_siteAt? hsite)
      | none => exact Or.inr (beside_of_siteAt? h)
    · exact Or.inr (beside_of_siteAt? h)

/-- A working tree is reached through directories, however the settings name it. -/
lemma reached_of_workTreeOf (hsite : t.Reached site.beside)
    (h : workTreeOf t site settings = .ok (some m)) : t.Reached m := by
  rw [workTreeOf] at h
  obtain ⟨bare, -, h⟩ := bind_eq_ok_iff.mp h
  split_ifs at h
  · obtain ⟨linked, hlinked, h⟩ := bind_eq_ok_iff.mp h
    cases h
    rw [linkedWorkTree] at hlinked
    split at hlinked
    · exact reached_of_follow (mapError_eq_ok_iff.mp hlinked)
    · cases hlinked
  · cases h
  · split at h
    · obtain ⟨told, htold, h⟩ := bind_eq_ok_iff.mp h
      cases h
      exact reached_of_follow htold
    · cases h
      exact hsite

/-- The working tree of an open repository is a directory that is reached without links. -/
lemma entered_of_open? (h : open? a t p = .ok repository) (hl : repository.workTree = some l) :
    t.Entered l := by
  rw [open?] at h
  split at h
  · cases h
  · cases h
  case h_3 here hhere =>
    obtain ⟨site?, hsite, h⟩ := bind_eq_ok_iff.mp h
    cases site? with
    | none => cases h
    | some site =>
      change load a t site = .ok repository at h
      rw [load] at h
      split at h
      · cases h
      · obtain ⟨workTree, hworkTree, h⟩ := bind_eq_ok_iff.mp h
        split_ifs at h with hopens
        cases h
        subst hl
        have hreached := FileTree.reached_of_resolve hhere
        refine ⟨reached_of_workTreeOf ?_ hworkTree, by simpa using hopens.2⟩
        rcases beside_of_sight hsite with hbeside | hbeside
        · rwa [hbeside]
        · rw [hbeside]
          exact hreached.dropLast

/-- A repository that was found can be opened where its own files are. -/
lemma exists_open?_of_discover (h : discover t p a = .ok (some repository)) :
    ∃ home, open? a t home = .ok repository := by
  rw [discover] at h
  split at h
  · cases h
  · dsimp only at h
    split at h
    case h_1 found hfound =>
      cases h
      obtain ⟨site?, -, hfound⟩ := bind_eq_ok_iff.mp hfound
      cases site? with
      | none => cases hfound
      | some site =>
        obtain ⟨repository', hopen, hfound⟩ := bind_eq_ok_iff.mp hfound
        cases hfound
        exact ⟨_, hopen⟩
    · cases h
    · cases h

end Repository

namespace Workspace

/-- The root of the workspace around a directory is a directory, and its path goes straight there.
-/
lemma exists_root_of_around (ht : t.Proper) (hh : t.Entered h)
    (hw : around t h.path noRepository a = .ok w) :
    ∃ r, t.Entered r ∧ w.root.isAbsolute ∧ w.root.components = .root :: r.map .name := by
  have hhere : ∃ r, t.Entered r ∧ h.path.isAbsolute ∧ h.path.components = .root :: r.map .name :=
    ⟨h, hh, FileTree.isAbsolute_path h, hh.components_path ht⟩
  rw [around] at hw
  split_ifs at hw
  · cases hw
    exact hhere
  · obtain ⟨found, hfound, hw⟩ := bind_eq_ok_iff.mp hw
    cases found with
    | none =>
      cases hw
      exact hhere
    | some root =>
      cases hw
      rw [Repository.discoverRoot] at hfound
      obtain ⟨repository?, hrepository, hroot⟩ := bind_eq_ok_iff.mp hfound
      obtain ⟨workTree, htree, rfl⟩ := Option.map_eq_some_iff.mp (Except.ok.inj hroot)
      obtain ⟨repository, rfl, hl⟩ := Option.bind_eq_some_iff.mp htree
      obtain ⟨home, hopen⟩ := Repository.exists_open?_of_discover hrepository
      have hentered := Repository.entered_of_open? hopen hl
      refine ⟨workTree, hentered, ?_⟩
      rw [root, Repository.shownRoot]
      split_ifs
      · exact ⟨FileTree.isAbsolute_path _, hentered.components_path ht⟩
      · have habs := FileTree.isAbsolute_path workTree
        exact ⟨Path.isAbsolute_append_separator habs,
          (Path.components_append_separator habs).trans (hentered.components_path ht)⟩

/-! ### Candidates -/

/-- A walk can read the files that it comes to. -/
lemma resolve_of_isReached (ht : t.Proper) (hr : t.Entered r) {root : Path}
    (habs : root.isAbsolute) (hroot : root.components = .root :: r.map .name)
    {rules : WalkRules} {way : Location} {c : ByteArray}
    (hmem : (way, Entry.file c) ∈ t.below r) (hway : isReached t rules r way) :
    t.resolve (root.join (.ofComponents (way.map .name))) = .ok (r ++ way) ∧
      t.entry? (r ++ way) = some (.file c) := by
  obtain ⟨hne, hmem⟩ := FileTree.mem_below_iff.mp hmem
  have hentry := ht.entry?_of_mem (by simp [hne]) hmem
  have hnames : ∀ n ∈ way, Path.IsName n := fun n hn =>
    ht.isName _ hmem n (List.mem_append_right r hn)
  have hreached : t.Reached (r ++ way) := by
    intro n hn
    rcases Nat.lt_or_ge r.length n with hgt | hle
    · obtain ⟨k, rfl⟩ := Nat.exists_eq_add_of_le (Nat.le_of_lt hgt)
      rw [List.take_length_add_append]
      exact isDirectory_of_isReached hway (by omega) (by simpa using hn)
    · rw [List.take_append_of_le_length hle]
      exact (hr.take n).isDirectory
  have hjoin : (root.join (.ofComponents (way.map .name))).steps =
      .root :: (r ++ way).map .name := by
    rw [FileTree.steps_join_ofComponents habs hne hnames, hroot, List.map_append, List.cons_append]
  refine ⟨?_, hentry⟩
  rw [FileTree.resolve, FileTree.place, if_pos (Path.isAbsolute_join habs), hjoin,
    FileTree.linkLimit, FileTree.walk, FileTree.pass, hreached.pass_of_file hentry]

/-- A walked file is reached by its path. -/
lemma exists_file_of_mem_walkFiles (ht : t.Proper) (hr : t.Entered r) {root : Path}
    (habs : root.isAbsolute) (hroot : root.components = .root :: r.map .name)
    (hpaths : walkFiles t root a = .ok paths) (hp : p ∈ paths) :
    ∃ l c, t.resolve (root.join p) = .ok l ∧ t.entry? l = some (.file c) := by
  rw [walkFiles, hr.resolve_of_components habs hroot] at hpaths
  dsimp only at hpaths
  rw [if_pos hr.isDirectory] at hpaths
  cases hpaths
  rw [Path.sort, (List.mergeSort_perm _ _).mem_iff, List.mem_map] at hp
  obtain ⟨⟨way, e⟩, hknown, rfl⟩ := hp
  obtain ⟨hmem, hfile⟩ := List.mem_filter.mp hknown
  obtain ⟨hplain, hreached⟩ := Bool.and_eq_true_iff.mp hfile
  cases e with
  | file c =>
    obtain ⟨hl, hc⟩ := resolve_of_isReached ht hr habs hroot hmem hreached
    exact ⟨r ++ way, c, hl, hc⟩
  | directory => cases hplain
  | link target => cases hplain

lemma exists_file_of_mem_listFiles {root : Path} (hpaths : Repository.listFiles t root a = .ok paths)
    (hp : p ∈ paths) : ∃ l c, t.resolve (root.join p) = .ok l ∧ t.entry? l = some (.file c) := by
  rw [Repository.listFiles] at hpaths
  obtain ⟨repository, -, hpaths⟩ := bind_eq_ok_iff.mp hpaths
  obtain ⟨index, -, hpaths⟩ := bind_eq_ok_iff.mp hpaths
  split at hpaths
  · cases hpaths
  · cases hpaths
    exact FileTree.isFile_iff.mp (List.mem_filter.mp hp).2

/-- A candidate leads to a file. -/
lemma exists_file_of_mem_candidates (ht : t.Proper) (hr : t.Entered r) (habs : w.root.isAbsolute)
    (hroot : w.root.components = .root :: r.map .name) (hpaths : w.candidates t a = .ok paths)
    (hp : p ∈ paths) :
    ∃ l c, t.resolve (w.root.join p) = .ok l ∧ t.entry? l = some (.file c) := by
  cases w with
  | repository root => exact exists_file_of_mem_listFiles hpaths hp
  | directory root => exact exists_file_of_mem_walkFiles ht hr habs hroot hpaths hp

/-! ### Paths seen from the root -/

/-- Seen from the root, a location is told by the names behind the root. There is no path to any
other location. -/
lemma relativize?_eq_some_iff_append {here : Path}
    (hp : (t.canonical (here.join p)).components = .root :: l.map .name)
    (hroot : (t.canonical w.root).components = .root :: r.map .name)
    (hnames : ∀ n ∈ l, Path.IsName n) :
    w.relativize? t p here = some q ↔
      ∃ names, l = r ++ names ∧ q = .ofComponents (names.map .name) := by
  have hrelativize : w.relativize? t p here =
      ((t.canonical (here.join p)).relativeTo? (t.canonical w.root)).bind fun q =>
        if q.startsAbove then none else some q := rfl
  rw [hrelativize]
  rcases Path.relativeTo?_cases hp hroot with ⟨names, rfl, hrelative⟩ | ⟨hnone, cs, hrelative⟩
  · have habove := Path.not_startsAbove_ofComponents fun n hn =>
      hnames n (List.mem_append_right r hn)
    rw [hrelative, Option.bind_some, habove, if_neg Bool.false_ne_true, Option.some.injEq]
    constructor
    · rintro rfl
      exact ⟨names, rfl, rfl⟩
    · rintro ⟨names', hnames', rfl⟩
      rw [List.append_cancel_left hnames']
  · rw [hrelative, Option.bind_some, if_pos (Path.startsAbove_ofComponents cs)]
    constructor
    · intro heq
      cases heq
    · rintro ⟨names, hnames', -⟩
      exact absurd ⟨names, hnames'⟩ hnone

/-- Seen from the root, a path that leads to a file below it is told by the names on the way without
links. There is no such path to any other file. -/
lemma relativize?_eq_some_iff (ht : t.Proper) (hr : t.Entered r)
    (hroot : t.resolve w.root = .ok r) {here : Path} {c : ByteArray}
    (hl : t.resolve (here.join p) = .ok l) (hc : t.entry? l = some (.file c)) :
    w.relativize? t p here = some q ↔
      ∃ names, l = r ++ names ∧ q = .ofComponents (names.map .name) := by
  have hnames := ht.isName_of_entry? hc
  refine relativize?_eq_some_iff_append ?_ ?_ hnames
  · rw [FileTree.canonical, hl, Path.components_path hnames]
  · rw [FileTree.canonical, hroot, hr.components_path ht]

/-- How the path `q` of a file is written by someone who is in the directory at `h`: behind the path
of the root, or as the way up from the directory and down to the file. -/
inductive Written (t : FileTree) (w : Workspace) (h : Location) (q : Path) : Path → Prop
  | absolute : Written t w h q (w.root.join q)
  | relative {p : Path} {r : Location} {names down : List String} {up : Nat} :
      t.resolve w.root = .ok r → q.components = names.map .name → p.Descends up down →
      h.take (h.length - up) ++ down = r ++ names → (h.path.join p).wantsDirectory = false →
      Written t w h q p

/-- However the path of a file is written, it leads to the file. -/
lemma Written.resolve_join (hp : Written t w h q p) (ht : t.Proper) (hh : t.Entered h)
    (hr : t.Entered r) (habs : w.root.isAbsolute)
    (hroot : w.root.components = .root :: r.map .name) {c : ByteArray}
    (hl : t.resolve (w.root.join q) = .ok l) (hc : t.entry? l = some (.file c)) :
    t.resolve (h.path.join p) = .ok l := by
  cases hp with
  | absolute => rwa [Path.join_of_isAbsolute (Path.isAbsolute_join habs)]
  | @relative p r' names down up hr' hq hp hsame hwants =>
    cases (hr.resolve_of_components habs hroot).symm.trans hr'
    have hhere := FileTree.isAbsolute_path h
    have hwants' : (w.root.join q).wantsDirectory = false := by
      rw [Bool.eq_false_iff]
      intro hdirectory
      have := (FileTree.walks_components_of_resolve hl).2 hdirectory
      simp [FileTree.isDirectory, hc] at this
    rw [← hl]
    apply FileTree.resolve_congr (Path.isAbsolute_join hhere) (Path.isAbsolute_join habs)
    rw [Path.steps, Path.steps, hwants, hwants', Path.components_join_of_descends hhere hp,
      Path.components_join habs hq, hh.components_path ht, hroot]
    simp only [Bool.false_eq_true, if_false, List.append_nil, List.append_assoc, List.cons_append,
      FileTree.pass]
    rw [hh.pass_names, FileTree.pass_parents, ← (hh.take _).pass_names, ← List.map_append, hsame,
      List.map_append]

end Workspace

end LicenseHeader
