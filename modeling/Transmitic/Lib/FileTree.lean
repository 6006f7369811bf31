/-
  File:      Transmitic/Lib/FileTree.lean
  Subject:   A FILE SYSTEM WITHOUT SYMBOLIC LINKS, as a tree, and the entry a path leads to.

  * `Entry` -- a file, a directory, or an entry whose metadata cannot be read; `Entry.find`: the
    entry some names further down;
  * `FileSystem` -- a tree of well-formed names and the working directory of a process;
  * `FileSystem.walk` -- the resolution of a path, segment by segment: whatever a separator or a
    `.` follows has to be a directory (`walk_place`: it ends in the place the path denotes);
  * `FileSystem.lookup_join` -- a name joined to the path of a directory leads to its child.
-/
import Transmitic.Lib.Path

namespace Transmitic.Lib

/-! ## 1. Entries -/

/-- An entry of a file system. A name that is not valid Unicode is `none`. A directory that is not
    `readable` can be searched, but not listed. -/
inductive Entry where
  | file (bytes : List UInt8)
  | hidden
  | dir (readable : Bool) (entries : List (Option Str × Entry))

namespace Entry

def isDir : Entry → Bool
  | .dir _ _ => true
  | _ => false

/-- An entry whose metadata can be read. -/
def Visible : Entry → Prop
  | .hidden => False
  | _ => True

/-- The entry with the name `name` in a directory. -/
def child : Entry → Str → Option Entry
  | .dir _ entries, name => (entries.find? fun p => p.1 = some name).map Prod.snd
  | _, _ => none

/-- The entry the names `names` lead down to. -/
def find : Entry → List Str → Option Entry
  | e, [] => some e
  | e, name :: names =>
    match e.child name with
    | some c => c.find names
    | none => none

@[simp] theorem find_nil (e : Entry) : e.find [] = some e := by
  cases e <;> rfl

@[simp] theorem find_cons (e : Entry) (name : Str) (names : List Str) :
    e.find (name :: names) = (e.child name).bind fun c => c.find names := by
  rw [find]
  cases e.child name <;> rfl

theorem find_append (e : Entry) (names more : List Str) :
    e.find (names ++ more) = (e.find names).bind fun c => c.find more := by
  induction names generalizing e with
  | nil => simp
  | cons name names ih =>
    rw [List.cons_append, find_cons, find_cons]
    cases e.child name with
    | none => rfl
    | some c => exact ih c

end Entry

/-- A name the system accepts: it leads one step down and holds no zero character. -/
def EntryName (name : Str) : Prop := ValidName name ∧ '\x00' ∉ name

instance (name : Str) : Decidable (EntryName name) := by unfold EntryName; infer_instance

mutual

/-- The names in every directory are names the system accepts, and different. -/
def Entry.WellFormed : Entry → Prop
  | .file _ => True
  | .hidden => True
  | .dir _ entries => (entries.map Prod.fst).Nodup ∧ entriesWellFormed entries

/-- The entries of one directory. -/
def entriesWellFormed : List (Option Str × Entry) → Prop
  | [] => True
  | (name, e) :: rest =>
    (∀ n ∈ name, EntryName n) ∧ e.WellFormed ∧ entriesWellFormed rest

end

theorem entriesWellFormed_iff {entries : List (Option Str × Entry)} :
    entriesWellFormed entries ↔ ∀ p ∈ entries, (∀ n ∈ p.1, EntryName n) ∧ p.2.WellFormed := by
  induction entries with
  | nil => simp [entriesWellFormed]
  | cons p rest ih =>
    obtain ⟨name, e⟩ := p
    rw [entriesWellFormed, ih, List.forall_mem_cons, and_assoc]

/-- A child of a well-formed entry has an accepted name and is well formed. -/
theorem Entry.WellFormed.child {e c : Entry} {name : Str} (h : e.WellFormed)
    (hc : e.child name = some c) : EntryName name ∧ c.WellFormed := by
  cases e with
  | file bytes => cases hc
  | hidden => cases hc
  | dir readable entries =>
    obtain ⟨p, hp, rfl⟩ := Option.map_eq_some_iff.mp hc
    obtain ⟨hmem, hname⟩ := find_some hp
    rw [Entry.WellFormed] at h
    have hw := entriesWellFormed_iff.mp h.2 p hmem
    exact ⟨hw.1 name hname, hw.2⟩

theorem Entry.WellFormed.find {e c : Entry} {names : List Str} (h : e.WellFormed)
    (hc : e.find names = some c) : c.WellFormed := by
  induction names generalizing e with
  | nil =>
    cases (find_nil e).symm.trans hc
    exact h
  | cons name names ih =>
    rw [find_cons] at hc
    obtain ⟨d, hd, hc⟩ := Option.bind_eq_some_iff.mp hc
    exact ih (h.child hd).2 hc

/-- In a directory with different names, the entry of a name is the one listed with it. -/
theorem child_eq_of_mem {readable : Bool} {entries : List (Option Str × Entry)} {name : Str}
    {e : Entry} (h : (Entry.dir readable entries).WellFormed) (he : (some name, e) ∈ entries) :
    (Entry.dir readable entries).child name = some e := by
  rw [Entry.WellFormed] at h
  have hfind : entries.find? (fun p => p.1 = some name) = some (some name, e) :=
    find_unique he rfl fun p hp hname => List.inj_on_of_nodup_map h.1 hp he hname
  rw [Entry.child, hfind]
  rfl

theorem mem_of_child {readable : Bool} {entries : List (Option Str × Entry)} {name : Str}
    {e : Entry} (h : (Entry.dir readable entries).child name = some e) :
    (some name, e) ∈ entries := by
  obtain ⟨p, hp, rfl⟩ := Option.map_eq_some_iff.mp h
  obtain ⟨hmem, hname⟩ := find_some hp
  rw [← hname]
  exact hmem

/-! ## 2. Paths -/

structure FileSystem where
  root : Entry
  wellFormed : root.WellFormed
  /-- The names from the root to the working directory. -/
  cwd : List Str

namespace FileSystem

variable (fs : FileSystem)

/-- One segment of a path, from the place `here`, which has to be a directory. -/
def step (here : List Str) (s : Str) : Option (List Str) :=
  match (fs.root.find here).filter Entry.isDir with
  | none => none
  | some e =>
    match segment s with
    | none => some here
    | some (.normal name) => (e.child name).map fun _ => here ++ [name]
    | some c => some (c.follow here)

/-- The place a path leads to, where every segment on the way exists. -/
def walk (path : Str) : Option (List Str) :=
  if path = [] ∨ '\x00' ∈ path then none
  else (path.splitOn '/').foldlM fs.step (if path.head? = some '/' then [] else fs.cwd)

/-- The entry a path leads to. -/
def lookup (path : Str) : Option Entry := (fs.walk path).bind fs.root.find

/-- The place a segment leads to. -/
def follow (here : List Str) (s : Str) : List Str :=
  match segment s with
  | none => here
  | some c => c.follow here

theorem step_some {here there : List Str} {s : Str} (h : fs.step here s = some there) :
    there = follow here s ∧ ∃ e, fs.root.find here = some e ∧ e.isDir = true := by
  unfold step at h
  split at h
  · cases h
  · rename_i e he
    have hdir := Option.filter_eq_some_iff.mp he
    refine ⟨?_, e, hdir⟩
    unfold follow
    split at h
    · rename_i hs
      cases h
      rw [hs]
    · rename_i name hs
      obtain ⟨-, -, rfl⟩ := Option.map_eq_some_iff.mp h
      rw [hs]
      rfl
    · rename_i hs
      cases h
      rw [hs]

theorem foldlM_step {here there : List Str} {segments : List Str}
    (h : segments.foldlM fs.step here = some there) : there = segments.foldl follow here := by
  induction segments generalizing here with
  | nil =>
    cases h
    rfl
  | cons s segments ih =>
    rw [List.foldlM_cons] at h
    obtain ⟨next, hn, h⟩ := Option.bind_eq_some_iff.mp h
    rw [List.foldl_cons, ← (fs.step_some hn).1]
    exact ih h

theorem follow_front {c : Char} {cs s : Str} {rest : List Str} (cwd : List Str)
    (h : (c :: cs).splitOn '/' = s :: rest) :
    follow (if c = '/' then [] else cwd) s =
      (frontSegment (!rest.isEmpty) s).foldl Component.follow cwd := by
  rw [List.splitOn_cons_eq_if_modifyHead] at h
  by_cases hc : c = '/'
  · rw [if_pos (by simpa using hc)] at h
    cases h
    have hrest : (cs.splitOn '/').isEmpty = false := by simp [List.splitOn_ne_nil]
    rw [if_pos hc, hrest]
    rfl
  · rw [if_neg (by simpa using hc)] at h
    have hs : s ≠ [] := by
      rintro rfl
      cases hcs : cs.splitOn '/' with
      | nil => exact List.splitOn_ne_nil _ _ hcs
      | cons t ts =>
        rw [hcs] at h
        cases h
    rw [if_neg hc, frontSegment, if_neg hs, follow]
    split
    · rename_i hn
      split
      · rfl
      · rw [hn]
        rfl
    · rename_i d hd
      split
      · rename_i hdot
        rw [hdot] at hd
        cases hd
      · rw [hd]
        rfl

theorem foldl_filterMap_segment (here : List Str) (segments : List Str) :
    (segments.filterMap segment).foldl Component.follow here = segments.foldl follow here := by
  induction segments generalizing here with
  | nil => rfl
  | cons s segments ih =>
    unfold follow at ih ⊢
    rw [List.filterMap_cons, List.foldl_cons]
    cases segment s with
    | none => exact ih here
    | some c => exact ih (c.follow here)

/-- **A path that leads somewhere leads to the place it denotes.** -/
theorem walk_place {path : Str} {there : List Str} (h : fs.walk path = some there) :
    there = place fs.cwd path := by
  unfold walk at h
  split at h
  · cases h
  · rename_i hne
    rw [fs.foldlM_step h, place, components]
    cases path with
    | nil => exact absurd (.inl rfl) hne
    | cons c cs =>
      cases hs : (c :: cs).splitOn '/' with
      | nil => exact absurd hs (List.splitOn_ne_nil _ _)
      | cons s rest =>
        simp only [List.foldl_cons, List.foldl_append, foldl_filterMap_segment, List.head?_cons,
          Option.some.injEq, follow_front fs.cwd hs]

/-- A step into a directory's child. -/
theorem step_child {here : List Str} {name : Str} {e c : Entry} (h : fs.root.find here = some e)
    (hc : e.child name = some c) (hn : ValidName name) :
    fs.step here name = some (here ++ [name]) := by
  have hdir : e.isDir = true := by
    cases e with
    | dir readable entries => rfl
    | _ => cases hc
  have hfilter : (fs.root.find here).filter Entry.isDir = some e :=
    Option.filter_eq_some_iff.mpr ⟨h, hdir⟩
  rw [step, hfilter]
  simp only [segment_of_valid hn, hc, Option.map_some]

theorem find_child {here : List Str} {name : Str} {e c : Entry} (h : fs.root.find here = some e)
    (hc : e.child name = some c) : fs.root.find (here ++ [name]) = some c := by
  rw [Entry.find_append, h]
  simp [hc]

/-- A path with a separator at its end leads to a directory. -/
theorem isDir_of_lookup {path : Str} {e : Entry} (h : fs.lookup path = some e)
    (hslash : path.getLast? = some '/') : e.isDir = true := by
  obtain ⟨here, hw, he⟩ := Option.bind_eq_some_iff.mp h
  obtain ⟨pre, rfl⟩ : ∃ pre, path = pre ++ ['/'] := by
    refine ⟨path.dropLast, (List.dropLast_append_getLast? _ hslash).symm⟩
  unfold walk at hw
  split at hw
  · cases hw
  rw [List.splitOn_append_cons_self, List.foldlM_append] at hw
  obtain ⟨mid, -, hw⟩ := Option.bind_eq_some_iff.mp hw
  have hstay : fs.step mid [] = some here := by simpa using hw
  obtain ⟨hhere, d, hd, hdir⟩ := fs.step_some hstay
  have hhere : here = mid := hhere
  rw [hhere, hd] at he
  cases he
  exact hdir

/-- **The path of a directory joined with a name leads to the child of that name.** -/
theorem lookup_join {dir name : Str} {e c : Entry} (h : fs.lookup dir = some e)
    (hc : e.child name = some c) : fs.lookup (join dir name) = some c := by
  obtain ⟨here, hw, he⟩ := Option.bind_eq_some_iff.mp h
  have hname := ((fs.wellFormed.find he).child hc).1
  have hlast := fs.step_child he hc hname.1
  unfold walk at hw
  split at hw
  · cases hw
  rename_i hok
  have hdir : dir ≠ [] := fun e => hok (.inl e)
  have hnul : ¬ (join dir name = [] ∨ '\x00' ∈ join dir name) := by
    unfold join
    split <;> simp_all [EntryName]
  have hhead : (join dir name).head? = dir.head? := by
    unfold join
    cases dir with
    | nil => exact absurd rfl hdir
    | cons c cs => split <;> rfl
  have hwalk : fs.walk (join dir name) = some (here ++ [name]) := by
    rw [walk, if_neg hnul, hhead]
    by_cases hslash : dir = [] ∨ dir.getLast? = some '/'
    · rw [join, if_pos hslash]
      obtain ⟨pre, rfl⟩ : ∃ pre, dir = pre ++ ['/'] :=
        ⟨dir.dropLast, (List.dropLast_append_getLast? _ (hslash.resolve_left hdir)).symm⟩
      rw [List.splitOn_append_cons_self, List.foldlM_append] at hw
      rw [List.append_assoc, List.singleton_append, List.splitOn_append_cons_self,
        List.foldlM_append, List.splitOn_eq_singleton hname.1.2.2.2]
      obtain ⟨mid, hmid, hw⟩ := Option.bind_eq_some_iff.mp hw
      -- the empty segment behind the last separator stays in the directory
      have hstay : fs.step mid [] = some here := by simpa using hw
      have hmid' : here = mid := (fs.step_some hstay).1
      rw [hmid, ← hmid']
      simpa using hlast
    · rw [join, if_neg hslash, List.splitOn_append_cons_self, List.foldlM_append,
        List.splitOn_eq_singleton hname.1.2.2.2, hw]
      simpa using hlast
  rw [lookup, hwalk]
  exact fs.find_child he hc

end FileSystem

end Transmitic.Lib
