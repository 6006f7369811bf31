/-
  File:      Transmitic/Lib/Path.lean
  Subject:   UNIX PATHS AS STRINGS: components, base names, joining, and the place a path denotes.

  * `components` -- the components of a path: repeated separators and the segment `.` are dropped,
    except a `.` at the front of a relative path;
  * `fileName` -- the last component, where it is a name (`fileName_valid`: it is not empty, not
    `.` or `..`, and holds no separator);
  * `join` -- a directory path extended by an entry name;
  * `place` -- the place a path denotes from the working directory `cwd`, as the list of names
    from the root; `place_join`: joining a name goes one step down, however the directory is
    spelled.
-/
import Transmitic.Lib.Text

namespace Transmitic.Lib

/-- A component of a path. -/
inductive Component where
  | rootDir
  | curDir
  | parentDir
  | normal (name : Str)
  deriving DecidableEq, Repr

/-- The text of a component. -/
def Component.text : Component → Str
  | .rootDir => ['/']
  | .curDir => ['.']
  | .parentDir => ['.', '.']
  | .normal name => name

/-- A name a directory entry can have. -/
def ValidName (name : Str) : Prop :=
  name ≠ [] ∧ name ≠ ['.'] ∧ name ≠ ['.', '.'] ∧ '/' ∉ name

instance (name : Str) : Decidable (ValidName name) := by unfold ValidName; infer_instance

/-! ## 1. Components -/

/-- The component of a segment that is not at the front of the path. -/
def segment (s : Str) : Option Component :=
  if s = [] ∨ s = ['.'] then none
  else if s = ['.', '.'] then some .parentDir
  else some (.normal s)

/-- The components of the segment at the front; `sep` says whether a separator follows it. -/
def frontSegment (sep : Bool) (s : Str) : List Component :=
  if s = [] then (if sep then [.rootDir] else [])
  else if s = ['.'] then [.curDir]
  else (segment s).toList

/-- The components of a path. -/
def components (path : Str) : List Component :=
  match path.splitOn '/' with
  | [] => []
  | s :: rest => frontSegment (!rest.isEmpty) s ++ rest.filterMap segment

/-- The last component of a path, where it is a name. -/
def fileName (path : Str) : Option Str :=
  match (components path).getLast? with
  | some (.normal name) => some name
  | _ => none

/-- The path of the entry `name` in the directory `dir`. -/
def join (dir name : Str) : Str :=
  if dir = [] ∨ dir.getLast? = some '/' then dir ++ name else dir ++ '/' :: name

theorem segment_valid {s name : Str} (hs : '/' ∉ s) (h : segment s = some (.normal name)) :
    name = s ∧ ValidName s := by
  unfold segment at h
  split at h
  · cases h
  · rename_i h1
    split at h
    · cases h
    · rename_i h2
      cases h
      exact ⟨rfl, fun e => h1 (.inl e), fun e => h1 (.inr e), h2, hs⟩

theorem segment_of_valid {s : Str} (h : ValidName s) : segment s = some (.normal s) := by
  rw [segment, if_neg (fun e => e.elim h.1 h.2.1), if_neg h.2.2.1]

theorem normal_mem_components {path name : Str} (h : .normal name ∈ components path) :
    ValidName name := by
  unfold components at h
  have hno := not_mem_of_mem_splitOn '/' path
  split at h
  · cases h
  · rename_i s rest hsp
    rcases List.mem_append.mp h with h | h
    · unfold frontSegment at h
      split at h
      · split at h <;> simp at h
      · split at h
        · simp at h
        · rw [Option.mem_toList] at h
          have hv := segment_valid (hno s (hsp ▸ List.mem_cons_self)) h
          exact hv.1 ▸ hv.2
    · obtain ⟨t, ht, e⟩ := List.mem_filterMap.mp h
      have hv := segment_valid (hno t (hsp ▸ List.mem_cons_of_mem _ ht)) e
      exact hv.1 ▸ hv.2

/-- **A base name is the name of a directory entry.** -/
theorem fileName_valid {path name : Str} (h : fileName path = some name) : ValidName name := by
  unfold fileName at h
  split at h
  · rename_i n hn
    cases h
    exact normal_mem_components (List.mem_of_getLast? hn)
  · cases h

/-- A name among the components is a part of the path. -/
theorem mem_of_normal_mem_components {path name : Str} (h : .normal name ∈ components path) {c : Char}
    (hc : c ∈ name) : c ∈ path := by
  unfold components at h
  have hno := not_mem_of_mem_splitOn '/' path
  have hmem : ∀ s, s ∈ path.splitOn '/' → segment s = some (.normal name) → c ∈ path := by
    intro s hs he
    have hname : name = s := (segment_valid (hno s hs) he).1
    exact mem_of_mem_splitOn hs (hname ▸ hc)
  split at h
  · cases h
  · rename_i s rest hsp
    rcases List.mem_append.mp h with h | h
    · unfold frontSegment at h
      split at h
      · split at h <;> simp at h
      · split at h
        · simp at h
        · exact hmem s (hsp ▸ List.mem_cons_self) (Option.mem_toList.mp h)
    · obtain ⟨t, ht, e⟩ := List.mem_filterMap.mp h
      exact hmem t (hsp ▸ List.mem_cons_of_mem _ ht) e

/-- A base name is a part of the path. -/
theorem mem_of_mem_fileName {path name : Str} (h : fileName path = some name) {c : Char}
    (hc : c ∈ name) : c ∈ path := by
  unfold fileName at h
  split at h
  · rename_i n hn
    cases h
    exact mem_of_normal_mem_components (List.mem_of_getLast? hn) hc
  · cases h

/-! ## 2. Joining -/

/-- The components of a path that a separator follows. -/
def dirComponents (path : Str) : List Component :=
  match path.splitOn '/' with
  | [] => []
  | s :: rest => frontSegment true s ++ rest.filterMap segment

theorem components_slash (dir rest : Str) :
    components (dir ++ '/' :: rest) = dirComponents dir ++ (rest.splitOn '/').filterMap segment := by
  unfold components dirComponents
  rw [List.splitOn_append_cons_self]
  cases hd : dir.splitOn '/' with
  | nil => exact absurd hd (List.splitOn_ne_nil _ _)
  | cons s ss =>
    have hne : (ss ++ rest.splitOn '/').isEmpty = false := by
      simp [List.splitOn_ne_nil]
    simp only [List.cons_append, hne, Bool.not_false, List.filterMap_append, List.append_assoc]

theorem dirComponents_eq {path : Str} (h : path ≠ []) : dirComponents path = components path := by
  unfold components dirComponents
  cases hd : path.splitOn '/' with
  | nil => rfl
  | cons s rest =>
    cases rest with
    | cons t ts => rfl
    | nil =>
      have hs : s = path := by
        have hj : ['/'].intercalate (path.splitOn '/') = path := List.intercalate_splitOn '/'
        rw [hd] at hj
        simpa using hj
      have hne : s ≠ [] := hs ▸ h
      simp only [frontSegment, if_neg hne]

/-- **Joining a name appends one component.** -/
theorem components_join {dir name : Str} (h : ValidName name) :
    components (join dir name) = components dir ++ [.normal name] := by
  have hseg : (name.splitOn '/').filterMap segment = [.normal name] := by
    rw [List.splitOn_eq_singleton h.2.2.2]
    simp [segment_of_valid h]
  unfold join
  split
  · rename_i hc
    by_cases hd : dir = []
    · subst hd
      rw [List.nil_append]
      unfold components
      rw [List.splitOn_eq_singleton h.2.2.2]
      simp [frontSegment, h.1, h.2.1, segment_of_valid h]
    · have hl := hc.resolve_left hd
      obtain ⟨pre, rfl⟩ : ∃ pre, dir = pre ++ ['/'] :=
        ⟨dir.dropLast, (List.dropLast_append_getLast? _ hl).symm⟩
      rw [List.append_assoc, List.singleton_append, components_slash, components_slash, hseg]
      simp [segment]
  · rename_i hc
    rw [components_slash, hseg, dirComponents_eq fun e => hc (.inl e)]

/-! ## 3. The place a path denotes -/

/-- One component, from the place `here`. -/
def Component.follow (here : List Str) : Component → List Str
  | .rootDir => []
  | .curDir => here
  | .parentDir => here.dropLast
  | .normal name => here ++ [name]

/-- The place a path denotes from the working directory `cwd`: the names from the root down. -/
def place (cwd : List Str) (path : Str) : List Str :=
  (components path).foldl Component.follow cwd

/-- **Joining a name goes one step down.** -/
theorem place_join {cwd : List Str} {dir name : Str} (h : ValidName name) :
    place cwd (join dir name) = place cwd dir ++ [name] := by
  rw [place, components_join h, List.foldl_append]
  rfl

end Transmitic.Lib
