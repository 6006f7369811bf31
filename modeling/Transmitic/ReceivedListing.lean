/-
  File:      Transmitic/ReceivedListing.lean
  Subject:   WHAT A RECEIVED LISTING IS AFTER THE CLEANING.

  `remove_invalid_files` and `reset_file_size_string` go into directories only; `get_file_by_path` goes
  into every node. A peer may send a file with files below it, and the lookup finds those as they came.

  * `reachedNodes` -- the nodes a lookup can come to, each with whether the cleaning comes to it;
  * `getFileByPath_received` -- **a lookup in the cleaned listing, read off the one that came**;
  * `received_sanitized_iff` -- what a lookup finds is sanitized exactly if the root and the nodes below
    files were when they came;
  * `unsanitized_below_file` -- a node below a file.
-/
import Transmitic.LocalPaths

namespace Transmitic

open Lib

/-! ## 1. The nodes a lookup can come to -/

mutual

/-- The nodes that are left of a listing, each before the nodes below it, and whether the cleaning
    comes to them. -/
def reachedNodes (cleaned : Bool) : SharedFile → List (Bool × SharedFile)
  | ⟨path, isDirectory, files, fileSize, sizeString⟩ =>
    (cleaned, ⟨path, isDirectory, files, fileSize, sizeString⟩) ::
      reachedNodesIn (cleaned && isDirectory) files

def reachedNodesIn (cleaned : Bool) : List SharedFile → List (Bool × SharedFile)
  | [] => []
  | f :: fs =>
    if cleaned && !fileContainsOnlyValidChars f.path then reachedNodesIn cleaned fs
    else reachedNodes cleaned f ++ reachedNodesIn cleaned fs

end

/-- A node without the files below it. -/
structure NodeLabel where
  path : Str
  isDirectory : Bool
  fileSize : UInt64
  sizeString : Str

def SharedFile.label (f : SharedFile) : NodeLabel :=
  { path := f.path, isDirectory := f.isDirectory, fileSize := f.fileSize, sizeString := f.sizeString }

/-- The size string says what the size is. -/
def NodeLabel.Accurate (v : NodeLabel) : Prop := v.sizeString = getFileSizeString v.fileSize

/-- The label of a node after the cleaning, if it comes to the node. -/
def cleanedLabel (x : Bool × SharedFile) : NodeLabel :=
  if x.1 then { x.2.label with sizeString := getFileSizeString x.2.fileSize } else x.2.label

@[simp] theorem cleanedLabel_path (x : Bool × SharedFile) : (cleanedLabel x).path = x.2.path := by
  unfold cleanedLabel
  split <;> rfl

theorem cleanedLabel_accurate (x : Bool × SharedFile) :
    (cleanedLabel x).Accurate ↔ (x.1 = false → x.2.sizeString = getFileSizeString x.2.fileSize) := by
  unfold cleanedLabel NodeLabel.Accurate
  cases x.1 with
  | true => simp [SharedFile.label]
  | false => simp [SharedFile.label]

mutual

/-- Where the cleaning does not come, everything is left. -/
theorem reachedNodes_false : ∀ f : SharedFile,
    reachedNodes false f = (nodes f).map fun g => (false, g)
  | ⟨path, isDirectory, files, fileSize, sizeString⟩ => by
    rw [reachedNodes, nodes, List.map_cons, Bool.false_and, reachedNodesIn_false files]

theorem reachedNodesIn_false : ∀ fs : List SharedFile,
    reachedNodesIn false fs = (nodesIn fs).map fun g => (false, g)
  | [] => rfl
  | f :: fs => by
    rw [reachedNodesIn, nodesIn, List.map_append, reachedNodes_false f, reachedNodesIn_false fs]
    rfl

end

mutual

/-- The nodes the cleaning comes to, apart from the root, have valid paths. -/
theorem valid_of_reached {u : SharedFile} : ∀ {f : SharedFile}, (true, u) ∈ reachedNodes true f →
    u = f ∨ fileContainsOnlyValidChars u.path = true
  | ⟨path, isDirectory, files, fileSize, sizeString⟩, h => by
    rw [reachedNodes] at h
    rcases List.mem_cons.mp h with h | h
    · exact .inl (congrArg Prod.snd h)
    · cases isDirectory with
      | true => exact .inr (valid_of_reachedIn h)
      | false =>
        rw [Bool.true_and, reachedNodesIn_false] at h
        simp at h

theorem valid_of_reachedIn {u : SharedFile} : ∀ {fs : List SharedFile},
    (true, u) ∈ reachedNodesIn true fs → fileContainsOnlyValidChars u.path = true
  | [], h => by cases h
  | f :: fs, h => by
    rw [reachedNodesIn] at h
    split at h
    · exact valid_of_reachedIn h
    · rename_i hvalid
      rcases List.mem_append.mp h with h | h
      · rcases valid_of_reached h with rfl | hv
        · simpa using hvalid
        · exact hv
      · exact valid_of_reachedIn h

end

/-! ## 2. The cleaned listing -/

theorem received_eq (path : Str) (isDirectory : Bool) (files : List SharedFile) (fileSize : UInt64)
    (sizeString : Str) : received ⟨path, isDirectory, files, fileSize, sizeString⟩ =
      if isDirectory then ⟨path, isDirectory, resetFileSizeStringIn (removeInvalidFilesIn files),
        fileSize, getFileSizeString fileSize⟩
      else ⟨path, isDirectory, files, fileSize, getFileSizeString fileSize⟩ := by
  unfold received
  cases isDirectory with
  | true => simp [removeInvalidFiles, resetFileSizeString]
  | false => simp [removeInvalidFiles, resetFileSizeString]

/-- A file of a directory is cleaned as if it came alone. -/
theorem cleaned_child (f : SharedFile) :
    (if (removeInvalidFiles f).isDirectory then resetFileSizeString (removeInvalidFiles f)
      else removeInvalidFiles f).setFileSizeString = received f := by
  obtain ⟨path, isDirectory, files, fileSize, sizeString⟩ := f
  rw [received_eq]
  cases isDirectory with
  | true => simp [removeInvalidFiles, resetFileSizeString, SharedFile.setFileSizeString]
  | false => simp [removeInvalidFiles, SharedFile.setFileSizeString]

mutual

/-- **The nodes of the cleaned listing, read off the one that came.** -/
theorem nodes_received : ∀ f : SharedFile,
    (nodes (received f)).map SharedFile.label = (reachedNodes true f).map cleanedLabel
  | ⟨path, isDirectory, files, fileSize, sizeString⟩ => by
    rw [received_eq, reachedNodes, Bool.true_and]
    cases isDirectory with
    | true =>
      rw [if_pos rfl, nodes, List.map_cons, List.map_cons, nodesIn_received files]
      rfl
    | false =>
      rw [if_neg (by decide), nodes, List.map_cons, List.map_cons, reachedNodesIn_false,
        List.map_map]
      rfl

theorem nodesIn_received : ∀ fs : List SharedFile,
    (nodesIn (resetFileSizeStringIn (removeInvalidFilesIn fs))).map SharedFile.label =
      (reachedNodesIn true fs).map cleanedLabel
  | [] => rfl
  | f :: fs => by
    rw [removeInvalidFilesIn, reachedNodesIn, Bool.true_and]
    cases fileContainsOnlyValidChars f.path with
    | true =>
      rw [if_pos rfl, if_neg (by decide), resetFileSizeStringIn, cleaned_child, nodesIn,
        List.map_append, List.map_append, nodes_received f, nodesIn_received fs]
    | false => exact nodesIn_received fs

end

/-- The first node with a path that a lookup can come to. -/
def firstReached (path : Str) (f : SharedFile) : Option (Bool × SharedFile) :=
  (reachedNodes true f).find? fun x => decide (x.2.path = path)

/-- **A lookup in the cleaned listing, read off the one that came.** -/
theorem getFileByPath_received (path : Str) (f : SharedFile) :
    (getFileByPath path (received f)).map SharedFile.label =
      (firstReached path f).map cleanedLabel := by
  have hfind : ∀ {α : Type} (l : List α) (g : α → NodeLabel),
      (l.map g).find? (fun v => decide (v.path = path)) =
        (l.find? fun a => decide ((g a).path = path)).map g := fun l g => List.find?_map
  have hlabels := congrArg (List.find? fun v => decide (v.path = path)) (nodes_received f)
  rw [hfind, hfind] at hlabels
  have hpaths : (fun x => decide ((cleanedLabel x).path = path)) = fun x => decide (x.2.path = path) := by
    funext x
    exact decide_eq_decide.mpr (by rw [cleanedLabel_path])
  rw [getFileByPath_eq_find, firstReached, ← hpaths]
  exact hlabels

/-! ## 3. Is what a lookup finds sanitized? -/

/-- What the cleaning is to make of a node. -/
structure SharedFile.Sanitized (f : SharedFile) : Prop where
  path : fileContainsOnlyValidChars f.path = true
  sizeString : f.sizeString = getFileSizeString f.fileSize

/-- **What a lookup in a cleaned listing finds is sanitized, for every path, if and only if the root has
    a valid path and the nodes below files were sanitized when they came**: those among them a lookup
    finds, because no node with the same path stands before them. -/
theorem received_sanitized_iff (f : SharedFile) :
    (∀ path g, getFileByPath path (received f) = some g → g.Sanitized) ↔
      fileContainsOnlyValidChars f.path = true ∧
        ∀ path u, firstReached path f = some (false, u) → u.Sanitized := by
  constructor
  · intro h
    have hlookup : ∀ path b u, firstReached path f = some (b, u) →
        fileContainsOnlyValidChars u.path = true ∧ (cleanedLabel (b, u)).Accurate := by
      intro path b u hu
      have hlabel := getFileByPath_received path f
      rw [hu] at hlabel
      obtain ⟨g, hg, hgu⟩ := Option.map_eq_some_iff.mp hlabel
      have hsan := h path g hg
      have hpath : g.path = u.path := (congrArg NodeLabel.path hgu).trans (cleanedLabel_path _)
      refine ⟨hpath ▸ hsan.path, ?_⟩
      rw [← hgu]
      exact hsan.sizeString
    constructor
    · obtain ⟨path, isDirectory, files, fileSize, sizeString⟩ := f
      refine (hlookup path true ⟨path, isDirectory, files, fileSize, sizeString⟩ ?_).1
      rw [firstReached, reachedNodes, List.find?_cons_of_pos (by simp)]
    · intro path u hu
      obtain ⟨hvalid, haccurate⟩ := hlookup path false u hu
      exact ⟨hvalid, (cleanedLabel_accurate _).mp haccurate rfl⟩
  · rintro ⟨hroot, hfiles⟩ path g hg
    have hlabel := getFileByPath_received path f
    rw [hg] at hlabel
    obtain ⟨⟨b, u⟩, hu, hug⟩ := Option.map_eq_some_iff.mp hlabel.symm
    have hpath : u.path = g.path := (cleanedLabel_path (b, u)).symm.trans (congrArg NodeLabel.path hug)
    have hsize : (cleanedLabel (b, u)).Accurate ↔ g.label.Accurate := by rw [hug]
    have hmem : (b, u) ∈ reachedNodes true f := List.mem_of_find?_eq_some hu
    cases b with
    | true =>
      -- the cleaning came here: the size string is new, and the path was looked at
      refine ⟨?_, hsize.mp ((cleanedLabel_accurate _).mpr fun hb => by cases hb)⟩
      rw [← hpath]
      rcases valid_of_reached hmem with rfl | hvalid
      · exact hroot
      · exact hvalid
    | false =>
      have hsan := hfiles path u hu
      exact ⟨hpath ▸ hsan.path, hsize.mp ((cleanedLabel_accurate _).mpr fun _ => hsan.sizeString)⟩

/-- A listing with a file that has a file below it. -/
def nestedListing : SharedFile :=
  SharedFile.new "everything/".toList true [SharedFile.new "/a".toList false
    [{ path := "..".toList, isDirectory := false, files := [], fileSize := 0
       sizeString := "1 TB".toList }] 0] 0

/-- **A node below a file is found as it came**, with a path that is refused elsewhere and a size string
    that is made up. -/
theorem unsanitized_below_file : ∃ g, getFileByPath "..".toList (received nestedListing) = some g ∧
    fileContainsOnlyValidChars g.path = false ∧ g.sizeString ≠ getFileSizeString g.fileSize :=
  ⟨_, rfl, by decide, by decide⟩

end Transmitic
