/-
  File:      Transmitic/SharedFile.lean
  Subject:   LISTINGS: the tree of shared files one user sends another (shared_file.rs), and the
             lookup of a path in it (utils.rs).

  * `SharedFile` -- a node of a listing; a peer may send any tree of them, also a file with
    children or a path that stands in several places;
  * `removeInvalidFiles`, `resetFileSizeString` -- what a received listing goes through;
  * `getFileByPath` -- the lookup; `getFileByPath_eq_find`: it is the first node, in the order of
    `nodes`, with the path asked for.
-/
import Transmitic.ConfigPaths

namespace Transmitic

open Lib

/-! ## 1. Sizes as text -/

/-- `n / d` rounded to a whole number, ties to the even one. -/
def roundHalfEven (n d : Nat) : Nat :=
  let q := n / d
  let r := n % d
  if 2 * r < d then q else if d < 2 * r then q + 1 else if q % 2 = 0 then q else q + 1

/-- `n as f64`: 53 significant bits. -/
def asF64 (n : Nat) : Nat :=
  let ulp := 2 ^ (n.log2 + 1 - 53)
  roundHalfEven n ulp * ulp

/-- `format!("{:.2}", n as f64 / d as f64)`, for a power of two `d`. -/
def fixed2 (n d : Nat) : Str :=
  let hundredths := roundHalfEven (100 * asF64 n) d
  natText (hundredths / 100) ++ '.' :: (natText (hundredths / 10 % 10) ++ natText (hundredths % 10))

def getFileSizeString (bytes : UInt64) : Str :=
  let tb := 1099511627776
  let gig := 1073741824
  let meg := 1048576
  let kb := 1024
  let n := bytes.toNat
  if tb ≤ n then fixed2 n tb ++ " TB".toList
  else if gig ≤ n then fixed2 n gig ++ " GB".toList
  else if meg ≤ n then fixed2 n meg ++ " MB".toList
  else if kb ≤ n then fixed2 n kb ++ " KB".toList
  else natText n ++ " bytes".toList

example : getFileSizeString 1536 = "1.50 KB".toList := by decide

/-! ## 2. Listings -/

structure SharedFile where
  path : Str
  isDirectory : Bool
  files : List SharedFile
  fileSize : UInt64
  sizeString : Str
  deriving Repr

namespace SharedFile

/-- `SharedFile::new`. -/
def new (path : Str) (isDirectory : Bool) (files : List SharedFile) (fileSize : UInt64) :
    SharedFile :=
  { path, isDirectory, files, fileSize, sizeString := getFileSizeString fileSize }

def setFileSizeString (f : SharedFile) : SharedFile :=
  { f with sizeString := getFileSizeString f.fileSize }

end SharedFile

mutual

/-- Reset the file size strings to ensure they are accurate to prevent malicious mismatches from
    server. -/
def resetFileSizeString : SharedFile → SharedFile
  | ⟨path, isDirectory, files, fileSize, _⟩ =>
    if isDirectory then
      ⟨path, isDirectory, resetFileSizeStringIn files, fileSize, getFileSizeString fileSize⟩
    else ⟨path, isDirectory, files, fileSize, getFileSizeString fileSize⟩

/-- The loop over the files of a directory. -/
def resetFileSizeStringIn : List SharedFile → List SharedFile
  | [] => []
  | f :: fs =>
    (if f.isDirectory then resetFileSizeString f else f).setFileSizeString ::
      resetFileSizeStringIn fs

end

mutual

def removeInvalidFiles : SharedFile → SharedFile
  | ⟨path, isDirectory, files, fileSize, sizeString⟩ =>
    if isDirectory then ⟨path, isDirectory, removeInvalidFilesIn files, fileSize, sizeString⟩
    else ⟨path, isDirectory, files, fileSize, sizeString⟩

/-- The files of a directory: those with an invalid path go, the others are searched in turn. -/
def removeInvalidFilesIn : List SharedFile → List SharedFile
  | [] => []
  | f :: fs =>
    if fileContainsOnlyValidChars f.path then removeInvalidFiles f :: removeInvalidFilesIn fs
    else removeInvalidFilesIn fs

end

/-! ## 3. The nodes of a listing and the lookup -/

mutual

/-- The nodes of a listing, each before the nodes below it. -/
def nodes : SharedFile → List SharedFile
  | ⟨path, isDirectory, files, fileSize, sizeString⟩ =>
    ⟨path, isDirectory, files, fileSize, sizeString⟩ :: nodesIn files

def nodesIn : List SharedFile → List SharedFile
  | [] => []
  | f :: fs => nodes f ++ nodesIn fs

end

mutual

def getFileByPath (fileChoice : Str) : SharedFile → Option SharedFile
  | ⟨path, isDirectory, files, fileSize, sizeString⟩ =>
    if path = fileChoice then some ⟨path, isDirectory, files, fileSize, sizeString⟩
    else getFileByPathIn fileChoice files

/-- The loop over the files of a node. -/
def getFileByPathIn (fileChoice : Str) : List SharedFile → Option SharedFile
  | [] => none
  | f :: fs =>
    match getFileByPath fileChoice f with
    | some found => some found
    | none => getFileByPathIn fileChoice fs

end

@[simp] theorem nodes_eq (f : SharedFile) : nodes f = f :: nodesIn f.files := by
  cases f
  rfl

@[simp] theorem nodesIn_nil : nodesIn [] = [] := rfl

@[simp] theorem nodesIn_cons (f : SharedFile) (fs : List SharedFile) :
    nodesIn (f :: fs) = f :: (nodesIn f.files ++ nodesIn fs) := by
  rw [nodesIn, nodes_eq]
  rfl

theorem self_mem_nodes (f : SharedFile) : f ∈ nodes f := by
  rw [nodes_eq]
  exact List.mem_cons_self

theorem mem_nodesIn {g : SharedFile} : ∀ {fs : List SharedFile},
    g ∈ nodesIn fs ↔ ∃ f ∈ fs, g ∈ nodes f
  | [] => by simp [nodesIn]
  | f :: fs => by
    rw [nodesIn, List.mem_append, mem_nodesIn]
    simp only [List.mem_cons, exists_eq_or_imp]

mutual

/-- **The lookup finds the first node with the path.** -/
theorem getFileByPath_eq_find (path : Str) : ∀ f : SharedFile,
    getFileByPath path f = (nodes f).find? fun g => decide (g.path = path)
  | ⟨p, d, files, n, s⟩ => by
    rw [getFileByPath, nodes, List.find?_cons, getFileByPathIn_eq_find path files]
    by_cases h : p = path
    · simp only [h, if_true, decide_true]
    · simp only [h, if_false, decide_false]

theorem getFileByPathIn_eq_find (path : Str) : ∀ fs : List SharedFile,
    getFileByPathIn path fs = (nodesIn fs).find? fun g => decide (g.path = path)
  | [] => rfl
  | f :: fs => by
    rw [getFileByPathIn, nodesIn, List.find?_append, getFileByPath_eq_find path f,
      getFileByPathIn_eq_find path fs]
    cases (nodes f).find? fun g => decide (g.path = path) with
    | none => rfl
    | some g => rfl

end

theorem mem_nodes_of_mem {f a : SharedFile} (h : a ∈ f.files) : a ∈ nodes f := by
  rw [nodes_eq]
  exact List.mem_cons_of_mem _ (mem_nodesIn.mpr ⟨a, h, self_mem_nodes a⟩)

mutual

/-- The children of a node of a listing are nodes of it. -/
theorem nodes_trans {g h : SharedFile} (hh : h ∈ nodes g) : ∀ {f : SharedFile}, g ∈ nodes f → h ∈ nodes f
  | ⟨path, isDirectory, files, fileSize, sizeString⟩, hg => by
    rw [nodes_eq] at hg ⊢
    rcases List.mem_cons.mp hg with rfl | hg
    · rwa [nodes_eq] at hh
    · exact List.mem_cons_of_mem _ (nodesIn_trans hh hg)

theorem nodesIn_trans {g h : SharedFile} (hh : h ∈ nodes g) : ∀ {fs : List SharedFile},
    g ∈ nodesIn fs → h ∈ nodesIn fs
  | [], hg => absurd hg List.not_mem_nil
  | f :: fs, hg => by
    rw [nodesIn] at hg ⊢
    rcases List.mem_append.mp hg with hg | hg
    · exact List.mem_append_left _ (nodes_trans hh hg)
    · exact List.mem_append_right _ (nodesIn_trans hh hg)

end

/-- What the lookup returns is a node of the listing, and has the path asked for. -/
theorem getFileByPath_some {path : Str} {f g : SharedFile} (h : getFileByPath path f = some g) :
    g ∈ nodes f ∧ g.path = path := by
  rw [getFileByPath_eq_find] at h
  exact find_some h

theorem getFileByPath_none {path : Str} {f : SharedFile} :
    getFileByPath path f = none ↔ ∀ g ∈ nodes f, g.path ≠ path := by
  rw [getFileByPath_eq_find, List.find?_eq_none]
  simp only [decide_eq_true_eq, ne_eq]

end Transmitic
