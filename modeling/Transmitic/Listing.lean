/-
  File:      Transmitic/Listing.lean
  Subject:   THE LISTING A USER GETS (config.rs, `get_everything_file`): the shared files that are
             shared with the user, and everything below the directories among them.

  * `processSharedFile`, `getEverythingFile` -- the recursion over the file system and the loop
    over the shared files;
  * `processSharedFile_paths` -- **the paths below a shared directory** are the joined paths of all
    entries below it, except those that hold the path of the config directory;
  * `getEverythingFile_paths` -- the paths of a listing are those of the files shared with the user
    and of what is below them.
-/
import Transmitic.Config
import Transmitic.Lib.FileTree

namespace Transmitic

open Lib

/-! ## 1. The recursion -/

/-- `metadata(path)?.len()` of an entry that is no directory. -/
def metadataLen : Entry → Except Exc UInt64
  | .file bytes => .ok (UInt64.ofNat bytes.length)
  | _ => .error (.err "Permission denied (os error 13)".toList)

/-- The size of a new entry: directory size is calculated by all files. -/
def ownFileSize (entry : Entry) : Except Exc UInt64 :=
  if entry.isDir then .ok 0 else metadataLen entry

mutual

/-- `process_shared_file`, with the entry that stands at the path of the shared file. -/
def processSharedFile (configDir : Str) (sharedFile : SharedFile) : Entry → Except Exc SharedFile
  | .dir readable entries =>
    if !sharedFile.isDirectory then .ok sharedFile
    else if !readable then .error (.err "Permission denied (os error 13)".toList)
    else processEntries configDir sharedFile entries
  | .file _ =>
    if !sharedFile.isDirectory then .ok sharedFile
    else .error (.err "Not a directory (os error 20)".toList)
  | .hidden =>
    if !sharedFile.isDirectory then .ok sharedFile
    else .error (.err "Permission denied (os error 13)".toList)

/-- The loop over the entries of a directory. -/
def processEntries (configDir : Str) (sharedFile : SharedFile) :
    List (Option Str × Entry) → Except Exc SharedFile
  | [] => .ok sharedFile
  | (none, _) :: _ =>
    .error (.err ("Failed to convert path string ".toList ++ sharedFile.path))
  | (some name, entry) :: rest =>
    let pathString := join sharedFile.path name
    if containsStr pathString configDir then processEntries configDir sharedFile rest
    else do
      let isDirectory := entry.isDir
      let fileSize ← ownFileSize entry
      let newSharedFile := SharedFile.new pathString isDirectory [] fileSize
      let newSharedFile ←
        (if isDirectory then processSharedFile configDir newSharedFile entry
          else .ok newSharedFile)
      processEntries configDir
        { sharedFile with
          fileSize := sharedFile.fileSize + newSharedFile.fileSize
          sizeString := getFileSizeString (sharedFile.fileSize + newSharedFile.fileSize)
          files := sharedFile.files ++ [newSharedFile] } rest

end

/-! ## 2. The loop over the shared files -/

/-- One pass of the loop: the listing with the shared file `file` added, where it is shared with
    the user and can be found. -/
def addSharedFile (fs : FileSystem) (configDir nickname : Str) (everythingFile : SharedFile)
    (file : ConfigSharedFile) : Except Exc SharedFile :=
  if nickname ∉ file.sharedWith then .ok everythingFile
  else
    match fs.lookup file.path with
    | none => .ok everythingFile
    | some .hidden => .ok everythingFile
    | some entry => do
      let isDirectory := entry.isDir
      let fileSize ← ownFileSize entry
      let sharedFile := SharedFile.new file.path isDirectory [] fileSize
      let sharedFile ← processSharedFile configDir sharedFile entry
      .ok { everythingFile with
            fileSize := everythingFile.fileSize + sharedFile.fileSize
            files := everythingFile.files ++ [sharedFile] }

/-- The loop over the shared files. -/
def addSharedFiles (fs : FileSystem) (configDir nickname : Str) (everythingFile : SharedFile) :
    List ConfigSharedFile → Except Exc SharedFile
  | [] => .ok everythingFile
  | file :: files => do
    let everythingFile ← addSharedFile fs configDir nickname everythingFile file
    addSharedFiles fs configDir nickname everythingFile files

/-- The "root" everything directory. -/
def everythingRoot : SharedFile := SharedFile.new "everything/".toList true [] 0

def getEverythingFile (fs : FileSystem) (config : Config) (nickname : Str) :
    Except Exc SharedFile := do
  let everythingFile ←
    addSharedFiles fs config.pathDirConfig nickname everythingRoot config.configFile.sharedFiles
  .ok everythingFile.setFileSizeString

/-! ## 3. Joined paths -/

/-- The path of the entry the names `names` lead down to from the directory `dir`. -/
def joins (dir : Str) (names : List Str) : Str := names.foldl join dir

@[simp] theorem joins_nil (dir : Str) : joins dir [] = dir := rfl

@[simp] theorem joins_cons (dir name : Str) (names : List Str) :
    joins dir (name :: names) = joins (join dir name) names := rfl

theorem joins_append (dir : Str) (names more : List Str) :
    joins dir (names ++ more) = joins (joins dir names) more :=
  List.foldl_append

theorem prefix_join (dir name : Str) : dir <+: join dir name := by
  unfold join
  split
  · exact List.prefix_append _ _
  · exact List.prefix_append _ _

theorem prefix_joins (dir : Str) (names : List Str) : dir <+: joins dir names := by
  induction names generalizing dir with
  | nil => exact List.prefix_rfl
  | cons name names ih => exact (prefix_join dir name).trans (ih (join dir name))

theorem containsStr_iff {haystack needle : Str} :
    containsStr haystack needle = true ↔ needle <:+: haystack := by
  rw [containsStr, List.any_eq_true]
  simp only [List.mem_tails, List.isPrefixOf_iff_prefix, List.infix_iff_prefix_suffix]
  exact exists_congr fun t => And.comm

/-- What a path holds, its extensions hold. -/
theorem containsStr_joins {dir needle : Str} (names : List Str)
    (h : containsStr dir needle = true) : containsStr (joins dir names) needle = true := by
  rw [containsStr_iff] at h ⊢
  exact h.trans (prefix_joins dir names).isInfix

theorem place_joins {cwd : List Str} {dir : Str} {names : List Str}
    (h : ∀ name ∈ names, ValidName name) : place cwd (joins dir names) = place cwd dir ++ names := by
  induction names generalizing dir with
  | nil => simp
  | cons name names ih =>
    rw [joins_cons, ih fun n hn => h n (List.mem_cons_of_mem _ hn),
      place_join (h name List.mem_cons_self)]
    simp

/-- The names that lead somewhere in a well-formed tree are names. -/
theorem validNames_of_find {e c : Entry} {names : List Str} (hw : e.WellFormed)
    (h : e.find names = some c) : ∀ name ∈ names, ValidName name := by
  induction names generalizing e with
  | nil => exact fun _ h => absurd h List.not_mem_nil
  | cons n names ih =>
    rw [Entry.find_cons] at h
    obtain ⟨d, hd, h⟩ := Option.bind_eq_some_iff.mp h
    obtain ⟨hn, hwd⟩ := hw.child hd
    intro name hm
    rcases List.mem_cons.mp hm with rfl | hm
    · exact hn.1
    · exact ih hwd h name hm

/-! ## 4. The paths of a listing -/

/-- The paths of the nodes of some listings. -/
def paths (files : List SharedFile) : Set Str := {p | ∃ node ∈ nodesIn files, node.path = p}

theorem paths_nil : paths [] = ∅ := by
  ext p
  simp [paths]

theorem mem_paths_append {files more : List SharedFile} {p : Str} :
    p ∈ paths (files ++ more) ↔ p ∈ paths files ∨ p ∈ paths more := by
  simp only [paths, Set.mem_ofPred_eq, mem_nodesIn, List.mem_append]
  constructor
  · rintro ⟨node, ⟨f, hf | hf, hn⟩, rfl⟩
    · exact .inl ⟨node, ⟨f, hf, hn⟩, rfl⟩
    · exact .inr ⟨node, ⟨f, hf, hn⟩, rfl⟩
  · rintro (⟨node, ⟨f, hf, hn⟩, rfl⟩ | ⟨node, ⟨f, hf, hn⟩, rfl⟩)
    · exact ⟨node, ⟨f, .inl hf, hn⟩, rfl⟩
    · exact ⟨node, ⟨f, .inr hf, hn⟩, rfl⟩

theorem mem_paths_singleton {f : SharedFile} {p : Str} :
    p ∈ paths [f] ↔ p = f.path ∨ p ∈ paths f.files := by
  simp only [paths, Set.mem_ofPred_eq, nodesIn_cons, nodesIn_nil, List.append_nil, List.mem_cons,
    exists_eq_or_imp]
  rw [eq_comm]

section Recursion

variable {configDir : Str}

/-- The path `p` belongs to an entry `names` below `entry`, which stands at `dir`, and does not hold
    the path of the config directory. -/
def Listed (configDir dir : Str) (entry : Entry) (names : List Str) (p : Str) : Prop :=
  p = joins dir names ∧ (entry.find names).isSome ∧ containsStr p configDir = false

/-- The same for one of several entries of the directory `dir`. -/
def ListedIn (configDir dir : Str) (entries : List (Option Str × Entry)) (p : Str) : Prop :=
  ∃ name entry names, (some name, entry) ∈ entries ∧ Listed configDir (join dir name) entry names p

theorem listedIn_cons {dir name : Str} {entry : Entry} {rest : List (Option Str × Entry)} {p : Str} :
    ListedIn configDir dir ((some name, entry) :: rest) p ↔
      (∃ names, Listed configDir (join dir name) entry names p) ∨
        ListedIn configDir dir rest p := by
  constructor
  · rintro ⟨n, e, names, hm, hl⟩
    rcases List.mem_cons.mp hm with h | hm
    · cases h
      exact .inl ⟨names, hl⟩
    · exact .inr ⟨n, e, names, hm, hl⟩
  · rintro (⟨names, hl⟩ | ⟨n, e, names, hm, hl⟩)
    · exact ⟨name, entry, names, List.mem_cons_self, hl⟩
    · exact ⟨n, e, names, List.mem_cons_of_mem _ hm, hl⟩

/-- In a well-formed directory, an entry somewhere below one of its entries is one below it. -/
theorem listedIn_iff {readable : Bool} {entries : List (Option Str × Entry)}
    (hw : (Entry.dir readable entries).WellFormed) {dir p : Str} :
    ListedIn configDir dir entries p ↔
      ∃ names, names ≠ [] ∧ Listed configDir dir (.dir readable entries) names p := by
  constructor
  · rintro ⟨name, entry, names, hm, rfl, hf, hc⟩
    refine ⟨name :: names, List.cons_ne_nil _ _, rfl, ?_, hc⟩
    rw [Entry.find_cons, child_eq_of_mem hw hm]
    exact hf
  · rintro ⟨names, hne, hp, hf, hc⟩
    cases names with
    | nil => exact absurd rfl hne
    | cons name names =>
      rw [Entry.find_cons] at hf
      cases hch : (Entry.dir readable entries).child name with
      | none =>
        rw [hch] at hf
        cases hf
      | some e =>
        rw [hch] at hf
        exact ⟨name, e, names, mem_of_child hch, hp, hf, hc⟩

/-- A path that holds the config directory's is listed with none of its extensions. -/
theorem not_listed {dir p : Str} {entry : Entry} {names : List Str}
    (h : containsStr dir configDir = true) : ¬ Listed configDir dir entry names p := by
  rintro ⟨rfl, -, hc⟩
  rw [containsStr_joins names h] at hc
  cases hc

/-- An entry's own path, and those below it. -/
theorem listed_self_or_below {dir : Str} {entry : Entry} {p : Str}
    (h : containsStr dir configDir = false) :
    (∃ names, Listed configDir dir entry names p) ↔
      p = dir ∨ ∃ names, names ≠ [] ∧ Listed configDir dir entry names p := by
  constructor
  · rintro ⟨names, hl⟩
    by_cases hn : names = []
    · subst hn
      exact .inl hl.1
    · exact .inr ⟨names, hn, hl⟩
  · rintro (rfl | ⟨names, -, hl⟩)
    · exact ⟨[], rfl, by simp, h⟩
    · exact ⟨names, hl⟩

mutual

/-- **What the recursion adds below a directory.** -/
theorem processSharedFile_paths : ∀ (entry : Entry) (sf sf' : SharedFile), entry.WellFormed →
    sf.files = [] → sf.isDirectory = entry.isDir →
    processSharedFile configDir sf entry = .ok sf' →
      sf'.path = sf.path ∧
        ∀ p, p ∈ paths sf'.files ↔ ∃ names, names ≠ [] ∧ Listed configDir sf.path entry names p
  | .file bytes, sf, sf', _, hf, hd, h => by
    rw [processSharedFile, hd] at h
    cases h
    refine ⟨rfl, fun p => ?_⟩
    rw [hf, paths_nil]
    refine ⟨fun hp => absurd hp (Set.notMem_empty p), ?_⟩
    rintro ⟨names, hne, -, hfind, -⟩
    cases names with
    | nil => exact absurd rfl hne
    | cons name names => cases hfind
  | .hidden, sf, sf', _, hf, hd, h => by
    rw [processSharedFile, hd] at h
    cases h
    refine ⟨rfl, fun p => ?_⟩
    rw [hf, paths_nil]
    refine ⟨fun hp => absurd hp (Set.notMem_empty p), ?_⟩
    rintro ⟨names, hne, -, hfind, -⟩
    cases names with
    | nil => exact absurd rfl hne
    | cons name names => cases hfind
  | .dir readable entries, sf, sf', hw, hf, hd, h => by
    rw [processSharedFile, hd] at h
    cases readable with
    | false => cases h
    | true =>
      obtain ⟨hpath, hpaths⟩ := processEntries_paths entries sf sf'
        (by rw [Entry.WellFormed] at hw; exact hw.2) h
      refine ⟨hpath, fun p => ?_⟩
      rw [hpaths p, hf, paths_nil, listedIn_iff hw]
      simp only [Set.mem_empty_iff_false, false_or]

theorem processEntries_paths : ∀ (entries : List (Option Str × Entry)) (sf sf' : SharedFile),
    entriesWellFormed entries → processEntries configDir sf entries = .ok sf' →
      sf'.path = sf.path ∧
        ∀ p, p ∈ paths sf'.files ↔ p ∈ paths sf.files ∨ ListedIn configDir sf.path entries p
  | [], sf, sf', _, h => by
    rw [processEntries] at h
    cases h
    refine ⟨rfl, fun p => ⟨.inl, ?_⟩⟩
    rintro (hp | ⟨_, _, _, hm, -⟩)
    · exact hp
    · cases hm
  | (none, entry) :: rest, sf, sf', _, h => by
    rw [processEntries] at h
    cases h
  | (some name, entry) :: rest, sf, sf', hw, h => by
    rw [entriesWellFormed] at hw
    rw [processEntries] at h
    dsimp only at h
    split at h
    · rename_i hc
      obtain ⟨hpath, hpaths⟩ := processEntries_paths rest sf sf' hw.2.2 h
      refine ⟨hpath, fun p => ?_⟩
      rw [hpaths p, listedIn_cons]
      have hno : ¬ ∃ names, Listed configDir (join sf.path name) entry names p :=
        fun ⟨names, hl⟩ => not_listed hc hl
      simp only [hno, false_or]
    · rename_i hc
      simp only [Bool.not_eq_true] at hc
      obtain ⟨size, -, h⟩ := bind_eq_ok.mp h
      obtain ⟨new, hnew, h⟩ := bind_eq_ok.mp h
      have hadded : new.path = join sf.path name ∧ ∀ p, p ∈ paths new.files ↔
          ∃ names, names ≠ [] ∧ Listed configDir (join sf.path name) entry names p := by
        refine processSharedFile_paths entry
          (SharedFile.new (join sf.path name) entry.isDir [] size) new hw.2.1 rfl rfl ?_
        split at hnew
        · exact hnew
        · rename_i hdir
          cases hnew
          cases entry with
          | dir readable entries => exact absurd rfl hdir
          | file bytes => rfl
          | hidden => rfl
      obtain ⟨hpath, hpaths⟩ := processEntries_paths rest _ sf' hw.2.2 h
      refine ⟨hpath, fun p => ?_⟩
      rw [hpaths p, mem_paths_append, mem_paths_singleton, hadded.1, hadded.2 p, listedIn_cons,
        listed_self_or_below hc]
      exact or_assoc

end

end Recursion

/-! ## 5. The whole listing -/

section Everything

variable {fs : FileSystem} {configDir nickname : Str}

/-- What a shared file brings into the listing of the user `nickname`. -/
def Shared (fs : FileSystem) (configDir nickname : Str) (file : ConfigSharedFile) (p : Str) :
    Prop :=
  nickname ∈ file.sharedWith ∧ ∃ entry, fs.lookup file.path = some entry ∧ entry.Visible ∧
    (p = file.path ∨ ∃ names, names ≠ [] ∧ Listed configDir file.path entry names p)

theorem addSharedFile_paths {root root' : SharedFile} {file : ConfigSharedFile}
    (h : addSharedFile fs configDir nickname root file = .ok root') (p : Str) :
    p ∈ paths root'.files ↔ p ∈ paths root.files ∨ Shared fs configDir nickname file p := by
  unfold addSharedFile at h
  split at h
  · rename_i hn
    cases h
    exact ⟨.inl, fun hp => hp.resolve_right fun hs => hn hs.1⟩
  · rename_i hn
    simp only [not_not] at hn
    split at h
    · rename_i hl
      cases h
      refine ⟨.inl, fun hp => hp.resolve_right fun ⟨_, e, he, _⟩ => ?_⟩
      rw [hl] at he
      cases he
    · rename_i hl
      cases h
      refine ⟨.inl, fun hp => hp.resolve_right fun ⟨_, e, he, hv, _⟩ => ?_⟩
      rw [hl] at he
      cases he
      exact hv
    · rename_i entry hvis hl
      obtain ⟨size, -, h⟩ := bind_eq_ok.mp h
      obtain ⟨sf, hsf, h⟩ := bind_eq_ok.mp h
      cases h
      have hw : entry.WellFormed := by
        obtain ⟨here, -, hfind⟩ := Option.bind_eq_some_iff.mp hl
        exact fs.wellFormed.find hfind
      obtain ⟨hpath, hpaths⟩ := processSharedFile_paths entry
        (SharedFile.new file.path entry.isDir [] size) sf hw rfl rfl hsf
      have hpath' : sf.path = file.path := hpath
      rw [mem_paths_append, mem_paths_singleton, hpath', hpaths p]
      have hvisible : entry.Visible := by
        cases entry with
        | hidden => exact absurd rfl hvis
        | _ => trivial
      refine or_congr_right ⟨fun hp => ⟨hn, entry, hl, hvisible, hp⟩, ?_⟩
      rintro ⟨-, e, he, -, hp⟩
      rw [hl] at he
      cases he
      exact hp

theorem addSharedFiles_paths : ∀ {files : List ConfigSharedFile} {root root' : SharedFile},
    addSharedFiles fs configDir nickname root files = .ok root' → ∀ p,
      (p ∈ paths root'.files ↔
        p ∈ paths root.files ∨ ∃ file ∈ files, Shared fs configDir nickname file p)
  | [], root, root', h, p => by
    cases h
    simp
  | file :: files, root, root', h, p => by
    obtain ⟨mid, hmid, h⟩ := bind_eq_ok.mp h
    rw [addSharedFiles_paths h p, addSharedFile_paths hmid p, or_assoc]
    simp only [List.mem_cons, exists_eq_or_imp]

/-- **The paths of a listing**: the shared files of the user, and what is below them. -/
theorem getEverythingFile_paths {config : Config} {listing : SharedFile}
    (h : getEverythingFile fs config nickname = .ok listing) (p : Str) :
    p ∈ paths listing.files ↔ ∃ file ∈ config.configFile.sharedFiles,
      Shared fs config.pathDirConfig nickname file p := by
  obtain ⟨root, hroot, h⟩ := bind_eq_ok.mp h
  cases h
  have hp := addSharedFiles_paths hroot p
  have hempty : paths everythingRoot.files = ∅ := paths_nil
  rw [hempty] at hp
  simpa [SharedFile.setFileSizeString] using hp

end Everything

end Transmitic
