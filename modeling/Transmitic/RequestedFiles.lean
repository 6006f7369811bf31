/-
  File:      Transmitic/RequestedFiles.lean
  Subject:   WHICH FILES A DOWNLOADER ASKS FOR, AND WHETHER THE SHARER LISTS THEM.

  The downloader looks its queue items up in the cleaned listing and goes down into directories; the
  sharer looks the path of every request up in the listing it made. Where shares overlap a path stands
  in a listing more than once, and both sides take the first node they come to, of different trees.

  * `leadsToDirectory`, `getEverythingFile_kinds` -- **a node of a listing is a directory exactly where its
    path leads to one**, so all nodes with one path are of one kind;
  * `Requested`, `Served` -- the paths a downloader may ask for, and those a sharer finds as files;
  * `requested_served` -- **what may be asked for is found**.
-/
import Transmitic.MaliciousListing
import Transmitic.ReceivedListing

namespace Transmitic

open Lib

/-! ## 1. Files and directories of a listing -/

/-- Does the path lead to a directory, or is it written like one? -/
def leadsToDirectory (fs : FileSystem) (path : Str) : Bool :=
  decide (path.getLast? = some '/') || (fs.lookup path).any Entry.isDir

/-- The node is a directory where its path leads to one. -/
def TrueKind (fs : FileSystem) (f : SharedFile) : Prop := f.isDirectory = leadsToDirectory fs f.path

section Kinds

variable {fs : FileSystem} {configDir nickname : Str}

/-- A path that is found is written like a directory only if it is one. -/
theorem leadsToDirectory_of_lookup {path : Str} {entry : Entry} (h : fs.lookup path = some entry) :
    leadsToDirectory fs path = entry.isDir := by
  unfold leadsToDirectory
  rw [h]
  by_cases hslash : path.getLast? = some '/'
  · have hdir := fs.isDir_of_lookup h hslash
    simp [hslash, hdir]
  · simp [hslash]

theorem lookup_wellFormed {path : Str} {entry : Entry} (h : fs.lookup path = some entry) :
    entry.WellFormed := by
  obtain ⟨here, -, hfind⟩ := Option.bind_eq_some_iff.mp h
  exact fs.wellFormed.find hfind

/-- A shared file with the kind of its entry. -/
theorem trueKind_of_lookup {f : SharedFile} {entry : Entry} (h : fs.lookup f.path = some entry)
    (hd : f.isDirectory = entry.isDir) : TrueKind fs f := by
  rw [TrueKind, hd, leadsToDirectory_of_lookup h]

/-- A listing with one more file. -/
theorem trueKind_append {files : List SharedFile} {new : SharedFile}
    (h : ∀ f ∈ nodesIn files, TrueKind fs f) (hnew : ∀ f ∈ nodes new, TrueKind fs f) :
    ∀ f ∈ nodesIn (files ++ [new]), TrueKind fs f := by
  intro f hf
  obtain ⟨g, hg, hfg⟩ := mem_nodesIn.mp hf
  rcases List.mem_append.mp hg with hg | hg
  · exact h f (mem_nodesIn.mpr ⟨g, hg, hfg⟩)
  · rw [List.mem_singleton] at hg
    rw [hg] at hfg
    exact hnew f hfg

mutual

/-- **What the recursion makes of a shared file**: over the entry that stands at its path. -/
theorem processSharedFile_kinds : ∀ (entry : Entry) (sf sf' : SharedFile),
    fs.lookup sf.path = some entry → sf.files = [] → sf.isDirectory = entry.isDir →
    processSharedFile configDir sf entry = .ok sf' → ∀ f ∈ nodes sf', TrueKind fs f
  | .file bytes, sf, sf', hl, hf, hd, h => by
    rw [processSharedFile, hd] at h
    cases h
    intro f hmem
    rw [nodes_eq, hf, nodesIn_nil, List.mem_singleton] at hmem
    rw [hmem]
    exact trueKind_of_lookup hl hd
  | .hidden, sf, sf', hl, hf, hd, h => by
    rw [processSharedFile, hd] at h
    cases h
    intro f hmem
    rw [nodes_eq, hf, nodesIn_nil, List.mem_singleton] at hmem
    rw [hmem]
    exact trueKind_of_lookup hl hd
  | .dir readable entries, sf, sf', hl, hf, hd, h => by
    rw [processSharedFile, hd] at h
    cases readable with
    | false => cases h
    | true =>
      obtain ⟨hpath, hdir, hkinds⟩ := processEntries_kinds entries sf sf' hl
        (fun _ hmem => hmem) h
      intro f hmem
      rw [nodes_eq] at hmem
      rcases List.mem_cons.mp hmem with rfl | hmem
      · refine @trueKind_of_lookup fs f (.dir true entries) ?_ (hdir.trans hd)
        rw [hpath]
        exact hl
      · refine hkinds (fun g hg => ?_) f hmem
        rw [hf] at hg
        cases hg

/-- The entries of a directory, `all` of which stand at the path of the shared file. -/
theorem processEntries_kinds {readable : Bool} {all : List (Option Str × Entry)} :
    ∀ (entries : List (Option Str × Entry)) (sf sf' : SharedFile),
    fs.lookup sf.path = some (.dir readable all) → (∀ e ∈ entries, e ∈ all) →
    processEntries configDir sf entries = .ok sf' →
      sf'.path = sf.path ∧ sf'.isDirectory = sf.isDirectory ∧
        ((∀ f ∈ nodesIn sf.files, TrueKind fs f) → ∀ f ∈ nodesIn sf'.files, TrueKind fs f)
  | [], sf, sf', _, _, h => by
    rw [processEntries] at h
    cases h
    exact ⟨rfl, rfl, fun hk => hk⟩
  | (none, entry) :: rest, sf, sf', _, _, h => by
    rw [processEntries] at h
    cases h
  | (some name, entry) :: rest, sf, sf', hl, hall, h => by
    have hrest : ∀ e ∈ rest, e ∈ all := fun e he => hall e (List.mem_cons_of_mem _ he)
    rw [processEntries] at h
    dsimp only at h
    split at h
    · exact processEntries_kinds rest sf sf' hl hrest h
    · obtain ⟨size, -, h⟩ := bind_eq_ok.mp h
      obtain ⟨new, hnew, h⟩ := bind_eq_ok.mp h
      have hchild : fs.lookup (join sf.path name) = some entry :=
        fs.lookup_join hl (child_eq_of_mem (lookup_wellFormed hl) (hall _ List.mem_cons_self))
      have hadded : ∀ f ∈ nodes new, TrueKind fs f := by
        refine processSharedFile_kinds entry (SharedFile.new (join sf.path name) entry.isDir [] size) new
          hchild rfl rfl ?_
        split at hnew
        · exact hnew
        · rename_i hdir
          cases hnew
          cases entry with
          | dir readable entries => exact absurd rfl hdir
          | file bytes => rfl
          | hidden => rfl
      -- the directory with one more file stands where it stood
      generalize hparent : ({ sf with
          fileSize := sf.fileSize + new.fileSize
          sizeString := getFileSizeString (sf.fileSize + new.fileSize)
          files := sf.files ++ [new] } : SharedFile) = parent at h
      have hsame : parent.path = sf.path ∧ parent.isDirectory = sf.isDirectory ∧
          parent.files = sf.files ++ [new] := by
        rw [← hparent]
        exact ⟨rfl, rfl, rfl⟩
      obtain ⟨hpath', hdir', hfiles⟩ := hsame
      rw [← hpath'] at hl
      obtain ⟨hpath, hdir, hkinds⟩ := processEntries_kinds rest parent sf' hl hrest h
      rw [hfiles] at hkinds
      exact ⟨hpath.trans hpath', hdir.trans hdir', fun hk => hkinds (trueKind_append hk hadded)⟩

end

theorem addSharedFile_kinds {root root' : SharedFile} {file : ConfigSharedFile}
    (h : addSharedFile fs configDir nickname root file = .ok root') :
    root'.path = root.path ∧ root'.isDirectory = root.isDirectory ∧
      ((∀ f ∈ nodesIn root.files, TrueKind fs f) → ∀ f ∈ nodesIn root'.files, TrueKind fs f) := by
  unfold addSharedFile at h
  split at h
  · cases h
    exact ⟨rfl, rfl, fun hk => hk⟩
  · split at h
    · cases h
      exact ⟨rfl, rfl, fun hk => hk⟩
    · cases h
      exact ⟨rfl, rfl, fun hk => hk⟩
    · rename_i entry _ hl
      obtain ⟨size, -, h⟩ := bind_eq_ok.mp h
      obtain ⟨sf, hsf, h⟩ := bind_eq_ok.mp h
      cases h
      have hadded := processSharedFile_kinds entry (SharedFile.new file.path entry.isDir [] size) sf
        hl rfl rfl hsf
      exact ⟨rfl, rfl, fun hk => trueKind_append hk hadded⟩

/-- Over the shared files. -/
theorem addSharedFiles_kinds : ∀ {files : List ConfigSharedFile} {root root' : SharedFile},
    addSharedFiles fs configDir nickname root files = .ok root' →
    root'.path = root.path ∧ root'.isDirectory = root.isDirectory ∧
      ((∀ f ∈ nodesIn root.files, TrueKind fs f) → ∀ f ∈ nodesIn root'.files, TrueKind fs f)
  | [], root, root', h => by
    cases h
    exact ⟨rfl, rfl, fun hk => hk⟩
  | file :: files, root, root', h => by
    obtain ⟨mid, hmid, h⟩ := bind_eq_ok.mp h
    obtain ⟨hpath, hdir, hkinds⟩ := addSharedFile_kinds hmid
    obtain ⟨hpath', hdir', hkinds'⟩ := addSharedFiles_kinds h
    exact ⟨hpath'.trans hpath, hdir'.trans hdir, fun hk => hkinds' (hkinds hk)⟩

/-- **A node of a listing is a directory exactly where its path leads to one**, or is the root. -/
theorem getEverythingFile_kinds {config : Config} {listing : SharedFile}
    (h : getEverythingFile fs config nickname = .ok listing) :
    ∀ f ∈ nodes listing, TrueKind fs f := by
  obtain ⟨root, hroot, h⟩ := bind_eq_ok.mp h
  cases h
  obtain ⟨hpath, hdir, hkinds⟩ := addSharedFiles_kinds hroot
  intro f hf
  rw [nodes_eq] at hf
  rcases List.mem_cons.mp hf with rfl | hf
  · have hslash : everythingRoot.path.getLast? = some '/' := by decide
    have hd : root.isDirectory = true := hdir
    have hp : root.path = everythingRoot.path := hpath
    simp [TrueKind, SharedFile.setFileSizeString, leadsToDirectory, hd, hp, hslash]
  · exact hkinds (fun g hg => absurd hg List.not_mem_nil) f hf

/-- **The nodes of a listing with one path are of one kind.** -/
theorem getEverythingFile_sameKind {config : Config} {listing f g : SharedFile}
    (h : getEverythingFile fs config nickname = .ok listing) (hf : f ∈ nodes listing)
    (hg : g ∈ nodes listing) (hpath : f.path = g.path) : f.isDirectory = g.isDirectory := by
  have hkind : f.isDirectory = _ := getEverythingFile_kinds h f hf
  have hkind' : g.isDirectory = _ := getEverythingFile_kinds h g hg
  rw [hkind, hkind', hpath]

end Kinds

/-! ## 2. What may be asked for, and what is found -/

mutual

/-- The nodes that are left of a listing are nodes of it. -/
theorem mem_of_reached {cleaned b : Bool} {u : SharedFile} : ∀ {f : SharedFile},
    (b, u) ∈ reachedNodes cleaned f → u ∈ nodes f
  | ⟨path, isDirectory, files, fileSize, sizeString⟩, h => by
    rw [reachedNodes] at h
    rw [nodes]
    rcases List.mem_cons.mp h with h | h
    · rw [show u = _ from congrArg Prod.snd h]
      exact List.mem_cons_self
    · exact List.mem_cons_of_mem _ (mem_of_reachedIn h)

theorem mem_of_reachedIn {cleaned b : Bool} {u : SharedFile} : ∀ {fs : List SharedFile},
    (b, u) ∈ reachedNodesIn cleaned fs → u ∈ nodesIn fs
  | [], h => by cases h
  | f :: fs, h => by
    rw [reachedNodesIn] at h
    rw [nodesIn]
    split at h
    · exact List.mem_append_right _ (mem_of_reachedIn h)
    · rcases List.mem_append.mp h with h | h
      · exact List.mem_append_left _ (mem_of_reached h)
      · exact List.mem_append_right _ (mem_of_reachedIn h)

end

/-- A node of the cleaned listing was a node, of the same kind, when it came. -/
theorem node_of_received {listing f : SharedFile} (h : f ∈ nodes (received listing)) :
    ∃ u ∈ nodes listing, u.path = f.path ∧ u.isDirectory = f.isDirectory := by
  have hmem : f.label ∈ (reachedNodes true listing).map cleanedLabel := by
    rw [← nodes_received]
    exact List.mem_map_of_mem h
  obtain ⟨⟨b, u⟩, hu, hlabel⟩ := List.mem_map.mp hmem
  have hkind : (cleanedLabel (b, u)).isDirectory = u.isDirectory := by
    unfold cleanedLabel
    split
    · rfl
    · rfl
  refine ⟨u, mem_of_reached hu, ?_, ?_⟩
  · exact (cleanedLabel_path (b, u)).symm.trans (congrArg NodeLabel.path hlabel)
  · exact hkind.symm.trans (congrArg NodeLabel.isDirectory hlabel)

mutual

/-- What a download of a node comes to are files below it. -/
theorem file_of_downloaded {g : SharedFile} : ∀ {f : SharedFile}, g ∈ leaves f →
    g ∈ nodes f ∧ g.isDirectory = false
  | ⟨path, isDirectory, files, fileSize, sizeString⟩, h => by
    rw [leaves] at h
    rw [nodes]
    cases isDirectory with
    | true =>
      rw [if_pos rfl] at h
      obtain ⟨hmem, hfile⟩ := file_of_downloadedIn h
      exact ⟨List.mem_cons_of_mem _ hmem, hfile⟩
    | false =>
      rw [if_neg (by decide), List.mem_singleton] at h
      rw [h]
      exact ⟨List.mem_cons_self, rfl⟩

theorem file_of_downloadedIn {g : SharedFile} : ∀ {fs : List SharedFile},
    g ∈ leavesIn fs → g ∈ nodesIn fs ∧ g.isDirectory = false
  | [], h => by cases h
  | f :: fs, h => by
    rw [leavesIn] at h
    rw [nodesIn]
    rcases List.mem_append.mp h with h | h
    · obtain ⟨hmem, hfile⟩ := file_of_downloaded h
      exact ⟨List.mem_append_left _ hmem, hfile⟩
    · obtain ⟨hmem, hfile⟩ := file_of_downloadedIn h
      exact ⟨List.mem_append_right _ hmem, hfile⟩

end

/-- The sharer finds a file at the path. -/
def Served (listing : SharedFile) (path : Str) : Prop :=
  ∃ f, getFileByPath path listing = some f ∧ f.isDirectory = false

/-- A download of what the listing has for some queue item comes to a file with the path. -/
def Requested (listing : SharedFile) (path : Str) : Prop :=
  ∃ item found, getFileByPath item listing = some found ∧ ∃ f ∈ leaves found, f.path = path

/-- **What may be asked for is found**: in the listing the sharer made, with what came of it after the
    cleaning on the other side. -/
theorem requested_served {fs : FileSystem} {config : Config} {nickname path : Str}
    {listing : SharedFile} (h : getEverythingFile fs config nickname = .ok listing)
    (hr : Requested (received listing) path) : Served listing path := by
  obtain ⟨item, found, hfound, f, hf, rfl⟩ := hr
  obtain ⟨hbelow, hfile⟩ := file_of_downloaded hf
  obtain ⟨u, hu, hpath, hkind⟩ := node_of_received (nodes_trans hbelow (getFileByPath_some hfound).1)
  cases hlookup : getFileByPath f.path listing with
  | none => exact absurd hpath (getFileByPath_none.mp hlookup u hu)
  | some g =>
    obtain ⟨hg, hgpath⟩ := getFileByPath_some hlookup
    refine ⟨g, hlookup, ?_⟩
    rw [getEverythingFile_sameKind h hg hu (hgpath.trans hpath.symm), hkind, hfile]

end Transmitic
