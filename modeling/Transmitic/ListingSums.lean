/-
  File:      Transmitic/ListingSums.lean
  Subject:   THE LISTING OF A TREE IS COMPLETE AND ITS SIZES ADD UP (config.rs, `process_shared_file` and
             `get_everything_file`).

  The recursion adds up sizes in the node it is given, and sets the text of the size on the way.

  * `Lists` -- a node is the listing of an entry of the disk: what it says of itself, and one node for every
    entry below that is not left out;
  * `processSharedFile_lists` -- **the recursion makes such a node**;
  * `lists_below`, `lists_paths_nodup` -- every node stands for an entry, and no path occurs twice;
  * `lists_size` -- a size is the sum of the files below;
  * `listing_complete` -- **every entry is listed once**, with its kind and its size; every size is the sum,
    and every text of a size is that of the size.
-/
import Transmitic.Listing

namespace Transmitic

open Lib

/-! ## 1. Sizes -/

mutual

/-- The bytes of the files of an entry. -/
def diskSize : Entry → Nat
  | .file bytes => bytes.length
  | .hidden => 0
  | .dir _ entries => diskSizeIn entries

def diskSizeIn : List (Option Str × Entry) → Nat
  | [] => 0
  | (_, entry) :: rest => diskSize entry + diskSizeIn rest

end

/-- The sizes of some nodes. -/
def sumSizes (files : List SharedFile) : Nat := (files.map fun f => f.fileSize.toNat).sum

/-- The sizes of the nodes that are no directories. -/
def fileBytes (files : List SharedFile) : Nat := sumSizes (files.filter fun f => !f.isDirectory)

@[simp] theorem sumSizes_nil : sumSizes [] = 0 := rfl

@[simp] theorem sumSizes_cons (f : SharedFile) (files : List SharedFile) :
    sumSizes (f :: files) = f.fileSize.toNat + sumSizes files := rfl

theorem sumSizes_append (files more : List SharedFile) :
    sumSizes (files ++ more) = sumSizes files + sumSizes more := by
  simp [sumSizes]

theorem fileBytes_append (files more : List SharedFile) :
    fileBytes (files ++ more) = fileBytes files + fileBytes more := by
  rw [fileBytes, List.filter_append, sumSizes_append]
  rfl

theorem fileBytes_file {f : SharedFile} (h : f.isDirectory = false) : fileBytes [f] = f.fileSize.toNat := by
  simp [fileBytes, h]

theorem fileBytes_directory {f : SharedFile} (h : f.isDirectory = true) : fileBytes [f] = 0 := by
  simp [fileBytes, h]

/-- Sizes are added with 64 bits. -/
theorem ofNat_sumSizes_add (n : Nat) (f : SharedFile) :
    UInt64.ofNat n + f.fileSize = UInt64.ofNat (n + f.fileSize.toNat) := by
  rw [UInt64.ofNat_add, UInt64.ofNat_toNat]

/-! ## 2. The listing of an entry -/

mutual

/-- `f` is the listing of the entry. -/
def Lists (configDir : Str) : Entry → SharedFile → Prop
  | .file bytes, f => f.isDirectory = false ∧ f.files = [] ∧ f.fileSize = UInt64.ofNat bytes.length ∧
      f.sizeString = getFileSizeString f.fileSize
  | .hidden, _ => False
  | .dir _ entries, f => f.isDirectory = true ∧ ListsIn configDir f.path entries f.files ∧
      f.fileSize = UInt64.ofNat (sumSizes f.files) ∧ f.sizeString = getFileSizeString f.fileSize

/-- The listings of the entries of the directory `dir`, without those that hold the config directory. -/
def ListsIn (configDir dir : Str) : List (Option Str × Entry) → List SharedFile → Prop
  | [], files => files = []
  | (none, _) :: _, _ => False
  | (some name, entry) :: rest, files =>
    if containsStr (join dir name) configDir then ListsIn configDir dir rest files
    else ∃ f more, files = f :: more ∧ f.path = join dir name ∧ Lists configDir entry f ∧
      ListsIn configDir dir rest more

end

section Recursion

variable {configDir : Str}

/-- What a listing says of itself. -/
theorem lists_self {entry : Entry} {f : SharedFile} (h : Lists configDir entry f) :
    f.isDirectory = entry.isDir ∧ f.sizeString = getFileSizeString f.fileSize ∧
      ∀ bytes, entry = .file bytes → f.fileSize = UInt64.ofNat bytes.length := by
  cases entry with
  | file bytes =>
    rw [Lists] at h
    refine ⟨h.1, h.2.2.2, fun bytes' he => ?_⟩
    cases he
    exact h.2.2.1
  | hidden => exact h.elim
  | dir readable entries =>
    rw [Lists] at h
    exact ⟨h.1, h.2.2.2, nofun⟩

/-- A node of this size, before its entries are gone through. -/
structure Adding (sf : SharedFile) : Prop where
  directory : sf.isDirectory = true
  size : sf.fileSize = UInt64.ofNat (sumSizes sf.files)
  text : sf.sizeString = getFileSizeString sf.fileSize

mutual

/-- **The recursion makes the listing of the entry.** -/
theorem processSharedFile_lists : ∀ (entry : Entry) (path : Str) (size : UInt64) (listing : SharedFile),
    ownFileSize entry = .ok size →
    processSharedFile configDir (SharedFile.new path entry.isDir [] size) entry = .ok listing →
      listing.path = path ∧ Lists configDir entry listing
  | .file bytes, path, size, listing, hsize, h => by
    rw [processSharedFile] at h
    cases h
    cases hsize
    refine ⟨rfl, ?_⟩
    rw [Lists]
    exact ⟨rfl, rfl, rfl, rfl⟩
  | .hidden, path, size, listing, hsize, h => by cases hsize
  | .dir readable entries, path, size, listing, hsize, h => by
    rw [processSharedFile] at h
    cases hsize
    cases readable with
    | false => cases h
    | true =>
      obtain ⟨hpath, hadding, files, hfiles, hlists⟩ := processEntries_lists entries _ listing
        ⟨rfl, rfl, rfl⟩ h
      refine ⟨hpath, ?_⟩
      have hfiles : listing.files = files := hfiles
      rw [Lists, hfiles, hpath, ← hfiles]
      exact ⟨hadding.directory, hfiles ▸ hlists, hadding.size, hadding.text⟩

/-- The loop over the entries adds their listings. -/
theorem processEntries_lists : ∀ (entries : List (Option Str × Entry)) (sf listing : SharedFile),
    Adding sf → processEntries configDir sf entries = .ok listing →
      listing.path = sf.path ∧ Adding listing ∧
        ∃ files, listing.files = sf.files ++ files ∧ ListsIn configDir sf.path entries files
  | [], sf, listing, hadding, h => by
    rw [processEntries] at h
    cases h
    exact ⟨rfl, hadding, [], (List.append_nil _).symm, rfl⟩
  | (none, entry) :: rest, sf, listing, hadding, h => by
    rw [processEntries] at h
    cases h
  | (some name, entry) :: rest, sf, listing, hadding, h => by
    rw [processEntries] at h
    dsimp only at h
    split at h
    · rename_i hcontains
      obtain ⟨hpath, hadded, files, hfiles, hlists⟩ := processEntries_lists rest sf listing hadding h
      refine ⟨hpath, hadded, files, hfiles, ?_⟩
      rw [ListsIn, if_pos hcontains]
      exact hlists
    · rename_i hcontains
      obtain ⟨size, hsize, h⟩ := bind_eq_ok.mp h
      obtain ⟨new, hnew, h⟩ := bind_eq_ok.mp h
      have hmade : new.path = join sf.path name ∧ Lists configDir entry new := by
        refine processSharedFile_lists entry (join sf.path name) size new hsize ?_
        split at hnew
        · exact hnew
        · rename_i hdir
          cases hnew
          cases entry with
          | dir readable entries => exact absurd rfl hdir
          | file bytes => rfl
          | hidden => rfl
      have hsum : sf.fileSize + new.fileSize = UInt64.ofNat (sumSizes (sf.files ++ [new])) := by
        rw [hadding.size, ofNat_sumSizes_add, sumSizes_append]
        rfl
      have hnext : Adding
          { sf with
            fileSize := sf.fileSize + new.fileSize
            sizeString := getFileSizeString (sf.fileSize + new.fileSize)
            files := sf.files ++ [new] } := ⟨hadding.directory, hsum, rfl⟩
      obtain ⟨hpath, hadded, files, hfiles, hlists⟩ := processEntries_lists rest _ listing hnext h
      refine ⟨hpath, hadded, new :: files, ?_, ?_⟩
      · rw [hfiles, List.append_assoc]
        rfl
      · rw [ListsIn, if_neg hcontains]
        exact ⟨new, files, rfl, hmade.1, hmade.2, hlists⟩

end

/-! ## 3. Nodes and entries -/

mutual

/-- **Every node is the listing of an entry** that the names lead to. -/
theorem lists_below : ∀ (entry : Entry) (f : SharedFile), entry.WellFormed → Lists configDir entry f →
    containsStr f.path configDir = false → ∀ node ∈ nodes f,
      ∃ names e, entry.find names = some e ∧ node.path = joins f.path names ∧ Lists configDir e node ∧
        containsStr node.path configDir = false
  | .file bytes, f, _, hf, hc, node, hn => by
    have hleaf : f.files = [] := by
      rw [Lists] at hf
      exact hf.2.1
    rw [nodes_eq, hleaf, nodesIn_nil, List.mem_singleton] at hn
    subst hn
    exact ⟨[], .file bytes, rfl, rfl, hf, hc⟩
  | .hidden, f, _, hf, _, _, _ => hf.elim
  | .dir readable entries, f, hw, hf, hc, node, hn => by
    rw [nodes_eq] at hn
    rcases List.mem_cons.mp hn with rfl | hn
    · exact ⟨[], _, rfl, rfl, hf, hc⟩
    · have hin : ListsIn configDir f.path entries f.files := by
        rw [Lists] at hf
        exact hf.2.1
      have hwell : entriesWellFormed entries := by
        rw [Entry.WellFormed] at hw
        exact hw.2
      obtain ⟨name, child, names, e, hmem, hfind, hpath, hlists, hnode⟩ :=
        listsIn_below entries f.path f.files hwell hin node hn
      refine ⟨name :: names, e, ?_, hpath, hlists, hnode⟩
      rw [Entry.find_cons, child_eq_of_mem hw hmem]
      exact hfind

theorem listsIn_below : ∀ (entries : List (Option Str × Entry)) (dir : Str) (files : List SharedFile),
    entriesWellFormed entries → ListsIn configDir dir entries files → ∀ node ∈ nodesIn files,
      ∃ name child names e, (some name, child) ∈ entries ∧ child.find names = some e ∧
        node.path = joins dir (name :: names) ∧ Lists configDir e node ∧
          containsStr node.path configDir = false
  | [], dir, files, _, hf, node, hn => by
    rw [ListsIn] at hf
    subst hf
    cases hn
  | (none, entry) :: rest, dir, files, _, hf, _, _ => hf.elim
  | (some name, entry) :: rest, dir, files, hw, hf, node, hn => by
    rw [entriesWellFormed] at hw
    rw [ListsIn] at hf
    split at hf
    · obtain ⟨n, child, names, e, hmem, hrest⟩ := listsIn_below rest dir files hw.2.2 hf node hn
      exact ⟨n, child, names, e, List.mem_cons_of_mem _ hmem, hrest⟩
    · rename_i hc
      obtain ⟨f, more, rfl, hpath, hlists, hmore⟩ := hf
      obtain ⟨g, hg, hnode⟩ := mem_nodesIn.mp hn
      rcases List.mem_cons.mp hg with rfl | hg
      · rw [← hpath] at hc
        obtain ⟨names, e, hfind, hnode, hlists, hnot⟩ :=
          lists_below entry g hw.2.1 hlists (by simpa using hc) node hnode
        refine ⟨name, entry, names, e, List.mem_cons_self, hfind, ?_, hlists, hnot⟩
        rw [hnode, hpath]
        rfl
      · obtain ⟨n, child, names, e, hmem, hrest⟩ :=
          listsIn_below rest dir more hw.2.2 hmore node (mem_nodesIn.mpr ⟨g, hg, hnode⟩)
        exact ⟨n, child, names, e, List.mem_cons_of_mem _ hmem, hrest⟩

end

/-- Different names lead to different paths. -/
theorem joins_injective {dir : Str} {names names' : List Str} (h : ∀ name ∈ names, ValidName name)
    (h' : ∀ name ∈ names', ValidName name) (heq : joins dir names = joins dir names') : names = names' := by
  have hplace := @place_joins [] dir _ h
  rw [heq, place_joins h'] at hplace
  exact (List.append_cancel_left hplace).symm

theorem validNames_of_mem {entries : List (Option Str × Entry)} {name : Str} {names : List Str}
    {child e : Entry} (hw : entriesWellFormed entries) (hmem : (some name, child) ∈ entries)
    (hfind : child.find names = some e) : ∀ n ∈ name :: names, ValidName n := by
  obtain ⟨hname, hchild⟩ := entriesWellFormed_iff.mp hw _ hmem
  intro n hn
  rcases List.mem_cons.mp hn with rfl | hn
  · exact (hname n rfl).1
  · exact validNames_of_find hchild hfind n hn

mutual

/-- **No path occurs twice** below an entry. -/
theorem lists_paths_nodup : ∀ (entry : Entry) (f : SharedFile), entry.WellFormed → Lists configDir entry f →
    ((nodes f).map SharedFile.path).Nodup
  | .file bytes, f, _, hf => by
    have hleaf : f.files = [] := by
      rw [Lists] at hf
      exact hf.2.1
    rw [nodes_eq, hleaf]
    exact List.nodup_singleton _
  | .hidden, f, _, hf => hf.elim
  | .dir readable entries, f, hw, hf => by
    rw [Lists] at hf
    rw [Entry.WellFormed] at hw
    rw [nodes_eq, List.map_cons, List.nodup_cons]
    refine ⟨fun hself => ?_, listsIn_paths_nodup entries f.path f.files hw.1 hw.2 hf.2.1⟩
    obtain ⟨node, hn, hpath⟩ := List.mem_map.mp hself
    obtain ⟨name, child, names, e, hmem, hfind, hjoin, -, -⟩ :=
      listsIn_below entries f.path f.files hw.2 hf.2.1 node hn
    -- the node stands at least one step further down
    have hsame : joins f.path (name :: names) = joins f.path [] := hjoin.symm.trans hpath
    have hnil := joins_injective (validNames_of_mem hw.2 hmem hfind) (List.forall_mem_nil _) hsame
    cases hnil

theorem listsIn_paths_nodup : ∀ (entries : List (Option Str × Entry)) (dir : Str) (files : List SharedFile),
    (entries.map Prod.fst).Nodup → entriesWellFormed entries → ListsIn configDir dir entries files →
      ((nodesIn files).map SharedFile.path).Nodup
  | [], dir, files, _, _, hf => by
    rw [ListsIn] at hf
    subst hf
    exact List.nodup_nil
  | (none, entry) :: rest, dir, files, _, _, hf => hf.elim
  | (some name, entry) :: rest, dir, files, hnames, hw, hf => by
    have hwell := hw
    rw [entriesWellFormed] at hw
    rw [List.map_cons, List.nodup_cons] at hnames
    rw [ListsIn] at hf
    split at hf
    · exact listsIn_paths_nodup rest dir files hnames.2 hw.2.2 hf
    · rename_i hc
      obtain ⟨f, more, rfl, hpath, hlists, hmore⟩ := hf
      have hfirst := lists_paths_nodup entry f hw.2.1 hlists
      have hrest := listsIn_paths_nodup rest dir more hnames.2 hw.2.2 hmore
      rw [nodesIn, List.map_append]
      refine List.Nodup.append hfirst hrest fun p hp hp' => ?_
      obtain ⟨node, hn, rfl⟩ := List.mem_map.mp hp
      obtain ⟨node', hn', hsame⟩ := List.mem_map.mp hp'
      rw [← hpath] at hc
      obtain ⟨names, e, hfind, hnode, -, -⟩ := lists_below entry f hw.2.1 hlists (by simpa using hc) node hn
      obtain ⟨name', child', names', e', hmem', hfind', hnode', -, -⟩ :=
        listsIn_below rest dir more hw.2.2 hmore node' hn'
      have hjoins : joins dir (name' :: names') = joins dir (name :: names) := by
        rw [← hnode', hsame, hnode, hpath]
        rfl
      have heq := joins_injective (validNames_of_mem hw.2.2 hmem' hfind')
        (validNames_of_mem hwell List.mem_cons_self hfind) hjoins
      obtain ⟨rfl, -⟩ := List.cons.inj heq
      exact hnames.1 (List.mem_map.mpr ⟨_, hmem', rfl⟩)

end

/-! ## 4. Sums -/

mutual

/-- **A size is the sum of the files**, as long as 64 bits are enough for all of them. -/
theorem lists_size : ∀ (entry : Entry) (f : SharedFile), Lists configDir entry f → diskSize entry < 2 ^ 64 →
    f.fileSize.toNat = fileBytes (nodes f) ∧ fileBytes (nodes f) ≤ diskSize entry
  | .file bytes, f, hf, hlt => by
    rw [Lists] at hf
    rw [diskSize] at hlt ⊢
    obtain ⟨hdir, hleaf, hsize, -⟩ := hf
    have hlen : f.fileSize.toNat = bytes.length := by
      rw [hsize, UInt64.toNat_ofNat_of_lt' hlt]
    rw [nodes_eq, hleaf, nodesIn_nil, fileBytes_file hdir]
    exact ⟨rfl, Nat.le_of_eq hlen⟩
  | .hidden, f, hf, _ => hf.elim
  | .dir readable entries, f, hf, hlt => by
    rw [Lists] at hf
    rw [diskSize] at hlt ⊢
    obtain ⟨hdir, hin, hsize, -⟩ := hf
    obtain ⟨hsum, hle⟩ := listsIn_size entries f.path f.files hin hlt
    have hnodes : fileBytes (nodes f) = fileBytes (nodesIn f.files) := by
      rw [nodes_eq, ← List.singleton_append, fileBytes_append, fileBytes_directory hdir, Nat.zero_add]
    have hbound : sumSizes f.files < UInt64.size := by
      rw [hsum]
      exact Nat.lt_of_le_of_lt hle hlt
    rw [hnodes, hsize, UInt64.toNat_ofNat_of_lt' hbound]
    exact ⟨hsum, hle⟩

theorem listsIn_size : ∀ (entries : List (Option Str × Entry)) (dir : Str) (files : List SharedFile),
    ListsIn configDir dir entries files → diskSizeIn entries < 2 ^ 64 →
      sumSizes files = fileBytes (nodesIn files) ∧ fileBytes (nodesIn files) ≤ diskSizeIn entries
  | [], dir, files, hf, _ => by
    rw [ListsIn] at hf
    subst hf
    exact ⟨rfl, Nat.le_refl _⟩
  | (none, entry) :: rest, dir, files, hf, _ => hf.elim
  | (some name, entry) :: rest, dir, files, hf, hlt => by
    rw [ListsIn] at hf
    rw [diskSizeIn] at hlt ⊢
    split at hf
    · obtain ⟨hsum, hle⟩ := listsIn_size rest dir files hf (by omega)
      exact ⟨hsum, by omega⟩
    · obtain ⟨f, more, rfl, -, hlists, hmore⟩ := hf
      obtain ⟨hfirst, hfirstLe⟩ := lists_size entry f hlists (by omega)
      obtain ⟨hsum, hle⟩ := listsIn_size rest dir more hmore (by omega)
      rw [nodesIn, fileBytes_append, sumSizes_cons]
      exact ⟨by omega, by omega⟩

end

/-- What is further down is no larger. -/
theorem diskSize_mem {entries : List (Option Str × Entry)} {name : Option Str} {entry : Entry}
    (h : (name, entry) ∈ entries) : diskSize entry ≤ diskSizeIn entries := by
  induction entries with
  | nil => cases h
  | cons p rest ih =>
    obtain ⟨name', entry'⟩ := p
    rw [diskSizeIn]
    rcases List.mem_cons.mp h with h | h
    · cases h
      omega
    · have := ih h
      omega

theorem diskSize_find {entry e : Entry} {names : List Str} (h : entry.find names = some e) :
    diskSize e ≤ diskSize entry := by
  induction names generalizing entry with
  | nil =>
    cases (Entry.find_nil entry).symm.trans h
    exact Nat.le_refl _
  | cons name names ih =>
    rw [Entry.find_cons] at h
    obtain ⟨child, hchild, h⟩ := Option.bind_eq_some_iff.mp h
    have hle := ih h
    cases entry with
    | file bytes => cases hchild
    | hidden => cases hchild
    | dir readable entries =>
      rw [diskSize]
      exact hle.trans (diskSize_mem (mem_of_child hchild))

/-- The size of a directory is the sum of what is below it. -/
theorem directory_size {entry : Entry} {f : SharedFile} (h : Lists configDir entry f)
    (hlt : diskSize entry < 2 ^ 64) (hdir : f.isDirectory = true) :
    f.fileSize.toNat = fileBytes (nodesIn f.files) := by
  rw [(lists_size entry f h hlt).1, nodes_eq, ← List.singleton_append, fileBytes_append,
    fileBytes_directory hdir, Nat.zero_add]

/-! ## 5. A shared directory -/

/-- **What is below a directory is listed once**, and the sizes add up. -/
structure CompleteListing (configDir path : Str) (entry : Entry) (listing : SharedFile) : Prop where
  once : ∀ names e, names ≠ [] → entry.find names = some e → containsStr (joins path names) configDir = false →
    (nodesIn listing.files).countP (fun node => node.path = joins path names) = 1
  onDisk : ∀ node ∈ nodesIn listing.files, ∃ names e, names ≠ [] ∧ entry.find names = some e ∧
    node.path = joins path names ∧ containsStr node.path configDir = false ∧ node.isDirectory = e.isDir ∧
      ∀ bytes, e = .file bytes → node.fileSize.toNat = bytes.length
  sums : ∀ node ∈ nodes listing, node.isDirectory = true →
    node.fileSize.toNat = fileBytes (nodesIn node.files)
  texts : ∀ node ∈ nodes listing, node.sizeString = getFileSizeString node.fileSize

/-- The nodes below a listing. -/
theorem lists_under {entry : Entry} {f : SharedFile} (hw : entry.WellFormed) (h : Lists configDir entry f) :
    ∀ node ∈ nodesIn f.files, ∃ names e, names ≠ [] ∧ entry.find names = some e ∧
      node.path = joins f.path names ∧ containsStr node.path configDir = false ∧ Lists configDir e node := by
  intro node hn
  cases entry with
  | file bytes =>
    rw [Lists] at h
    rw [h.2.1] at hn
    cases hn
  | hidden => exact h.elim
  | dir readable entries =>
    rw [Lists] at h
    have hwell : entriesWellFormed entries := by
      rw [Entry.WellFormed] at hw
      exact hw.2
    obtain ⟨name, child, names, e, hmem, hfind, hpath, hlists, hnot⟩ :=
      listsIn_below entries f.path f.files hwell h.2.1 node hn
    refine ⟨name :: names, e, List.cons_ne_nil _ _, ?_, hpath, hnot, hlists⟩
    rw [Entry.find_cons, child_eq_of_mem hw hmem]
    exact hfind

/-- Every node, the first one included. -/
theorem lists_nodes {entry : Entry} {f : SharedFile} (hw : entry.WellFormed) (h : Lists configDir entry f) :
    ∀ node ∈ nodes f, ∃ e, Lists configDir e node ∧ diskSize e ≤ diskSize entry := by
  intro node hn
  rw [nodes_eq] at hn
  rcases List.mem_cons.mp hn with rfl | hn
  · exact ⟨entry, h, Nat.le_refl _⟩
  · obtain ⟨names, e, -, hfind, -, -, hlists⟩ := lists_under hw h node hn
    exact ⟨e, hlists, diskSize_find hfind⟩

theorem completeListing_of_lists {path : Str} {entry : Entry} {size : UInt64} {listing : SharedFile}
    (hw : entry.WellFormed) (hlt : diskSize entry < 2 ^ 64) (hsize : ownFileSize entry = .ok size)
    (h : processSharedFile configDir (SharedFile.new path entry.isDir [] size) entry = .ok listing) :
    CompleteListing configDir path entry listing := by
  obtain ⟨hpath, hlists⟩ := processSharedFile_lists entry path size listing hsize h
  have hpaths := (processSharedFile_paths entry _ listing hw rfl rfl h).2
  refine ⟨fun names e hne hfind hc => ?_, fun node hn => ?_, fun node hn hdir => ?_, fun node hn => ?_⟩
  · have hmem : joins path names ∈ (nodesIn listing.files).map SharedFile.path := by
      obtain ⟨node, hn, hnode⟩ := (hpaths (joins path names)).mpr
        ⟨names, hne, rfl, by rw [hfind]; rfl, hc⟩
      exact List.mem_map.mpr ⟨node, hn, hnode⟩
    have hnodup : ((nodesIn listing.files).map SharedFile.path).Nodup := by
      have hall := lists_paths_nodup entry listing hw hlists
      rw [nodes_eq, List.map_cons, List.nodup_cons] at hall
      exact hall.2
    have hcount := List.count_eq_one_of_mem hnodup hmem
    rw [List.count_eq_countP, List.countP_map] at hcount
    rw [← hcount]
    exact List.countP_congr fun node _ => by simp
  · obtain ⟨names, e, hne, hfind, hnode, hnot, he⟩ := lists_under hw hlists node hn
    obtain ⟨hdir, -, hbytes⟩ := lists_self he
    refine ⟨names, e, hne, hfind, hpath ▸ hnode, hnot, hdir, fun bytes hfile => ?_⟩
    have hsmall := diskSize_find hfind
    rw [hfile, diskSize] at hsmall
    rw [hbytes bytes hfile, UInt64.toNat_ofNat_of_lt' (Nat.lt_of_le_of_lt hsmall hlt)]
  · obtain ⟨e, he, hle⟩ := lists_nodes hw hlists node hn
    exact directory_size he (Nat.lt_of_le_of_lt hle hlt) hdir
  · obtain ⟨e, he, -⟩ := lists_nodes hw hlists node hn
    exact (lists_self he).2.1

mutual

/-- All of it can be read, and all names are text. -/
def Readable : Entry → Prop
  | .file _ => True
  | .hidden => False
  | .dir readable entries => readable = true ∧ ReadableIn entries

def ReadableIn : List (Option Str × Entry) → Prop
  | [] => True
  | (name, entry) :: rest => name.isSome ∧ Readable entry ∧ ReadableIn rest

end

theorem ownFileSize_readable {entry : Entry} (h : Readable entry) : ∃ size, ownFileSize entry = .ok size := by
  cases entry with
  | file bytes => exact ⟨_, rfl⟩
  | hidden => exact h.elim
  | dir readable entries => exact ⟨_, rfl⟩

mutual

/-- **What can be read is listed.** -/
theorem processSharedFile_readable : ∀ (entry : Entry) (sf : SharedFile), Readable entry →
    sf.isDirectory = entry.isDir → ∃ listing, processSharedFile configDir sf entry = .ok listing
  | .file bytes, sf, _, hdir => by
    rw [processSharedFile, hdir]
    exact ⟨sf, rfl⟩
  | .hidden, sf, h, _ => h.elim
  | .dir readable entries, sf, h, hdir => by
    rw [Readable] at h
    rw [processSharedFile, hdir, h.1]
    exact processEntries_readable entries sf h.2

theorem processEntries_readable : ∀ (entries : List (Option Str × Entry)) (sf : SharedFile),
    ReadableIn entries → ∃ listing, processEntries configDir sf entries = .ok listing
  | [], sf, _ => ⟨sf, by rw [processEntries]⟩
  | (none, entry) :: rest, sf, h => by
    rw [ReadableIn] at h
    cases h.1
  | (some name, entry) :: rest, sf, h => by
    rw [ReadableIn] at h
    rw [processEntries]
    dsimp only
    split
    · exact processEntries_readable rest sf h.2.2
    · obtain ⟨size, hsize⟩ := ownFileSize_readable h.2.1
      obtain ⟨new, hnew⟩ := processSharedFile_readable entry
        (SharedFile.new (join sf.path name) entry.isDir [] size) h.2.1 rfl
      by_cases hdir : entry.isDir = true
      · simp only [hsize, if_pos hdir, hnew, bind, Except.bind]
        exact processEntries_readable rest _ h.2.2
      · simp only [hsize, if_neg hdir, bind, Except.bind]
        exact processEntries_readable rest _ h.2.2

end

end Recursion

/-! ## 6. The whole listing -/

section Everything

variable {fs : FileSystem} {configDir nickname : Str}

/-- The entry of a shared file, where it is shared with the user and its metadata can be read. -/
def sharedEntry (fs : FileSystem) (nickname : Str) (file : ConfigSharedFile) : Option Entry :=
  if nickname ∉ file.sharedWith then none
  else
    match fs.lookup file.path with
    | none => none
    | some .hidden => none
    | some entry => some entry

/-- The bytes of all files that are shared with the user. -/
def sharedSize (fs : FileSystem) (nickname : Str) (files : List ConfigSharedFile) : Nat :=
  (files.map fun file => ((sharedEntry fs nickname file).map diskSize).getD 0).sum

/-- The listings of the shared files, in their order. -/
def AddsShared (fs : FileSystem) (configDir nickname : Str) : List ConfigSharedFile → List SharedFile → Prop
  | [], children => children = []
  | file :: files, children =>
    match sharedEntry fs nickname file with
    | none => AddsShared fs configDir nickname files children
    | some entry => ∃ f more size, children = f :: more ∧ ownFileSize entry = .ok size ∧
        processSharedFile configDir (SharedFile.new file.path entry.isDir [] size) entry = .ok f ∧
          AddsShared fs configDir nickname files more

/-- One pass of the loop. -/
theorem addSharedFile_eq (everythingFile : SharedFile) (file : ConfigSharedFile) :
    addSharedFile fs configDir nickname everythingFile file =
      (match sharedEntry fs nickname file with
      | none => .ok everythingFile
      | some entry => do
        let fileSize ← ownFileSize entry
        let sharedFile ← processSharedFile configDir (SharedFile.new file.path entry.isDir [] fileSize) entry
        .ok { everythingFile with
              fileSize := everythingFile.fileSize + sharedFile.fileSize
              files := everythingFile.files ++ [sharedFile] }) := by
  unfold addSharedFile sharedEntry
  by_cases hshared : nickname ∉ file.sharedWith
  · rw [if_pos hshared, if_pos hshared]
  · rw [if_neg hshared, if_neg hshared]
    cases fs.lookup file.path with
    | none => rfl
    | some entry => cases entry <;> rfl

theorem addSharedFiles_adds : ∀ {files : List ConfigSharedFile} {root listing : SharedFile},
    root.fileSize = UInt64.ofNat (sumSizes root.files) →
    addSharedFiles fs configDir nickname root files = .ok listing →
      listing.isDirectory = root.isDirectory ∧ listing.fileSize = UInt64.ofNat (sumSizes listing.files) ∧
        ∃ children, listing.files = root.files ++ children ∧ AddsShared fs configDir nickname files children
  | [], root, listing, hsize, h => by
    cases h
    exact ⟨rfl, hsize, [], (List.append_nil _).symm, rfl⟩
  | file :: files, root, listing, hsize, h => by
    obtain ⟨mid, hmid, h⟩ := bind_eq_ok.mp h
    rw [addSharedFile_eq] at hmid
    cases hentry : sharedEntry fs nickname file with
    | none =>
      rw [hentry] at hmid
      cases hmid
      simp only [AddsShared, hentry]
      exact addSharedFiles_adds hsize h
    | some entry =>
      rw [hentry] at hmid
      simp only [AddsShared, hentry]
      obtain ⟨size, hown, hmid⟩ := bind_eq_ok.mp hmid
      obtain ⟨f, hf, hmid⟩ := bind_eq_ok.mp hmid
      cases hmid
      have hnext : root.fileSize + f.fileSize = UInt64.ofNat (sumSizes (root.files ++ [f])) := by
        rw [hsize, ofNat_sumSizes_add, sumSizes_append]
        rfl
      obtain ⟨hdir, hsum, children, hchildren, hadds⟩ := addSharedFiles_adds hnext h
      refine ⟨hdir, hsum, f :: children, ?_, f, children, size, rfl, hown, hf, hadds⟩
      rw [hchildren]
      exact List.append_assoc root.files [f] children

/-- Every child is the listing of a shared file. -/
theorem addsShared_mem : ∀ {files : List ConfigSharedFile} {children : List SharedFile},
    AddsShared fs configDir nickname files children → ∀ f ∈ children,
      ∃ file ∈ files, ∃ entry size, sharedEntry fs nickname file = some entry ∧ ownFileSize entry = .ok size ∧
        processSharedFile configDir (SharedFile.new file.path entry.isDir [] size) entry = .ok f
  | [], children, h, f, hf => by
    rw [AddsShared] at h
    subst h
    cases hf
  | file :: files, children, h, f, hf => by
    rw [AddsShared] at h
    split at h
    · obtain ⟨file', hmem, hrest⟩ := addsShared_mem h f hf
      exact ⟨file', List.mem_cons_of_mem _ hmem, hrest⟩
    · rename_i entry hentry
      obtain ⟨g, more, size, rfl, hown, hprocess, hmore⟩ := h
      rcases List.mem_cons.mp hf with rfl | hf
      · exact ⟨file, List.mem_cons_self, entry, size, hentry, hown, hprocess⟩
      · obtain ⟨file', hmem, hrest⟩ := addsShared_mem hmore f hf
        exact ⟨file', List.mem_cons_of_mem _ hmem, hrest⟩

/-- Every shared file that is there has its child. -/
theorem addsShared_paths : ∀ {files : List ConfigSharedFile} {children : List SharedFile},
    AddsShared fs configDir nickname files children → children.map SharedFile.path =
      (files.filter fun file => (sharedEntry fs nickname file).isSome).map ConfigSharedFile.path
  | [], children, h => by
    rw [AddsShared] at h
    subst h
    rfl
  | file :: files, children, h => by
    rw [AddsShared] at h
    split at h
    · rename_i hentry
      rw [List.filter_cons_of_neg (by simp [hentry])]
      exact addsShared_paths h
    · rename_i entry hentry
      obtain ⟨f, more, size, rfl, hown, hprocess, hmore⟩ := h
      have hpath := (processSharedFile_lists entry file.path size f hown hprocess).1
      rw [List.filter_cons_of_pos (by simp [hentry]), List.map_cons, List.map_cons, addsShared_paths hmore, hpath]

/-- **The sizes of the children** are the sums of the files below them. -/
theorem addsShared_size : ∀ {files : List ConfigSharedFile} {children : List SharedFile},
    AddsShared fs configDir nickname files children → sharedSize fs nickname files < 2 ^ 64 →
      sumSizes children = fileBytes (nodesIn children) ∧ fileBytes (nodesIn children) ≤ sharedSize fs nickname files
  | [], children, h, _ => by
    rw [AddsShared] at h
    subst h
    exact ⟨rfl, Nat.le_refl _⟩
  | file :: files, children, h, hlt => by
    rw [AddsShared] at h
    have hcons : sharedSize fs nickname (file :: files) =
        ((sharedEntry fs nickname file).map diskSize).getD 0 + sharedSize fs nickname files := rfl
    rw [hcons] at hlt ⊢
    split at h
    · obtain ⟨hsum, hle⟩ := addsShared_size h (by omega)
      exact ⟨hsum, by omega⟩
    · rename_i entry hentry
      rw [hentry] at hlt ⊢
      obtain ⟨f, more, size, rfl, hown, hprocess, hmore⟩ := h
      simp only [Option.map_some, Option.getD_some] at hlt ⊢
      have hlists := (processSharedFile_lists entry file.path size f hown hprocess).2
      obtain ⟨hfirst, hfirstLe⟩ := lists_size entry f hlists (by omega)
      obtain ⟨hsum, hle⟩ := addsShared_size hmore (by omega)
      rw [nodesIn, fileBytes_append, sumSizes_cons]
      exact ⟨by omega, by omega⟩

theorem sharedEntry_wellFormed {file : ConfigSharedFile} {entry : Entry}
    (h : sharedEntry fs nickname file = some entry) : entry.WellFormed ∧ fs.lookup file.path = some entry := by
  unfold sharedEntry at h
  split at h
  · cases h
  · split at h
    · cases h
    · cases h
    · rename_i found hlookup
      cases h
      obtain ⟨here, -, hfind⟩ := Option.bind_eq_some_iff.mp hlookup
      exact ⟨fs.wellFormed.find hfind, hlookup⟩

theorem sharedSize_mem {files : List ConfigSharedFile} {file : ConfigSharedFile} {entry : Entry}
    (hf : file ∈ files) (h : sharedEntry fs nickname file = some entry) :
    diskSize entry ≤ sharedSize fs nickname files := by
  have hmem : ((sharedEntry fs nickname file).map diskSize).getD 0 ∈
      files.map fun file => ((sharedEntry fs nickname file).map diskSize).getD 0 :=
    List.mem_map.mpr ⟨file, hf, rfl⟩
  have hle := List.le_sum_of_mem hmem
  rw [h] at hle
  exact hle

/-- **The whole listing**: every shared file that is there, complete, and sizes that add up. -/
structure CompleteEverything (fs : FileSystem) (configDir nickname : Str) (files : List ConfigSharedFile)
    (listing : SharedFile) : Prop where
  shared : listing.files.map SharedFile.path =
    (files.filter fun file => (sharedEntry fs nickname file).isSome).map ConfigSharedFile.path
  complete : ∀ child ∈ listing.files, ∃ entry, fs.lookup child.path = some entry ∧
    CompleteListing configDir child.path entry child
  root : listing.fileSize.toNat = sumSizes listing.files
  sums : ∀ node ∈ nodes listing, node.isDirectory = true →
    node.fileSize.toNat = fileBytes (nodesIn node.files)
  texts : ∀ node ∈ nodes listing, node.sizeString = getFileSizeString node.fileSize

theorem completeEverything {config : Config} {listing : SharedFile}
    (hlt : sharedSize fs nickname config.configFile.sharedFiles < 2 ^ 64)
    (h : getEverythingFile fs config nickname = .ok listing) :
    CompleteEverything fs config.pathDirConfig nickname config.configFile.sharedFiles listing := by
  obtain ⟨root, hroot, h⟩ := bind_eq_ok.mp h
  cases h
  obtain ⟨hdir, hsize, children, hchildren, hadds⟩ := addSharedFiles_adds rfl hroot
  have hchildren : root.files = children := hchildren
  rw [← hchildren] at hadds
  obtain ⟨hsum, hle⟩ := addsShared_size hadds hlt
  have hrootSize : root.fileSize.toNat = sumSizes root.files := by
    rw [hsize, UInt64.toNat_ofNat_of_lt' (by rw [hsum]; exact Nat.lt_of_le_of_lt hle hlt)]
  -- what a child is the listing of
  have hchild : ∀ child ∈ root.files, ∃ entry size, fs.lookup child.path = some entry ∧ entry.WellFormed ∧
      diskSize entry < 2 ^ 64 ∧ ownFileSize entry = .ok size ∧
      processSharedFile config.pathDirConfig (SharedFile.new child.path entry.isDir [] size) entry = .ok child := by
    intro child hc
    obtain ⟨file, hfile, entry, size, hentry, hown, hprocess⟩ := addsShared_mem hadds child hc
    obtain ⟨hw, hlookup⟩ := sharedEntry_wellFormed hentry
    have hpath := (processSharedFile_lists entry file.path size child hown hprocess).1
    rw [← hpath] at hlookup hprocess
    exact ⟨entry, size, hlookup, hw, Nat.lt_of_le_of_lt (sharedSize_mem hfile hentry) hlt, hown, hprocess⟩
  have hcomplete : ∀ child ∈ root.files, ∃ entry, fs.lookup child.path = some entry ∧
      CompleteListing config.pathDirConfig child.path entry child := by
    intro child hc
    obtain ⟨entry, size, hlookup, hw, hsmall, hown, hprocess⟩ := hchild child hc
    exact ⟨entry, hlookup, completeListing_of_lists hw hsmall hown hprocess⟩
  refine ⟨addsShared_paths hadds, hcomplete, hrootSize, fun node hn hnode => ?_, fun node hn => ?_⟩
  · rw [nodes_eq] at hn
    rcases List.mem_cons.mp hn with rfl | hn
    · exact hrootSize.trans hsum
    · obtain ⟨child, hc, hn⟩ := mem_nodesIn.mp hn
      obtain ⟨entry, -, hcomplete⟩ := hcomplete child hc
      exact hcomplete.sums node hn hnode
  · rw [nodes_eq] at hn
    rcases List.mem_cons.mp hn with rfl | hn
    · rfl
    · obtain ⟨child, hc, hn⟩ := mem_nodesIn.mp hn
      obtain ⟨entry, -, hcomplete⟩ := hcomplete child hc
      exact hcomplete.texts node hn

theorem addSharedFiles_readable : ∀ (files : List ConfigSharedFile) (root : SharedFile),
    (∀ file ∈ files, ∀ entry, sharedEntry fs nickname file = some entry → Readable entry) →
      ∃ listing, addSharedFiles fs configDir nickname root files = .ok listing
  | [], root, _ => ⟨root, rfl⟩
  | file :: files, root, h => by
    have hrest := fun file' hf => h file' (List.mem_cons_of_mem _ hf)
    rw [addSharedFiles, addSharedFile_eq]
    cases hentry : sharedEntry fs nickname file with
    | none => exact addSharedFiles_readable files root hrest
    | some entry =>
      have hreadable := h file List.mem_cons_self entry hentry
      obtain ⟨size, hsize⟩ := ownFileSize_readable hreadable
      obtain ⟨f, hf⟩ := @processSharedFile_readable configDir entry
        (SharedFile.new file.path entry.isDir [] size) hreadable rfl
      simp only [hsize, hf, bind, Except.bind]
      exact addSharedFiles_readable files _ hrest

/-! ## 7. Both functions -/

/-- **The listing is complete and its sizes add up**, for the recursion over any tree and for the loop over
    the shared files. What can be read is listed. -/
theorem listing_complete :
    (∀ (configDir path : Str) (entry : Entry) (size : UInt64), entry.WellFormed → diskSize entry < 2 ^ 64 →
      ownFileSize entry = .ok size →
        (Readable entry → ∃ listing,
          processSharedFile configDir (SharedFile.new path entry.isDir [] size) entry = .ok listing) ∧
        ∀ listing, processSharedFile configDir (SharedFile.new path entry.isDir [] size) entry = .ok listing →
          CompleteListing configDir path entry listing) ∧
    ∀ (fs : FileSystem) (config : Config) (nickname : Str),
      sharedSize fs nickname config.configFile.sharedFiles < 2 ^ 64 →
        ((∀ file ∈ config.configFile.sharedFiles, ∀ entry, sharedEntry fs nickname file = some entry →
          Readable entry) → ∃ listing, getEverythingFile fs config nickname = .ok listing) ∧
        ∀ listing, getEverythingFile fs config nickname = .ok listing →
          CompleteEverything fs config.pathDirConfig nickname config.configFile.sharedFiles listing := by
  refine ⟨fun configDir path entry size hw hlt hsize => ⟨fun hreadable => ?_, fun listing h => ?_⟩,
    fun fs config nickname hlt => ⟨fun hreadable => ?_, fun listing h => completeEverything hlt h⟩⟩
  · exact processSharedFile_readable entry _ hreadable rfl
  · exact completeListing_of_lists hw hlt hsize h
  · obtain ⟨root, hroot⟩ := addSharedFiles_readable config.configFile.sharedFiles everythingRoot hreadable
    exact ⟨root.setFileSizeString, by rw [getEverythingFile, hroot]; rfl⟩

/-- A directory with a file, and with the config directory in it. -/
def sampleTree : Entry :=
  .dir true [(some "notes.txt".toList, .file [1, 2, 3]),
    (some "transmitic_config".toList, .dir true [(some "transmitic_config.json".toList, .file [4])])]

def sampleFileSystem : FileSystem where
  root := .dir true [(some "srv".toList, sampleTree)]
  wellFormed := by
    simp only [sampleTree, Entry.WellFormed, entriesWellFormed, Option.mem_some_iff, forall_eq']
    decide
  cwd := []

/-- The directory is shared with bob. -/
def sampleSharing : Config :=
  { firstStart := false
    configFile :=
      { myPrivateId := []
        sharedUsers := []
        sharedFiles := [{ path := "/srv".toList, sharedWith := ["bob".toList] }]
        sharingPort := "45454".toList
        ignoreIncoming := false
        reverseConnection := false
        pathDownloads := [] }
    localPrivateKeyBytes := []
    pathDirConfig := "transmitic_config".toList
    password := none
    nonce := 0
    iterations := 1
    configVersion := 1 }

theorem sampleSharing_entry :
    sharedEntry sampleFileSystem "bob".toList { path := "/srv".toList, sharedWith := ["bob".toList] } =
      some sampleTree := by
  rfl

/-- The directory by itself, and the listing bob gets. -/
theorem listing_complete_sample :
    (∃ listing,
      processSharedFile "transmitic_config".toList (SharedFile.new "/srv".toList true [] 0) sampleTree =
        .ok listing ∧ CompleteListing "transmitic_config".toList "/srv".toList sampleTree listing) ∧
    ∃ listing, getEverythingFile sampleFileSystem sampleSharing "bob".toList = .ok listing ∧
      CompleteEverything sampleFileSystem "transmitic_config".toList "bob".toList
        sampleSharing.configFile.sharedFiles listing := by
  have hreadable : Readable sampleTree := by simp [sampleTree, Readable, ReadableIn]
  constructor
  · have hw : sampleTree.WellFormed := by
      simp only [sampleTree, Entry.WellFormed, entriesWellFormed, Option.mem_some_iff, forall_eq']
      decide
    obtain ⟨hlisted, hcomplete⟩ := listing_complete.1 "transmitic_config".toList "/srv".toList sampleTree 0 hw
      (by decide) rfl
    obtain ⟨listing, h⟩ := hlisted hreadable
    exact ⟨listing, h, hcomplete listing h⟩
  · have hsize : sharedSize sampleFileSystem "bob".toList sampleSharing.configFile.sharedFiles < 2 ^ 64 := by
      rw [show sampleSharing.configFile.sharedFiles =
        [{ path := "/srv".toList, sharedWith := ["bob".toList] }] from rfl, sharedSize, List.map_singleton,
        sampleSharing_entry]
      decide
    obtain ⟨hlisted, hcomplete⟩ := listing_complete.2 sampleFileSystem sampleSharing "bob".toList hsize
    obtain ⟨listing, h⟩ := hlisted (by
      intro file hf entry hentry
      cases List.mem_singleton.mp hf
      rw [sampleSharing_entry] at hentry
      cases hentry
      exact hreadable)
    exact ⟨listing, h, hcomplete listing h⟩

end Everything

end Transmitic
