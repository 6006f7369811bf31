/-
  File:      Transmitic/ConfigDir.lean
  Subject:   IS THE CONFIG DIRECTORY IN A LISTING?

  Two tests keep it out: `verify_config_shared_files` refuses a path that starts with the text of
  its path, `process_shared_file` skips a path that holds that text. Both compare texts, and the
  file system reads many texts as one place.

  * `Guarded` -- the shared paths for which the two tests do their work: the path does not lead into
    the config directory, and below it the config directory has the same text as in the tests;
  * `listing_omits_configDir_iff` -- **a listing names nothing in the config directory exactly when
    every shared file it is made of is guarded**;
  * `listing_names_configDir` -- a doubled separator in a shared path, and the file with the private
    ID is in the listing.
-/
import Transmitic.ConfigReload
import Transmitic.Listing

namespace Transmitic

open Lib

/-! ## 1. The condition -/

/-- The path leads to the config directory or below it. -/
def InConfigDir (fs : FileSystem) (configDir p : Str) : Prop :=
  place fs.cwd configDir <+: place fs.cwd p

instance (fs : FileSystem) (configDir p : Str) : Decidable (InConfigDir fs configDir p) := by
  unfold InConfigDir
  infer_instance

/-- A shared path the two tests keep the config directory out of. -/
structure Guarded (fs : FileSystem) (configDir path : Str) : Prop where
  root : ¬ InConfigDir fs configDir path
  below : ∀ names, place fs.cwd path ++ names = place fs.cwd configDir →
    (fs.root.find (place fs.cwd configDir)).isSome →
      containsStr (joins path names) configDir = true

/-- The shared files a listing is made of. -/
def IsListed (fs : FileSystem) (nickname : Str) (file : ConfigSharedFile) : Prop :=
  nickname ∈ file.sharedWith ∧ ∃ entry, fs.lookup file.path = some entry ∧ entry.Visible

/-! ## 2. The listing -/

section Listing

variable {fs : FileSystem} {configDir nickname path : Str} {entry : Entry}

/-- The entries below the one a path leads to. -/
theorem find_below (h : fs.lookup path = some entry) (names : List Str) :
    entry.find names = fs.root.find (place fs.cwd path ++ names) := by
  obtain ⟨here, hw, he⟩ := Option.bind_eq_some_iff.mp h
  rw [← fs.walk_place hw, Entry.find_append, he]
  rfl

theorem place_joins_of_find (h : fs.lookup path = some entry) {names : List Str}
    (hf : (entry.find names).isSome) :
    place fs.cwd (joins path names) = place fs.cwd path ++ names := by
  obtain ⟨here, -, he⟩ := Option.bind_eq_some_iff.mp h
  obtain ⟨c, hc⟩ := Option.isSome_iff_exists.mp hf
  exact place_joins (validNames_of_find (fs.wellFormed.find he) hc)

/-- What a guarded shared file brings into the listing is outside of the config directory. -/
theorem guarded_shared {file : ConfigSharedFile} (hg : Guarded fs configDir file.path) {p : Str}
    (hp : Shared fs configDir nickname file p) : ¬ InConfigDir fs configDir p := by
  obtain ⟨-, entry, hl, -, rfl | ⟨names, -, rfl, hf, hc⟩⟩ := hp
  · exact hg.root
  intro hin
  unfold InConfigDir at hin
  rw [place_joins_of_find hl hf] at hin
  rcases List.prefix_or_prefix_of_prefix hin (List.prefix_append _ names) with h | h
  · exact hg.root h
  -- the config directory is on the way from the shared file to `p`
  obtain ⟨way, hway⟩ := h
  rw [← hway, List.prefix_append_right_inj] at hin
  obtain ⟨rest, rfl⟩ := hin
  have hexists : (fs.root.find (place fs.cwd configDir)).isSome := by
    rw [find_below hl, ← List.append_assoc, hway, Entry.find_append] at hf
    obtain ⟨c, hc⟩ := Option.isSome_iff_exists.mp hf
    obtain ⟨d, hd, -⟩ := Option.bind_eq_some_iff.mp hc
    rw [hd]
    rfl
  have hcontains := containsStr_joins rest (hg.below way hway hexists)
  rw [← joins_append, hc] at hcontains
  cases hcontains

/-- A shared file whose contribution is outside of the config directory is guarded. -/
theorem guarded_of_shared {file : ConfigSharedFile} (hl : IsListed fs nickname file)
    (h : ∀ p, Shared fs configDir nickname file p → ¬ InConfigDir fs configDir p) :
    Guarded fs configDir file.path := by
  obtain ⟨hn, entry, hentry, hv⟩ := hl
  have hroot : ¬ InConfigDir fs configDir file.path := h _ ⟨hn, entry, hentry, hv, .inl rfl⟩
  refine ⟨hroot, fun names hway hexists => ?_⟩
  by_contra hc
  simp only [Bool.not_eq_true] at hc
  have hfind : (entry.find names).isSome := by
    rw [find_below hentry, hway]
    exact hexists
  have hne : names ≠ [] := by
    rintro rfl
    rw [List.append_nil] at hway
    refine hroot ?_
    unfold InConfigDir
    rw [hway]
  refine h (joins file.path names)
    ⟨hn, entry, hentry, hv, .inr ⟨names, hne, rfl, hfind, hc⟩⟩ ?_
  unfold InConfigDir
  rw [place_joins_of_find hentry hfind, hway]

/-- **A listing names nothing in the config directory** exactly when every shared file it is made
    of is guarded. -/
theorem listing_omits_configDir_iff {config : Config} {listing : SharedFile}
    (h : getEverythingFile fs config nickname = .ok listing) :
    (∀ node ∈ nodesIn listing.files, ¬ InConfigDir fs config.pathDirConfig node.path) ↔
      ∀ file ∈ config.configFile.sharedFiles, IsListed fs nickname file →
        Guarded fs config.pathDirConfig file.path := by
  have hpaths := getEverythingFile_paths h
  constructor
  · intro hnodes file hfile hlisted
    refine guarded_of_shared hlisted fun p hp => ?_
    obtain ⟨node, hnode, rfl⟩ := (hpaths p).mpr ⟨file, hfile, hp⟩
    exact hnodes node hnode
  · intro hall node hnode
    obtain ⟨file, hfile, hp⟩ := (hpaths node.path).mp ⟨node, hnode, rfl⟩
    obtain ⟨hn, entry, hl, hv, -⟩ := id hp
    exact guarded_shared (hall file hfile ⟨hn, entry, hl, hv⟩) hp

end Listing

/-! ## 3. A doubled separator -/

def homeDir : Str := "/home/u/transmitic_config".toList

/-- A home directory with the config in it. -/
def homeTree : Entry :=
  .dir true [(some "home".toList, .dir true [(some "u".toList, .dir true
    [(some "transmitic_config".toList, .dir true
      [(some "transmitic_config.json".toList, .file (utf8 "my_private_id".toList))])])])]

theorem homeTree_wellFormed : homeTree.WellFormed := by
  simp only [homeTree, Entry.WellFormed, entriesWellFormed]
  decide

def homeFs : FileSystem := { root := homeTree, wellFormed := homeTree_wellFormed, cwd := [] }

/-- The config that shares `path` with one user. -/
def homeConfig (path : Str) : Config :=
  { firstStart := false
    configFile := { sampleConfig [] with
      sharedUsers := [{ nickname := "bob".toList, publicId := Base64.encode samplePublicKey,
                        ip := "192.0.2.1".toList, port := "45454".toList, allowed := true }]
      sharedFiles := [{ path, sharedWith := ["bob".toList] }] }
    localPrivateKeyBytes := sampleKey
    pathDirConfig := homeDir
    password := none
    nonce := nonceInit
    iterations := pbkdf2Iterations
    configVersion := configVersion }

/-- The paths of the listing for the user, and which of them are directories. -/
def homeListing (path : Str) : Option (List (Str × Bool)) :=
  (getEverythingFile homeFs (homeConfig path) "bob".toList).toOption.map fun listing =>
    (nodesIn listing.files).map fun node => (node.path, node.isDirectory)

/-- The equivalence where a home directory is shared under its plain path. -/
theorem listing_omits_configDir_home : ∃ listing,
    getEverythingFile homeFs (homeConfig "/home/u".toList) "bob".toList = .ok listing ∧
      ((∀ node ∈ nodesIn listing.files, ¬ InConfigDir homeFs homeDir node.path) ↔
        ∀ file ∈ (homeConfig "/home/u".toList).configFile.sharedFiles,
          IsListed homeFs "bob".toList file → Guarded homeFs homeDir file.path) := by
  have hl : homeListing "/home/u".toList = some [("/home/u".toList, true)] := by decide +kernel
  obtain ⟨listing, h, -⟩ := Option.map_eq_some_iff.mp hl
  cases hg : getEverythingFile homeFs (homeConfig "/home/u".toList) "bob".toList with
  | error e =>
    rw [hg] at h
    cases h
  | ok listing => exact ⟨listing, rfl, listing_omits_configDir_iff hg⟩

/-- **The directory above the config directory, shared as `/home//u`**: the config is accepted, and
    its listing holds the file with the private ID. -/
theorem listing_names_configDir : ∃ (crates : Crates) (config : Config) (fs : FileSystem)
    (nickname : Str) (listing node : SharedFile),
      @verifyConfig crates config.pathDirConfig config.configFile = .ok config.configFile ∧
      getEverythingFile fs config nickname = .ok listing ∧ node ∈ nodesIn listing.files ∧
      node.isDirectory = false ∧ InConfigDir fs config.pathDirConfig node.path ∧
      place fs.cwd node.path =
        place fs.cwd (getExpectedConfigPath config.pathDirConfig false) := by
  have hverify : @verifyConfig (sampleCrates []) homeDir (homeConfig "/home//u".toList).configFile =
      .ok (homeConfig "/home//u".toList).configFile := by decide +kernel
  have hl : homeListing "/home//u".toList = some [("/home//u".toList, true),
      ("/home//u/transmitic_config".toList, true),
      ("/home//u/transmitic_config/transmitic_config.json".toList, false)] := by decide +kernel
  obtain ⟨listing, h, hnodes⟩ := Option.map_eq_some_iff.mp hl
  have hlast : ("/home//u/transmitic_config/transmitic_config.json".toList, false) ∈
      (nodesIn listing.files).map fun node => (node.path, node.isDirectory) := by
    rw [hnodes]
    simp
  obtain ⟨node, hnode, hnp⟩ := List.mem_map.mp hlast
  obtain ⟨hp, hd⟩ := Prod.mk.inj hnp
  cases hg : getEverythingFile homeFs (homeConfig "/home//u".toList) "bob".toList with
  | error e =>
    rw [hg] at h
    cases h
  | ok got =>
    rw [hg] at h
    cases h
    refine ⟨sampleCrates [], _, homeFs, _, listing, node, hverify, hg, hnode, hd, ?_, ?_⟩
    · rw [hp]
      decide +kernel
    · rw [hp]
      decide +kernel

end Transmitic
