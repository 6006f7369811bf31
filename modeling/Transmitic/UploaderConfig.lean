/-
  File:      Transmitic/UploaderConfig.lean
  Subject:   THE CONFIG THE UPLOADS GO BY is the config of the core (transmitic_core.rs).

  The core changes its own config, and sends the manager a copy after some of the operations only. The
  others write the config to the disk again, and writing sanitizes it again. For the uploads that is a
  change where a path that is shared still starts with white space, which a config read from the disk
  may hold: `"file:// /x"` is read as `" /x"` and written as `"/x"`.

  * `Operation.forwards` -- after which operations the core sends its config;
  * `Mirrors` -- what the uploads depend on is alike in two configs;
  * `quiet_mirrors` -- **the other operations change nothing of it** where all shared paths are clean;
  * `uploader_config_agrees` -- the two configs agree once the manager's channel is drained.
-/
import Transmitic.ConfigDir
import Transmitic.ConfigUsers
import Transmitic.Listing
import Transmitic.ManagerState

namespace Transmitic

open Lib

/-! ## 1. The core and the manager -/

/-- The operations after which the core sends the manager its config. -/
def Operation.forwards : Operation → Bool
  | .addFiles _ => false
  | .encryptConfig _ => false
  | .decryptConfig => false
  | .setPathDownloadsDir _ => false
  | _ => true

structure ConfigSystem where
  /-- The config of the core. -/
  config : Config
  disk : Disk
  side : ManagerSide

section System

variable [Crates] (configDir : Str)

/-- One operation of the core on its config. Its message is sent where the operation succeeds. -/
structure ConfigSystem.Operates (s : ConfigSystem) (op : Operation) (s' : ConfigSystem) : Prop where
  run : ∃ o r, op.run configDir s.config o s.disk = (r, s'.config, s'.disk) ∧ r ≠ .error .panic ∧
    if r = .ok () ∧ op.forwards then s.side.Sends (.newConfig s'.config) s'.side else s'.side = s.side

inductive ConfigSystem.Step (allowed : Config → Operation → Prop) (s : ConfigSystem) :
    ConfigSystem → Prop where
  | manager (side : ManagerSide) (h : s.side.Turn side) : s.Step allowed { s with side }
  | operation (op : Operation) (s' : ConfigSystem) (hop : allowed s.config op)
      (h : s.Operates configDir op s') : s.Step allowed s'
  /-- `set_my_sharing_state`. -/
  | sharing (sharingState : SharingState) (side : ManagerSide)
      (h : s.side.Sends (.sharingStateMsg sharingState) side) : s.Step allowed { s with side }

/-- `TransmiticCore::new`, with the config the program starts with. -/
structure ConfigSystem.Start (s : ConfigSystem) : Prop where
  config : ∃ isFirstStart password o disk, Config.new configDir isFirstStart password o disk =
    .ok (s.config, s.disk)
  side : ∃ fuel n reverseFileList, s.side = ManagerSide.start fuel n s.config reverseFileList

inductive ConfigSystem.Run (allowed : Config → Operation → Prop) : ConfigSystem → Prop where
  | start (s : ConfigSystem) (h : s.Start configDir) : ConfigSystem.Run allowed s
  | step (s s' : ConfigSystem) (h : ConfigSystem.Run allowed s) (hs : s.Step configDir allowed s') :
      ConfigSystem.Run allowed s'

end System

/-! ## 2. What the uploads depend on -/

/-- The configs agree on what the uploads depend on. -/
structure Agrees (m c : Config) : Prop where
  listing : ∀ fs nickname, getEverythingFile fs m nickname = getEverythingFile fs c nickname
  users : ∀ user, user ∈ m.configFile.sharedUsers ↔ user ∈ c.configFile.sharedUsers
  privateId : m.localPrivateKeyBytes = c.localPrivateKeyBytes
  port : m.configFile.sharingPort = c.configFile.sharingPort
  ignoreIncoming : m.configFile.ignoreIncoming = c.configFile.ignoreIncoming
  reverseConnection : m.configFile.reverseConnection = c.configFile.reverseConnection

/-- The files that are shared with a user. -/
def sharedFor (nickname : Str) (files : List ConfigSharedFile) : List ConfigSharedFile :=
  files.filter fun file => nickname ∈ file.sharedWith

/-- The parts of a config file that the uploads read. -/
structure FileMirrors (m c : ConfigFile) : Prop where
  shared : ∀ nickname, sharedFor nickname m.sharedFiles = sharedFor nickname c.sharedFiles
  users : ∀ user, user ∈ m.sharedUsers ↔ user ∈ c.sharedUsers
  port : m.sharingPort = c.sharingPort
  ignoreIncoming : m.ignoreIncoming = c.ignoreIncoming
  reverseConnection : m.reverseConnection = c.reverseConnection

/-- The parts of a config that the uploads read. -/
structure Mirrors (m c : Config) : Prop where
  file : FileMirrors m.configFile c.configFile
  directory : m.pathDirConfig = c.pathDirConfig
  privateId : m.localPrivateKeyBytes = c.localPrivateKeyBytes

theorem FileMirrors.refl (c : ConfigFile) : FileMirrors c c :=
  ⟨fun _ => rfl, fun _ => Iff.rfl, rfl, rfl, rfl⟩

theorem Mirrors.refl (c : Config) : Mirrors c c := ⟨.refl _, rfl, rfl⟩

theorem FileMirrors.trans {a b c : ConfigFile} (h : FileMirrors a b) (h' : FileMirrors b c) :
    FileMirrors a c where
  shared nickname := (h.shared nickname).trans (h'.shared nickname)
  users user := (h.users user).trans (h'.users user)
  port := h.port.trans h'.port
  ignoreIncoming := h.ignoreIncoming.trans h'.ignoreIncoming
  reverseConnection := h.reverseConnection.trans h'.reverseConnection

theorem Mirrors.trans {a b c : Config} (h : Mirrors a b) (h' : Mirrors b c) : Mirrors a c :=
  ⟨h.file.trans h'.file, h.directory.trans h'.directory, h.privateId.trans h'.privateId⟩

/-- **A listing reads the files shared with the user only.** -/
theorem addSharedFiles_sharedFor (fs : FileSystem) (configDir nickname : Str) :
    ∀ (files : List ConfigSharedFile) (everythingFile : SharedFile),
      addSharedFiles fs configDir nickname everythingFile (sharedFor nickname files) =
        addSharedFiles fs configDir nickname everythingFile files
  | [], _ => rfl
  | file :: files, everythingFile => by
    unfold sharedFor
    rw [List.filter_cons]
    split
    · exact bind_congr fun _ => addSharedFiles_sharedFor fs configDir nickname files _
    · rename_i hnot
      have hskip : addSharedFile fs configDir nickname everythingFile file = .ok everythingFile := by
        unfold addSharedFile
        rw [if_pos (by simpa using hnot)]
      show _ = (addSharedFile fs configDir nickname everythingFile file >>= fun _ => _)
      rw [hskip]
      exact addSharedFiles_sharedFor fs configDir nickname files everythingFile

theorem Mirrors.agrees {m c : Config} (h : Mirrors m c) : Agrees m c where
  listing fs nickname := by
    unfold getEverythingFile
    rw [h.directory, ← addSharedFiles_sharedFor fs _ nickname m.configFile.sharedFiles,
      h.file.shared nickname, addSharedFiles_sharedFor]
  users := h.file.users
  privateId := h.privateId
  port := h.file.port
  ignoreIncoming := h.file.ignoreIncoming
  reverseConnection := h.file.reverseConnection

/-! ## 3. Sanitizing again -/

/-- No shared path starts, or ends, with white space. -/
def ConfigFile.SharedClean (c : ConfigFile) : Prop :=
  ∀ file ∈ c.sharedFiles, file.sharedWith ≠ [] → trim file.path = file.path

/-- The operation's config is sent, or all that is shared is clean. -/
def SentOrClean (c : Config) (op : Operation) : Prop := op.forwards = true ∨ c.configFile.SharedClean

theorem sharedFor_sanitized {files : List ConfigSharedFile} (nickname : Str)
    (h : ∀ file ∈ files, file.sharedWith = [] ∨ sanitizeFile file = file) :
    sharedFor nickname (files.map sanitizeFile) = sharedFor nickname files := by
  induction files with
  | nil => rfl
  | cons file files ih =>
    have ih := ih fun f hf => h f (List.mem_cons_of_mem _ hf)
    unfold sharedFor at ih ⊢
    rw [List.map_cons, List.filter_cons, List.filter_cons, ih]
    rcases h file List.mem_cons_self with hempty | hfixed
    · have hsanitized : (sanitizeFile file).sharedWith = [] := by
        unfold sanitizeFile sortStrings
        simp [hempty]
      rw [hempty, hsanitized]
      rfl
    · rw [hfixed]

section Again

variable [Crates] {configDir : Str} {raw c : ConfigFile}

/-- A path of a verified config that is clean is left alone. -/
theorem sanitizeFile_clean {file : ConfigSharedFile}
    (h : verifyConfig configDir raw = .ok c) (hf : file ∈ c.sharedFiles)
    (hclean : trim file.path = file.path) : sanitizeFile file = file := by
  obtain ⟨hc, hv⟩ := verifyConfig_eq_ok.mp h
  have hpath : stripFileUrl file.path = file.path := by
    unfold stripFileUrl
    rw [if_neg]
    intro hprefix
    obtain ⟨rest, hrest⟩ := List.isPrefixOf_iff_prefix.mp hprefix
    have hvalid := verifySanitized_paths hv file hf
    rw [fileUrl_not_valid (hclean.trans hrest.symm)] at hvalid
    cases hvalid
  have hshared : sortStrings (file.sharedWith.map trim) = file.sharedWith := by
    rw [hc] at hf
    obtain ⟨f, -, rfl⟩ := List.mem_map.mp hf
    exact sanitizeSharedWith_idem f.sharedWith
  unfold sanitizeFile
  rw [hclean, hpath, hshared]

/-- The users of a verified config stay who they are. -/
theorem sanitizeUsers_mem (h : verifyConfig configDir raw = .ok c) (user : SharedUser) :
    user ∈ (sortByNickname c.sharedUsers).map sanitizeUser ↔ user ∈ c.sharedUsers := by
  have hfixed : ∀ u ∈ c.sharedUsers, sanitizeUser u = u := by
    intro u hu
    rw [(verifyConfig_eq_ok.mp h).1] at hu
    obtain ⟨v, -, rfl⟩ := List.mem_map.mp hu
    exact sanitizeUser_idem v
  have hmem : ∀ u, u ∈ sortByNickname c.sharedUsers ↔ u ∈ c.sharedUsers := fun u =>
    List.mem_insertionSort _
  constructor
  · intro hu
    obtain ⟨v, hv, rfl⟩ := List.mem_map.mp hu
    rw [hmem] at hv
    rw [hfixed v hv]
    exact hv
  · intro hu
    exact List.mem_map.mpr ⟨user, (hmem user).mpr hu, hfixed user hu⟩

/-- **A config that is written again**, with new files that are shared with nobody. -/
theorem rewritten_mirrors {new : List ConfigSharedFile} {pathDownloads : Str}
    (h : verifyConfig configDir raw = .ok c) (hclean : c.SharedClean)
    (hnew : ∀ file ∈ new, file.sharedWith = []) :
    FileMirrors c (sanitizeConfig { c with sharedFiles := c.sharedFiles ++ new, pathDownloads }) where
  shared nickname := by
    have hnone : sharedFor nickname new = [] := by
      refine List.filter_eq_nil_iff.mpr fun file hf => ?_
      simp [hnew file hf]
    have hsame : sharedFor nickname (c.sharedFiles ++ new) = sharedFor nickname c.sharedFiles := by
      unfold sharedFor at hnone ⊢
      rw [List.filter_append, hnone, List.append_nil]
    have hfixed : ∀ file ∈ c.sharedFiles ++ new, file.sharedWith = [] ∨ sanitizeFile file = file := by
      intro file hf
      rcases List.mem_append.mp hf with hf | hf
      · by_cases hempty : file.sharedWith = []
        · exact .inl hempty
        · exact .inr (sanitizeFile_clean h hf (hclean file hf hempty))
      · exact .inl (hnew file hf)
    show _ = sharedFor nickname ((c.sharedFiles ++ new).map sanitizeFile)
    rw [sharedFor_sanitized nickname hfixed, hsame]
  users user := (sanitizeUsers_mem h user).symm
  port := by
    show c.sharingPort = trim c.sharingPort
    rw [(verifyConfig_eq_ok.mp h).1]
    exact (trim_trim raw.sharingPort).symm
  ignoreIncoming := rfl
  reverseConnection := rfl

omit [Crates] in
theorem newFiles_sharedWith {existingPaths files : List Str} :
    ∀ file ∈ Config.newFiles existingPaths files, file.sharedWith = [] := by
  induction files with
  | nil => exact fun file hf => absurd hf List.not_mem_nil
  | cons path files ih =>
    intro file hf
    unfold Config.newFiles at hf
    dsimp only at hf
    split at hf
    · exact ih file hf
    · rcases List.mem_cons.mp hf with rfl | hf
      · rfl
      · exact ih file hf

/-! ## 4. One operation -/

variable {m m' : Config} {disk disk' : Disk} {o : Outcomes} {r : Except Exc Unit} {op : Operation}

/-- **The operations whose config is not sent.** -/
theorem quiet_mirrors (hop : op.forwards = false) (hv : Verified configDir m)
    (hclean : m.configFile.SharedClean) (heffect : op.Effect configDir m r m') :
    FileMirrors m.configFile m'.configFile ∧ m'.localPrivateKeyBytes = m.localPrivateKeyBytes := by
  cases heffect with
  | none hfile hkey hr =>
    rw [hfile]
    exact ⟨.refl _, hkey⟩
  | written key hfile hid hkey =>
    obtain ⟨raw, hraw⟩ := hv
    have hkey := hkey fun he => by
      rw [he] at hop
      cases hop
    have hrewritten : ∃ new pathDownloads, op.edited key m.configFile =
        { m.configFile with sharedFiles := m.configFile.sharedFiles ++ new, pathDownloads } ∧
          ∀ file ∈ new, file.sharedWith = [] := by
      have hsame : m.configFile.sharedFiles ++ [] = m.configFile.sharedFiles := List.append_nil _
      cases op with
      | addFiles files => exact ⟨_, _, rfl, newFiles_sharedWith⟩
      | encryptConfig password =>
        exact ⟨[], m.configFile.pathDownloads, by rw [hsame]; rfl, fun _ hf => absurd hf List.not_mem_nil⟩
      | decryptConfig =>
        exact ⟨[], m.configFile.pathDownloads, by rw [hsame]; rfl, fun _ hf => absurd hf List.not_mem_nil⟩
      | setPathDownloadsDir path =>
        exact ⟨[], path, by rw [hsame]; rfl, fun _ hf => absurd hf List.not_mem_nil⟩
      | _ => cases hop
    obtain ⟨new, pathDownloads, hedited, hnew⟩ := hrewritten
    rw [hedited] at hfile
    rw [(verifyConfig_eq_ok.mp hfile).1]
    exact ⟨rewritten_mirrors hraw hclean hnew, hkey⟩

/-- What the operation leaves alone: always the directory, and all that the uploads read where an
    operation whose config is sent fails. -/
structure Spares (forwards : Bool) (m : Config) (r : Except Exc Unit) (m' : Config) : Prop where
  directory : m'.pathDirConfig = m.pathDirConfig
  failed : forwards = true → r ≠ .ok () →
    m'.configFile = m.configFile ∧ m'.localPrivateKeyBytes = m.localPrivateKeyBytes

omit [Crates] in
theorem spares_refl {forwards : Bool} : Spares forwards m r m := ⟨rfl, fun _ _ => ⟨rfl, rfl⟩⟩

theorem write_spares {forwards : Bool} {raw : ConfigFile}
    (h : m.writeAndSetConfig configDir raw o disk = (r, m', disk')) : Spares forwards m r m' := by
  unfold Config.writeAndSetConfig at h
  dsimp only at h
  split at h
  · cases h
    exact ⟨rfl, fun _ _ => ⟨rfl, rfl⟩⟩
  · cases h
    exact ⟨rfl, fun _ hr => absurd rfl hr⟩

theorem createNewId_spares {forwards : Bool} (h : m.createNewId configDir o disk = (r, m', disk')) :
    Spares forwards m r m' := by
  unfold Config.createNewId at h
  split at h
  · cases h
    exact spares_refl
  · split at h
    · rename_i hw
      cases h
      exact write_spares hw
    · rename_i hw
      obtain ⟨-, ⟨-, hne⟩ | hv⟩ := writes_of_writeAndSetConfig hw
      · exact absurd rfl hne
      -- what was written is verified, so the private ID decodes
      obtain ⟨bytes, hbytes⟩ := decode_myPrivateId hv
      rw [hbytes] at h
      cases h
      have hdirectory := (write_spares hw : Spares forwards _ _ _).directory
      exact ⟨hdirectory, fun _ hr => absurd rfl hr⟩

theorem encryptConfig_directory {password : Str}
    (h : m.encryptConfig configDir password o disk = (r, m', disk')) :
    m'.pathDirConfig = m.pathDirConfig := by
  unfold Config.encryptConfig at h
  split at h
  · cases h
    rfl
  · split at h
    · rename_i hw
      cases h
      exact (write_spares hw : Spares false _ _ _).directory
    · rename_i hw
      have hdirectory := (write_spares hw : Spares false _ _ _).directory
      split at h <;> (cases h; exact hdirectory)

theorem decryptConfig_directory (h : m.decryptConfig configDir o disk = (r, m', disk')) :
    m'.pathDirConfig = m.pathDirConfig := by
  unfold Config.decryptConfig at h
  split at h
  · cases h
    rfl
  · split at h
    · rename_i hw
      cases h
      exact (write_spares hw : Spares false _ _ _).directory
    · rename_i hw
      have hdirectory := (write_spares hw : Spares false _ _ _).directory
      split at h <;> (cases h; exact hdirectory)

/-- **Every operation**, whether it succeeds or fails. -/
theorem operation_spares (h : op.run configDir m o disk = (r, m', disk')) :
    Spares op.forwards m r m' := by
  unfold Operation.run at h
  cases op with
  | addUserToShared nickname filePath =>
    dsimp only at h
    unfold Config.addUserToShared at h
    split at h
    · cases h
      exact spares_refl
    · split at h
      · cases h
        exact spares_refl
      · split at h
        · cases h
          exact spares_refl
        · exact write_spares h
  | createNewId => exact createNewId_spares h
  | setUserIsAllowedState nickname isAllowed =>
    dsimp only at h
    unfold Config.setUserIsAllowedState at h
    split at h
    · exact write_spares h
    · cases h
      exact spares_refl
  | updateUser nickname publicId ip port =>
    dsimp only at h
    unfold Config.updateUser at h
    split at h
    · exact write_spares h
    · cases h
      exact spares_refl
  | encryptConfig password => exact ⟨encryptConfig_directory h, fun hop => nomatch hop⟩
  | decryptConfig => exact ⟨decryptConfig_directory h, fun hop => nomatch hop⟩
  | _ => exact write_spares h

/-- **An operation whose config is not sent** changes nothing the uploads read. -/
theorem unsent_mirrors (hv : Verified configDir m) (hallowed : SentOrClean m op)
    (hunsent : ¬ (r = .ok () ∧ op.forwards = true))
    (h : op.run configDir m o disk = (r, m', disk')) : Mirrors m m' := by
  have hspares := operation_spares h
  cases hop : op.forwards with
  | true =>
    have hr : r ≠ .ok () := fun hr => hunsent ⟨hr, hop⟩
    obtain ⟨hfile, hkey⟩ := hspares.failed hop hr
    exact ⟨hfile ▸ .refl _, hspares.directory.symm, hkey.symm⟩
  | false =>
    have hclean : m.configFile.SharedClean := hallowed.resolve_left (by rw [hop]; exact Bool.false_ne_true)
    obtain ⟨hfile, hkey⟩ := quiet_mirrors hop hv hclean (operation_effect h)
    exact ⟨hfile, hspares.directory.symm, hkey.symm⟩

theorem Verified.effect (hv : Verified configDir m) (h : op.Effect configDir m r m') :
    Verified configDir m' := by
  cases h with
  | none hfile hkey hr =>
    obtain ⟨raw, hraw⟩ := hv
    exact ⟨raw, hfile ▸ hraw⟩
  | written key hfile hid hkey => exact ⟨_, hfile⟩

end Again

/-! ## 5. Every run -/

section Runs

variable [Crates] {configDir : Str} {s s' : ConfigSystem} {w : UploaderManager.Told}

/-- What the manager comes to mirrors the config of the core. -/
structure ConfigSystem.Consistent (configDir : Str) (s : ConfigSystem) (w : UploaderManager.Told) : Prop where
  linked : Linked s.side w
  verified : Verified configDir s.config
  mirrors : Mirrors (s.side.comesTo w).config s.config

/-- The core's operation. -/
theorem ConfigSystem.Consistent.operates {op : Operation} (h : s.Consistent configDir w)
    (hallowed : SentOrClean s.config op) (ho : s.Operates configDir op s') :
    s'.Consistent configDir w := by
  obtain ⟨o, r, hrun, -, hsent⟩ := ho.run
  have hverified := h.verified.effect (operation_effect hrun)
  split at hsent
  · obtain ⟨-, hside⟩ := hsent
    refine ⟨hside ▸ h.linked.post _, hverified, ?_⟩
    rw [hside, comesTo_post]
    exact .refl _
  · rename_i hunsent
    refine ⟨hsent ▸ h.linked, hverified, ?_⟩
    rw [hsent]
    exact h.mirrors.trans (unsent_mirrors h.verified hallowed hunsent hrun)

/-- **A step of the core or the manager.** -/
theorem ConfigSystem.Consistent.step (h : s.Consistent configDir w)
    (hs : s.Step configDir SentOrClean s') : ∃ w', s'.Consistent configDir w' := by
  cases hs with
  | manager side hturn =>
    obtain ⟨w', hl, hgoes⟩ := h.linked.turn hturn
    refine ⟨w', hl, h.verified, ?_⟩
    show Mirrors (side.comesTo w').config s.config
    rw [hgoes.config]
    exact h.mirrors
  | operation op s' hallowed ho => exact ⟨w, h.operates hallowed ho⟩
  | sharing sharingState side hsends =>
    obtain ⟨-, rfl⟩ := hsends
    refine ⟨w, h.linked.post _, h.verified, ?_⟩
    show Mirrors ((s.side.post _).comesTo w).config s.config
    rw [comesTo_post]
    exact h.mirrors

theorem ConfigSystem.Start.consistent (h : s.Start configDir) :
    ∃ w, s.Consistent configDir w := by
  obtain ⟨⟨isFirstStart, password, o, disk, hnew⟩, ⟨fuel, n, reverseFileList, hside⟩⟩ := h
  refine ⟨{ config := s.config, sharingState := .off, reporting := false }, ?_, (new_kept hnew).1, ?_⟩
  · rw [hside]
    exact linked_start fuel n s.config reverseFileList
  · rw [hside]
    exact .refl _

theorem ConfigSystem.Run.consistent (h : ConfigSystem.Run configDir SentOrClean s) :
    ∃ w, s.Consistent configDir w := by
  induction h with
  | start s hstart => exact hstart.consistent
  | step s s' _ hs ih =>
    obtain ⟨w, hw⟩ := ih
    exact hw.step hs

/-- **The config of the manager and the config of the core agree** on all that uploads depend on, in
    every run in which no operation rewrites a shared path without sending it, once the manager's
    channel is drained. -/
theorem uploader_config_agrees (h : ConfigSystem.Run configDir SentOrClean s)
    (hdrained : s.side.queues.inbox = []) : Agrees s.side.manager.state.config s.config := by
  obtain ⟨w, hw⟩ := h.consistent
  have hgoes := (hw.linked.drained hdrained).1
  have hconfig : s.side.manager.state.config = (s.side.comesTo w).config := congrArg Prod.fst hgoes
  rw [hconfig]
  exact hw.mirrors.agrees

end Runs

/-! ## 6. A shared path behind `file://` -/

/-- The JSON of a config that shares `path` with bob. -/
def homeJson (path : Str) : Str :=
  let text (s : Str) : Str := '"' :: s ++ "\"".toList
  let user : Str := "\n    \x7b".toList ++
    jsonLine 6 "nickname".toList (text "bob".toList ++ [',']) ++
    jsonLine 6 "public_id".toList (text (Base64.encode samplePublicKey) ++ [',']) ++
    jsonLine 6 "ip".toList (text "192.0.2.1".toList ++ [',']) ++
    jsonLine 6 "port".toList (text "45454".toList ++ [',']) ++
    jsonLine 6 "allowed".toList "true".toList ++ "\n    \x7d".toList
  let file : Str := "\n    \x7b".toList ++
    jsonLine 6 "path".toList (text path ++ [',']) ++
    jsonLine 6 "shared_with".toList ("[\n        ".toList ++ text "bob".toList ++ "\n      ]".toList) ++
    "\n    \x7d".toList
  '\x7b' :: jsonLine 2 "my_private_id".toList (text (Base64.encode sampleKey) ++ [',']) ++
    jsonLine 2 "shared_users".toList ('[' :: user ++ "\n  ],".toList) ++
    jsonLine 2 "shared_files".toList ('[' :: file ++ "\n  ],".toList) ++
    jsonLine 2 "sharing_port".toList "\"45454\",".toList ++
    jsonLine 2 "ignore_incoming".toList "false,".toList ++
    jsonLine 2 "reverse_connection".toList "false,".toList ++
    jsonLine 2 "path_downloads".toList "\"\"".toList ++ ['\n', '\x7d']

/-- The other packages, on the configs with these paths. -/
@[reducible] def homeCrates : Crates :=
  sampleCrates (["file:// /home/u".toList, "/home/u".toList].map fun path =>
    ((homeConfig path).configFile, homeJson path))

def homeDisk (path : Str) : Disk :=
  { configJson := some (utf8 (homeJson path)), encryptedConfig := none }

/-- A program with the config that shares `path`, read from the disk with `raw`. -/
def homeSystem (raw path : Str) : ConfigSystem :=
  { config := homeConfig path
    disk := homeDisk raw
    side := ManagerSide.start 2 1 (homeConfig path) 0 }

theorem homeSystem_start {raw path : Str}
    (hj : homeCrates.configFromJson (homeJson raw) = .ok (homeConfig raw).configFile)
    (hv : @verifyConfig homeCrates homeDir (homeConfig raw).configFile =
      .ok (homeConfig path).configFile) :
    @ConfigSystem.Start homeCrates homeDir (homeSystem raw path) := by
  refine @ConfigSystem.Start.mk homeCrates _ _ ⟨false, none, sampleOutcomes, homeDisk raw, ?_⟩
    ⟨2, 1, 0, rfl⟩
  exact @new_of_read homeCrates _ _ _ _ _ _ _ rfl
    (@readConfig_plain homeCrates _ _ _ _ _ rfl hj hv) (Base64.decode_encode sampleKey)

/-- Bob has the directory already; the manager hears of the config again. -/
theorem uploader_config_agrees_sample : ∃ s,
    @ConfigSystem.Run homeCrates homeDir SentOrClean s ∧ Agrees s.side.manager.state.config s.config := by
  have hstart : @ConfigSystem.Start homeCrates homeDir (homeSystem "/home/u".toList "/home/u".toList) :=
    homeSystem_start (by decide +kernel) (by decide +kernel)
  let s₀ := homeSystem "/home/u".toList "/home/u".toList
  let s₁ : ConfigSystem := { s₀ with side := s₀.side.post (.newConfig s₀.config) }
  have hrun : @Operation.run homeCrates homeDir s₀.config sampleOutcomes s₀.disk
      (.addUserToShared "bob".toList "/home/u".toList) = (.ok (), s₀.config, s₀.disk) := by decide +kernel
  have h₀ : @ConfigSystem.Run homeCrates homeDir SentOrClean s₀ := @ConfigSystem.Run.start homeCrates _ _ _ hstart
  have hop : @ConfigSystem.Operates homeCrates homeDir s₀ (.addUserToShared "bob".toList "/home/u".toList) s₁ :=
    @ConfigSystem.Operates.mk homeCrates _ _ _ _ ⟨sampleOutcomes, .ok (), hrun, nofun, rfl, rfl⟩
  have h₁ := @ConfigSystem.Run.step homeCrates _ _ _ _ h₀
    (@ConfigSystem.Step.operation homeCrates _ _ _ _ _ (.inl rfl) hop)
  have h₂ := @ConfigSystem.Run.step homeCrates _ _ _ _ h₁ (@ConfigSystem.Step.manager homeCrates _ _ _ _
    (.turn _ .tryRecv _ (.value (.newConfig s₀.config)) { inbox := [], errors := [] } rfl ⟨rfl, rfl⟩))
  exact ⟨_, h₂, @uploader_config_agrees homeCrates _ _ h₂ rfl⟩

theorem homeSystem_rewritten : @Operation.run homeCrates homeDir (homeConfig " /home/u".toList) sampleOutcomes
    (homeDisk "file:// /home/u".toList) (.addFiles []) =
      (.ok (), homeConfig "/home/u".toList, homeDisk "/home/u".toList) := by
  have hv : @verifyConfig homeCrates homeDir (homeConfig " /home/u".toList).configFile =
      .ok (homeConfig "/home/u".toList).configFile := by decide +kernel
  have hj : homeCrates.configToJson (homeConfig "/home/u".toList).configFile =
      .ok (homeJson "/home/u".toList) := by decide +kernel
  have hwrite : @writeConfig homeCrates homeDir sampleOutcomes (homeConfig " /home/u".toList).configFile none
      nonceInit pbkdf2Iterations configVersion (homeDisk "file:// /home/u".toList) =
        .ok ((homeConfig "/home/u".toList).configFile, homeDisk "/home/u".toList) := by
    simp only [writeConfig, hv, hj, orErr, getFileStr, sampleOutcomes, bind, Except.bind]
    rfl
  unfold Operation.run Config.addFiles
  exact @writeAndSetConfig_eq homeCrates _ (homeConfig " /home/u".toList) _ _ _ _ _ hwrite

/-- **A path written as `file:// /home/u` in the config**: it is shared as `" /home/u"`, and `"/home/u"`
    once any file is added. The manager is not told. -/
theorem uploader_config_stale : ∃ (crates : Crates) (configDir : Str) (s : ConfigSystem),
    @ConfigSystem.Run crates configDir (fun _ _ => True) s ∧ s.side.queues.inbox = [] ∧
      ¬ Agrees s.side.manager.state.config s.config := by
  have hstart : @ConfigSystem.Start homeCrates homeDir
      (homeSystem "file:// /home/u".toList " /home/u".toList) :=
    homeSystem_start (by decide +kernel) (by decide +kernel)
  let s₀ := homeSystem "file:// /home/u".toList " /home/u".toList
  let s₁ : ConfigSystem := { s₀ with config := homeConfig "/home/u".toList, disk := homeDisk "/home/u".toList }
  have hop : @ConfigSystem.Operates homeCrates homeDir s₀ (.addFiles []) s₁ :=
    @ConfigSystem.Operates.mk homeCrates _ _ _ _ ⟨sampleOutcomes, .ok (), homeSystem_rewritten, nofun, rfl⟩
  have hrun := @ConfigSystem.Run.step homeCrates _ _ _ _ (@ConfigSystem.Run.start homeCrates _ _ _ hstart)
    (@ConfigSystem.Step.operation homeCrates _ (fun _ _ => True) _ _ _ trivial hop)
  refine ⟨homeCrates, homeDir, s₁, hrun, rfl, fun hagrees => ?_⟩
  have hlisting : homeListing " /home/u".toList = homeListing "/home/u".toList := by
    unfold homeListing
    rw [← hagrees.listing homeFs "bob".toList]
    rfl
  exact absurd hlisting (by decide +kernel)

end Transmitic
