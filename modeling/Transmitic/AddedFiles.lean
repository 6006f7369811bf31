/-
  File:      Transmitic/AddedFiles.lean
  Subject:   WHAT `add_files` ADDS (config.rs, `Config::add_files`).

  A string loses `file://` before it is compared with the paths that were shared before the call, and loses
  white space, and `file://` once more, when the config is written. There the paths have to be different.

  * `sharedPath`, `unlisted` -- the path a string comes to, and the strings that are not literally the path
    of a shared file;
  * `AddsMissing` -- what the call is for: the missing paths are added, once, and everything stays;
  * `verifySanitized_edited` -- **verifying the config with other shared files** is verifying these files;
  * `addFiles_adds_iff` -- **exactly** when the call does it: no two of the unlisted strings come to one
    path, and none comes to the path of a shared file.
-/
import Transmitic.ConfigInvariant
import Transmitic.ConfigWrites

namespace Transmitic

open Lib

/-! ## 1. The call -/

/-- The path a string comes to. -/
def sharedPath (file : Str) : Str := stripFileUrl (trim (stripFileUrl file))

/-- The strings that are not skipped. -/
def unlisted (c : Config) (files : List Str) : List Str :=
  files.filter fun file => stripFileUrl file ∉ c.configFile.sharedFiles.map ConfigSharedFile.path

/-- The config file that is handed to the writer. -/
def withFiles (c : Config) (files : List Str) : ConfigFile :=
  { c.configFile with
    sharedFiles := c.configFile.sharedFiles ++
      Config.newFiles (c.configFile.sharedFiles.map ConfigSharedFile.path) files }

/-- **What the call is for**: it succeeds, the shared paths are those of before and those the strings come
    to, no path occurs twice, and the files of before stay where they are, with their users. -/
structure AddsMissing (c c' : Config) (files : List Str) (r : Except Exc Unit) : Prop where
  ok : r = .ok ()
  paths : ∀ p, p ∈ c'.configFile.sharedFiles.map ConfigSharedFile.path ↔
    p ∈ c.configFile.sharedFiles.map ConfigSharedFile.path ∨ ∃ file ∈ files, p = sharedPath file
  once : (c'.configFile.sharedFiles.map ConfigSharedFile.path).Nodup
  kept : c.configFile.sharedFiles <+: c'.configFile.sharedFiles

/-- The strings come to different paths, which are not shared, and the shared paths are left alone by the
    sanitizing. -/
structure Distinct (c : Config) (files : List Str) : Prop where
  clean : ∀ file ∈ c.configFile.sharedFiles, stripFileUrl (trim file.path) = file.path
  batch : ((unlisted c files).map sharedPath).Nodup
  fresh : ∀ file ∈ unlisted c files, sharedPath file ∉ c.configFile.sharedFiles.map ConfigSharedFile.path

theorem newFiles_eq (existingPaths : List Str) : ∀ files : List Str, Config.newFiles existingPaths files =
    (files.filter fun file => stripFileUrl file ∉ existingPaths).map fun file =>
      { path := stripFileUrl file, sharedWith := [] }
  | [] => rfl
  | file :: files => by
    have ih := newFiles_eq existingPaths files
    rw [Config.newFiles, List.filter_cons]
    by_cases hmem : stripFileUrl file ∈ existingPaths
    · simp only [hmem, if_true, not_true_eq_false, decide_false, Bool.false_eq_true, if_false, ih]
    · simp only [hmem, if_false, not_false_eq_true, decide_true, if_true, ih, List.map_cons]

/-- **The shared files that are verified and written.** -/
theorem sanitized_withFiles (c : Config) (files : List Str) :
    (sanitizeConfig (withFiles c files)).sharedFiles = c.configFile.sharedFiles.map sanitizeFile ++
      (unlisted c files).map fun file => { path := sharedPath file, sharedWith := [] } := by
  have hnew : (Config.newFiles (c.configFile.sharedFiles.map ConfigSharedFile.path) files).map sanitizeFile =
      (unlisted c files).map fun file => { path := sharedPath file, sharedWith := [] } := by
    rw [newFiles_eq, List.map_map]
    rfl
  show (c.configFile.sharedFiles ++ _).map sanitizeFile = _
  rw [List.map_append, hnew]

/-! ## 2. Verifying -/

section Verifying

variable [Crates] {configDir : Str}

/-- The order of the users does not matter to the checks. -/
theorem verifyConfigSharedUsers_perm {users users' : List SharedUser} (hperm : users'.Perm users)
    (h : verifyConfigSharedUsers users = .ok ()) : verifyConfigSharedUsers users' = .ok () := by
  obtain ⟨_, hunique, hfields⟩ := bind_eq_ok.mp h
  have hunique := forM_eq_ok.mp hunique
  have hfields := forM_eq_ok.mp hfields
  refine bind_eq_ok.mpr ⟨(), forM_eq_ok.mpr fun user hu => ?_, forM_eq_ok.mpr fun user hu => ?_⟩
  · have hsame := hunique user (hperm.mem_iff.mp hu)
    unfold verifyUserIsUnique at hsame ⊢
    rw [hperm.countP_eq, hperm.countP_eq]
    exact hsame
  · exact hfields user (hperm.mem_iff.mp hu)

omit [Crates] in
theorem verifyFileIsUnique_of_nodup {files : List ConfigSharedFile}
    (h : (files.map ConfigSharedFile.path).Nodup) (file : ConfigSharedFile) :
    verifyFileIsUnique files file = .ok () := by
  have hcount := List.nodup_iff_count_le_one.mp h file.path
  rw [List.count_eq_countP, List.countP_map] at hcount
  have hle : files.countP (fun filej => file.path = filej.path) ≤ 1 := by
    refine le_trans (Nat.le_of_eq (List.countP_congr fun f _ => ?_)) hcount
    simp only [Function.comp_apply, beq_iff_eq, decide_eq_true_eq]
    exact eq_comm
  unfold verifyFileIsUnique
  exact if_neg (by omega)

/-- What an accepted config's parts are like. -/
theorem verified_parts {raw configFile : ConfigFile} (h : verifyConfig configDir raw = .ok configFile) :
    (sortByNickname configFile.sharedUsers).map sanitizeUser = sortByNickname configFile.sharedUsers ∧
      trim configFile.sharingPort = configFile.sharingPort ∧
      trim configFile.myPrivateId = configFile.myPrivateId ∧
      ∀ file ∈ configFile.sharedFiles, (sanitizeFile file).sharedWith = file.sharedWith := by
  obtain ⟨rfl, -⟩ := verifyConfig_eq_ok.mp h
  refine ⟨map_eq_self.mpr fun user hu => ?_, trim_trim _, trim_trim _, fun file hf => ?_⟩
  · obtain ⟨v, -, rfl⟩ := List.mem_map.mp (mem_sortByNickname.mp hu)
    exact sanitizeUser_idem v
  · obtain ⟨g, -, rfl⟩ := List.mem_map.mp hf
    exact sanitizeSharedWith_idem g.sharedWith

/-- **An accepted config with other shared files** is accepted where these are. -/
theorem verifySanitized_edited {raw configFile : ConfigFile} {files : List ConfigSharedFile}
    (h : verifyConfig configDir raw = .ok configFile)
    (hfiles : verifyConfigSharedFiles configDir (sortByNickname configFile.sharedUsers)
      (files.map sanitizeFile) = .ok ()) :
    verifySanitized configDir (sanitizeConfig { configFile with sharedFiles := files }) = .ok () := by
  obtain ⟨husers, hport, hid, -⟩ := verified_parts h
  obtain ⟨-, hv⟩ := verifyConfig_eq_ok.mp h
  unfold verifySanitized at hv ⊢
  obtain ⟨_, hvport, hv⟩ := bind_eq_ok.mp hv
  obtain ⟨_, hvid, hv⟩ := bind_eq_ok.mp hv
  obtain ⟨_, hvusers, hv⟩ := bind_eq_ok.mp hv
  obtain ⟨_, -, hvmode⟩ := bind_eq_ok.mp hv
  simp only [sanitizeConfig, hport, hid, husers]
  refine bind_eq_ok.mpr ⟨(), hvport, bind_eq_ok.mpr ⟨(), hvid, bind_eq_ok.mpr ⟨(), ?_, ?_⟩⟩⟩
  · exact verifyConfigSharedUsers_perm (List.perm_insertionSort _ _) hvusers
  · exact bind_eq_ok.mpr ⟨(), hfiles, hvmode⟩

/-- **The shared files of an accepted config, with others** that are valid, are with nobody and differ. -/
theorem verifyConfigSharedFiles_append {raw configFile : ConfigFile} {more : List ConfigSharedFile}
    (h : verifyConfig configDir raw = .ok configFile) (hnobody : ∀ file ∈ more, file.sharedWith = [])
    (hvalid : ∀ file ∈ more, verifyFilePath configDir file = .ok ())
    (hnodup : ((configFile.sharedFiles ++ more).map ConfigSharedFile.path).Nodup) :
    verifyConfigSharedFiles configDir (sortByNickname configFile.sharedUsers)
      (configFile.sharedFiles ++ more) = .ok () := by
  obtain ⟨-, hv⟩ := verifyConfig_eq_ok.mp h
  unfold verifySanitized at hv
  obtain ⟨_, -, hv⟩ := bind_eq_ok.mp hv
  obtain ⟨_, -, hv⟩ := bind_eq_ok.mp hv
  obtain ⟨_, -, hv⟩ := bind_eq_ok.mp hv
  obtain ⟨_, hvfiles, -⟩ := bind_eq_ok.mp hv
  obtain ⟨_, -, hvfiles⟩ := bind_eq_ok.mp hvfiles
  obtain ⟨_, hshared, hpaths⟩ := bind_eq_ok.mp hvfiles
  have hshared := forM_eq_ok.mp hshared
  have hpaths := forM_eq_ok.mp hpaths
  refine bind_eq_ok.mpr ⟨(), forM_eq_ok.mpr fun file _ => verifyFileIsUnique_of_nodup hnodup file,
    bind_eq_ok.mpr ⟨(), forM_eq_ok.mpr fun file hf => ?_, forM_eq_ok.mpr fun file hf => ?_⟩⟩
  · refine forM_eq_ok.mpr fun user hu => ?_
    rcases List.mem_append.mp hf with hf | hf
    · have hknown := forM_eq_ok.mp (hshared file hf) user hu
      split at hknown
      · rename_i hmem
        obtain ⟨v, hv, hname⟩ := List.mem_map.mp hmem
        exact if_pos (List.mem_map.mpr ⟨v, mem_sortByNickname.mpr hv, hname⟩)
      · cases hknown
    · rw [hnobody file hf] at hu
      cases hu
  · rcases List.mem_append.mp hf with hf | hf
    · exact hpaths file hf
    · exact hvalid file hf

end Verifying

/-! ## 3. The call, exactly -/

section Adding

variable [Crates] {configDir : Str} {c c' : Config} {files : List Str} {o : Outcomes} {disk disk' : Disk}
  {r : Except Exc Unit}

/-- **Every config a run leads to is verified.** -/
theorem verified_of_run (h : ConfigRun configDir (fun _ _ => True) c disk) : Verified configDir c := by
  induction h with
  | start isFirstStart password o disk disk' c hnew => exact (new_kept hnew).1
  | step c c' disk disk' op o r _ _ hop _ ih =>
    obtain ⟨raw, hraw⟩ := ih
    cases operation_effect hop with
    | none hfile => exact ⟨raw, hfile ▸ hraw⟩
    | written key hfile => exact ⟨_, hfile⟩

theorem verified_of_writeUnder {password : Option Str} {configFile written : ConfigFile}
    (h : writeUnder configDir o c password configFile disk = .ok (written, disk')) :
    verifyConfig configDir configFile = .ok written := by
  obtain ⟨verified, hv, h⟩ := bind_eq_ok.mp h
  obtain ⟨_, -, h⟩ := bind_eq_ok.mp h
  obtain ⟨_, -, h⟩ := bind_eq_ok.mp h
  obtain ⟨_, -, h⟩ := bind_eq_ok.mp h
  cases h
  exact hv

/-- A call is a write. -/
theorem addFiles_cases (h : c.addFiles configDir files o disk = (r, c', disk')) :
    (∃ e, writeUnder configDir o c c.password (withFiles c files) disk = .error e ∧ r = .error e) ∨
    ∃ written, writeUnder configDir o c c.password (withFiles c files) disk = .ok (written, disk') ∧
      r = .ok () ∧ c'.configFile = written := by
  have hcall : c.writeAndSetConfig configDir (withFiles c files) o disk = (r, c', disk') := h
  obtain ⟨e, hw, hr, -⟩ | ⟨written, hw, hr, rfl⟩ := writeAndSetConfig_cases hcall
  · exact .inl ⟨e, hw, hr⟩
  · exact .inr ⟨written, hw, hr, rfl⟩

/-- **A call that succeeds** leaves the sanitized files. -/
theorem addFiles_ok (h : c.addFiles configDir files o disk = (.ok (), c', disk')) :
    c'.configFile.sharedFiles = c.configFile.sharedFiles.map sanitizeFile ++
      (unlisted c files).map fun file => { path := sharedPath file, sharedWith := [] } := by
  obtain ⟨e, -, hr⟩ | ⟨written, hw, -, hfile⟩ := addFiles_cases h
  · cases hr
  · rw [hfile, (verifyConfig_eq_ok.mp (verified_of_writeUnder hw)).1]
    exact sanitized_withFiles c files

/-- **A batch without duplicates is accepted.** -/
theorem verifyConfig_withFiles (hv : Verified configDir c) (hdistinct : Distinct c files)
    (hshare : ∀ file ∈ files, verifyFilePath configDir { path := sharedPath file, sharedWith := [] } = .ok ()) :
    verifyConfig configDir (withFiles c files) = .ok (sanitizeConfig (withFiles c files)) ∧
      c.configFile.sharedFiles.map sanitizeFile = c.configFile.sharedFiles := by
  obtain ⟨raw, hraw⟩ := hv
  obtain ⟨-, -, -, hsharedWith⟩ := verified_parts hraw
  have hclean : c.configFile.sharedFiles.map sanitizeFile = c.configFile.sharedFiles := by
    refine map_eq_self.mpr fun file hf => ?_
    have hpath : (sanitizeFile file).path = file.path := hdistinct.clean file hf
    cases hfile : sanitizeFile file with
    | mk path sharedWith =>
      have hwith := hsharedWith file hf
      rw [hfile] at hpath hwith
      cases file
      cases hpath
      cases hwith
      rfl
  have hold : (c.configFile.sharedFiles.map ConfigSharedFile.path).Nodup := (sound_of_verify hraw).paths_distinct
  have hmore : ((unlisted c files).map fun file =>
      ({ path := sharedPath file, sharedWith := [] } : ConfigSharedFile)).map ConfigSharedFile.path =
        (unlisted c files).map sharedPath := by
    rw [List.map_map]
    rfl
  have hsanitized : (withFiles c files).sharedFiles.map sanitizeFile = c.configFile.sharedFiles ++
      (unlisted c files).map fun file => { path := sharedPath file, sharedWith := [] } := by
    have hall := sanitized_withFiles c files
    rw [hclean] at hall
    exact hall
  refine ⟨verifyConfig_eq_ok.mpr ⟨rfl, verifySanitized_edited hraw ?_⟩, hclean⟩
  rw [show (c.configFile.sharedFiles ++ _).map sanitizeFile = _ from hsanitized]
  refine verifyConfigSharedFiles_append hraw ?_ ?_ ?_
  · intro file hf
    obtain ⟨s, -, rfl⟩ := List.mem_map.mp hf
    rfl
  · intro file hf
    obtain ⟨s, hs, rfl⟩ := List.mem_map.mp hf
    exact hshare s (List.mem_of_mem_filter hs)
  · rw [List.map_append, hmore]
    refine hold.append hdistinct.batch fun p hp hp' => ?_
    obtain ⟨s, hs, rfl⟩ := List.mem_map.mp hp'
    exact hdistinct.fresh s hs hp

omit [Crates] in
/-- The paths after a call that succeeds, where the shared ones are clean. -/
theorem mem_paths_added (hclean : ∀ file ∈ c.configFile.sharedFiles, stripFileUrl (trim file.path) = file.path)
    (p : Str) :
    p ∈ c.configFile.sharedFiles.map ConfigSharedFile.path ++ (unlisted c files).map sharedPath ↔
      p ∈ c.configFile.sharedFiles.map ConfigSharedFile.path ∨ ∃ file ∈ files, p = sharedPath file := by
  rw [List.mem_append]
  constructor
  · rintro (hp | hp)
    · exact .inl hp
    · obtain ⟨file, hf, rfl⟩ := List.mem_map.mp hp
      exact .inr ⟨file, List.mem_of_mem_filter hf, rfl⟩
  · rintro (hp | ⟨file, hf, rfl⟩)
    · exact .inl hp
    · by_cases hlisted : stripFileUrl file ∈ c.configFile.sharedFiles.map ConfigSharedFile.path
      · -- a skipped string is the path of a shared file, which the sanitizing leaves alone
        left
        obtain ⟨g, hg, hpath⟩ := List.mem_map.mp hlisted
        rw [sharedPath, ← hpath, hclean g hg]
        exact List.mem_map.mpr ⟨g, hg, rfl⟩
      · exact .inr (List.mem_map.mpr ⟨file, List.mem_filter.mpr ⟨hf, decide_eq_true hlisted⟩, rfl⟩)

/-- **`add_files` adds exactly what is missing just where the paths differ.** Every string is shareable on
    its own, and the write succeeds where the config is accepted. -/
theorem addFiles_adds_iff (hv : Verified configDir c)
    (hshare : ∀ file ∈ files, verifyFilePath configDir { path := sharedPath file, sharedWith := [] } = .ok ())
    (hwrite : ∀ written, verifyConfig configDir (withFiles c files) = .ok written →
      ∃ disk₁, writeUnder configDir o c c.password (withFiles c files) disk = .ok (written, disk₁))
    (h : c.addFiles configDir files o disk = (r, c', disk')) :
    AddsMissing c c' files r ↔ Distinct c files := by
  constructor
  · rintro ⟨rfl, -, honce, hkept⟩
    have hfiles := addFiles_ok h
    have hclean : c.configFile.sharedFiles = c.configFile.sharedFiles.map sanitizeFile := by
      rw [hfiles, List.prefix_iff_eq_take] at hkept
      rw [List.take_append_of_le_length (by simp), List.take_of_length_le (by simp)] at hkept
      exact hkept
    rw [hfiles, ← hclean, List.map_append, List.map_map] at honce
    obtain ⟨-, hbatch, hdisjoint⟩ := List.nodup_append.mp honce
    refine ⟨fun file hf => ?_, hbatch, fun file hf hmem => ?_⟩
    · exact congrArg ConfigSharedFile.path (map_eq_self.mp hclean.symm file hf)
    · exact hdisjoint _ hmem _ (List.mem_map.mpr ⟨file, hf, rfl⟩) rfl
  · intro hdistinct
    obtain ⟨hverify, hclean⟩ := verifyConfig_withFiles hv hdistinct hshare
    obtain ⟨disk₁, hw⟩ := hwrite _ hverify
    have hr : r = .ok () := by
      obtain ⟨e, herr, -⟩ | ⟨_, -, hr, -⟩ := addFiles_cases h
      · rw [hw] at herr
        cases herr
      · exact hr
    subst hr
    have hfiles := addFiles_ok h
    rw [hclean] at hfiles
    have hpaths : c'.configFile.sharedFiles.map ConfigSharedFile.path =
        c.configFile.sharedFiles.map ConfigSharedFile.path ++ (unlisted c files).map sharedPath := by
      rw [hfiles, List.map_append, List.map_map]
      rfl
    obtain ⟨raw, hraw⟩ := hv
    refine ⟨rfl, fun p => ?_, ?_, ?_⟩
    · rw [hpaths, mem_paths_added hdistinct.clean]
    · rw [hpaths]
      refine ((sound_of_verify hraw).paths_distinct).append hdistinct.batch fun p hp hp' => ?_
      obtain ⟨s, hs, rfl⟩ := List.mem_map.mp hp'
      exact hdistinct.fresh s hs hp
    · rw [hfiles]
      exact List.prefix_append _ _

end Adding

/-- A file that is added to a config without any. -/
theorem addFiles_adds_sample :
    let result := @Config.addFiles (sampleCrates sampleConfigs) sampleDir (sampleMemory []) ["/x".toList]
      sampleOutcomes (sampleDisk [])
    AddsMissing (sampleMemory []) result.2.1 ["/x".toList] result.1 := by
  have hverify : @verifyConfig (sampleCrates sampleConfigs) sampleDir (withFiles (sampleMemory []) ["/x".toList]) =
      .ok (sampleConfig ["/x".toList]) := by decide +kernel
  have hmem : ["/x".toList] ∈ sampleFiles := by decide
  dsimp only
  generalize hcall : @Config.addFiles (sampleCrates sampleConfigs) sampleDir (sampleMemory []) ["/x".toList]
    sampleOutcomes (sampleDisk []) = result
  obtain ⟨r, c', disk'⟩ := result
  refine (@addFiles_adds_iff (sampleCrates sampleConfigs) sampleDir _ _ _ _ _ _ _ ⟨_, sample_verify⟩ ?_ ?_
    hcall).mpr ⟨nofun, by decide, by decide⟩
  · intro file hf
    cases List.mem_singleton.mp hf
    decide
  · intro written hw
    rw [hverify] at hw
    cases hw
    refine ⟨sampleDisk ["/x".toList], ?_⟩
    have hpassword : (sampleMemory []).password = none := rfl
    simp only [writeUnder, writeConfig, hverify, sample_toJson hmem, orErr, getFileStr, hpassword,
      sampleOutcomes, bind, Except.bind]
    rfl

/-- **One file twice in a batch**: nothing is added. -/
theorem addFiles_twice :
    let result := @Config.addFiles (sampleCrates sampleConfigs) sampleDir (sampleMemory [])
      ["/x".toList, "/x".toList] sampleOutcomes (sampleDisk [])
    result.1 = .error (.err "File '/x' has been shared '2' times. It can only be shared once.".toList) ∧
      ¬ AddsMissing (sampleMemory []) result.2.1 ["/x".toList, "/x".toList] result.1 ∧
      verifyFilePath sampleDir { path := sharedPath "/x".toList, sharedWith := [] } = .ok () := by
  have hverify : @verifyConfig (sampleCrates sampleConfigs) sampleDir
      (withFiles (sampleMemory []) ["/x".toList, "/x".toList]) =
        .error (.err "File '/x' has been shared '2' times. It can only be shared once.".toList) := by
    decide +kernel
  have hresult : (@Config.addFiles (sampleCrates sampleConfigs) sampleDir (sampleMemory [])
      ["/x".toList, "/x".toList] sampleOutcomes (sampleDisk [])).1 =
        .error (.err "File '/x' has been shared '2' times. It can only be shared once.".toList) := by
    generalize hcall : @Config.addFiles (sampleCrates sampleConfigs) sampleDir (sampleMemory [])
      ["/x".toList, "/x".toList] sampleOutcomes (sampleDisk []) = result
    obtain ⟨r, c', disk'⟩ := result
    obtain ⟨e, hw, rfl⟩ | ⟨written, hw, -⟩ := @addFiles_cases (sampleCrates sampleConfigs) sampleDir
      _ _ _ _ _ _ _ hcall
    · unfold writeUnder writeConfig at hw
      rw [hverify] at hw
      cases hw
      rfl
    · have hok := @verified_of_writeUnder (sampleCrates sampleConfigs) _ _ _ _ _ _ _ _ hw
      rw [hverify] at hok
      cases hok
  refine ⟨hresult, fun h => ?_, by decide⟩
  have hok := h.ok
  rw [hresult] at hok
  cases hok

end Transmitic
