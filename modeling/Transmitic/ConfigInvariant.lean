/-
  File:      Transmitic/ConfigInvariant.lean
  Subject:   WHAT IS TRUE OF THE CONFIG IN MEMORY, at every point of every run.

  An operation edits a copy, sanitizes it in place, checks it, and puts it in the place of the config
  only then. What the checks say is therefore true all the time.

  * `ConfigFile.Sound`, `Config.Sound` -- what is true of it;
  * `sound_of_verify` -- the checks;
  * `sound_effect` -- one operation, whether it succeeds or fails;
  * `config_sound` -- **every run**.
-/
import Transmitic.ConfigUsers

namespace Transmitic

open Lib

section Invariant

variable [Crates] {configDir : Str}

/-! ## 1. Sound configs -/

structure ConfigFile.Sound (c : ConfigFile) : Prop where
  nicknames_nonempty : ∀ user ∈ c.sharedUsers, user.nickname ≠ []
  nicknames_distinct : (c.sharedUsers.map fun user => Crates.toLowercase user.nickname).Nodup
  nicknames_allowed : ∀ user ∈ c.sharedUsers, ∀ char ∈ getBlockedUserNameChars, char ∉ user.nickname
  publicIds_distinct : (c.sharedUsers.map SharedUser.publicId).Nodup
  publicIds_decode : ∀ user ∈ c.sharedUsers, ∃ bytes, Base64.decode user.publicId = .ok bytes
  paths_distinct : (c.sharedFiles.map ConfigSharedFile.path).Nodup
  sharedWith_users : ∀ file ∈ c.sharedFiles, ∀ nickname ∈ file.sharedWith,
    ∃ user ∈ c.sharedUsers, user.nickname = nickname
  ignore_or_reverse : ¬ (c.ignoreIncoming = true ∧ c.reverseConnection = true)

structure Config.Sound (c : Config) : Prop where
  file : c.configFile.Sound
  /-- The key in memory is the one in the config. -/
  key : Base64.decode c.configFile.myPrivateId = .ok c.localPrivateKeyBytes

/-! ## 2. What the checks establish -/

theorem unique_of_verify {users : List SharedUser} {user : SharedUser}
    (h : verifyUserIsUnique users user = .ok ()) :
    users.countP (fun userj =>
      Crates.toLowercase user.nickname = Crates.toLowercase userj.nickname) ≤ 1 ∧
    users.countP (fun userj => user.publicId = userj.publicId) ≤ 1 := by
  unfold verifyUserIsUnique at h
  dsimp only at h
  split at h
  · cases h
  · split at h
    · cases h
    · exact ⟨by omega, by omega⟩

/-- The fields of a user that were checked. -/
theorem fields_of_verify {user : SharedUser} (h : verifyUserFields user = .ok ()) :
    user.nickname ≠ [] ∧ (∀ char ∈ getBlockedUserNameChars, char ∉ user.nickname) ∧
      ∃ bytes, Base64.decode user.publicId = .ok bytes := by
  unfold verifyUserFields at h
  dsimp only at h
  split at h
  · cases h
  rename_i hempty
  split at h
  · cases h
  rename_i hfind
  split at h
  · cases h
  split at h
  · cases h
  obtain ⟨_, -, h⟩ := bind_eq_ok.mp h
  obtain ⟨_, -, h⟩ := bind_eq_ok.mp h
  split at h
  · cases h
  obtain ⟨bytes, hdecode, -⟩ := bind_eq_ok.mp h
  refine ⟨hempty, fun char hchar hmem => ?_, bytes, ?_⟩
  · have hnot := List.find?_eq_none.mp hfind char hchar
    exact hnot (by simpa [containsChar] using hmem)
  · cases hd : Base64.decode user.publicId with
    | ok b =>
      rw [hd] at hdecode
      cases hdecode
      rfl
    | error e =>
      rw [hd] at hdecode
      cases e <;> cases hdecode

omit [Crates] in
theorem path_of_verify {files : List ConfigSharedFile} {file : ConfigSharedFile}
    (h : verifyFileIsUnique files file = .ok ()) :
    files.countP (fun filej => file.path = filej.path) ≤ 1 := by
  unfold verifyFileIsUnique at h
  dsimp only at h
  split at h
  · cases h
  · omega

/-- **What `verify_config` returns is sound.** -/
theorem sound_of_verify {raw configFile : ConfigFile}
    (h : verifyConfig configDir raw = .ok configFile) : configFile.Sound := by
  obtain ⟨-, hv⟩ := verifyConfig_eq_ok.mp h
  unfold verifySanitized at hv
  obtain ⟨_, -, hv⟩ := bind_eq_ok.mp hv
  obtain ⟨_, -, hv⟩ := bind_eq_ok.mp hv
  obtain ⟨_, husers, hv⟩ := bind_eq_ok.mp hv
  obtain ⟨_, hfiles, hmode⟩ := bind_eq_ok.mp hv
  obtain ⟨_, hunique, hfields⟩ := bind_eq_ok.mp husers
  obtain ⟨_, hpaths, hfiles⟩ := bind_eq_ok.mp hfiles
  obtain ⟨_, hshared, -⟩ := bind_eq_ok.mp hfiles
  have hunique := forM_eq_ok.mp hunique
  have hfields := forM_eq_ok.mp hfields
  have hpaths := forM_eq_ok.mp hpaths
  have hshared := forM_eq_ok.mp hshared
  refine ⟨fun u hu => (fields_of_verify (hfields u hu)).1, ?_,
    fun u hu => (fields_of_verify (hfields u hu)).2.1, ?_,
    fun u hu => (fields_of_verify (hfields u hu)).2.2, ?_, fun f hf n hn => ?_, fun hboth => ?_⟩
  · exact nodup_of_countP_le_one fun u hu => (unique_of_verify (hunique u hu)).1
  · exact nodup_of_countP_le_one fun u hu => (unique_of_verify (hunique u hu)).2
  · exact nodup_of_countP_le_one fun f hf => path_of_verify (hpaths f hf)
  · have hn := forM_eq_ok.mp (hshared f hf) n hn
    split at hn
    · rename_i hmem
      exact List.mem_map.mp hmem
    · cases hn
  · unfold verifyIgnoreAndReverse at hmode
    rw [hboth.1, hboth.2] at hmode
    cases hmode

/-- It has no white space around the private ID. -/
theorem trim_myPrivateId {raw configFile : ConfigFile}
    (h : verifyConfig configDir raw = .ok configFile) : configFile.myPrivateId = trim raw.myPrivateId := by
  obtain ⟨rfl, -⟩ := verifyConfig_eq_ok.mp h
  rfl

/-! ## 3. Every run -/

omit [Crates] in
theorem edited_myPrivateId {op : Operation} (key : List UInt8) (configFile : ConfigFile)
    (hop : op ≠ .createNewId) : (op.edited key configFile).myPrivateId = configFile.myPrivateId := by
  cases op with
  | createNewId => exact absurd rfl hop
  | _ => rfl

/-- What holds along a run. -/
structure SoundRun (c : Config) : Prop where
  sound : c.Sound
  trimmed : trim c.configFile.myPrivateId = c.configFile.myPrivateId

/-- **One operation**, whether it succeeds or fails. -/
theorem sound_effect {c c' : Config} {op : Operation} {r : Except Exc Unit} (h : SoundRun c)
    (heffect : op.Effect configDir c r c') : SoundRun c' := by
  cases heffect with
  | none hfile hkey hr =>
    refine ⟨⟨?_, ?_⟩, ?_⟩
    · rw [hfile]
      exact h.sound.file
    · rw [hfile, hkey]
      exact h.sound.key
    · rw [hfile]
      exact h.trimmed
  | written key hfile hnew hkey =>
    have hid := trim_myPrivateId hfile
    have htrim : trim c'.configFile.myPrivateId = c'.configFile.myPrivateId := by
      rw [hid, trim_trim]
    by_cases hop : op = .createNewId
    · exact ⟨⟨sound_of_verify hfile, hnew hop⟩, htrim⟩
    · rw [edited_myPrivateId key c.configFile hop, h.trimmed] at hid
      refine ⟨⟨sound_of_verify hfile, ?_⟩, htrim⟩
      rw [hid, hkey hop]
      exact h.sound.key

theorem sound_of_new {isFirstStart : Bool} {password : Option Str} {o : Outcomes} {disk disk' : Disk}
    {c : Config} (h : Config.new configDir isFirstStart password o disk = .ok (c, disk')) :
    SoundRun c := by
  obtain ⟨raw, hv⟩ := (new_kept h).1
  refine ⟨⟨sound_of_verify hv, ?_⟩, by rw [trim_myPrivateId hv, trim_trim]⟩
  unfold Config.new at h
  obtain ⟨_, -, h⟩ := bind_eq_ok.mp h
  obtain ⟨_, -, h⟩ := bind_eq_ok.mp h
  obtain ⟨⟨_, _⟩, -, h⟩ := bind_eq_ok.mp h
  obtain ⟨_, hkey, h⟩ := bind_eq_ok.mp h
  cases h
  exact hkey

/-- **The config in memory is sound** after every sequence of operations with any arguments, each of
    which may succeed or fail. -/
theorem config_sound {c : Config} {disk : Disk} (h : ConfigRun configDir (fun _ _ => True) c disk) :
    c.Sound := by
  have hrun : SoundRun c := by
    induction h with
    | start isFirstStart password o disk disk' c hnew => exact sound_of_new hnew
    | step c c' disk disk' op o r _ _ hop _ ih => exact sound_effect ih (operation_effect hop)
  exact hrun.sound

end Invariant

/-! ## 4. A run -/

/-- The operations one after the other, up to a panic. -/
def Operation.play [Crates] (configDir : Str) (o : Outcomes) :
    List Operation → Config × Disk → Option (Config × Disk)
  | [], s => some s
  | op :: ops, s =>
    let result := op.run configDir s.1 o s.2
    if result.1 = .error .panic then none else Operation.play configDir o ops result.2

/-- **They are a run.** -/
theorem configRun_play [Crates] {configDir : Str} {o : Outcomes} :
    ∀ {ops : List Operation} {s s' : Config × Disk}, Operation.play configDir o ops s = some s' →
      ConfigRun configDir (fun _ _ => True) s.1 s.2 → ConfigRun configDir (fun _ _ => True) s'.1 s'.2
  | [], s, s', h, hrun => by
    cases h
    exact hrun
  | op :: ops, s, s', h, hrun => by
    unfold Operation.play at h
    dsimp only at h
    split at h
    · cases h
    · exact configRun_play h (.step _ _ _ _ op o _ hrun trivial rfl ‹_›)

/-- Bob and Carol, and these files. -/
def sharesConfig (users : List SharedUser) (sharedFiles : List ConfigSharedFile) : ConfigFile :=
  { usersConfig users with sharedFiles }

/-- The config before and after each operation of `sharesOperations` that succeeds. -/
def sharesConfigs : List ConfigFile :=
  [sharesConfig [sampleBob, sampleCarol] [⟨"/x".toList, ["bob".toList]⟩],
    sharesConfig [sampleBob, sampleCarol] [⟨"/x".toList, ["bob".toList, "carol".toList]⟩],
    sharesConfig [sampleBob, sampleCarol]
      [⟨"/x".toList, ["bob".toList, "carol".toList]⟩, ⟨"/y".toList, []⟩],
    sharesConfig [sampleCarol] [⟨"/x".toList, ["carol".toList]⟩, ⟨"/y".toList, []⟩]]

@[reducible] def sharesCrates : Crates :=
  sampleCrates (sharesConfigs.map fun configFile => (configFile, configJson configFile))

/-- The first of them, in memory and on the disk. -/
def sharesFirst : ConfigFile :=
  sharesConfig [sampleBob, sampleCarol] [⟨"/x".toList, ["bob".toList]⟩]

def sharesMemory : Config := { sampleMemory [] with configFile := sharesFirst }

def sharesDisk : Disk := { configJson := some (utf8 (configJson sharesFirst)), encryptedConfig := none }

theorem shares_json : sharesCrates.configFromJson (configJson sharesFirst) = .ok sharesFirst := by
  decide +kernel

theorem shares_verify : @verifyConfig sharesCrates sampleDir sharesFirst = .ok sharesFirst := by
  decide +kernel

theorem shares_new : @Config.new sharesCrates sampleDir false none sampleOutcomes sharesDisk =
    .ok (sharesMemory, sharesDisk) :=
  @new_of_read sharesCrates _ _ _ _ _ _ _ rfl
    (@readConfig_plain sharesCrates _ _ _ _ _ rfl shares_json shares_verify) (Base64.decode_encode sampleKey)

/-- A file is shared with Carol; a second `BOB` is refused; a file is added; Bob is removed. -/
def sharesOperations : List Operation :=
  [.addUserToShared "carol".toList "/x".toList,
    .addNewUser "BOB".toList (Base64.encode sampleKey) "192.0.2.1".toList "45454".toList,
    .addFiles ["file:///y".toList], .removeUser "bob".toList]

theorem shares_played :
    ((@Operation.play sharesCrates sampleDir sampleOutcomes sharesOperations
      (sharesMemory, sharesDisk)).any fun s =>
      s.1.configFile.sharedUsers = [sampleCarol] ∧
        s.1.configFile.sharedFiles = [⟨"/x".toList, ["carol".toList]⟩, ⟨"/y".toList, []⟩]) = true := by
  decide +kernel

/-- The invariant after them. -/
theorem config_sound_shares : ∃ c : Config, c.configFile.sharedUsers = [sampleCarol] ∧
    c.configFile.sharedFiles = [⟨"/x".toList, ["carol".toList]⟩, ⟨"/y".toList, []⟩] ∧
    @Config.Sound sharesCrates c := by
  obtain ⟨s, hplay, hends⟩ := (Option.any_eq_true _ _).mp shares_played
  obtain ⟨husers, hfiles⟩ := of_decide_eq_true hends
  have hstart := @ConfigRun.start sharesCrates sampleDir (fun _ _ => True) false none sampleOutcomes _ _ _
    shares_new
  exact ⟨s.1, husers, hfiles,
    @config_sound sharesCrates sampleDir _ _ (@configRun_play sharesCrates _ _ _ _ _ hplay hstart)⟩

end Transmitic
