/-
  File:      Transmitic/ConfigUsers.lean
  Subject:   THE USERS OF A CONFIG.

  * `nodup_nicknames` -- a verified config names no two users alike;
  * `nodup_of_new` -- so does the one a program starts with.
-/
import Transmitic.ConfigReload

namespace Transmitic

open Lib

section Users

variable [Crates] {configDir : Str}

/-! ## 1. Nicknames -/

omit [Crates] in
theorem nodup_of_countP_le_one {α β : Type} [DecidableEq β] {f : α → β} : ∀ {l : List α},
    (∀ a ∈ l, l.countP (fun b => f a = f b) ≤ 1) → (l.map f).Nodup
  | [], _ => List.nodup_nil
  | a :: l, h => by
    rw [List.map_cons, List.nodup_cons]
    constructor
    · intro hmem
      obtain ⟨b, hb, hab⟩ := List.mem_map.mp hmem
      have ha := h a List.mem_cons_self
      have hpos : 0 < l.countP (fun b => f a = f b) :=
        List.countP_pos_iff.mpr ⟨b, hb, by simpa using hab.symm⟩
      simp only [List.countP_cons, decide_true, if_true] at ha
      omega
    · refine nodup_of_countP_le_one fun b hb => ?_
      have hle := h b (List.mem_cons_of_mem a hb)
      rw [List.countP_cons] at hle
      omega

theorem countP_nickname_le {users : List SharedUser} {user : SharedUser}
    (h : verifyUserIsUnique users user = .ok ()) :
    users.countP (fun userj => user.nickname = userj.nickname) ≤ 1 := by
  unfold verifyUserIsUnique at h
  dsimp only at h
  split at h
  · cases h
  rename_i hcount
  refine le_trans (List.countP_mono_left fun u _ hu => ?_) (Nat.not_lt.mp hcount)
  rw [decide_eq_true_iff] at hu ⊢
  rw [hu]

theorem nodup_nicknames {raw configFile : ConfigFile}
    (h : verifyConfig configDir raw = .ok configFile) :
    (configFile.sharedUsers.map SharedUser.nickname).Nodup := by
  obtain ⟨-, hv⟩ := verifyConfig_eq_ok.mp h
  unfold verifySanitized at hv
  obtain ⟨-, -, hv⟩ := bind_eq_ok.mp hv
  obtain ⟨-, -, hv⟩ := bind_eq_ok.mp hv
  obtain ⟨_, husers, -⟩ := bind_eq_ok.mp hv
  obtain ⟨_, hunique, -⟩ := bind_eq_ok.mp husers
  exact nodup_of_countP_le_one fun u hu => countP_nickname_le (forM_eq_ok.mp hunique u hu)

theorem nodup_of_new {isFirstStart : Bool} {password : Option Str} {o : Outcomes} {disk disk' : Disk}
    {c : Config} (h : Config.new configDir isFirstStart password o disk = .ok (c, disk')) :
    (c.configFile.sharedUsers.map SharedUser.nickname).Nodup := by
  obtain ⟨raw, hv⟩ := (new_kept h).1
  exact nodup_nicknames hv

/-! ## 2. What an operation writes -/

omit [Crates] in
/-- The config file an operation hands over; `key` is a new private key. -/
def Operation.edited (key : List UInt8) (configFile : ConfigFile) : Operation → ConfigFile
  | .addFiles files =>
    { configFile with
      sharedFiles := configFile.sharedFiles ++
        Config.newFiles (configFile.sharedFiles.map ConfigSharedFile.path) files }
  | .addNewUser nickname publicId ip port =>
    { configFile with
      sharedUsers := configFile.sharedUsers ++ [newUser nickname publicId ip port] }
  | .addUserToShared nickname filePath =>
    { configFile with
      sharedFiles := Config.updateFirst (fun file => file.path = filePath)
        (fun file => { file with sharedWith := file.sharedWith ++ [nickname] })
        configFile.sharedFiles }
  | .createNewId => { configFile with myPrivateId := Base64.encode key }
  | .removeFileFromSharing filePath =>
    { configFile with sharedFiles := configFile.sharedFiles.filter fun x => x.path ≠ filePath }
  | .removeUserFromSharing nickname filePath =>
    { configFile with
      sharedFiles := configFile.sharedFiles.map fun file =>
        if file.path = filePath then
          { file with sharedWith := file.sharedWith.filter fun x => x ≠ nickname }
        else file }
  | .removeUser nickname =>
    { configFile with
      sharedFiles := configFile.sharedFiles.map fun file =>
        { file with sharedWith := file.sharedWith.filter fun x => x ≠ nickname }
      sharedUsers := configFile.sharedUsers.filter fun x => x.nickname ≠ nickname }
  | .setPort port => { configFile with sharingPort := port }
  | .setPathDownloadsDir path => { configFile with pathDownloads := path }
  | .setIgnoreIncoming state => { configFile with ignoreIncoming := state }
  | .setReverseConnection state => { configFile with reverseConnection := state }
  | .setUserIsAllowedState nickname isAllowed =>
    { configFile with
      sharedUsers := Config.updateFirst (fun user => user.nickname = nickname)
        (fun user => { user with allowed := isAllowed }) configFile.sharedUsers }
  | .updateUser nickname publicId ip port =>
    { configFile with
      sharedUsers := Config.updateFirst (fun user => user.nickname = nickname)
        (fun user => { user with publicId, ip, port }) configFile.sharedUsers }
  | .encryptConfig _ => configFile
  | .decryptConfig => configFile

section Edits

variable {c c' : Config} {disk disk' : Disk} {o : Outcomes} {r : Except Exc Unit}

/-- The config file is what it was, or what `raw` came to. -/
def Writes (configDir : Str) (c : Config) (raw : ConfigFile) (r : Except Exc Unit) (c' : Config) :
    Prop :=
  c'.localPrivateKeyBytes = c.localPrivateKeyBytes ∧
    (c'.configFile = c.configFile ∧ r ≠ .ok () ∨ verifyConfig configDir raw = .ok c'.configFile)

theorem writes_of_writeAndSetConfig {raw : ConfigFile}
    (h : c.writeAndSetConfig configDir raw o disk = (r, c', disk')) : Writes configDir c raw r c' := by
  unfold Config.writeAndSetConfig at h
  dsimp only at h
  split at h
  · cases h
    exact ⟨rfl, .inl ⟨rfl, nofun⟩⟩
  · rename_i written disk₁ hw
    cases h
    unfold writeConfig at hw
    obtain ⟨verified, hv, hw⟩ := bind_eq_ok.mp hw
    obtain ⟨_, -, hw⟩ := bind_eq_ok.mp hw
    obtain ⟨_, -, hw⟩ := bind_eq_ok.mp hw
    obtain ⟨_, -, hw⟩ := bind_eq_ok.mp hw
    cases hw
    exact ⟨rfl, .inr hv⟩

/-- The private ID of a verified config decodes. -/
theorem decode_myPrivateId {raw configFile : ConfigFile}
    (h : verifyConfig configDir raw = .ok configFile) :
    ∃ bytes, Base64.decode configFile.myPrivateId = .ok bytes := by
  obtain ⟨-, hv⟩ := verifyConfig_eq_ok.mp h
  unfold verifySanitized at hv
  obtain ⟨-, -, hv⟩ := bind_eq_ok.mp hv
  obtain ⟨_, hid, -⟩ := bind_eq_ok.mp hv
  obtain ⟨bytes, hdecode, -⟩ := bind_eq_ok.mp hid
  cases hd : Base64.decode configFile.myPrivateId with
  | ok bytes => exact ⟨bytes, rfl⟩
  | error e =>
    rw [hd] at hdecode
    cases e <;> cases hdecode

/-- A new private ID goes with its key. -/
theorem createNewId_writes (h : c.createNewId configDir o disk = (r, c', disk')) :
    (c'.configFile = c.configFile ∧ c'.localPrivateKeyBytes = c.localPrivateKeyBytes ∧ r ≠ .ok ()) ∨
      ∃ key, verifyConfig configDir (Operation.createNewId.edited key c.configFile) =
        .ok c'.configFile ∧ Base64.decode c'.configFile.myPrivateId = .ok c'.localPrivateKeyBytes := by
  unfold Config.createNewId at h
  split at h
  · cases h
    exact .inl ⟨rfl, rfl, nofun⟩
  · rename_i privateIdBytes _ hpair
    split at h
    · rename_i e c₁ disk₁ hw
      cases h
      obtain ⟨hk, ⟨hc, -⟩ | hv⟩ := writes_of_writeAndSetConfig hw
      · exact .inl ⟨hc, hk, nofun⟩
      · -- a write that fails leaves the config
        exact .inl ⟨(writeAndSetConfig_error hw).1, hk, nofun⟩
    · rename_i c₁ disk₁ hw
      obtain ⟨hk, ⟨-, hne⟩ | hv⟩ := writes_of_writeAndSetConfig hw
      · exact absurd rfl hne
      obtain ⟨bytes, hbytes⟩ := decode_myPrivateId hv
      split at h
      · rename_i e hd
        rw [hbytes] at hd
        cases hd
      · rename_i key hd
        cases h
        exact .inr ⟨privateIdBytes, hv, hd⟩

theorem encryptConfig_writes {password : Str}
    (h : c.encryptConfig configDir password o disk = (r, c', disk')) :
    Writes configDir c c.configFile r c' := by
  unfold Config.encryptConfig at h
  split at h
  · cases h
    exact ⟨rfl, .inl ⟨rfl, nofun⟩⟩
  · split at h
    · rename_i hw
      cases h
      obtain ⟨hk, hfile⟩ := writes_of_writeAndSetConfig hw
      exact ⟨hk, hfile⟩
    · rename_i c₁ disk₁ hw
      obtain ⟨hk, ⟨-, hne⟩ | hv⟩ := writes_of_writeAndSetConfig hw
      · exact absurd rfl hne
      · split at h <;> (cases h; exact ⟨hk, .inr hv⟩)

theorem decryptConfig_writes (h : c.decryptConfig configDir o disk = (r, c', disk')) :
    Writes configDir c c.configFile r c' := by
  unfold Config.decryptConfig at h
  split at h
  · cases h
    exact ⟨rfl, .inl ⟨rfl, nofun⟩⟩
  · split at h
    · rename_i hw
      cases h
      obtain ⟨hk, hfile⟩ := writes_of_writeAndSetConfig hw
      exact ⟨hk, hfile⟩
    · rename_i c₁ disk₁ hw
      obtain ⟨hk, ⟨-, hne⟩ | hv⟩ := writes_of_writeAndSetConfig hw
      · exact absurd rfl hne
      · split at h <;> (cases h; exact ⟨hk, .inr hv⟩)

/-- What an operation does to the config in memory. -/
inductive Operation.Effect (configDir : Str) (c : Config) (op : Operation) (r : Except Exc Unit)
    (c' : Config) : Prop where
  /-- Nothing. Only a user who has the file already makes that a success. -/
  | none (hfile : c'.configFile = c.configFile)
      (hkey : c'.localPrivateKeyBytes = c.localPrivateKeyBytes)
      (hr : r = .ok () → ∃ nickname filePath, op = .addUserToShared nickname filePath)
  /-- The edited config, verified. -/
  | written (key : List UInt8)
      (hfile : verifyConfig configDir (op.edited key c.configFile) = .ok c'.configFile)
      (hnew : op = .createNewId →
        Base64.decode c'.configFile.myPrivateId = .ok c'.localPrivateKeyBytes)
      (hkey : op ≠ .createNewId → c'.localPrivateKeyBytes = c.localPrivateKeyBytes)

theorem effect_of_writes {op : Operation} (hop : op ≠ .createNewId)
    (h : Writes configDir c (op.edited [] c.configFile) r c') : op.Effect configDir c r c' := by
  obtain ⟨hk, ⟨hc, hr⟩ | hv⟩ := h
  · exact .none hc hk fun h => absurd h hr
  · exact .written [] hv (fun he => absurd he hop) fun _ => hk

/-- **The effect of an operation**, whether it succeeds or fails. -/
theorem operation_effect {op : Operation} (h : op.run configDir c o disk = (r, c', disk')) :
    op.Effect configDir c r c' := by
  cases op with
  | addUserToShared nickname filePath =>
    unfold Operation.run at h
    dsimp only at h
    unfold Config.addUserToShared at h
    split at h
    · cases h
      exact .none rfl rfl nofun
    · split at h
      · cases h
        exact .none rfl rfl nofun
      · split at h
        · cases h
          exact .none rfl rfl fun _ => ⟨nickname, filePath, rfl⟩
        · exact effect_of_writes nofun (writes_of_writeAndSetConfig h)
  | createNewId =>
    rcases createNewId_writes h with ⟨hc, hk, hr⟩ | ⟨key, hv, hd⟩
    · exact .none hc hk fun h => absurd h hr
    · exact .written key hv (fun _ => hd) fun hne => absurd rfl hne
  | setUserIsAllowedState nickname isAllowed =>
    unfold Operation.run at h
    dsimp only at h
    unfold Config.setUserIsAllowedState at h
    split at h
    · exact effect_of_writes nofun (writes_of_writeAndSetConfig h)
    · cases h
      exact .none rfl rfl nofun
  | updateUser nickname publicId ip port =>
    unfold Operation.run at h
    dsimp only at h
    unfold Config.updateUser at h
    split at h
    · exact effect_of_writes nofun (writes_of_writeAndSetConfig h)
    · cases h
      exact .none rfl rfl nofun
  | encryptConfig password => exact effect_of_writes nofun (encryptConfig_writes h)
  | decryptConfig => exact effect_of_writes nofun (decryptConfig_writes h)
  | _ => exact effect_of_writes nofun (writes_of_writeAndSetConfig h)

end Edits

end Users

end Transmitic
