/-
  File:      Transmitic/ConfigWrites.lean
  Subject:   WHAT AN OPERATION ON THE CONFIG DOES TO MEMORY AND DISK.

  Every operation edits a copy of the config file and hands it to `write_and_set_config`, which moves the
  counter on, verifies, encrypts and writes, and only then takes the copy over. `encrypt_config` and
  `decrypt_config` change the password before, put it back where that fails, and remove the other file
  after.

  * `Operation.writtenUnder`, `Operation.obsolete` -- the password an operation writes under, and the
    file it removes;
  * `Operation.Result`, `operation_result` -- **the three ways an operation goes**: it writes nothing, it
    fails before the file is written, or the file is written;
  * `operation_atomic` -- what fails before the file is written changes nothing but the counter, and what
    succeeds has written the config it leaves in memory.
-/
import Transmitic.ConfigUsers

namespace Transmitic

open Lib

/-! ## 1. One operation -/

/-- The password an operation writes the config under. -/
def Operation.writtenUnder (c : Config) : Operation → Option Str
  | .encryptConfig password => some password
  | .decryptConfig => none
  | _ => c.password

/-- The config file an operation removes when it has written the other one. -/
def Operation.obsolete : Operation → Option Bool
  | .encryptConfig _ => some false
  | .decryptConfig => some true
  | _ => none

section Writes

variable [Crates] {configDir : Str} {c c' : Config} {disk disk' : Disk} {o : Outcomes}
  {r : Except Exc Unit}

/-- `write_config` of a config file, as an operation on `c` calls it that writes under `password`. -/
def writeUnder (configDir : Str) (o : Outcomes) (c : Config) (password : Option Str)
    (configFile : ConfigFile) (disk : Disk) : Except Exc (ConfigFile × Disk) :=
  writeConfig configDir o configFile password { c with password }.nextNonce c.iterations
    c.configVersion disk

/-- The ways an operation goes. -/
inductive Operation.Result (configDir : Str) (c : Config) (o : Outcomes) (disk : Disk) (op : Operation) :
    Except Exc Unit → Config → Disk → Prop where
  /-- There is nothing to write, or the arguments are refused. -/
  | idle (r : Except Exc Unit) (hr : r = .ok () → ∃ nickname path, op = .addUserToShared nickname path)
      (hswitched : ∀ encrypted, op.obsolete = some encrypted → c.password.isSome ≠ encrypted) :
      Result configDir c o disk op r c disk
  /-- The config is not written. -/
  | failed (key : List UInt8) (e : Exc)
      (hw : writeUnder configDir o c (op.writtenUnder c) (op.edited key c.configFile) disk = .error e) :
      Result configDir c o disk op (.error e)
        { c with nonce := { c with password := op.writtenUnder c }.nextNonce } disk
  /-- The config is written, and what is obsolete removed. -/
  | written (key local' : List UInt8) (configFile : ConfigFile) (disk₁ disk' : Disk)
      (hw : writeUnder configDir o c (op.writtenUnder c) (op.edited key c.configFile) disk =
        .ok (configFile, disk₁))
      (hlocal : local' = c.localPrivateKeyBytes ∨
        op = .createNewId ∧ Base64.decode configFile.myPrivateId = .ok local')
      (hremoved : op.obsolete = none ∧ disk' = disk₁ ∨
        ∃ encrypted, op.obsolete = some encrypted ∧ o.removeFile = .ok () ∧ disk' = disk₁.remove encrypted) :
      Result configDir c o disk op (.ok ())
        { c with
          password := op.writtenUnder c
          nonce := { c with password := op.writtenUnder c }.nextNonce
          configFile
          localPrivateKeyBytes := local' } disk'
  /-- The config is written, and what is obsolete stays. -/
  | left (encrypted : Bool) (text : Str) (configFile : ConfigFile) (disk₁ : Disk)
      (hobsolete : op.obsolete = some encrypted) (hremove : o.removeFile = .error text)
      (hpassword : c.password.isSome = encrypted)
      (hw : writeUnder configDir o c (op.writtenUnder c) c.configFile disk = .ok (configFile, disk₁)) :
      Result configDir c o disk op (.error (.err text))
        { c with
          password := op.writtenUnder c
          nonce := { c with password := op.writtenUnder c }.nextNonce
          configFile } disk₁

/-- `write_and_set_config` is a write. -/
theorem writeAndSetConfig_cases {configFile : ConfigFile}
    (h : c.writeAndSetConfig configDir configFile o disk = (r, c', disk')) :
    (∃ e, writeUnder configDir o c c.password configFile disk = .error e ∧ r = .error e ∧
      c' = { c with nonce := c.nextNonce } ∧ disk' = disk) ∨
    ∃ written, writeUnder configDir o c c.password configFile disk = .ok (written, disk') ∧
      r = .ok () ∧ c' = { c with nonce := c.nextNonce, configFile := written } := by
  unfold Config.writeAndSetConfig at h
  dsimp only at h
  split at h
  · rename_i e hw
    cases h
    exact .inl ⟨e, hw, rfl, rfl, rfl⟩
  · rename_i written disk₁ hw
    cases h
    exact .inr ⟨written, hw, rfl, rfl⟩

/-- An operation that only writes. -/
theorem result_of_write {op : Operation} (key : List UInt8) (hunder : op.writtenUnder c = c.password)
    (hobsolete : op.obsolete = none)
    (h : c.writeAndSetConfig configDir (op.edited key c.configFile) o disk = (r, c', disk')) :
    op.Result configDir c o disk r c' disk' := by
  rcases writeAndSetConfig_cases h with ⟨e, hw, rfl, rfl, rfl⟩ | ⟨written, hw, rfl, rfl⟩
  · have hresult : op.Result configDir c o disk' _ _ _ := .failed key e (by rw [hunder]; exact hw)
    rw [hunder] at hresult
    exact hresult
  · have hresult : op.Result configDir c o disk _ _ _ := .written key c.localPrivateKeyBytes written
      disk' disk' (by rw [hunder]; exact hw) (.inl rfl) (.inl ⟨hobsolete, rfl⟩)
    rw [hunder] at hresult
    exact hresult

theorem createNewId_result (h : c.createNewId configDir o disk = (r, c', disk')) :
    Operation.createNewId.Result configDir c o disk r c' disk' := by
  unfold Config.createNewId at h
  split at h
  · cases h
    exact .idle _ nofun nofun
  · rename_i privateIdBytes _ hpair
    split at h
    · rename_i e c₁ disk₁ hw
      cases h
      exact result_of_write privateIdBytes rfl rfl hw
    · rename_i c₁ disk₁ hw
      rcases writeAndSetConfig_cases hw with ⟨e, -, hr, -⟩ | ⟨written, hwrite, -, rfl⟩
      · cases hr
      · have hverified : verifyConfig configDir
            (Operation.createNewId.edited privateIdBytes c.configFile) = .ok written := by
          obtain ⟨verified, hv, hrest⟩ := bind_eq_ok.mp hwrite
          obtain ⟨_, -, hrest⟩ := bind_eq_ok.mp hrest
          obtain ⟨_, -, hrest⟩ := bind_eq_ok.mp hrest
          obtain ⟨_, -, hrest⟩ := bind_eq_ok.mp hrest
          cases hrest
          exact hv
        obtain ⟨bytes, hbytes⟩ := decode_myPrivateId hverified
        simp only [hbytes] at h
        cases h
        exact .written privateIdBytes bytes written disk' disk' hwrite (.inr ⟨rfl, hbytes⟩)
          (.inl ⟨rfl, rfl⟩)

theorem encryptConfig_result {password : Str}
    (h : c.encryptConfig configDir password o disk = (r, c', disk')) :
    (Operation.encryptConfig password).Result configDir c o disk r c' disk' := by
  unfold Config.encryptConfig at h
  split at h
  · rename_i hencrypted
    cases h
    refine .idle _ nofun fun encrypted hobsolete => ?_
    cases hobsolete
    rw [hencrypted]
    decide
  · rename_i hplain
    have hnone : c.password = none := by simpa using hplain
    split at h
    · rename_i e c₁ disk₁ hw
      cases h
      rcases writeAndSetConfig_cases hw with ⟨e, hwrite, hr, rfl, rfl⟩ | ⟨written, -, hr, -⟩
      · cases hr
        have hresult : (Operation.encryptConfig password).Result configDir c o disk' _ _ _ :=
          .failed [] _ hwrite
        cases c
        cases hnone
        exact hresult
      · cases hr
    · rename_i c₁ disk₁ hw
      rcases writeAndSetConfig_cases hw with ⟨e, -, hr, -⟩ | ⟨written, hwrite, -, rfl⟩
      · cases hr
      · split at h
        · rename_i text hremove
          cases h
          exact .left false text written _ rfl hremove (by rw [hnone]; rfl) hwrite
        · rename_i hremove
          cases h
          exact .written [] c.localPrivateKeyBytes written _ _ hwrite (.inl rfl)
            (.inr ⟨false, rfl, hremove, rfl⟩)

theorem decryptConfig_result (h : c.decryptConfig configDir o disk = (r, c', disk')) :
    Operation.decryptConfig.Result configDir c o disk r c' disk' := by
  unfold Config.decryptConfig Config.isConfigEncrypted at h
  split at h
  · rename_i hplain
    cases h
    refine .idle _ nofun fun encrypted hobsolete hsome => ?_
    cases hobsolete
    rw [hsome] at hplain
    cases hplain
  · rename_i hencrypted
    have hsome : c.password.isSome = true := by
      cases hp : c.password.isSome with
      | true => rfl
      | false => exact absurd (by rw [hp]; rfl) hencrypted
    split at h
    · rename_i e c₁ disk₁ hw
      cases h
      rcases writeAndSetConfig_cases hw with ⟨e, hwrite, hr, rfl, rfl⟩ | ⟨written, -, hr, -⟩
      · cases hr
        exact .failed [] _ hwrite
      · cases hr
    · rename_i c₁ disk₁ hw
      rcases writeAndSetConfig_cases hw with ⟨e, -, hr, -⟩ | ⟨written, hwrite, -, rfl⟩
      · cases hr
      · split at h
        · rename_i text hremove
          cases h
          exact .left true text written _ rfl hremove hsome hwrite
        · rename_i hremove
          cases h
          exact .written [] c.localPrivateKeyBytes written _ _ hwrite (.inl rfl)
            (.inr ⟨true, rfl, hremove, rfl⟩)

/-- **How an operation goes.** -/
theorem operation_result {op : Operation} (h : op.run configDir c o disk = (r, c', disk')) :
    op.Result configDir c o disk r c' disk' := by
  cases op with
  | addUserToShared nickname filePath =>
    unfold Operation.run at h
    dsimp only at h
    unfold Config.addUserToShared at h
    split at h
    · cases h
      exact .idle _ nofun nofun
    · split at h
      · cases h
        exact .idle _ nofun nofun
      · split at h
        · cases h
          exact .idle _ (fun _ => ⟨nickname, filePath, rfl⟩) nofun
        · exact result_of_write [] rfl rfl h
  | createNewId => exact createNewId_result h
  | setUserIsAllowedState nickname isAllowed =>
    unfold Operation.run at h
    dsimp only at h
    unfold Config.setUserIsAllowedState at h
    split at h
    · exact result_of_write [] rfl rfl h
    · cases h
      exact .idle _ nofun nofun
  | updateUser nickname publicId ip port =>
    unfold Operation.run at h
    dsimp only at h
    unfold Config.updateUser at h
    split at h
    · exact result_of_write [] rfl rfl h
    · cases h
      exact .idle _ nofun nofun
  | encryptConfig password => exact encryptConfig_result h
  | decryptConfig => exact decryptConfig_result h
  | _ => exact result_of_write [] rfl rfl h

/-! ## 2. All or nothing -/

/-- What `write_config` writes is the config it returns, encrypted where there is a password. -/
theorem written_text {password : Option Str} {raw configFile : ConfigFile}
    (h : writeUnder configDir o c password raw disk = .ok (configFile, disk')) :
    ∃ json text, Crates.configToJson configFile = .ok json ∧
      getFileStr o json password { c with password }.nextNonce c.iterations c.configVersion =
        .ok text ∧ disk' = disk.write password.isSome (utf8 text) := by
  obtain ⟨verified, -, h⟩ := bind_eq_ok.mp h
  obtain ⟨json, hjson, h⟩ := bind_eq_ok.mp h
  obtain ⟨text, htext, h⟩ := bind_eq_ok.mp h
  obtain ⟨-, -, h⟩ := bind_eq_ok.mp h
  cases h
  exact ⟨json, text, orErr_eq_ok.mp hjson, htext, rfl⟩

omit [Crates] in
/-- What an operation removes is not what it writes. -/
theorem obsolete_ne {op : Operation} {encrypted : Bool} (h : op.obsolete = some encrypted) :
    (op.writtenUnder c).isSome = !encrypted := by
  cases op with
  | encryptConfig password =>
    cases h
    rfl
  | decryptConfig =>
    cases h
    rfl
  | _ => cases h

omit [Crates] in
theorem Disk.file_remove (disk : Disk) (encrypted : Bool) :
    (disk.remove encrypted).file (!encrypted) = disk.file (!encrypted) := by
  cases encrypted <;> rfl

/-- **A failed operation changes nothing but the counter, and one that succeeds has written the config it
    leaves in memory**: for every operation, with any outcome of its system calls. The one other failure
    is that the config was verified, encrypted and written, and the obsolete file cannot be removed. -/
theorem operation_atomic {op : Operation} (h : op.run configDir c o disk = (r, c', disk')) :
    (∀ text, r = .error (.err text) →
      c' = { c with nonce := c'.nonce } ∧ disk' = disk ∨
      op.obsolete.isSome ∧ o.removeFile = .error text ∧
        ∃ written, writeUnder configDir o c (op.writtenUnder c) c.configFile disk = .ok written) ∧
    (r = .ok () → c' = c ∧ disk' = disk ∨
      ∃ json text, Crates.configToJson c'.configFile = .ok json ∧
        getFileStr o json c'.password c'.nonce c'.iterations c'.configVersion = .ok text ∧
          disk'.file c'.password.isSome = some (utf8 text)) := by
  cases operation_result h with
  | idle r hr hswitched => exact ⟨fun _ _ => .inl ⟨rfl, rfl⟩, fun _ => .inl ⟨rfl, rfl⟩⟩
  | failed key e hw => exact ⟨fun _ _ => .inl ⟨rfl, rfl⟩, nofun⟩
  | written key local' configFile disk₁ disk' hw hlocal hremoved =>
    refine ⟨nofun, fun _ => .inr ?_⟩
    obtain ⟨json, text, hjson, htext, hdisk⟩ := written_text hw
    refine ⟨json, text, hjson, htext, ?_⟩
    have hfile : disk₁.file (op.writtenUnder c).isSome = some (utf8 text) := by
      rw [hdisk, Disk.file_write]
    rcases hremoved with ⟨-, rfl⟩ | ⟨encrypted, hobsolete, -, rfl⟩
    · exact hfile
    · have hne := obsolete_ne (c := c) hobsolete
      show (disk₁.remove encrypted).file (op.writtenUnder c).isSome = _
      rw [hne] at hfile ⊢
      rw [Disk.file_remove]
      exact hfile
  | left encrypted text configFile disk₁ hobsolete hremove hpassword hw =>
    refine ⟨fun text' htext => .inr ?_, nofun⟩
    cases htext
    exact ⟨by rw [hobsolete]; rfl, hremove, _, hw⟩

end Writes

/-- After the sample addition the file is the serialization of the config in memory. -/
theorem operation_atomic_sample : ∃ json,
    (sampleCrates sampleConfigs).configToJson (sampleMemory [" /x".toList]).configFile = .ok json ∧
      (sampleDisk [" /x".toList]).file false = some (utf8 json) := by
  rcases (@operation_atomic (sampleCrates sampleConfigs) _ _ _ _ _ _ _ _ sample_addFiles).2 rfl with
    ⟨hc, -⟩ | ⟨json, text, hjson, htext, hfile⟩
  · exact absurd (sampleConfig_injective (congrArg Config.configFile hc)) (by decide)
  · cases htext
    exact ⟨json, hjson, hfile⟩

end Transmitic
