/-
  File:      Transmitic/ConfigNonce.lean
  Subject:   THE NONCES OF THE ENCRYPTED CONFIG.

  The counter is in memory, and stands as a decimal number in the file it protects. It moves on before
  every write, also before one that fails, and is read again when the program starts.

  * `EncryptedUnder` -- a version of the file: it stores the nonce, and is encrypted under the low 96 bits
    of it;
  * `EncryptedRun` -- operations and program starts while the config stays encrypted, with the versions
    of the file;
  * `NonceInv` -- the nonces of the versions rise, and the counter is not behind the last one;
  * `nonces_increase` -- **the nonces of the versions are strictly increasing**.
-/
import Transmitic.ConfigSwitch

namespace Transmitic

open Lib

/-! ## 1. Versions of the file -/

/-- The low bytes of a number do not depend on how many are in front. -/
theorem drop_beBytes (j : Nat) : ∀ k n, (beBytes (j + k) n).drop j = beBytes k n
  | 0, n => by
    rw [Nat.add_zero]
    exact List.drop_eq_nil_of_le (Nat.le_of_eq (length_beBytes j n))
  | k + 1, n => by
    have hle : j ≤ (beBytes (j + k) (n / 256)).length := by simp
    rw [← Nat.add_assoc, beBytes, List.drop_append_of_le_length hle, drop_beBytes j k, beBytes]

/-- What the cipher gets are the low 96 bits. -/
theorem nonceBytes_low (n : Nat) : (nonceBytes n).length = 12 ∧ ofBe (nonceBytes n) = n % 2 ^ 96 := by
  have hbytes : nonceBytes n = beBytes 12 n := drop_beBytes 4 12 n
  rw [hbytes, length_beBytes, ofBe_beBytes]
  exact ⟨rfl, rfl⟩

section Nonces

variable [Crates] {configDir : Str} {c c' : Config} {disk disk' : Disk} {o : Outcomes}
  {r : Except Exc Unit} {op : Operation}

/-- An encrypted config file. -/
def readVersion (bytes : List UInt8) : Except Exc EncryptedConfig := do
  let text ← readToString (some bytes)
  orErr id (Crates.encryptedFromJson text)

/-- The file stores this nonce, and its ciphertext was made under the low 96 bits of it. -/
def EncryptedUnder (bytes : List UInt8) (nonce : Nat) : Prop :=
  ∃ e cipher key iv plain, readVersion bytes = .ok e ∧ parseU128 e.nonce = .ok nonce ∧
    Base64.decode e.encryptedConfig = .ok cipher ∧ iv.length = 12 ∧ ofBe iv = nonce % 2 ^ 96 ∧
      Crates.aesEncrypt key iv plain = .ok cipher

/-- What is written with a password is such a version. -/
theorem encryptedUnder_of_text (hl : RoundTrips) {json password text : Str} {nonce : Nat}
    {iterations : UInt32} {version : UInt16} (hn : nonce < 2 ^ 128)
    (h : getEncryptedConfigStr o json password nonce iterations version = .ok text) :
    EncryptedUnder (utf8 text) nonce := by
  unfold getEncryptedConfigStr at h
  obtain ⟨salt, -, h⟩ := bind_eq_ok.mp h
  by_cases hi : iterations = 0
  · rw [if_pos hi] at h
    cases h
  rw [if_neg hi] at h
  obtain ⟨-, -, h⟩ := bind_eq_ok.mp h
  obtain ⟨cipher, hc, h⟩ := bind_eq_ok.mp h
  have hfile : readVersion (utf8 text) = .ok
      { version
        nonce := natText nonce
        pbkdf2Iterations := iterations
        salt := Base64.encode salt
        encryptedConfig := Base64.encode cipher } := by
    rw [readVersion, readToString_utf8]
    exact orErr_eq_ok.mpr (hl.encrypted _ _ (orErr_eq_ok.mp h))
  obtain ⟨hlength, hlow⟩ := nonceBytes_low nonce
  exact ⟨_, cipher, _, nonceBytes nonce, _, hfile, parseU128_natText hn, Base64.decode_encode cipher,
    hlength, hlow, orErr_eq_ok.mp hc⟩

/-- A version stores one nonce. -/
theorem EncryptedUnder.unique {bytes : List UInt8} {m n : Nat} (hm : EncryptedUnder bytes m)
    (hn : EncryptedUnder bytes n) : m = n := by
  obtain ⟨e, -, -, -, -, he, hnonce, -⟩ := hm
  obtain ⟨e', -, -, -, -, he', hnonce', -⟩ := hn
  rw [he] at he'
  cases he'
  rw [hnonce] at hnonce'
  cases hnonce'
  rfl

/-- The counter after reading the config is the nonce the file stores. -/
theorem nonce_of_read {password : Str} {configFile : ConfigFile} {m n : Nat} (bytes : List UInt8)
    (hd : disk.encryptedConfig = some bytes) (hm : EncryptedUnder bytes m)
    (h : readConfig configDir (some password) disk = .ok (configFile, n)) : n = m := by
  obtain ⟨e, -, -, -, -, he, hnonce, -⟩ := hm
  unfold readConfig at h
  simp only [Option.isSome_some, Disk.file, if_true, hd, reduceCtorEq, if_false] at h
  obtain ⟨⟨json, k⟩, hstring, h⟩ := bind_eq_ok.mp h
  obtain ⟨parsed, -, h⟩ := bind_eq_ok.mp h
  obtain ⟨verified, -, h⟩ := bind_eq_ok.mp h
  cases h
  obtain ⟨text, htext, hstring⟩ := bind_eq_ok.mp hstring
  obtain ⟨e', he', hstring⟩ := bind_eq_ok.mp hstring
  have hread : readVersion bytes = .ok e' := by
    rw [hd] at htext
    rw [readVersion, htext]
    exact he'
  rw [he] at hread
  cases hread
  rw [hnonce] at hstring
  obtain ⟨k, hk, hstring⟩ := bind_eq_ok.mp hstring
  cases hk
  obtain ⟨salt, -, hstring⟩ := bind_eq_ok.mp hstring
  obtain ⟨cipher, -, hstring⟩ := bind_eq_ok.mp hstring
  by_cases hi : e.pbkdf2Iterations = 0
  · rw [if_pos hi] at hstring
    cases hstring
  rw [if_neg hi] at hstring
  obtain ⟨-, -, hstring⟩ := bind_eq_ok.mp hstring
  obtain ⟨plain, -, hstring⟩ := bind_eq_ok.mp hstring
  split at hstring
  · cases hstring
  · cases hstring
    rfl

/-! ## 2. Runs -/

/-- The versions of the encrypted file after a step. -/
def versionsAfter (versions : List (List UInt8)) (disk disk' : Disk) : List (List UInt8) :=
  if disk'.encryptedConfig = disk.encryptedConfig then versions
  else versions ++ disk'.encryptedConfig.toList

/-- Runs while the config stays encrypted, from the first start of the program with a password or from
    the encryption of a plain config, up to an operation that begins when the counter is at its end. The
    versions of the encrypted file are in the order in which they were written. -/
inductive EncryptedRun (configDir : Str) : Config → Disk → List (List UInt8) → Prop where
  | firstStart (password : Str) (o : Outcomes) (c : Config) (disk disk' : Disk)
      (h : Config.new configDir true (some password) o disk = .ok (c, disk')) :
      EncryptedRun configDir c disk' disk'.encryptedConfig.toList
  | encrypted (c c' : Config) (password : Str) (o : Outcomes) (disk disk' : Disk)
      (r : Except Exc Unit) (hplain : c.password = none)
      (h : c.encryptConfig configDir password o disk = (r, c', disk')) (hr : r ≠ .error .panic)
      (hencrypted : c'.password.isSome) :
      EncryptedRun configDir c' disk' disk'.encryptedConfig.toList
  | operation (c c' : Config) (disk disk' : Disk) (versions : List (List UInt8)) (op : Operation)
      (o : Outcomes) (r : Except Exc Unit) (hrun : EncryptedRun configDir c disk versions)
      (hcounter : c.nonce < nonceMax) (h : op.run configDir c o disk = (r, c', disk'))
      (hr : r ≠ .error .panic) (hencrypted : c'.password.isSome) :
      EncryptedRun configDir c' disk' (versionsAfter versions disk disk')
  | restart (c c' : Config) (disk disk' : Disk) (versions : List (List UInt8)) (o : Outcomes)
      (hrun : EncryptedRun configDir c disk versions)
      (h : Config.new configDir false c.password o disk = .ok (c', disk')) :
      EncryptedRun configDir c' disk' versions

/-- The versions with their nonces, which rise; the last one is on the disk, and the counter is not
    behind it. -/
structure NonceInv (c : Config) (disk : Disk) (versions : List (List UInt8)) : Prop where
  encrypted : c.password.isSome
  counted : ∃ front last nonces nonce, versions = front ++ [last] ∧
    disk.encryptedConfig = some last ∧ List.Forall₂ EncryptedUnder front nonces ∧
      EncryptedUnder last nonce ∧ (nonces ++ [nonce]).Pairwise (· < ·) ∧ nonce ≤ c.nonce

/-! ## 3. The nonces rise -/

/-- The first version. -/
theorem nonceInv_start (bytes : List UInt8) {n : Nat} (hpassword : c.password.isSome)
    (hd : disk.encryptedConfig = some bytes) (hn : EncryptedUnder bytes n) (hle : n ≤ c.nonce) :
    NonceInv c disk disk.encryptedConfig.toList where
  encrypted := hpassword
  counted := ⟨[], bytes, [], n, by rw [hd]; rfl, hd, .nil, hn, List.pairwise_singleton _ _, hle⟩

/-- A later counter. -/
theorem NonceInv.later {versions : List (List UInt8)} (h : NonceInv c disk versions)
    (hpassword : c'.password.isSome) (hle : c.nonce ≤ c'.nonce)
    (hd : disk'.encryptedConfig = disk.encryptedConfig) :
    NonceInv c' disk' (versionsAfter versions disk disk') := by
  obtain ⟨front, last, nonces, nonce, hversions, hlast, hfront, hnonce, hsorted, hbound⟩ := h.counted
  rw [versionsAfter, if_pos hd]
  exact ⟨hpassword, front, last, nonces, nonce, hversions, hd.trans hlast, hfront, hnonce, hsorted,
    hbound.trans hle⟩

/-- A new version, under a counter that has moved on. -/
theorem NonceInv.write {versions : List (List UInt8)} {bytes : List UInt8}
    (h : NonceInv c disk versions) (hpassword : c'.password.isSome) (hlt : c.nonce < c'.nonce)
    (hd : disk'.encryptedConfig = some bytes) (hbytes : EncryptedUnder bytes c'.nonce) :
    NonceInv c' disk' (versionsAfter versions disk disk') := by
  by_cases hsame : disk'.encryptedConfig = disk.encryptedConfig
  · exact h.later hpassword (Nat.le_of_lt hlt) hsame
  obtain ⟨front, last, nonces, nonce, hversions, hlast, hfront, hnonce, hsorted, hbound⟩ := h.counted
  rw [versionsAfter, if_neg hsame, hd, hversions]
  refine ⟨hpassword, front ++ [last], bytes, nonces ++ [nonce], c'.nonce, rfl, hd,
    List.rel_append hfront (.cons hnonce .nil), hbytes, ?_, Nat.le_refl _⟩
  refine List.pairwise_append.mpr ⟨hsorted, List.pairwise_singleton _ _, fun m hm n hn => ?_⟩
  rw [List.mem_singleton] at hn
  subst hn
  rcases List.mem_append.mp hm with hm | hm
  · have hlt' := (List.pairwise_append.mp hsorted).2.2 m hm nonce (List.mem_singleton.mpr rfl)
    omega
  · rw [List.mem_singleton] at hm
    omega

omit [Crates] in
theorem nextNonce_of_password {password : Option Str} (h : c.nonce < nonceMax) :
    { c with password }.nextNonce = if password.isSome then c.nonce + 1 else c.nonce := by
  unfold Config.nextNonce
  simp only
  split
  · exact if_neg (Nat.not_le.mpr h)
  · rfl

/-- What a write under a password leaves on the disk. -/
theorem encryptedUnder_of_write (hl : RoundTrips) {password : Option Str} {raw configFile : ConfigFile}
    (hpassword : password.isSome)
    (hw : writeUnder configDir o c password raw disk = .ok (configFile, disk')) :
    ∃ bytes, disk'.encryptedConfig = some bytes ∧
      EncryptedUnder bytes { c with password }.nextNonce := by
  obtain ⟨json, text, -, htext, rfl⟩ := written_text hw
  obtain ⟨p, rfl⟩ := Option.isSome_iff_exists.mp hpassword
  exact ⟨utf8 text, rfl, encryptedUnder_of_text hl (nextNonce_lt _ rfl) htext⟩

/-- **An operation keeps the order.** -/
theorem NonceInv.operation (hl : RoundTrips) {versions : List (List UInt8)}
    (h : NonceInv c disk versions) (hcounter : c.nonce < nonceMax)
    (hop : op.Result configDir c o disk r c' disk') (hencrypted : c'.password.isSome) :
    NonceInv c' disk' (versionsAfter versions disk disk') := by
  cases hop with
  | idle r hr hswitched => exact h.later h.encrypted (Nat.le_refl _) rfl
  | failed key e hw =>
    refine h.later h.encrypted ?_ rfl
    rw [nextNonce_of_password hcounter]
    split
    · exact Nat.le_succ _
    · exact Nat.le_refl _
  | written key local' configFile disk₁ disk' hw hlocal hremoved =>
    have hsome : (op.writtenUnder c).isSome = true := hencrypted
    obtain ⟨bytes, hd, hbytes⟩ := encryptedUnder_of_write hl hsome hw
    have hkept : disk'.encryptedConfig = some bytes := by
      rcases hremoved with ⟨-, rfl⟩ | ⟨encrypted, hobsolete, -, rfl⟩
      · exact hd
      · have hne := obsolete_ne (c := c) hobsolete
        rw [hsome] at hne
        cases encrypted with
        | true => cases hne
        | false => exact hd
    refine h.write hencrypted ?_ hkept hbytes
    rw [nextNonce_of_password hcounter, if_pos hsome]
    exact Nat.lt_succ_self _
  | left encrypted text configFile disk₁ hobsolete hremove hpassword hw =>
    -- an encrypted config can only be decrypted
    have hne := obsolete_ne (c := c) hobsolete
    have hsome : (op.writtenUnder c).isSome = true := hencrypted
    rw [← hpassword, h.encrypted, hsome] at hne
    cases hne

/-- What a program start reads. -/
theorem new_reads {isFirstStart : Bool} {password : Option Str}
    (h : Config.new configDir isFirstStart password o disk = .ok (c, disk')) :
    c.password = password ∧ createIfFirstStart configDir isFirstStart o password disk = .ok disk' ∧
      ∃ configFile, readConfig configDir password disk' = .ok (configFile, c.nonce) := by
  obtain ⟨-, -, h⟩ := bind_eq_ok.mp h
  obtain ⟨disk₁, hdisk, h⟩ := bind_eq_ok.mp h
  obtain ⟨⟨configFile, n⟩, hread, h⟩ := bind_eq_ok.mp h
  obtain ⟨key, -, h⟩ := bind_eq_ok.mp h
  cases h
  exact ⟨rfl, hdisk, configFile, hread⟩

/-- The first start with a password writes the first version. -/
theorem nonceInv_firstStart (hl : RoundTrips) {password : Str}
    (h : Config.new configDir true (some password) o disk = .ok (c, disk')) :
    NonceInv c disk' disk'.encryptedConfig.toList := by
  obtain ⟨hpassword, hcreated, configFile, hread⟩ := new_reads h
  unfold createIfFirstStart createNewConfig at hcreated
  rw [if_pos rfl] at hcreated
  obtain ⟨pair, -, hcreated⟩ := bind_eq_ok.mp hcreated
  obtain ⟨⟨written, disk₁⟩, hw, hcreated⟩ := bind_eq_ok.mp hcreated
  cases hcreated
  obtain ⟨verified, -, hw⟩ := bind_eq_ok.mp hw
  obtain ⟨json, -, hw⟩ := bind_eq_ok.mp hw
  obtain ⟨text, htext, hw⟩ := bind_eq_ok.mp hw
  obtain ⟨-, -, hw⟩ := bind_eq_ok.mp hw
  cases hw
  have hunder : EncryptedUnder (utf8 text) nonceInit :=
    encryptedUnder_of_text hl (by decide) htext
  have hnonce := nonce_of_read (utf8 text) rfl hunder hread
  refine nonceInv_start (utf8 text) (by rw [hpassword]; rfl) rfl hunder ?_
  exact Nat.le_of_eq hnonce.symm

/-- The encryption of a plain config does so, too. -/
theorem nonceInv_encrypted (hl : RoundTrips) {password : Str} (hplain : c.password = none)
    (h : c.encryptConfig configDir password o disk = (r, c', disk')) (hencrypted : c'.password.isSome) :
    NonceInv c' disk' disk'.encryptedConfig.toList := by
  have hno : ¬ c.password.isSome = true := by simp [hplain]
  cases encryptConfig_result h with
  | idle r hr hswitched => exact absurd hencrypted hno
  | failed key e hw => exact absurd hencrypted hno
  | written key local' configFile disk₁ disk' hw hlocal hremoved =>
    obtain ⟨bytes, hd, hbytes⟩ := encryptedUnder_of_write hl hencrypted hw
    have hkept : disk'.encryptedConfig = some bytes := by
      rcases hremoved with ⟨-, rfl⟩ | ⟨encrypted, hobsolete, -, rfl⟩
      · exact hd
      · cases hobsolete
        exact hd
    exact nonceInv_start bytes hencrypted hkept hbytes (Nat.le_refl _)
  | left encrypted text configFile disk₁ hobsolete hremove hpassword hw =>
    obtain ⟨bytes, hd, hbytes⟩ := encryptedUnder_of_write hl hencrypted hw
    exact nonceInv_start bytes hencrypted hd hbytes (Nat.le_refl _)

/-- A program start reads the nonce of the last version. -/
theorem NonceInv.restart {versions : List (List UInt8)} (h : NonceInv c disk versions)
    (hnew : Config.new configDir false c.password o disk = .ok (c', disk')) :
    NonceInv c' disk' versions := by
  obtain ⟨hpassword, hcreated, configFile, hread⟩ := new_reads hnew
  cases hcreated
  obtain ⟨front, last, nonces, nonce, hversions, hlast, hfront, hnonce, hsorted, hbound⟩ := h.counted
  obtain ⟨p, hp⟩ := Option.isSome_iff_exists.mp h.encrypted
  rw [hp] at hread
  have hcounter := nonce_of_read last hlast hnonce hread
  refine ⟨?_, front, last, nonces, nonce, hversions, hlast, hfront, hnonce, hsorted, ?_⟩
  · rw [hpassword]
    exact h.encrypted
  · exact Nat.le_of_eq hcounter.symm

/-! ## 4. Every run -/

theorem nonceInv_of_run (hl : RoundTrips) {versions : List (List UInt8)}
    (h : EncryptedRun configDir c disk versions) : NonceInv c disk versions := by
  induction h with
  | firstStart password o c disk disk' h => exact nonceInv_firstStart hl h
  | encrypted c c' password o disk disk' r hplain h hr hencrypted =>
    exact nonceInv_encrypted hl hplain h hencrypted
  | operation c c' disk disk' versions op o r hrun hcounter h hr hencrypted ih =>
    exact ih.operation hl hcounter (operation_result h) hencrypted
  | restart c c' disk disk' versions o hrun h ih => exact ih.restart h

/-- **The nonces of the versions of the encrypted config are strictly increasing**, over every run up to the
    end of the counter, and each version is encrypted under the low 96 bits of the nonce it stores. -/
theorem nonces_increase (hl : RoundTrips) {versions : List (List UInt8)}
    (h : EncryptedRun configDir c disk versions) :
    ∃ nonces, List.Forall₂ EncryptedUnder versions nonces ∧ nonces.Pairwise (· < ·) := by
  obtain ⟨front, last, nonces, nonce, rfl, -, hfront, hnonce, hsorted, -⟩ :=
    (nonceInv_of_run hl h).counted
  exact ⟨nonces ++ [nonce], List.rel_append hfront (.cons hnonce .nil), hsorted⟩

end Nonces

/-! ## 5. Three versions -/

/-- The JSON of an encrypted config. -/
def encryptedJson (e : EncryptedConfig) : Str :=
  let text (s : Str) : Str := '"' :: s ++ "\"".toList
  '\x7b' :: jsonLine 2 "version".toList (natText e.version.toNat ++ [',']) ++
    jsonLine 2 "nonce".toList (text e.nonce ++ [',']) ++
    jsonLine 2 "pbkdf2_iterations".toList (natText e.pbkdf2Iterations.toNat ++ [',']) ++
    jsonLine 2 "salt".toList (text e.salt ++ [',']) ++
    jsonLine 2 "encrypted_config".toList (text e.encryptedConfig) ++ ['\n', '\x7d']

/-- A package that knows the JSON of these encrypted configs. -/
def tableToJson (texts : List (EncryptedConfig × Str)) (e : EncryptedConfig) : Except Str Str :=
  match texts.find? fun p => p.1 = e with
  | some p => .ok p.2
  | none => .error []

def tableFromJson (texts : List (EncryptedConfig × Str)) (text : Str) : Except Str EncryptedConfig :=
  match texts.find? fun p => p.2 = text with
  | some p => .ok p.1
  | none => .error []

theorem tableFromJson_toJson {texts : List (EncryptedConfig × Str)} (hnodup : (texts.map Prod.snd).Nodup)
    {e : EncryptedConfig} {text : Str} (h : tableToJson texts e = .ok text) :
    tableFromJson texts text = .ok e := by
  unfold tableToJson at h
  split at h
  · rename_i p hp
    cases h
    obtain ⟨hmem, he⟩ := find_some hp
    have hfind : texts.find? (fun q => q.2 = p.2) = some p :=
      find_unique hmem rfl fun q hq e => List.inj_on_of_nodup_map hnodup hq hmem e
    rw [tableFromJson, hfind]
    exact congrArg Except.ok he
  · cases h

theorem tableToJson_mem {texts : List (EncryptedConfig × Str)} (hnodup : (texts.map Prod.fst).Nodup)
    {e : EncryptedConfig} {text : Str} (h : (e, text) ∈ texts) : tableToJson texts e = .ok text := by
  have hfind : texts.find? (fun q => q.1 = e) = some (e, text) :=
    find_unique h rfl fun q hq he => List.inj_on_of_nodup_map hnodup hq h he
  rw [tableToJson, hfind]

/-- What a config is encrypted to, by a cipher that only appends a tag. -/
def sealedUnder (nonce : Nat) (configFile : ConfigFile) : EncryptedConfig :=
  { version := configVersion
    nonce := natText nonce
    pbkdf2Iterations := pbkdf2Iterations
    salt := Base64.encode (List.replicate 16 0)
    encryptedConfig := Base64.encode (utf8 (configJson configFile) ++ List.replicate 16 0) }

/-- The sample config with another port, then with reverse connections, or without incoming ones. -/
def portConfig : ConfigFile := { sampleConfig [] with sharingPort := "45455".toList }

def reverseConfig : ConfigFile := { portConfig with reverseConnection := true }

def ignoringConfig : ConfigFile := { portConfig with ignoreIncoming := true }

/-- The configs that are to be written, and under which nonce. -/
def versionConfigs : List (Nat × ConfigFile) :=
  [(1, sampleConfig []), (2, portConfig), (3, reverseConfig), (4, ignoringConfig)]

def versionJsons : List (ConfigFile × Str) := versionConfigs.map fun v => (v.2, configJson v.2)

def versionTexts : List (EncryptedConfig × Str) :=
  versionConfigs.map fun v => (sealedUnder v.1 v.2, encryptedJson (sealedUnder v.1 v.2))

/-- The other packages on them. -/
abbrev versionCrates : Crates :=
  { sampleCrates versionJsons with
    encryptedToJson := tableToJson versionTexts
    encryptedFromJson := tableFromJson versionTexts
    aesEncrypt := fun _ _ plain => .ok (plain ++ List.replicate 16 0)
    aesDecrypt := fun _ _ cipher => .ok (cipher.take (cipher.length - 16)) }

theorem versionTexts_nodup : (versionTexts.map Prod.snd).Nodup := by decide +kernel

theorem versionTexts_nonces : (versionTexts.map Prod.fst).Nodup := by
  have hnonces : ((versionTexts.map Prod.fst).map EncryptedConfig.nonce).Nodup := by decide +kernel
  exact hnonces.of_map _

theorem versionJsons_nodup : (versionJsons.map Prod.snd).Nodup := by decide +kernel

theorem versionCrates_roundTrips : @RoundTrips versionCrates := by
  have hconfig := @RoundTrips.config (sampleCrates versionJsons) (sampleCrates_roundTrips versionJsons_nodup)
  refine @RoundTrips.mk versionCrates hconfig (fun _ _ => tableFromJson_toJson versionTexts_nodup)
    fun key nonce plain cipher h => ?_
  unfold Crates.aesEncrypt at h
  unfold Crates.aesDecrypt
  dsimp only [versionCrates] at h ⊢
  cases h
  rw [List.length_append, List.length_replicate, Nat.add_sub_cancel, List.take_left]

/-- The sample config in memory after its encryption, with this config, at this count. -/
def versionMemory (nonce : Nat) (configFile : ConfigFile) : Config :=
  { sampleMemory [] with password := some "secret".toList, nonce, configFile }

def versionDisk (nonce : Nat) (configFile : ConfigFile) : Disk :=
  { configJson := none, encryptedConfig := some (utf8 (encryptedJson (sealedUnder nonce configFile))) }

/-- One of the configs is written. -/
theorem version_text {nonce : Nat} {configFile : ConfigFile} (h : (nonce, configFile) ∈ versionConfigs) :
    @getEncryptedConfigStr versionCrates sampleOutcomes (configJson configFile) "secret".toList nonce
      pbkdf2Iterations configVersion = .ok (encryptedJson (sealedUnder nonce configFile)) := by
  have hmem : (sealedUnder nonce configFile, encryptedJson (sealedUnder nonce configFile)) ∈ versionTexts :=
    List.mem_map.mpr ⟨_, h, rfl⟩
  have hjson : versionCrates.encryptedToJson (sealedUnder nonce configFile) =
      .ok (encryptedJson (sealedUnder nonce configFile)) := tableToJson_mem versionTexts_nonces hmem
  have hiterations : ¬ pbkdf2Iterations = 0 := by decide
  have hsealed : ∀ key nonce, versionCrates.aesEncrypt key nonce (utf8 (configJson configFile)) =
      .ok (utf8 (configJson configFile) ++ List.replicate 16 0) := fun _ _ => rfl
  unfold getEncryptedConfigStr
  simp only [sampleOutcomes, orErr, bind, Except.bind, hiterations, if_false, hsealed]
  rw [sealedUnder] at hjson
  rw [hjson]
  rfl

theorem version_json {nonce : Nat} {configFile : ConfigFile} (h : (nonce, configFile) ∈ versionConfigs) :
    versionCrates.configToJson configFile = .ok (configJson configFile) := by
  have hchecked : ∀ v ∈ versionConfigs, versionCrates.configToJson v.2 = .ok (configJson v.2) := by
    decide +kernel
  exact hchecked _ h

theorem version_verify {nonce : Nat} {configFile : ConfigFile} (h : (nonce, configFile) ∈ versionConfigs) :
    @verifyConfig versionCrates sampleDir configFile = .ok configFile := by
  have hchecked : ∀ v ∈ versionConfigs, @verifyConfig versionCrates sampleDir v.2 = .ok v.2 := by
    decide +kernel
  exact hchecked _ h

theorem version_write {nonce : Nat} {configFile : ConfigFile} (h : (nonce, configFile) ∈ versionConfigs)
    (disk : Disk) : @writeConfig versionCrates sampleDir sampleOutcomes configFile (some "secret".toList)
      nonce pbkdf2Iterations configVersion disk =
        .ok (configFile, { disk with encryptedConfig := (versionDisk nonce configFile).encryptedConfig }) := by
  unfold writeConfig
  simp only [version_verify h, version_json h, version_text h, getFileStr, orErr, bind, Except.bind]
  rfl

/-- An operation writes the config `configFile`. -/
theorem version_operation {nonce count : Nat} {configFile edited : ConfigFile} {disk : Disk}
    (h : (nonce, edited) ∈ versionConfigs) (hnext : (versionMemory count configFile).nextNonce = nonce) :
    @Config.writeAndSetConfig versionCrates sampleDir (versionMemory count configFile) edited sampleOutcomes
      disk = (.ok (), versionMemory nonce edited,
        { disk with encryptedConfig := (versionDisk nonce edited).encryptedConfig }) := by
  subst hnext
  exact @writeAndSetConfig_eq versionCrates _ (versionMemory count configFile) _ _ _ _ _ (version_write h disk)

/-- The program is started again. -/
theorem version_restart {nonce : Nat} {configFile : ConfigFile} (h : (nonce, configFile) ∈ versionConfigs)
    (hid : configFile.myPrivateId = Base64.encode sampleKey) (hn : nonce < 2 ^ 128) :
    @Config.new versionCrates sampleDir false (some "secret".toList) sampleOutcomes
      (versionDisk nonce configFile) = .ok (versionMemory nonce configFile, versionDisk nonce configFile) := by
  have hstring : @readConfigString versionCrates (some "secret".toList) (versionDisk nonce configFile) =
      .ok (configJson configFile, nonce) :=
    @readEncryptedConfig_written versionCrates versionCrates_roundTrips _ _ _ _ _ _ _ _ hn (version_text h) rfl
  have hjson := @RoundTrips.config versionCrates versionCrates_roundTrips _ _ (version_json h)
  have hread : @readConfig versionCrates sampleDir (some "secret".toList) (versionDisk nonce configFile) =
      .ok (configFile, nonce) := by
    have hfile : (versionDisk nonce configFile).file true ≠ none := nofun
    unfold readConfig
    simp only [Option.isSome_some, hfile, if_false, hstring, hjson, orErr, version_verify h, bind, Except.bind]
  have hkey : Base64.decode configFile.myPrivateId = .ok sampleKey := by
    rw [hid]
    exact Base64.decode_encode sampleKey
  exact @new_of_read versionCrates _ _ _ _ _ _ _ rfl hread hkey

/-- All system calls succeed but the write. -/
def fullOutcomes : Outcomes := { sampleOutcomes with fsWrite := .error "No space left on device".toList }

/-- The plain config is encrypted. -/
theorem version_encrypt : @Config.encryptConfig versionCrates sampleDir (sampleMemory []) "secret".toList
    sampleOutcomes (sampleDisk []) =
      (.ok (), versionMemory 1 (sampleConfig []), versionDisk 1 (sampleConfig [])) := by
  have hplain : ¬ (sampleMemory []).password.isSome = true := by decide
  have hwrite := @version_operation 1 nonceInit (sampleConfig []) (sampleConfig []) (sampleDisk [])
    List.mem_cons_self (by decide)
  unfold Config.encryptConfig
  rw [if_neg hplain]
  dsimp only [versionMemory, sampleMemory] at hwrite ⊢
  rw [hwrite]
  rfl

/-- The disk has no room: the counter moves on all the same. -/
theorem version_full : @Operation.run versionCrates sampleDir (versionMemory 2 portConfig) fullOutcomes
    (versionDisk 2 portConfig) (.setReverseConnection true) =
      (.error (.err "No space left on device".toList), versionMemory 3 portConfig, versionDisk 2 portConfig) := by
  have hmem : (3, reverseConfig) ∈ versionConfigs := .tail _ (.tail _ List.mem_cons_self)
  have hnonce : (versionMemory 2 portConfig).nextNonce = 3 := by decide
  have hwrite : @writeConfig versionCrates sampleDir fullOutcomes reverseConfig (some "secret".toList) 3
      pbkdf2Iterations configVersion (versionDisk 2 portConfig) =
        .error (.err "No space left on device".toList) := by
    have htext : @getFileStr versionCrates fullOutcomes (configJson reverseConfig) (some "secret".toList) 3
        pbkdf2Iterations configVersion = .ok (encryptedJson (sealedUnder 3 reverseConfig)) := version_text hmem
    have hfull : fullOutcomes.fsWrite = .error "No space left on device".toList := rfl
    unfold writeConfig
    simp only [version_verify hmem, version_json hmem, htext, hfull, orErr, bind, Except.bind, id_eq]
  rw [← hnonce] at hwrite
  have hfailed := @writeAndSetConfig_failed versionCrates sampleDir (versionMemory 2 portConfig) reverseConfig
    fullOutcomes _ _ hwrite
  rw [hnonce] at hfailed
  exact hfailed

theorem version_port : @Operation.run versionCrates sampleDir (versionMemory 1 (sampleConfig [])) sampleOutcomes
    (versionDisk 1 (sampleConfig [])) (.setPort "45455".toList) =
      (.ok (), versionMemory 2 portConfig, versionDisk 2 portConfig) := by
  have hmem : (2, portConfig) ∈ versionConfigs := .tail _ List.mem_cons_self
  have h := @version_operation 2 1 (sampleConfig []) portConfig (versionDisk 1 (sampleConfig [])) hmem (by decide)
  unfold Operation.run Config.setPort
  exact h

theorem version_ignore : @Operation.run versionCrates sampleDir (versionMemory 3 portConfig) sampleOutcomes
    (versionDisk 2 portConfig) (.setIgnoreIncoming true) =
      (.ok (), versionMemory 4 ignoringConfig, versionDisk 4 ignoringConfig) := by
  have hmem : (4, ignoringConfig) ∈ versionConfigs := .tail _ (.tail _ (.tail _ List.mem_cons_self))
  have h := @version_operation 4 3 portConfig ignoringConfig (versionDisk 2 portConfig) hmem (by decide)
  unfold Operation.run Config.setIgnoreIncoming
  exact h

/-- The bytes of a version. -/
def versionBytes (nonce : Nat) (configFile : ConfigFile) : List UInt8 :=
  utf8 (encryptedJson (sealedUnder nonce configFile))

theorem versionBytes_port : versionBytes 2 portConfig ≠ versionBytes 1 (sampleConfig []) := by decide +kernel

theorem versionBytes_ignore : versionBytes 4 ignoringConfig ≠ versionBytes 2 portConfig := by decide +kernel

theorem versionsAfter_version (versions : List (List UInt8)) {m n : Nat} {configFile edited : ConfigFile}
    (h : versionBytes n edited ≠ versionBytes m configFile) :
    versionsAfter versions (versionDisk m configFile) (versionDisk n edited) =
      versions ++ [versionBytes n edited] := by
  have hdisk : (versionDisk n edited).encryptedConfig ≠ (versionDisk m configFile).encryptedConfig :=
    fun e => h (Option.some.inj e)
  rw [versionsAfter, if_neg hdisk]
  rfl

/-- The config is encrypted, the program started again, the port changed, one write fails, and the next one
    succeeds. -/
theorem version_run : @EncryptedRun versionCrates sampleDir (versionMemory 4 ignoringConfig)
    (versionDisk 4 ignoringConfig)
    [versionBytes 1 (sampleConfig []), versionBytes 2 portConfig, versionBytes 4 ignoringConfig] := by
  have hfirst := @EncryptedRun.encrypted versionCrates sampleDir _ _ _ _ _ _ _ rfl version_encrypt
    (by decide) rfl
  have hrestart := @EncryptedRun.restart versionCrates sampleDir _ _ _ _ _ _ hfirst
    (version_restart List.mem_cons_self rfl (by decide))
  have hport := @EncryptedRun.operation versionCrates sampleDir _ _ _ _ _ _ _ _ hrestart (by decide)
    version_port (by decide) rfl
  have hfull := @EncryptedRun.operation versionCrates sampleDir _ _ _ _ _ _ _ _ hport (by decide)
    version_full (by decide) rfl
  have hignore := @EncryptedRun.operation versionCrates sampleDir _ _ _ _ _ _ _ _ hfull (by decide)
    version_ignore (by decide) rfl
  have hkept (versions : List (List UInt8)) (disk : Disk) : versionsAfter versions disk disk = versions :=
    if_pos rfl
  rw [versionsAfter_version _ versionBytes_ignore, hkept, versionsAfter_version _ versionBytes_port] at hignore
  exact hignore

/-- The nonces of these three versions are `1`, `2` and `4`. -/
theorem nonces_increase_versions : ∃ nonces, List.Forall₂ (@EncryptedUnder versionCrates)
    [versionBytes 1 (sampleConfig []), versionBytes 2 portConfig, versionBytes 4 ignoringConfig] nonces ∧
      nonces.Pairwise (· < ·) :=
  @nonces_increase versionCrates sampleDir _ _ versionCrates_roundTrips _ version_run

end Transmitic
