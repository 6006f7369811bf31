/-
  File:      Transmitic/ConfigReload.lean
  Subject:   A WRITTEN CONFIG AND THE CONFIG READ BACK.

  The writer sanitizes before it writes and the reader sanitizes again, so the config comes back
  as it is in memory when `sanitizeConfig` leaves its own output alone.

  * `sanitizeConfig_fixed_iff` -- it does so exactly under `Reloads`: the users are in order after
    the trimming, and what `file://` was taken from does not start with white space;
  * `readConfig_written` -- reading the file just written is verifying the config once more;
  * `ConfigRun` -- the configs and disks any sequence of operations leads to;
  * `synced_of_run` -- **along a run whose operations meet `Operation.Meets`, the disk always
    holds the config in memory**; `synced_iff_meets`: exactly then after the next one.
-/
import Transmitic.ConfigOps

namespace Transmitic

open Lib

/-! ## 1. Sorting -/

instance : Std.Total (fun a b : SharedUser => a.nickname ≤ b.nickname) :=
  ⟨fun a b => le_total a.nickname b.nickname⟩

instance : IsTrans SharedUser (fun a b => a.nickname ≤ b.nickname) :=
  ⟨fun _ _ _ => le_trans⟩

theorem sortByNickname_eq_self_iff {users : List SharedUser} :
    sortByNickname users = users ↔ users.Pairwise fun a b => a.nickname ≤ b.nickname :=
  ⟨fun h => h ▸ List.pairwise_insertionSort _ users, List.Pairwise.insertionSort_eq⟩

theorem mem_sortByNickname {u : SharedUser} {users : List SharedUser} :
    u ∈ sortByNickname users ↔ u ∈ users :=
  List.mem_insertionSort _

theorem sortStrings_idem (l : List Str) : sortStrings (sortStrings l) = sortStrings l :=
  List.Pairwise.insertionSort_eq (List.pairwise_insertionSort _ l)

theorem map_eq_self {α : Type} {f : α → α} {l : List α} : l.map f = l ↔ ∀ a ∈ l, f a = a := by
  induction l with
  | nil => simp
  | cons a l ih => simp [ih]

/-! ## 2. Sanitizing twice -/

theorem sanitizeUser_idem (user : SharedUser) :
    sanitizeUser (sanitizeUser user) = sanitizeUser user := by
  simp only [sanitizeUser, trim_trim]

/-- The users of a sanitized list stay as they are exactly when they are in order. -/
theorem sanitizeUsers_fixed_iff (users : List SharedUser)
    (h : ∀ u ∈ users, sanitizeUser u = u) :
    (sortByNickname users).map sanitizeUser = users ↔
      users.Pairwise fun a b => a.nickname ≤ b.nickname := by
  have hmap : (sortByNickname users).map sanitizeUser = sortByNickname users :=
    map_eq_self.mpr fun u hu => h u (mem_sortByNickname.mp hu)
  rw [hmap, sortByNickname_eq_self_iff]

theorem isPrefixOf_fileUrl {path : Str} (h : "file://".toList.isPrefixOf path = true) :
    path = "file://".toList ++ path.drop 7 := by
  obtain ⟨rest, rfl⟩ := List.isPrefixOf_iff_prefix.mp h
  rfl

theorem endClean_stripFileUrl (path : Str) : EndClean (stripFileUrl (trim path)) := by
  unfold stripFileUrl
  split
  · exact (endClean_trim path).cut (List.drop_suffix 7 _)
  · exact endClean_trim path

theorem length_le_utf8 (s : Str) : s.length ≤ (utf8 s).length := by
  induction s with
  | nil => exact Nat.le_refl 0
  | cons c cs ih =>
    have hc : 0 < (String.utf8EncodeChar c).length := by
      rw [String.length_utf8EncodeChar]
      exact c.utf8Size_pos
    unfold utf8 at ih ⊢
    rw [List.flatMap_cons, List.length_append, List.length_cons]
    omega

/-- A path whose first part holds a colon, and is no drive, is refused. -/
theorem colon_not_valid {s : Str} (hslash : '/' ∉ s) (hback : '\\' ∉ s) (hcolon : ':' ∈ s)
    (hlen : 2 < s.length) (rest : Str) : fileContainsOnlyValidChars (s ++ '/' :: rest) = false := by
  have hrepl : replaceChar (s ++ '/' :: rest) '\\' '/' = s ++ '/' :: replaceChar rest '\\' '/' := by
    have hs : s.map (fun e => if e = '\\' then '/' else e) = s :=
      map_eq_self.mpr fun e he => if_neg fun h : e = '\\' => hback (h ▸ he)
    simp only [replaceChar, List.map_append, List.map_cons, hs]
    rfl
  have hdot : s ≠ ['.'] ∧ s ≠ ['.', '.'] := by
    constructor <;> rintro rfl <;> simp at hlen
  have hdir : dirComponents s = [.normal s] := by
    rw [dirComponents, List.splitOn_eq_singleton hslash]
    have hne : s ≠ [] := fun e => by simp [e] at hlen
    simp [frontSegment, Lib.segment, hne, hdot.1, hdot.2]
  have hpart : partHasOnlyValidChars 0 s = false := by
    have hdrive : isDrivePart s = false := by
      have hb : (utf8 s).length ≠ 2 := by have := length_le_utf8 s; omega
      simp [isDrivePart, hb]
    have hsep : ¬ (s = ['/'] ∨ s = ['\\']) := by
      rintro (rfl | rfl) <;> simp at hlen
    have hmem : ':' ∈ getBlockedFileNameChars := by decide
    rw [partHasOnlyValidChars, if_neg (by simp [hdrive]), if_neg hsep, List.all_eq_false]
    exact ⟨':', hmem, by simp [containsChar, hcolon]⟩
  unfold fileContainsOnlyValidChars
  rw [hrepl]
  simp only [components_slash, hdir, List.singleton_append, List.map_cons, Component.text,
    partsHaveOnlyValidChars, hpart, Bool.false_and, Bool.and_false]

/-- A path that starts with `file://` behind white space is refused. -/
theorem fileUrl_not_valid {path rest : Str} (h : trim path = "file://".toList ++ rest) :
    fileContainsOnlyValidChars path = false := by
  obtain ⟨r, hr⟩ : trim path <+: trimStart path := List.rdropWhile_prefix _ _
  have hpath : path = (path.takeWhile isWhitespace ++ "file:".toList) ++ '/' :: ('/' :: (rest ++ r)) := by
    calc path = path.takeWhile isWhitespace ++ trimStart path :=
          (List.takeWhile_append_dropWhile).symm
      _ = path.takeWhile isWhitespace ++ ("file://".toList ++ rest ++ r) := by rw [← hr, h]
      _ = _ := by simp
  have hmem : ∀ c, isWhitespace c = false → c ∉ "file:".toList →
      c ∉ path.takeWhile isWhitespace ++ "file:".toList := by
    intro c hw hc hin
    rcases List.mem_append.mp hin with hin | hin
    · rw [List.mem_takeWhile_imp hin] at hw
      cases hw
    · exact hc hin
  rw [hpath]
  refine colon_not_valid (hmem _ (by decide) (by decide)) (hmem _ (by decide) (by decide))
    (List.mem_append_right _ (by decide)) ?_ _
  rw [List.length_append]
  exact Nat.lt_of_lt_of_le (by decide : 2 < "file:".toList.length) (Nat.le_add_left _ _)

theorem verifyFilePath_valid {configDir : Str} {file : ConfigSharedFile}
    (h : verifyFilePath configDir file = .ok ()) : fileContainsOnlyValidChars file.path = true := by
  unfold verifyFilePath at h
  split at h
  · cases h
  · split at h
    · cases h
    · split at h
      · assumption
      · cases h

/-- The text of `path` behind white space and `file://`, if it starts so, has no white space in
    front. -/
def CleanBehindUrl (path : Str) : Prop :=
  ∀ rest, trim path = "file://".toList ++ rest → FrontClean rest

/-- **A valid path is left alone by the second sanitizing** exactly when it was clean behind the
    URL scheme. -/
theorem sanitizePath_fixed_iff {path : Str}
    (hv : fileContainsOnlyValidChars (stripFileUrl (trim path)) = true) :
    stripFileUrl (trim (stripFileUrl (trim path))) = stripFileUrl (trim path) ↔
      CleanBehindUrl path := by
  have hurl : ∀ r, stripFileUrl (trim path) ≠ "file://".toList ++ r := by
    intro r e
    have hfront : FrontClean (stripFileUrl (trim path)) := by
      intro c hc
      rw [e] at hc
      cases hc
      decide
    have htrim := trim_eq_self_iff.mpr ⟨hfront, endClean_stripFileUrl path⟩
    rw [fileUrl_not_valid (htrim.trans e)] at hv
    cases hv
  by_cases hp : "file://".toList.isPrefixOf (trim path) = true
  · have he := isPrefixOf_fileUrl hp
    have hs : stripFileUrl (trim path) = (trim path).drop 7 := if_pos hp
    have hend : EndClean ((trim path).drop 7) := hs ▸ endClean_stripFileUrl path
    have hclean : CleanBehindUrl path ↔ FrontClean ((trim path).drop 7) := by
      constructor
      · exact fun h => h _ he
      · intro h rest hr
        rw [hr] at h
        exact h
    rw [hs] at hurl ⊢
    rw [hclean]
    constructor
    · intro h
      by_cases hq : "file://".toList.isPrefixOf (trim ((trim path).drop 7)) = true
      · -- taking `file://` off shortens the path, so it is not the same path
        have hq' := isPrefixOf_fileUrl hq
        rw [stripFileUrl, if_pos hq] at h
        have hlen : (trim ((trim path).drop 7)).length ≤ ((trim path).drop 7).length :=
          (trim_sublist _).length_le
        have hcut := congrArg List.length hq'
        rw [List.length_append, h] at hcut
        have h7 : "file://".toList.length = 7 := rfl
        omega
      · rw [stripFileUrl, if_neg hq] at h
        exact h ▸ frontClean_trim _
    · intro h
      rw [trim_eq_self_iff.mpr ⟨h, hend⟩]
      refine if_neg fun hq => hurl _ (isPrefixOf_fileUrl hq)
  · have hs : stripFileUrl (trim path) = trim path := if_neg hp
    have hclean : CleanBehindUrl path := by
      intro rest hr
      exact absurd (List.isPrefixOf_iff_prefix.mpr ⟨rest, hr.symm⟩) hp
    rw [hs, trim_trim, hs]
    exact ⟨fun _ => hclean, fun _ => rfl⟩

theorem sanitizeSharedWith_idem (sharedWith : List Str) :
    sortStrings ((sortStrings (sharedWith.map trim)).map trim) =
      sortStrings (sharedWith.map trim) := by
  have hmap : (sortStrings (sharedWith.map trim)).map trim = sortStrings (sharedWith.map trim) := by
    refine map_eq_self.mpr fun s hs => ?_
    obtain ⟨t, -, rfl⟩ := List.mem_map.mp ((List.mem_insertionSort _).mp hs)
    exact trim_trim t
  rw [hmap, sortStrings_idem]

theorem sanitizeFile_fixed_iff {file : ConfigSharedFile}
    (hv : fileContainsOnlyValidChars (sanitizeFile file).path = true) :
    sanitizeFile (sanitizeFile file) = sanitizeFile file ↔ CleanBehindUrl file.path := by
  simp only [sanitizeFile, sanitizeSharedWith_idem, ConfigSharedFile.mk.injEq, and_true]
  exact sanitizePath_fixed_iff hv

/-- What a config handed to the writer has to be like, for the written one to come back as it
    is. -/
structure Reloads (configFile : ConfigFile) : Prop where
  users : ((sortByNickname configFile.sharedUsers).map sanitizeUser).Pairwise
    fun a b => a.nickname ≤ b.nickname
  files : ∀ file ∈ configFile.sharedFiles, CleanBehindUrl file.path

/-- **Sanitizing leaves its own, accepted, output alone exactly under `Reloads`.** -/
theorem sanitizeConfig_fixed_iff {configFile : ConfigFile}
    (hv : ∀ file ∈ configFile.sharedFiles,
      fileContainsOnlyValidChars (sanitizeFile file).path = true) :
    sanitizeConfig (sanitizeConfig configFile) = sanitizeConfig configFile ↔
      Reloads configFile := by
  have husers := sanitizeUsers_fixed_iff ((sortByNickname configFile.sharedUsers).map sanitizeUser)
    (by
      intro u hu
      obtain ⟨v, -, rfl⟩ := List.mem_map.mp hu
      exact sanitizeUser_idem v)
  have hfiles : (configFile.sharedFiles.map sanitizeFile).map sanitizeFile =
      configFile.sharedFiles.map sanitizeFile ↔
        ∀ file ∈ configFile.sharedFiles, CleanBehindUrl file.path := by
    rw [map_eq_self, List.forall_mem_map]
    exact forall_congr' fun f => forall_congr' fun hf => sanitizeFile_fixed_iff (hv f hf)
  simp only [sanitizeConfig, trim_trim, ConfigFile.mk.injEq, and_true, true_and, husers, hfiles]
  exact ⟨fun h => ⟨h.1, h.2⟩, fun h => ⟨h.users, h.files⟩⟩

/-! ## 3. Reading back what was written -/

/-- The other packages keep their word: what is written as JSON reads back, and a ciphertext
    decrypts to what was encrypted. -/
structure RoundTrips [Crates] : Prop where
  config : ∀ configFile text, Crates.configToJson configFile = .ok text →
    Crates.configFromJson text = .ok configFile
  encrypted : ∀ encryptedConfig text, Crates.encryptedToJson encryptedConfig = .ok text →
    Crates.encryptedFromJson text = .ok encryptedConfig
  aes : ∀ key nonce plain cipher, Crates.aesEncrypt key nonce plain = .ok cipher →
    Crates.aesDecrypt key nonce cipher = .ok plain

theorem orErr_eq_ok {α : Type} {text : Str → Str} {x : Except Str α} {a : α} :
    orErr text x = .ok a ↔ x = .ok a := by
  cases x with
  | error e => exact ⟨(nomatch ·), (nomatch ·)⟩
  | ok b =>
    refine ⟨fun h => ?_, fun h => ?_⟩
    · cases h
      rfl
    · cases h
      rfl

theorem readToString_utf8 (text : Str) : readToString (some (utf8 text)) = .ok text := by
  simp only [readToString, fromUtf8_utf8]

theorem parseU128_natText {n : Nat} (h : n < 2 ^ 128) : parseU128 (natText n) = .ok n := by
  rw [parseU128, parseNat_natText]
  exact if_pos h

@[simp] theorem Disk.file_write (disk : Disk) (encrypted : Bool) (bytes : List UInt8) :
    (disk.write encrypted bytes).file encrypted = some bytes := by
  cases encrypted <;> rfl

section Store

variable [Crates] {configDir : Str}

/-- **What was encrypted is read back.** -/
theorem readEncryptedConfig_written (hl : RoundTrips) {o : Outcomes} {configStr password text : Str}
    {nonce : Nat} {iterations : UInt32} {version : UInt16} {disk : Disk} (hn : nonce < 2 ^ 128)
    (h : getEncryptedConfigStr o configStr password nonce iterations version = .ok text)
    (hd : disk.encryptedConfig = some (utf8 text)) :
    readEncryptedConfig password disk = .ok (configStr, nonce) := by
  unfold getEncryptedConfigStr at h
  obtain ⟨salt, -, h⟩ := bind_eq_ok.mp h
  by_cases hi : iterations = 0
  · rw [if_pos hi] at h
    cases h
  rw [if_neg hi] at h
  obtain ⟨-, -, h⟩ := bind_eq_ok.mp h
  obtain ⟨cipher, hc, h⟩ := bind_eq_ok.mp h
  have hread := hl.encrypted _ _ (orErr_eq_ok.mp h)
  have hdec := hl.aes _ _ _ _ (orErr_eq_ok.mp hc)
  simp only [readEncryptedConfig, hd, readToString_utf8, hread, orErr, parseU128_natText hn,
    Base64.decode_encode, if_neg hi, hdec, fromUtf8_utf8, bind, Except.bind]

theorem readConfigString_written (hl : RoundTrips) {o : Outcomes} {configStr text : Str}
    {password : Option Str} {nonce : Nat} {iterations : UInt32} {version : UInt16} {disk : Disk}
    (hn : password.isSome → nonce < 2 ^ 128)
    (h : getFileStr o configStr password nonce iterations version = .ok text)
    (hd : disk.file password.isSome = some (utf8 text)) :
    ∃ n, readConfigString password disk = .ok (configStr, n) := by
  cases password with
  | some p => exact ⟨nonce, readEncryptedConfig_written hl (hn rfl) h hd⟩
  | none =>
    cases h
    have hd' : disk.configJson = some (utf8 configStr) := hd
    refine ⟨nonceInit, ?_⟩
    simp only [readConfigString, hd', readToString_utf8, bind, Except.bind]

theorem readConfig_plain {disk : Disk} {text : Str} {parsed configFile : ConfigFile}
    (hd : disk.configJson = some (utf8 text)) (hj : Crates.configFromJson text = .ok parsed)
    (hv : verifyConfig configDir parsed = .ok configFile) :
    readConfig configDir none disk = .ok (configFile, nonceInit) := by
  have hstring : readConfigString none disk = .ok (text, nonceInit) := by
    simp only [readConfigString, hd, readToString_utf8, bind, Except.bind]
  unfold readConfig
  simp only [Disk.file, Option.isSome_none, Bool.false_eq_true, if_false, hd, reduceCtorEq, hstring,
    hj, orErr, hv, bind, Except.bind]

theorem new_of_read {password : Option Str} {o : Outcomes} {disk : Disk} {configFile : ConfigFile}
    {n : Nat} {key : List UInt8} (ho : o.createDirAll = .ok ())
    (hr : readConfig configDir password disk = .ok (configFile, n))
    (hk : Base64.decode configFile.myPrivateId = .ok key) :
    Config.new configDir false password o disk =
      .ok ({ firstStart := false
             configFile
             localPrivateKeyBytes := key
             pathDirConfig := configDir
             password
             nonce := n
             iterations := pbkdf2Iterations
             configVersion := configVersion }, disk) := by
  unfold Config.new createIfFirstStart
  simp only [ho, orErr, bind, Except.bind, Bool.false_eq_true, if_false, hr, hk]

/-- **Reading the file just written** is verifying the written config once more. -/
theorem readConfig_written (hl : RoundTrips) {o : Outcomes} {configFile written : ConfigFile}
    {password : Option Str} {nonce : Nat} {iterations : UInt32} {version : UInt16}
    {disk disk' : Disk} (hn : password.isSome → nonce < 2 ^ 128)
    (h : writeConfig configDir o configFile password nonce iterations version disk =
      .ok (written, disk')) :
    verifyConfig configDir configFile = .ok written ∧
      ∃ n, readConfig configDir password disk' =
        (verifyConfig configDir written).map fun configFile => (configFile, n) := by
  unfold writeConfig at h
  obtain ⟨cf, hv, h⟩ := bind_eq_ok.mp h
  obtain ⟨json, hj, h⟩ := bind_eq_ok.mp h
  obtain ⟨text, ht, h⟩ := bind_eq_ok.mp h
  obtain ⟨-, -, h⟩ := bind_eq_ok.mp h
  cases h
  refine ⟨hv, ?_⟩
  have hf := Disk.file_write disk password.isSome (utf8 text)
  obtain ⟨n, hs⟩ := readConfigString_written hl hn ht hf
  have hjson := hl.config _ _ (orErr_eq_ok.mp hj)
  refine ⟨n, ?_⟩
  unfold readConfig
  simp only [hf, reduceCtorEq, if_false, hs, orErr, hjson, bind, Except.bind, Except.map]

/-! ## 4. One operation -/

/-- The disk holds the config in memory, under the current password. -/
def Synced (configDir : Str) (c : Config) (disk : Disk) : Prop :=
  ∃ n, readConfig configDir c.password disk = .ok (c.configFile, n)

/-- The config in memory came out of `verifyConfig`. -/
def Verified (configDir : Str) (c : Config) : Prop :=
  ∃ raw, verifyConfig configDir raw = .ok c.configFile

theorem verifyConfig_eq_ok {raw configFile : ConfigFile} :
    verifyConfig configDir raw = .ok configFile ↔
      configFile = sanitizeConfig raw ∧ verifySanitized configDir configFile = .ok () := by
  unfold verifyConfig
  rw [bind_eq_ok]
  constructor
  · rintro ⟨_, hv, h⟩
    cases h
    exact ⟨rfl, hv⟩
  · rintro ⟨rfl, hv⟩
    exact ⟨(), hv, rfl⟩

theorem verifySanitized_paths {configFile : ConfigFile}
    (h : verifySanitized configDir configFile = .ok ()) :
    ∀ file ∈ configFile.sharedFiles, fileContainsOnlyValidChars file.path = true := by
  unfold verifySanitized verifyConfigSharedFiles at h
  obtain ⟨-, -, h⟩ := bind_eq_ok.mp h
  obtain ⟨-, -, h⟩ := bind_eq_ok.mp h
  obtain ⟨-, -, h⟩ := bind_eq_ok.mp h
  obtain ⟨_, h, -⟩ := bind_eq_ok.mp h
  obtain ⟨-, -, h⟩ := bind_eq_ok.mp h
  obtain ⟨-, -, h⟩ := bind_eq_ok.mp h
  exact fun file hf => verifyFilePath_valid (forM_eq_ok.mp h file hf)

/-- A config is verified to itself exactly when it was handed over in a form that reloads. -/
theorem verifyConfig_fixed_iff {raw configFile : ConfigFile}
    (h : verifyConfig configDir raw = .ok configFile) :
    verifyConfig configDir configFile = .ok configFile ↔ Reloads raw := by
  obtain ⟨rfl, hv⟩ := verifyConfig_eq_ok.mp h
  have hpaths := verifySanitized_paths hv
  simp only [sanitizeConfig, List.forall_mem_map] at hpaths
  rw [← sanitizeConfig_fixed_iff hpaths, verifyConfig_eq_ok]
  exact ⟨fun h => h.1.symm, fun h => ⟨h.symm, hv⟩⟩

omit [Crates] in
theorem nextNonce_lt (c : Config) (h : c.password.isSome) : c.nextNonce < 2 ^ 128 := by
  unfold Config.nextNonce nonceMax
  rw [if_pos h]
  split <;> omega

theorem writeAndSetConfig_eq {c : Config} {configFile written : ConfigFile} {o : Outcomes}
    {disk disk' : Disk}
    (h : writeConfig configDir o configFile c.password c.nextNonce c.iterations c.configVersion
      disk = .ok (written, disk')) :
    c.writeAndSetConfig configDir configFile o disk =
      (.ok (), { c with nonce := c.nextNonce, configFile := written }, disk') := by
  unfold Config.writeAndSetConfig
  dsimp only
  rw [h]

theorem writeAndSetConfig_failed {c : Config} {configFile : ConfigFile} {o : Outcomes} {disk : Disk}
    {e : Exc}
    (h : writeConfig configDir o configFile c.password c.nextNonce c.iterations c.configVersion
      disk = .error e) :
    c.writeAndSetConfig configDir configFile o disk = (.error e, { c with nonce := c.nextNonce }, disk) := by
  unfold Config.writeAndSetConfig
  dsimp only
  rw [h]

/-- **A write that succeeds**: the new config is verified, and the disk holds it exactly when the
    config handed over reloads. -/
theorem writeAndSetConfig_ok (hl : RoundTrips) {c c' : Config} {configFile : ConfigFile}
    {o : Outcomes} {disk disk' : Disk}
    (h : c.writeAndSetConfig configDir configFile o disk = (.ok (), c', disk')) :
    Verified configDir c' ∧ c'.password = c.password ∧
      (Synced configDir c' disk' ↔ Reloads configFile) := by
  unfold Config.writeAndSetConfig at h
  dsimp only at h
  split at h
  · cases h
  · rename_i written disk₁ hw
    cases h
    obtain ⟨hv, n, hr⟩ := readConfig_written hl (nextNonce_lt c) hw
    refine ⟨⟨_, hv⟩, rfl, ?_⟩
    rw [← verifyConfig_fixed_iff hv]
    simp only [Synced, hr]
    constructor
    · rintro ⟨m, hm⟩
      cases hvw : verifyConfig configDir written with
      | error e =>
        rw [hvw] at hm
        cases hm
      | ok again =>
        rw [hvw] at hm
        cases hm
        rfl
    · intro hm
      exact ⟨n, by rw [hm]; rfl⟩

/-- A write that fails changes neither the config nor the disk. -/
theorem writeAndSetConfig_error {c c' : Config} {configFile : ConfigFile} {o : Outcomes}
    {disk disk' : Disk} {e : Exc}
    (h : c.writeAndSetConfig configDir configFile o disk = (.error e, c', disk')) :
    c'.configFile = c.configFile ∧ c'.password = c.password ∧ disk' = disk := by
  unfold Config.writeAndSetConfig at h
  dsimp only at h
  split at h
  · cases h
    exact ⟨rfl, rfl, rfl⟩
  · cases h

/-- What every operation keeps. -/
structure Kept (configDir : Str) (c : Config) (disk : Disk) : Prop where
  verified : Verified configDir c
  synced : Synced configDir c disk

theorem Kept.congr {c c' : Config} {disk : Disk} (h : Kept configDir c disk)
    (hc : c'.configFile = c.configFile) (hp : c'.password = c.password) :
    Kept configDir c' disk := by
  obtain ⟨⟨raw, hv⟩, n, hs⟩ := h
  exact ⟨⟨raw, hc ▸ hv⟩, n, by rw [hp, hc]; exact hs⟩

/-- Removing the other config file changes nothing. -/
theorem Kept.remove {c : Config} {disk : Disk} (h : Kept configDir c disk) {encrypted : Bool}
    (he : c.password.isSome = !encrypted) : Kept configDir c (disk.remove encrypted) := by
  obtain ⟨hv, n, hs⟩ := h
  refine ⟨hv, n, ?_⟩
  have hfile : (disk.remove encrypted).file c.password.isSome = disk.file c.password.isSome := by
    rw [he]
    cases encrypted <;> rfl
  have hstring : readConfigString c.password (disk.remove encrypted) =
      readConfigString c.password disk := by
    cases hp : c.password with
    | none =>
      rw [hp] at he
      cases encrypted with
      | true => rfl
      | false => cases he
    | some p =>
      rw [hp] at he
      cases encrypted with
      | true => cases he
      | false => rfl
  unfold readConfig at hs ⊢
  rw [hfile, hstring]
  exact hs

theorem writeAndSetConfig_kept (hl : RoundTrips) {c c' : Config} {configFile : ConfigFile}
    {o : Outcomes} {disk disk' : Disk} {r : Except Exc Unit} (hk : Kept configDir c disk)
    (hr : Reloads configFile)
    (h : c.writeAndSetConfig configDir configFile o disk = (r, c', disk')) :
    Kept configDir c' disk' := by
  cases r with
  | ok u =>
    obtain ⟨hv, -, hs⟩ := writeAndSetConfig_ok hl h
    exact ⟨hv, hs.mpr hr⟩
  | error e =>
    obtain ⟨hc, hp, rfl⟩ := writeAndSetConfig_error h
    exact hk.congr hc hp

/-! ## 5. What the operations hand over -/

theorem Verified.nickname_trimmed {c : Config} (h : Verified configDir c) {u : SharedUser}
    (hu : u ∈ c.configFile.sharedUsers) : trim u.nickname = u.nickname := by
  obtain ⟨raw, hv⟩ := h
  rw [(verifyConfig_eq_ok.mp hv).1] at hu
  obtain ⟨v, -, rfl⟩ := List.mem_map.mp hu
  exact trim_trim v.nickname

theorem Verified.cleanBehindUrl {c : Config} (h : Verified configDir c) {file : ConfigSharedFile}
    (hf : file ∈ c.configFile.sharedFiles) : CleanBehindUrl file.path := by
  obtain ⟨raw, hv⟩ := h
  have hvalid := verifySanitized_paths (verifyConfig_eq_ok.mp hv).2 file hf
  intro rest hr
  rw [fileUrl_not_valid hr] at hvalid
  cases hvalid

omit [Crates] in
/-- Users whose nicknames are trimmed are in order after the sort. -/
theorem users_in_order {users : List SharedUser}
    (h : ∀ u ∈ users, trim u.nickname = u.nickname) :
    ((sortByNickname users).map sanitizeUser).Pairwise fun a b => a.nickname ≤ b.nickname := by
  refine List.pairwise_map.mpr ?_
  refine (List.pairwise_insertionSort _ users).imp_of_mem fun ha hb hab => ?_
  have ha' := h _ (mem_sortByNickname.mp ha)
  have hb' := h _ (mem_sortByNickname.mp hb)
  simp only [sanitizeUser, ha', hb']
  exact hab

/-- A config made of the nicknames and paths in memory reloads. -/
theorem reloads_of_known {c : Config} (hv : Verified configDir c) {configFile : ConfigFile}
    (hu : ∀ u ∈ configFile.sharedUsers, ∃ v ∈ c.configFile.sharedUsers, v.nickname = u.nickname)
    (hf : ∀ f ∈ configFile.sharedFiles, ∃ g ∈ c.configFile.sharedFiles, g.path = f.path) :
    Reloads configFile := by
  refine ⟨users_in_order fun u h => ?_, fun f h => ?_⟩
  · obtain ⟨v, hv', e⟩ := hu u h
    exact e ▸ hv.nickname_trimmed hv'
  · obtain ⟨g, hg, e⟩ := hf f h
    exact e ▸ hv.cleanBehindUrl hg

omit [Crates] in
theorem mem_updateFirst {α : Type} {p : α → Bool} {f : α → α} {a : α} :
    ∀ {l : List α}, a ∈ Config.updateFirst p f l → ∃ b ∈ l, a = b ∨ a = f b
  | [], h => absurd h List.not_mem_nil
  | x :: xs, h => by
    unfold Config.updateFirst at h
    split at h
    · rcases List.mem_cons.mp h with rfl | h
      · exact ⟨x, List.mem_cons_self, .inr rfl⟩
      · exact ⟨a, List.mem_cons_of_mem x h, .inl rfl⟩
    · rcases List.mem_cons.mp h with rfl | h
      · exact ⟨_, List.mem_cons_self, .inl rfl⟩
      · obtain ⟨b, hb, e⟩ := mem_updateFirst h
        exact ⟨b, List.mem_cons_of_mem x hb, e⟩

/-- The new user's record in `add_new_user`. -/
def newUser (nickname publicId ip port : Str) : SharedUser :=
  { publicId, nickname, ip, port, allowed := true }

/-- **When an operation's config reloads**: no file it adds has white space behind `file://`, and
    the user it adds stands in the same place of the order with and without the white space around
    the nickname. -/
def Operation.Meets (c : Config) : Operation → Prop
  | .addFiles files =>
    ∀ file ∈ Config.newFiles (c.configFile.sharedFiles.map ConfigSharedFile.path) files,
      CleanBehindUrl file.path
  | .addNewUser nickname publicId ip port =>
    ((sortByNickname (c.configFile.sharedUsers ++ [newUser nickname publicId ip port])).map
      sanitizeUser).Pairwise fun a b => a.nickname ≤ b.nickname
  | _ => True

theorem addFiles_reloads_iff {c : Config} (hv : Verified configDir c) (files : List Str) :
    Reloads
      { c.configFile with
        sharedFiles := c.configFile.sharedFiles ++
          Config.newFiles (c.configFile.sharedFiles.map ConfigSharedFile.path) files } ↔
      (Operation.addFiles files).Meets c := by
  constructor
  · exact fun h file hf => h.files file (List.mem_append_right _ hf)
  · intro h
    refine ⟨users_in_order fun u hu => hv.nickname_trimmed hu, fun f hf => ?_⟩
    rcases List.mem_append.mp hf with hf | hf
    · exact hv.cleanBehindUrl hf
    · exact h f hf

theorem addNewUser_reloads_iff {c : Config} (hv : Verified configDir c)
    (nickname publicId ip port : Str) :
    Reloads
      { c.configFile with
        sharedUsers := c.configFile.sharedUsers ++ [newUser nickname publicId ip port] } ↔
      (Operation.addNewUser nickname publicId ip port).Meets c :=
  ⟨fun h => h.users, fun h => ⟨h, fun _ hf => hv.cleanBehindUrl hf⟩⟩

/-! ## 6. Runs -/

section Operations

variable {c c' : Config} {o : Outcomes} {disk disk' : Disk} {r : Except Exc Unit}

omit [Crates] in
theorem known_self {α β : Type} (l : List α) (f : α → β) : ∀ a ∈ l, ∃ b ∈ l, f b = f a :=
  fun a h => ⟨a, h, rfl⟩

theorem decryptConfig_kept (hl : RoundTrips) (hk : Kept configDir c disk)
    (h : c.decryptConfig configDir o disk = (r, c', disk')) : Kept configDir c' disk' := by
  have hr : Reloads c.configFile := reloads_of_known hk.verified (known_self _ _) (known_self _ _)
  unfold Config.decryptConfig at h
  split at h
  · cases h
    exact hk
  · split at h
    · rename_i hw
      cases h
      obtain ⟨hc, -, rfl⟩ := writeAndSetConfig_error hw
      exact hk.congr hc rfl
    · rename_i c₁ disk₁ hw
      obtain ⟨hv, hp, hs⟩ := writeAndSetConfig_ok hl hw
      have hk' : Kept configDir c₁ disk₁ := ⟨hv, hs.mpr hr⟩
      split at h
      · cases h
        exact hk'
      · cases h
        exact hk'.remove (by rw [hp]; rfl)

theorem encryptConfig_kept (hl : RoundTrips) {password : Str} (hk : Kept configDir c disk)
    (h : c.encryptConfig configDir password o disk = (r, c', disk')) :
    Kept configDir c' disk' := by
  have hr : Reloads c.configFile := reloads_of_known hk.verified (known_self _ _) (known_self _ _)
  unfold Config.encryptConfig at h
  split at h
  · cases h
    exact hk
  · rename_i hnone
    split at h
    · rename_i hw
      cases h
      obtain ⟨hc, -, rfl⟩ := writeAndSetConfig_error hw
      refine hk.congr hc ?_
      cases hpw : c.password with
      | none => rfl
      | some p =>
        rw [hpw] at hnone
        exact absurd rfl hnone
    · rename_i c₁ disk₁ hw
      obtain ⟨hv, hp, hs⟩ := writeAndSetConfig_ok hl hw
      have hk' : Kept configDir c₁ disk₁ := ⟨hv, hs.mpr hr⟩
      split at h
      · cases h
        exact hk'
      · cases h
        exact hk'.remove (by rw [hp]; rfl)

theorem addUserToShared_kept (hl : RoundTrips) {nickname filePath : Str}
    (hk : Kept configDir c disk)
    (h : c.addUserToShared configDir nickname filePath o disk = (r, c', disk')) :
    Kept configDir c' disk' := by
  unfold Config.addUserToShared at h
  split at h
  · cases h
    exact hk
  · split at h
    · cases h
      exact hk
    · split at h
      · cases h
        exact hk
      · refine writeAndSetConfig_kept hl hk ?_ h
        refine reloads_of_known hk.verified (known_self _ _) fun f hf => ?_
        obtain ⟨g, hg, rfl | rfl⟩ := mem_updateFirst hf
        · exact ⟨f, hg, rfl⟩
        · exact ⟨g, hg, rfl⟩

theorem createNewId_kept (hl : RoundTrips) (hk : Kept configDir c disk)
    (h : c.createNewId configDir o disk = (r, c', disk')) : Kept configDir c' disk' := by
  have hr : Reloads { c.configFile with myPrivateId := Base64.encode (o.generateIdPair.toOption.elim
      [] Prod.fst) } := reloads_of_known hk.verified (known_self _ _) (known_self _ _)
  unfold Config.createNewId at h
  split at h
  · cases h
    exact hk
  · rename_i privateIdBytes _ hpair
    rw [hpair] at hr
    split at h
    · rename_i hw
      cases h
      exact writeAndSetConfig_kept hl hk hr hw
    · rename_i c₁ disk₁ hw
      have hk' := writeAndSetConfig_kept hl hk hr hw
      split at h
      · cases h
        exact hk'
      · cases h
        exact hk'.congr rfl rfl

/-- The config a change of one user's other fields hands over. -/
theorem updateUsers_reloads (hv : Verified configDir c) {p : SharedUser → Bool}
    {f : SharedUser → SharedUser} (hf : ∀ u, (f u).nickname = u.nickname) :
    Reloads { c.configFile with
      sharedUsers := Config.updateFirst p f c.configFile.sharedUsers } := by
  refine reloads_of_known hv (fun u hu => ?_) (known_self _ _)
  obtain ⟨v, hv', rfl | rfl⟩ := mem_updateFirst hu
  · exact ⟨u, hv', rfl⟩
  · exact ⟨v, hv', (hf v).symm⟩

theorem setUserIsAllowedState_kept (hl : RoundTrips) {nickname : Str} {isAllowed : Bool}
    (hk : Kept configDir c disk)
    (h : c.setUserIsAllowedState configDir nickname isAllowed o disk = (r, c', disk')) :
    Kept configDir c' disk' := by
  unfold Config.setUserIsAllowedState at h
  split at h
  · refine writeAndSetConfig_kept hl hk ?_ h
    exact updateUsers_reloads hk.verified fun _ => rfl
  · cases h
    exact hk

theorem updateUser_kept (hl : RoundTrips) {nickname publicId ip port : Str}
    (hk : Kept configDir c disk)
    (h : c.updateUser configDir nickname publicId ip port o disk = (r, c', disk')) :
    Kept configDir c' disk' := by
  unfold Config.updateUser at h
  split at h
  · refine writeAndSetConfig_kept hl hk ?_ h
    exact updateUsers_reloads hk.verified fun _ => rfl
  · cases h
    exact hk

/-- **An operation that meets its condition keeps the config on the disk.** -/
theorem operation_kept (hl : RoundTrips) {op : Operation} (hk : Kept configDir c disk)
    (hop : op.Meets c) (h : op.run configDir c o disk = (r, c', disk')) :
    Kept configDir c' disk' := by
  have hv := hk.verified
  cases op with
  | addFiles files =>
    exact writeAndSetConfig_kept hl hk ((addFiles_reloads_iff hv files).mpr hop) h
  | addNewUser nickname publicId ip port =>
    exact writeAndSetConfig_kept hl hk
      ((addNewUser_reloads_iff hv nickname publicId ip port).mpr hop) h
  | addUserToShared nickname filePath => exact addUserToShared_kept hl hk h
  | createNewId => exact createNewId_kept hl hk h
  | removeFileFromSharing filePath =>
    refine writeAndSetConfig_kept hl hk ?_ h
    refine reloads_of_known hv (known_self _ _) fun f hf => ?_
    exact ⟨f, (List.mem_filter.mp hf).1, rfl⟩
  | removeUserFromSharing nickname filePath =>
    refine writeAndSetConfig_kept hl hk ?_ h
    refine reloads_of_known hv (known_self _ _) fun f hf => ?_
    obtain ⟨g, hg, rfl⟩ := List.mem_map.mp hf
    exact ⟨g, hg, by split <;> rfl⟩
  | removeUser nickname =>
    refine writeAndSetConfig_kept hl hk ?_ h
    refine reloads_of_known hv (fun u hu => ?_) fun f hf => ?_
    · exact ⟨u, (List.mem_filter.mp hu).1, rfl⟩
    · obtain ⟨g, hg, rfl⟩ := List.mem_map.mp hf
      exact ⟨g, hg, rfl⟩
  | setPort port =>
    refine writeAndSetConfig_kept hl hk ?_ h
    exact reloads_of_known hv (known_self _ _) (known_self _ _)
  | setPathDownloadsDir path =>
    refine writeAndSetConfig_kept hl hk ?_ h
    exact reloads_of_known hv (known_self _ _) (known_self _ _)
  | setIgnoreIncoming state =>
    refine writeAndSetConfig_kept hl hk ?_ h
    exact reloads_of_known hv (known_self _ _) (known_self _ _)
  | setReverseConnection state =>
    refine writeAndSetConfig_kept hl hk ?_ h
    exact reloads_of_known hv (known_self _ _) (known_self _ _)
  | setUserIsAllowedState nickname isAllowed => exact setUserIsAllowedState_kept hl hk h
  | updateUser nickname publicId ip port => exact updateUser_kept hl hk h
  | encryptConfig password => exact encryptConfig_kept hl hk h
  | decryptConfig => exact decryptConfig_kept hl hk h

/-- An operation that adds files or a user, and returns `Ok`, leaves the config in memory on the
    disk only if it meets its condition. -/
theorem operation_synced_iff (hl : RoundTrips) {op : Operation} (hk : Kept configDir c disk)
    (h : op.run configDir c o disk = (.ok (), c', disk')) :
    Synced configDir c' disk' ↔ op.Meets c := by
  refine ⟨fun hs => ?_, fun hop => (operation_kept hl hk hop h).synced⟩
  cases op with
  | addFiles files =>
    exact (addFiles_reloads_iff hk.verified files).mp ((writeAndSetConfig_ok hl h).2.2.mp hs)
  | addNewUser nickname publicId ip port =>
    exact (addNewUser_reloads_iff hk.verified nickname publicId ip port).mp
      ((writeAndSetConfig_ok hl h).2.2.mp hs)
  | _ => trivial

theorem readConfig_verified {password : Option Str} {configFile : ConfigFile} {n : Nat}
    (h : readConfig configDir password disk = .ok (configFile, n)) :
    ∃ raw, verifyConfig configDir raw = .ok configFile := by
  unfold readConfig at h
  dsimp only at h
  split at h
  · cases h
  obtain ⟨⟨_, m⟩, -, h⟩ := bind_eq_ok.mp h
  obtain ⟨raw, -, h⟩ := bind_eq_ok.mp h
  obtain ⟨cf, hv, h⟩ := bind_eq_ok.mp h
  cases h
  exact ⟨raw, hv⟩

/-- The config a program starts with is the one on the disk. -/
theorem new_kept {isFirstStart : Bool} {password : Option Str}
    (h : Config.new configDir isFirstStart password o disk = .ok (c, disk')) :
    Kept configDir c disk' := by
  unfold Config.new at h
  obtain ⟨-, -, h⟩ := bind_eq_ok.mp h
  obtain ⟨disk₁, -, h⟩ := bind_eq_ok.mp h
  obtain ⟨⟨cf, n⟩, hread, h⟩ := bind_eq_ok.mp h
  obtain ⟨bytes, -, h⟩ := bind_eq_ok.mp h
  cases h
  exact ⟨readConfig_verified hread, n, hread⟩

/-- **Along a run whose operations meet their conditions**, what is on the disk is the config in
    memory. -/
theorem kept_of_run (hl : RoundTrips) (h : ConfigRun configDir (fun c op => op.Meets c) c disk) :
    Kept configDir c disk := by
  induction h with
  | start isFirstStart password o disk disk' c h => exact new_kept h
  | step c c' disk disk' op o r _ hop h _ ih => exact operation_kept hl ih hop h

end Operations

/-- **A written config reloads to itself** in every run whose operations meet their conditions:
    reading with the current password gives the config in memory; and after one more operation
    that returns `Ok`, it does exactly when that operation meets its condition too. -/
theorem readConfig_of_run (hl : RoundTrips) {c : Config} {disk : Disk}
    (h : ConfigRun configDir (fun c op => op.Meets c) c disk) :
    (∃ n, readConfig configDir c.password disk = .ok (c.configFile, n)) ∧
      ∀ (op : Operation) (o : Outcomes) (c' : Config) (disk' : Disk),
        op.run configDir c o disk = (.ok (), c', disk') →
          ((∃ n, readConfig configDir c'.password disk' = .ok (c'.configFile, n)) ↔ op.Meets c) :=
  ⟨(kept_of_run hl h).synced, fun _ _ _ _ hop => operation_synced_iff hl (kept_of_run hl h) hop⟩

end Store

/-! ## 7. A path that does not come back -/

/-- The public key of the first Ed25519 test vector. -/
def samplePublicKey : List UInt8 :=
  [0xd7, 0x5a, 0x98, 0x01, 0x82, 0xb1, 0x0a, 0xb7, 0xd5, 0x4b, 0xfe, 0xd3, 0xc9, 0x64, 0x07, 0x3a,
   0x0e, 0xe1, 0x72, 0xf3, 0xda, 0xa6, 0x23, 0x25, 0xaf, 0x02, 0x1a, 0x68, 0xf7, 0x07, 0x51, 0x1a]

/-- Its key pair in PKCS#8 form. -/
def sampleKey : List UInt8 :=
  [0x30, 0x51, 0x02, 0x01, 0x01, 0x30, 0x05, 0x06, 0x03, 0x2b, 0x65, 0x70, 0x04, 0x22, 0x04, 0x20,
   0x9d, 0x61, 0xb1, 0x9d, 0xef, 0xfd, 0x5a, 0x60, 0xba, 0x84, 0x4a, 0xf4, 0x92, 0xec, 0x2c, 0xc4,
   0x44, 0x49, 0xc5, 0x69, 0x7b, 0x32, 0x69, 0x19, 0x70, 0x3b, 0xac, 0x03, 0x1c, 0xae, 0x7f, 0x60,
   0x81, 0x21, 0x00] ++
    samplePublicKey

/-- The config of a first start, with the files `files` shared with nobody. -/
def sampleConfig (files : List Str) : ConfigFile :=
  { myPrivateId := Base64.encode sampleKey
    sharedUsers := []
    sharedFiles := files.map fun path => { path, sharedWith := [] }
    sharingPort := "45454".toList
    ignoreIncoming := false
    reverseConnection := false
    pathDownloads := [] }

/-- One line of JSON: white space, a key and a value. -/
def jsonLine (indent : Nat) (key value : Str) : Str :=
  '\n' :: List.replicate indent ' ' ++ '"' :: key ++ "\": ".toList ++ value

/-- A list in JSON, its entries on lines of their own. -/
def jsonList (indent : Nat) (entries : List Str) : Str :=
  let entry (text : Str) : Str := '\n' :: List.replicate indent ' ' ++ text
  if entries = [] then "[]".toList
  else '[' :: [','].intercalate (entries.map entry) ++ '\n' :: List.replicate (indent - 2) ' ' ++ [']']

/-- The JSON of a config in which no character has to be escaped. -/
def configJson (configFile : ConfigFile) : Str :=
  let text (s : Str) : Str := '"' :: s ++ "\"".toList
  let flag (b : Bool) : Str := if b then "true".toList else "false".toList
  let user (u : SharedUser) : Str := '\x7b' ::
    jsonLine 6 "nickname".toList (text u.nickname ++ [',']) ++
    jsonLine 6 "public_id".toList (text u.publicId ++ [',']) ++
    jsonLine 6 "ip".toList (text u.ip ++ [',']) ++ jsonLine 6 "port".toList (text u.port ++ [',']) ++
    jsonLine 6 "allowed".toList (flag u.allowed) ++ "\n    \x7d".toList
  let file (f : ConfigSharedFile) : Str := '\x7b' ::
    jsonLine 6 "path".toList (text f.path ++ [',']) ++
    jsonLine 6 "shared_with".toList (jsonList 8 (f.sharedWith.map text)) ++ "\n    \x7d".toList
  '\x7b' :: jsonLine 2 "my_private_id".toList (text configFile.myPrivateId ++ [',']) ++
    jsonLine 2 "shared_users".toList (jsonList 4 (configFile.sharedUsers.map user) ++ [',']) ++
    jsonLine 2 "shared_files".toList (jsonList 4 (configFile.sharedFiles.map file) ++ [',']) ++
    jsonLine 2 "sharing_port".toList (text configFile.sharingPort ++ [',']) ++
    jsonLine 2 "ignore_incoming".toList (flag configFile.ignoreIncoming ++ [',']) ++
    jsonLine 2 "reverse_connection".toList (flag configFile.reverseConnection ++ [',']) ++
    jsonLine 2 "path_downloads".toList (text configFile.pathDownloads) ++ ['\n', '\x7d']

/-- The JSON of `sampleConfig`. -/
def sampleJson (files : List Str) : Str := configJson (sampleConfig files)

/-- The other packages on the values of `configs`, which are given with their JSON. -/
abbrev sampleCrates (configs : List (ConfigFile × Str)) : Crates where
  toLowercase s := s.map Char.toLower
  configToJson configFile :=
    match configs.find? fun p => p.1 = configFile with
    | some p => .ok p.2
    | none => .error []
  configFromJson text :=
    match configs.find? fun p => p.2 = text with
    | some p => .ok p.1
    | none => .error []
  encryptedToJson _ := .error []
  encryptedFromJson _ := .error []
  listingToJson _ := .error []
  listingFromJson _ := .error []
  ed25519FromPkcs8 bytes :=
    if bytes = sampleKey then .ok samplePublicKey else .error "InvalidEncoding".toList
  pbkdf2 _ _ _ := []
  aesEncrypt _ _ _ := .error "aead::Error".toList
  aesDecrypt _ _ _ := .error "aead::Error".toList
  crc32 _ := 0

theorem sampleCrates_roundTrips {configs : List (ConfigFile × Str)}
    (h : (configs.map Prod.snd).Nodup) : @RoundTrips (sampleCrates configs) := by
  refine @RoundTrips.mk (sampleCrates configs) ?_ (fun _ _ h => nomatch h) fun _ _ _ _ h => nomatch h
  intro configFile text htext
  unfold Crates.configToJson at htext
  unfold Crates.configFromJson
  dsimp only [sampleCrates] at htext ⊢
  split at htext
  · rename_i p hp
    cases htext
    obtain ⟨hmem, hcf⟩ := find_some hp
    have hfind : configs.find? (fun q => q.2 = p.2) = some p :=
      find_unique hmem rfl fun q hq e => List.inj_on_of_nodup_map h hq hmem e
    rw [hfind]
    exact congrArg Except.ok hcf
  · cases htext

/-- The outcomes of system calls that all succeed. -/
def sampleOutcomes : Outcomes where
  createDirAll := .ok ()
  generateIdPair := .ok (sampleKey, samplePublicKey)
  fillSalt := .ok (List.replicate 16 0)
  fsWrite := .ok ()
  removeFile := .ok ()

/-- The shared files of the sample run. -/
def sampleFiles : List (List Str) := [[], [" /x".toList], ["/x".toList]]

def sampleConfigs : List (ConfigFile × Str) :=
  sampleFiles.map fun files => (sampleConfig files, sampleJson files)

def sampleDir : Str := "/opt/transmitic/transmitic_config".toList

/-- The disk that holds the config with the files `files`. -/
def sampleDisk (files : List Str) : Disk :=
  { configJson := some (utf8 (sampleJson files)), encryptedConfig := none }

/-- That config in memory. -/
def sampleMemory (files : List Str) : Config :=
  { firstStart := false
    configFile := sampleConfig files
    localPrivateKeyBytes := sampleKey
    pathDirConfig := sampleDir
    password := none
    nonce := nonceInit
    iterations := pbkdf2Iterations
    configVersion := configVersion }

theorem sampleConfigs_nodup : (sampleConfigs.map Prod.snd).Nodup := by decide +kernel

theorem sampleConfig_injective : Function.Injective sampleConfig := by
  intro a b h
  have hp := congrArg (fun c => c.sharedFiles.map ConfigSharedFile.path) h
  simpa [sampleConfig, Function.comp_def] using hp

theorem sample_toJson {files : List Str} (h : files ∈ sampleFiles) :
    (sampleCrates sampleConfigs).configToJson (sampleConfig files) = .ok (sampleJson files) := by
  have hfind : sampleConfigs.find? (fun p => p.1 = sampleConfig files) =
      some (sampleConfig files, sampleJson files) := by
    refine find_unique (List.mem_map.mpr ⟨files, h, rfl⟩) rfl fun p hp e => ?_
    obtain ⟨g, -, rfl⟩ := List.mem_map.mp hp
    rw [sampleConfig_injective e]
  unfold Crates.configToJson
  dsimp only
  rw [hfind]

theorem sample_verify : @verifyConfig (sampleCrates sampleConfigs) sampleDir (sampleConfig []) =
    .ok (sampleConfig []) := by
  decide +kernel

theorem sample_verify_url : @verifyConfig (sampleCrates sampleConfigs) sampleDir
    (sampleConfig [" file:// /x".toList]) = .ok (sampleConfig [" /x".toList]) := by
  decide +kernel

theorem sample_read : @readConfig (sampleCrates sampleConfigs) sampleDir none (sampleDisk []) =
    .ok (sampleConfig [], nonceInit) :=
  @readConfig_plain (sampleCrates sampleConfigs) _ _ _ _ _ rfl
    (@RoundTrips.config (sampleCrates sampleConfigs) (sampleCrates_roundTrips sampleConfigs_nodup)
      _ _ (sample_toJson List.mem_cons_self)) sample_verify

theorem sample_new : @Config.new (sampleCrates sampleConfigs) sampleDir false none sampleOutcomes
    (sampleDisk []) = .ok (sampleMemory [], sampleDisk []) :=
  @new_of_read (sampleCrates sampleConfigs) _ _ _ _ _ _ _ rfl sample_read
    (Base64.decode_encode sampleKey)

theorem sample_run (allowed : Config → Operation → Prop) :
    @ConfigRun (sampleCrates sampleConfigs) sampleDir allowed (sampleMemory []) (sampleDisk []) :=
  @ConfigRun.start (sampleCrates sampleConfigs) _ _ false none sampleOutcomes _ _ _ sample_new

theorem sample_addFiles : @Operation.run (sampleCrates sampleConfigs) sampleDir (sampleMemory [])
    sampleOutcomes (sampleDisk []) (.addFiles [" file:// /x".toList]) =
      (.ok (), sampleMemory [" /x".toList], sampleDisk [" /x".toList]) := by
  have hfiles : Config.newFiles ((sampleConfig []).sharedFiles.map ConfigSharedFile.path)
      [" file:// /x".toList] = (sampleConfig [" file:// /x".toList]).sharedFiles := by decide
  have hwrite : @writeConfig (sampleCrates sampleConfigs) sampleDir sampleOutcomes
      (sampleConfig [" file:// /x".toList]) none nonceInit pbkdf2Iterations configVersion
      (sampleDisk []) = .ok (sampleConfig [" /x".toList], sampleDisk [" /x".toList]) := by
    have hmem : [" /x".toList] ∈ sampleFiles := List.mem_cons_of_mem _ List.mem_cons_self
    simp only [writeConfig, sample_verify_url, sample_toJson hmem, orErr, getFileStr,
      sampleOutcomes, bind, Except.bind]
    rfl
  unfold Operation.run Config.addFiles
  dsimp only
  rw [show (sampleMemory []).configFile = sampleConfig [] from rfl, hfiles]
  exact @writeAndSetConfig_eq (sampleCrates sampleConfigs) _ (sampleMemory []) _ _ _ _ _ hwrite

/-- The run theorem at the start of a program, with the addition of `/x` and of `file:// /x`. -/
theorem readConfig_of_sample_run :
    (∃ n, @readConfig (sampleCrates sampleConfigs) sampleDir none (sampleDisk []) =
      .ok (sampleConfig [], n)) ∧
    (¬ ∃ n, @readConfig (sampleCrates sampleConfigs) sampleDir none (sampleDisk [" /x".toList]) =
      .ok (sampleConfig [" /x".toList], n)) := by
  have h := @readConfig_of_run (sampleCrates sampleConfigs) sampleDir
    (sampleCrates_roundTrips sampleConfigs_nodup) _ _ (sample_run _)
  refine ⟨h.1, fun hn => ?_⟩
  have hm := (h.2 _ _ _ _ sample_addFiles).mp hn
  have hclean := hm ⟨" file:// /x".toList, []⟩ (by decide +kernel) " /x".toList (by decide +kernel)
  exact absurd (hclean ' ' rfl) (by decide)

/-- **`file://` in front of white space.** The path is added, the operation returns `Ok`, and the
    config read back has another path than the config in memory. -/
theorem addFiles_not_reloaded : ∃ (crates : Crates) (configDir : Str) (c c' : Config)
    (disk disk' : Disk) (o : Outcomes), @RoundTrips crates ∧
      @ConfigRun crates configDir (fun _ _ => True) c disk ∧
      @Operation.run crates configDir c o disk (.addFiles [" file:// /x".toList]) =
        (.ok (), c', disk') ∧
      ¬ ∃ n, @readConfig crates configDir c'.password disk' = .ok (c'.configFile, n) := by
  have hl := sampleCrates_roundTrips sampleConfigs_nodup
  refine ⟨_, _, _, _, _, _, _, hl, sample_run _, sample_addFiles, fun hn => ?_⟩
  have hk := @new_kept (sampleCrates sampleConfigs) _ _ _ _ _ _ _ sample_new
  have hm := (@operation_synced_iff (sampleCrates sampleConfigs) _ _ _ _ _ _ hl _ hk
    sample_addFiles).mp hn
  have hclean := hm ⟨" file:// /x".toList, []⟩ (by decide +kernel) " /x".toList (by decide +kernel)
  exact absurd (hclean ' ' rfl) (by decide)

/-! ## 8. Configs with users -/

/-- The sample config with these users. -/
def usersConfig (users : List SharedUser) : ConfigFile :=
  { sampleConfig [] with sharedUsers := users }

/-- Its JSON. -/
def usersJson (users : List SharedUser) : Str := configJson (usersConfig users)

/-- The other packages, on the configs with these lists of users. -/
@[reducible] def usersCrates (lists : List (List SharedUser)) : Crates :=
  sampleCrates (lists.map fun users => (usersConfig users, usersJson users))

/-- The config with these users, on the disk and in memory. -/
def usersDisk (users : List SharedUser) : Disk :=
  { configJson := some (utf8 (usersJson users)), encryptedConfig := none }

def usersMemory (users : List SharedUser) : Config :=
  { sampleMemory [] with configFile := usersConfig users }

def sampleBob : SharedUser :=
  { nickname := "bob".toList
    publicId := Base64.encode samplePublicKey
    ip := "127.0.0.1".toList
    port := "45454".toList
    allowed := true }

/-- A user with another key. -/
def sampleCarol : SharedUser :=
  { sampleBob with nickname := "carol".toList, publicId := Base64.encode samplePublicKey.reverse }

end Transmitic
