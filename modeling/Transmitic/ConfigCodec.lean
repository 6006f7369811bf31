/-
  File:      Transmitic/ConfigCodec.lean
  Subject:   THE ENCRYPTED CONFIG FILE AS A CODEC (config.rs, `get_encrypted_config_str` and
             `read_encrypted_config`).

  The file holds the salt and the ciphertext in base64, the nonce as a decimal number, and the number of
  iterations. The key is derived from the password and from what the file itself says.

  * `Sealing`, `IdealAead` -- encryptions, and a cipher that opens no other ciphertext that is known;
  * `Fields`, `DecodesTo` -- what the fields of a file decode to;
  * `readEncryptedConfig_fields` -- **reading a file** is decrypting its fields;
  * `encryptedConfig_codec` -- **the text reads back** as the string and the nonce it was made of, with any
    cipher that decrypts what it encrypted; with an ideal one a file with another salt, another nonce,
    another number of iterations or another ciphertext is an error, as is another password.
-/
import Transmitic.Base64Grammar
import Transmitic.ConfigNonce

namespace Transmitic

open Lib

/-! ## 1. An ideal cipher -/

/-- An encryption that was made. -/
structure Sealing where
  key : List UInt8
  nonce : List UInt8
  plain : List UInt8
  cipher : List UInt8
  deriving DecidableEq, Repr

/-- **An ideal AEAD**: of the ciphertexts that are known, one opens only as the encryption it came from.
    A cipher that decrypts whatever it encrypts has others, which nobody without the key can name. -/
def IdealAead [Crates] (made : Set Sealing) (known : Set (List UInt8)) : Prop :=
  ∀ key nonce plain cipher, cipher ∈ known → Crates.aesDecrypt key nonce cipher = .ok plain →
    ⟨key, nonce, plain, cipher⟩ ∈ made

/-- The cipher decrypts what it encrypted. -/
def OpensSealed [Crates] : Prop :=
  ∀ key nonce plain cipher,
    Crates.aesEncrypt key nonce plain = .ok cipher → Crates.aesDecrypt key nonce cipher = .ok plain

/-- No two derivations give the same key. -/
def CollisionFree [Crates] : Prop :=
  ∀ iterations salt password iterations' salt' password',
    Crates.pbkdf2 iterations salt password = Crates.pbkdf2 iterations' salt' password' →
      iterations = iterations' ∧ salt = salt' ∧ password = password'

section Codec

variable [Crates]

/-- The encryption that a call of `get_encrypted_config_str` makes. -/
def sealings (salt : List UInt8) (configStr password : Str) (nonce : Nat) (iterations : UInt32) :
    Set Sealing :=
  let key := Crates.pbkdf2 iterations salt (utf8 password)
  { s | ∃ cipher, Crates.aesEncrypt key (nonceBytes nonce) (utf8 configStr) = .ok cipher ∧
      s = ⟨key, nonceBytes nonce, utf8 configStr, cipher⟩ }

/-! ## 2. The fields of a file -/

/-- The fields of a file, decoded. -/
@[ext]
structure Fields where
  salt : List UInt8
  nonce : Nat
  iterations : UInt32
  cipher : List UInt8
  deriving DecidableEq, Repr

/-- The file has these fields. -/
def DecodesTo (bytes : List UInt8) (f : Fields) : Prop :=
  ∃ e, readVersion bytes = .ok e ∧ Base64.decode e.salt = .ok f.salt ∧ parseU128 e.nonce = .ok f.nonce ∧
    e.pbkdf2Iterations = f.iterations ∧ Base64.decode e.encryptedConfig = .ok f.cipher

theorem DecodesTo.unique {bytes : List UInt8} {f g : Fields} (hf : DecodesTo bytes f) (hg : DecodesTo bytes g) :
    f = g := by
  obtain ⟨e, he, hsalt, hnonce, hiterations, hcipher⟩ := hf
  obtain ⟨e', he', hsalt', hnonce', hiterations', hcipher'⟩ := hg
  rw [he] at he'
  cases he'
  rw [hsalt] at hsalt'
  rw [hnonce] at hnonce'
  rw [hcipher] at hcipher'
  exact Fields.ext (Except.ok.inj hsalt') (Except.ok.inj hnonce') (hiterations.symm.trans hiterations')
    (Except.ok.inj hcipher')

/-- What `read_encrypted_config` makes of the fields. -/
def openFields (password : Str) (f : Fields) : Except Exc (Str × Nat) :=
  if f.iterations = 0 then
    .error (.err ("pbkdf2 given non zero iterations. ".toList ++ natText f.iterations.toNat))
  else
    match Crates.aesDecrypt (Crates.pbkdf2 f.iterations f.salt (utf8 password)) (nonceBytes f.nonce) f.cipher with
    | .error e => .error (.err ("Failed to decrypt config with cipher. ".toList ++ e))
    | .ok plaintext =>
      match fromUtf8 plaintext with
      | none => .error (.err "invalid utf-8 sequence".toList)
      | some configStr => .ok (configStr, f.nonce)

/-- **Reading a file is opening its fields.** -/
theorem readEncryptedConfig_fields {password : Str} {disk : Disk} {bytes : List UInt8} {f : Fields}
    (hd : disk.encryptedConfig = some bytes) (hf : DecodesTo bytes f) :
    readEncryptedConfig password disk = openFields password f := by
  obtain ⟨e, hread, hsalt, hnonce, hiterations, hcipher⟩ := hf
  obtain ⟨text, htext, hjson⟩ := bind_eq_ok.mp hread
  unfold readEncryptedConfig openFields
  rw [← hiterations, hd]
  by_cases hi : e.pbkdf2Iterations = 0
  · simp only [htext, hjson, hnonce, hsalt, hcipher, hi, if_true, bind, Except.bind]
  · simp only [htext, hjson, hnonce, hsalt, hcipher, if_neg hi, bind, Except.bind]
    cases Crates.aesDecrypt (Crates.pbkdf2 e.pbkdf2Iterations f.salt (utf8 password)) (nonceBytes f.nonce)
        f.cipher with
    | error text => rfl
    | ok plaintext => rfl

/-- What does not decrypt is an error. -/
theorem openFields_rejected {password : Str} {f : Fields} {made : Set Sealing} {known : Set (List UInt8)}
    (hideal : IdealAead made known) (hknown : f.cipher ∈ known)
    (hno : ∀ plain, ⟨Crates.pbkdf2 f.iterations f.salt (utf8 password), nonceBytes f.nonce, plain, f.cipher⟩ ∉
      made) :
    ∃ text, openFields password f = .error (.err text) := by
  unfold openFields
  split
  · exact ⟨_, rfl⟩
  · split
    · exact ⟨_, rfl⟩
    · rename_i plaintext hopened
      exact absurd (hideal _ _ _ _ hknown hopened) (hno plaintext)

/-- What was encrypted under the key of the fields is opened. -/
theorem openFields_sealed {password configStr : Str} {f : Fields} (hopens : OpensSealed) (hi : f.iterations ≠ 0)
    (hsealed : Crates.aesEncrypt (Crates.pbkdf2 f.iterations f.salt (utf8 password)) (nonceBytes f.nonce)
      (utf8 configStr) = .ok f.cipher) :
    openFields password f = .ok (configStr, f.nonce) := by
  have hopened := hopens _ _ _ _ hsealed
  unfold openFields
  rw [if_neg hi, hopened]
  simp only [fromUtf8_utf8]

/-- **The fields of a text** are those it was made of. -/
theorem decodesTo_of_text {o : Outcomes} {configStr password text : Str} {salt : List UInt8} {nonce : Nat}
    {iterations : UInt32} {version : UInt16}
    (hjson : ∀ e text, Crates.encryptedToJson e = .ok text → Crates.encryptedFromJson text = .ok e)
    (hsalt : o.fillSalt = .ok salt) (hn : nonce < 2 ^ 128)
    (h : getEncryptedConfigStr o configStr password nonce iterations version = .ok text) :
    iterations ≠ 0 ∧ ∃ cipher, DecodesTo (utf8 text) ⟨salt, nonce, iterations, cipher⟩ ∧
      Crates.aesEncrypt (Crates.pbkdf2 iterations salt (utf8 password)) (nonceBytes nonce) (utf8 configStr) =
        .ok cipher := by
  unfold getEncryptedConfigStr at h
  obtain ⟨salt', hsalt', h⟩ := bind_eq_ok.mp h
  have hsame : salt' = salt := by
    have hfilled := orErr_eq_ok.mp hsalt'
    rw [hsalt] at hfilled
    exact (Except.ok.inj hfilled).symm
  subst hsame
  by_cases hi : iterations = 0
  · rw [if_pos hi] at h
    cases h
  rw [if_neg hi] at h
  obtain ⟨-, -, h⟩ := bind_eq_ok.mp h
  obtain ⟨cipher, hcipher, h⟩ := bind_eq_ok.mp h
  have hread := hjson _ _ (orErr_eq_ok.mp h)
  have hfile : readVersion (utf8 text) = .ok
      { version
        nonce := natText nonce
        pbkdf2Iterations := iterations
        salt := Base64.encode salt'
        encryptedConfig := Base64.encode cipher } := by
    rw [readVersion, readToString_utf8]
    exact orErr_eq_ok.mpr hread
  exact ⟨hi, cipher, ⟨_, hfile, Base64.decode_encode salt', parseU128_natText hn, rfl,
    Base64.decode_encode cipher⟩, orErr_eq_ok.mp hcipher⟩

/-! ## 3. The codec -/

omit [Crates] in
/-- The cipher gets the low 96 bits of the nonce, and all of them. -/
theorem nonceBytes_inj {m n : Nat} (h : nonceBytes m = nonceBytes n) : m % 2 ^ 96 = n % 2 ^ 96 := by
  rw [← (nonceBytes_low m).2, ← (nonceBytes_low n).2, h]

/-- **The encrypted config reads back**, with a cipher that decrypts what it encrypted. **And nothing else
    does**, where the key derivation has no collisions and the cipher is ideal for the ciphertexts that are
    known. They may be all, if it has encrypted nothing else. The text is made with any salt. -/
theorem encryptedConfig_codec {o : Outcomes} {configStr password text : Str} {salt : List UInt8} {nonce : Nat}
    {iterations : UInt32} {version : UInt16}
    (hjson : ∀ e text, Crates.encryptedToJson e = .ok text → Crates.encryptedFromJson text = .ok e)
    (hsalt : o.fillSalt = .ok salt) (hn : nonce < 2 ^ 128)
    (h : getEncryptedConfigStr o configStr password nonce iterations version = .ok text) :
    (OpensSealed → ∀ disk : Disk, disk.encryptedConfig = some (utf8 text) →
      readEncryptedConfig password disk = .ok (configStr, nonce)) ∧
    ∃ cipher, DecodesTo (utf8 text) ⟨salt, nonce, iterations, cipher⟩ ∧
      ∀ known : Set (List UInt8), CollisionFree →
        IdealAead (sealings salt configStr password nonce iterations) known →
        ∀ (disk : Disk) (bytes : List UInt8) (password' : Str) (f : Fields),
          disk.encryptedConfig = some bytes → DecodesTo bytes f → f.cipher ∈ known →
          (f.salt ≠ salt ∨ f.nonce % 2 ^ 96 ≠ nonce % 2 ^ 96 ∨ f.iterations ≠ iterations ∨ f.cipher ≠ cipher ∨
            password' ≠ password) →
          ∃ err, readEncryptedConfig password' disk = .error (.err err) := by
  obtain ⟨hi, cipher, hfields, hcipher⟩ := decodesTo_of_text hjson hsalt hn h
  refine ⟨fun hopens disk hd => ?_, cipher, hfields,
    fun known hkdf hideal disk bytes password' f hd hf hknown hother => ?_⟩
  · rw [readEncryptedConfig_fields hd hfields]
    exact openFields_sealed hopens hi hcipher
  · rw [readEncryptedConfig_fields hd hf]
    refine openFields_rejected hideal hknown ?_
    rintro plain ⟨cipher', hcipher', hsealing⟩
    -- the only encryption is that of the text, and its key has one derivation
    rw [hcipher] at hcipher'
    cases hcipher'
    obtain ⟨hkey, hnonce, -, hsame⟩ := (Sealing.mk.injEq ..).mp hsealing
    obtain ⟨hiterations, hsalt, hpassword⟩ := hkdf _ _ _ _ _ _ hkey
    rcases hother with h | h | h | h | h
    · exact h hsalt
    · exact h (nonceBytes_inj hnonce)
    · exact h hiterations
    · exact h hsame
    · exact h (Base64.utf8_injective hpassword)

end Codec

/-! ## 4. A file -/

/-- A key derivation without collisions. -/
def derive (iterations : UInt32) (salt password : List UInt8) : List UInt8 :=
  beBytes 4 iterations.toNat ++ (salt.flatMap (fun b => [1, b]) ++ 0 :: password)

theorem marked_inj : ∀ {salt salt' password password' : List UInt8},
    salt.flatMap (fun b => [1, b]) ++ 0 :: password = salt'.flatMap (fun b => [1, b]) ++ 0 :: password' →
      salt = salt' ∧ password = password'
  | [], [], _, _, h => ⟨rfl, (List.cons.inj h).2⟩
  | [], _ :: _, _, _, h => by simp at h
  | _ :: _, [], _, _, h => by simp at h
  | a :: salt, b :: salt', password, password', h => by
    simp only [List.flatMap_cons, List.cons_append, List.nil_append, List.cons.injEq, true_and] at h
    obtain ⟨hsalt, hpassword⟩ := marked_inj h.2
    exact ⟨by rw [h.1, hsalt], hpassword⟩

theorem derive_inj {i i' : UInt32} {salt salt' password password' : List UInt8}
    (h : derive i salt password = derive i' salt' password') : i = i' ∧ salt = salt' ∧ password = password' := by
  have hlen : (beBytes 4 i.toNat).length = (beBytes 4 i'.toNat).length := by
    rw [length_beBytes, length_beBytes]
  obtain ⟨hcount, hrest⟩ := List.append_inj h hlen
  have hnumber := congrArg ofBe hcount
  have hlt := i.toNat_lt
  have hlt' := i'.toNat_lt
  rw [ofBe_beBytes, ofBe_beBytes] at hnumber
  exact ⟨UInt32.toNat_inj.mp (by omega), marked_inj hrest⟩

/-- What the ciphertexts begin with that are made under this key and nonce. -/
def sealHeader (key nonce : List UInt8) : List UInt8 :=
  key.flatMap (fun b => [1, b]) ++ 0 :: (nonce.flatMap (fun b => [1, b]) ++ [0])

/-- A cipher that can tell what it has made under which key and nonce. -/
def markedSeal (key nonce plain : List UInt8) : List UInt8 := sealHeader key nonce ++ plain

def markedOpen (key nonce cipher : List UInt8) : Except Str (List UInt8) :=
  if sealHeader key nonce <+: cipher then .ok (cipher.drop (sealHeader key nonce).length)
  else .error "aead::Error".toList

theorem markedOpen_seal (key nonce plain : List UInt8) :
    markedOpen key nonce (markedSeal key nonce plain) = .ok plain := by
  unfold markedOpen markedSeal
  rw [if_pos (List.prefix_append _ _), List.drop_left]

/-- What opens was made so. -/
theorem seal_of_markedOpen {key nonce plain cipher : List UInt8}
    (h : markedOpen key nonce cipher = .ok plain) : cipher = markedSeal key nonce plain := by
  unfold markedOpen at h
  split at h
  · rename_i hheader
    cases h
    exact (List.prefix_append_drop hheader)
  · cases h

theorem markedSeal_inj {key key' nonce nonce' plain plain' : List UInt8}
    (h : markedSeal key nonce plain = markedSeal key' nonce' plain') :
    key = key' ∧ nonce = nonce' ∧ plain = plain' := by
  unfold markedSeal sealHeader at h
  simp only [List.append_assoc, List.cons_append, List.nil_append] at h
  obtain ⟨hkey, hrest⟩ := marked_inj h
  obtain ⟨hnonce, hplain⟩ := marked_inj hrest
  exact ⟨hkey, hnonce, hplain⟩

/-- The key, the nonce and the ciphertext of the sample config. -/
def codecKey : List UInt8 := derive pbkdf2Iterations (List.replicate 16 0) (utf8 "secret".toList)

def codecCipher : List UInt8 := markedSeal codecKey (nonceBytes 1) (utf8 (sampleJson []))

/-- The encrypted config, and one in which the first byte of the ciphertext is another. -/
def codecSealed : EncryptedConfig :=
  { version := configVersion
    nonce := natText 1
    pbkdf2Iterations := pbkdf2Iterations
    salt := Base64.encode (List.replicate 16 0)
    encryptedConfig := Base64.encode codecCipher }

def codecTampered : EncryptedConfig :=
  { codecSealed with encryptedConfig := Base64.encode (2 :: codecCipher.tail) }

def codecTexts : List (EncryptedConfig × Str) :=
  [(codecSealed, encryptedJson codecSealed), (codecTampered, encryptedJson codecTampered)]

/-- The sample packages, with that cipher and that key derivation. -/
abbrev codecCrates : Crates :=
  { sampleCrates sampleConfigs with
    encryptedToJson := tableToJson codecTexts
    encryptedFromJson := tableFromJson codecTexts
    pbkdf2 := derive
    aesEncrypt := fun key nonce plain => .ok (markedSeal key nonce plain)
    aesDecrypt := markedOpen }

theorem codecTexts_nodup : (codecTexts.map Prod.snd).Nodup := by decide +kernel

theorem codecTexts_ciphers : (codecTexts.map Prod.fst).Nodup := by
  have hciphers : ((codecTexts.map Prod.fst).map EncryptedConfig.encryptedConfig).Nodup := by decide +kernel
  exact hciphers.of_map _

/-- The cipher decrypts all that it encrypts. -/
theorem codecCrates_opens : @OpensSealed codecCrates := by
  intro key nonce plain cipher h
  cases h
  exact markedOpen_seal key nonce plain

/-- It is ideal for the ciphertext in the file, and for the one that was changed. -/
theorem codecCrates_ideal : @IdealAead codecCrates
    (@sealings codecCrates (List.replicate 16 0) (sampleJson []) "secret".toList 1 pbkdf2Iterations)
    {codecCipher, 2 :: codecCipher.tail} := by
  rintro key nonce plain cipher (rfl | rfl) h
  · obtain ⟨rfl, rfl, rfl⟩ := markedSeal_inj (seal_of_markedOpen h)
    exact ⟨_, rfl, rfl⟩
  · have hmade := seal_of_markedOpen h
    unfold markedSeal sealHeader at hmade
    cases key <;> simp at hmade

/-- What is in the two files. -/
theorem codec_decodes {cipher : List UInt8} {e : EncryptedConfig}
    (he : e = { codecSealed with encryptedConfig := Base64.encode cipher }) (h : (e, encryptedJson e) ∈ codecTexts) :
    @DecodesTo codecCrates (utf8 (encryptedJson e)) ⟨List.replicate 16 0, 1, pbkdf2Iterations, cipher⟩ := by
  have hread : @readVersion codecCrates (utf8 (encryptedJson e)) = .ok e := by
    unfold readVersion
    rw [readToString_utf8]
    exact orErr_eq_ok.mpr (tableFromJson_toJson codecTexts_nodup (tableToJson_mem codecTexts_ciphers h))
  have hnonce : parseU128 (natText 1) = .ok 1 := parseU128_natText (by decide)
  subst he
  exact ⟨_, hread, Base64.decode_encode _, hnonce, rfl, Base64.decode_encode _⟩

theorem codec_text : @getEncryptedConfigStr codecCrates sampleOutcomes (sampleJson []) "secret".toList 1
    pbkdf2Iterations configVersion = .ok (encryptedJson codecSealed) := by
  have hiterations : ¬ pbkdf2Iterations = 0 := by decide
  have hjson : codecCrates.encryptedToJson codecSealed = .ok (encryptedJson codecSealed) :=
    tableToJson_mem codecTexts_ciphers List.mem_cons_self
  have hsealed : codecCrates.aesEncrypt (codecCrates.pbkdf2 pbkdf2Iterations (List.replicate 16 0)
      (utf8 "secret".toList)) (nonceBytes 1) (utf8 (sampleJson [])) = .ok codecCipher := rfl
  unfold getEncryptedConfigStr
  simp only [sampleOutcomes, orErr, bind, Except.bind, hiterations, if_false, hsealed]
  rw [codecSealed] at hjson
  rw [hjson]
  rfl

/-- The text of the sample config reads back, not with another password, and not with another byte. -/
theorem encryptedConfig_codec_sample :
    let disk (e : EncryptedConfig) : Disk := { configJson := none, encryptedConfig := some (utf8 (encryptedJson e)) }
    @readEncryptedConfig codecCrates "secret".toList (disk codecSealed) = .ok (sampleJson [], 1) ∧
      (∃ err, @readEncryptedConfig codecCrates "Secret".toList (disk codecSealed) = .error (.err err)) ∧
      ∃ err, @readEncryptedConfig codecCrates "secret".toList (disk codecTampered) = .error (.err err) := by
  obtain ⟨hread, cipher, hfields, hother⟩ := @encryptedConfig_codec codecCrates sampleOutcomes (sampleJson [])
    "secret".toList (encryptedJson codecSealed) (List.replicate 16 0) 1 pbkdf2Iterations configVersion
    (fun _ _ => tableFromJson_toJson codecTexts_nodup) rfl (by decide) codec_text
  have hkdf : @CollisionFree codecCrates := fun _ _ _ _ _ _ => derive_inj
  have hsealed : (codecSealed, encryptedJson codecSealed) ∈ codecTexts := List.mem_cons_self
  have htampered : (codecTampered, encryptedJson codecTampered) ∈ codecTexts := .tail _ List.mem_cons_self
  have hcipher : codecCipher = cipher := congrArg Fields.cipher
    (@DecodesTo.unique codecCrates _ _ _ (codec_decodes rfl hsealed) hfields)
  have hpassword : "Secret".toList ≠ "secret".toList := by decide
  have hbyte : 2 :: codecCipher.tail ≠ codecCipher := by
    have hhead : codecCipher.head? = some 1 := rfl
    intro h
    rw [← h] at hhead
    cases hhead
  refine ⟨hread codecCrates_opens _ rfl, ?_, ?_⟩
  · exact hother _ hkdf codecCrates_ideal _ _ _ _ rfl (codec_decodes rfl hsealed) (.inl rfl)
      (.inr (.inr (.inr (.inr hpassword))))
  · exact hother _ hkdf codecCrates_ideal _ _ _ _ rfl (codec_decodes rfl htampered) (.inr rfl)
      (.inr (.inr (.inr (.inl (hcipher ▸ hbyte)))))

end Transmitic
