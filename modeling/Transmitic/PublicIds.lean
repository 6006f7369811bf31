/-
  File:      Transmitic/PublicIds.lean
  Subject:   TWO SPELLINGS OF ONE PUBLIC ID. The config tells public IDs apart as strings, a handshake
             as the bytes they decode to, and the decoder reads several strings as the same bytes: it
             asks for no padding and ignores the unused bits of the last character.

  * `Base64.significant` -- the bits of a string that the decoder reads;
  * `Base64.decode_eq_iff` -- **exactly** when two strings decode to the same bytes;
  * `OwnHandshakes` -- a handshake belongs to at most one user, whatever the order of the users;
  * `verified_ownHandshakes` -- the configs of which this holds;
  * `spelling_counterexample` -- an accepted config with one public ID in two spellings.
-/
import Transmitic.TransmiticStream
import Transmitic.ConfigInvariant

namespace Transmitic

open Lib

namespace Base64

/-! ## 1. The significant bits of a string -/

/-- The six bits of a character. -/
def sextet (byte : UInt8) : UInt8 := tableReverse.getD byte.toNat badIdx

/-- Six-bit groups without the bits of an incomplete group of four that fill no byte. -/
def clearUnused : List UInt8 → List UInt8
  | [a, b] => [a, (b >>> 4) <<< 4]
  | [a, b, c] => [a, b, (c >>> 2) <<< 2]
  | a :: b :: c :: d :: rest => a :: b :: c :: d :: clearUnused rest
  | groups => groups

/-- The six-bit groups in front of the padding. -/
def groups (bytes : List UInt8) : List UInt8 :=
  (bytes.takeWhile fun b => b ≠ paddingChar).map sextet

/-- What the decoder reads of a string. -/
def significant (base64String : Str) : List UInt8 := clearUnused (groups (utf8 base64String))

/-- The six-bit groups of bytes, as the encoder makes them. -/
def sextets : List UInt8 → List UInt8
  | [] => []
  | [a] => [a >>> 2, (a &&& 0b11) <<< 4]
  | [a, b] => [a >>> 2, ((a &&& 0b11) <<< 4) + (b >>> 4), (b &&& 0b1111) <<< 2]
  | a :: b :: c :: rest =>
    [a >>> 2, ((a &&& 0b11) <<< 4) + (b >>> 4), ((b &&& 0b1111) <<< 2) + (c >>> 6),
      c &&& 0b111111] ++ sextets rest

/-- The bytes are determined by their groups. -/
theorem sextets_injective : ∀ {x y : List UInt8}, sextets x = sextets y → x = y
  | [], [], _ => rfl
  | [a], [a'], h => by
    simp only [sextets, List.cons.injEq, and_true] at h
    have hx := join_one a 0
    have hy := join_one a' 0
    rw [zero_shr.1, UInt8.add_zero] at hx hy
    rw [← hx, ← hy, h.1, h.2]
  | [a, b], [a', b'], h => by
    simp only [sextets, List.cons.injEq, and_true] at h
    obtain ⟨h1, h2, h3⟩ := h
    have hx := join_two a b 0
    have hy := join_two a' b' 0
    rw [zero_shr.2, UInt8.add_zero] at hx hy
    rw [← join_one a b, ← join_one a' b', h1, h2, ← hx, ← hy, h2, h3]
  | a :: b :: c :: rest, a' :: b' :: c' :: rest', h => by
    simp only [sextets, List.cons_append, List.nil_append, List.cons.injEq] at h
    obtain ⟨h1, h2, h3, h4, hrest⟩ := h
    have ha : a = a' := by rw [← join_one a b, ← join_one a' b', h1, h2]
    have hb : b = b' := by rw [← join_two a b c, ← join_two a' b' c', h2, h3]
    have hc : c = c' := by rw [← join_three b c, ← join_three b' c', h3, h4]
    rw [ha, hb, hc, sextets_injective hrest]
  | [], [_], h => by simp [sextets] at h
  | [], [_, _], h => by simp [sextets] at h
  | [], _ :: _ :: _ :: _, h => by simp [sextets] at h
  | [_], [], h => by simp [sextets] at h
  | [_], [_, _], h => by simp [sextets] at h
  | [_], _ :: _ :: _ :: _, h => by simp [sextets] at h
  | [_, _], [], h => by simp [sextets] at h
  | [_, _], [_], h => by simp [sextets] at h
  | [_, _], _ :: _ :: _ :: _, h => by simp [sextets] at h
  | _ :: _ :: _ :: _, [], h => by simp [sextets] at h
  | _ :: _ :: _ :: _, [_], h => by simp [sextets] at h
  | _ :: _ :: _ :: _, [_, _], h => by simp [sextets] at h

/-! ## 2. The decoder reads just these bits -/

theorem sextet_range : ∀ k : Fin 256, sextet (UInt8.ofNat k) = badIdx ∨
    (sextet (UInt8.ofNat k)).toNat < 64 ∧ UInt8.ofNat k ≠ paddingChar := by decide +kernel

/-- A character the decoder reads. -/
theorem getIndexOfByte_spec {b n : UInt8} {i : Nat} (h : getIndexOfByte b i = .ok n) :
    sextet b = n ∧ n.toNat < 64 ∧ b ≠ paddingChar := by
  unfold getIndexOfByte at h
  split at h
  · cases h
  rename_i index hindex
  split at h
  · cases h
  rename_i hne
  cases h
  have hs : sextet b = n := by
    unfold sextet
    rw [List.getD_eq_getElem?_getD, hindex]
    rfl
  have hrange := sextet_range ⟨b.toNat, b.toNat_lt⟩
  simp only [UInt8.ofNat_toNat] at hrange
  rw [hs] at hrange
  rcases hrange with hbad | hok
  · exact absurd hbad hne
  · exact ⟨hs, hok⟩

section Split

variable {one two three four : UInt8}

/-- The groups of the first byte. -/
theorem split_one (h1 : one.toNat < 64) (h2 : two.toNat < 64) :
    ((one <<< 2) + (two >>> 4)) >>> 2 = one ∧
      ((((one <<< 2) + (two >>> 4)) &&& 0b11) <<< 4) = (two >>> 4) <<< 4 := by
  constructor <;> apply UInt8.toNat_inj.mp <;>
    simp only [UInt8.toNat_add, toNat_shr, toNat_shl, toNat_low] <;> omega

/-- The groups at the border of the first and the second byte. -/
theorem split_two (h2 : two.toNat < 64) (h3 : three.toNat < 64) :
    ((((one <<< 2) + (two >>> 4)) &&& 0b11) <<< 4) +
        ((((two &&& 0b1111) <<< 4) + (three >>> 2)) >>> 4) = two ∧
      ((((two &&& 0b1111) <<< 4) + (three >>> 2)) &&& 0b1111) <<< 2 = (three >>> 2) <<< 2 := by
  constructor <;> apply UInt8.toNat_inj.mp <;>
    simp only [UInt8.toNat_add, toNat_shr, toNat_shl, toNat_low] <;> omega

/-- The groups at the border of the second and the third byte. -/
theorem split_three (h3 : three.toNat < 64) (h4 : four.toNat < 64) :
    ((((two &&& 0b1111) <<< 4) + (three >>> 2)) &&& 0b1111) <<< 2 +
        ((((three &&& 0b11) <<< 6) + four) >>> 6) = three ∧
      (((three &&& 0b11) <<< 6) + four) &&& 0b111111 = four := by
  constructor <;> apply UInt8.toNat_inj.mp <;>
    simp only [UInt8.toNat_add, toNat_shr, toNat_shl, toNat_low] <;> omega

end Split

theorem groups_cons {b n : UInt8} {i : Nat} {rest : List UInt8} (h : getIndexOfByte b i = .ok n) :
    groups (b :: rest) = n :: groups rest := by
  obtain ⟨hs, -, hne⟩ := getIndexOfByte_spec h
  unfold groups
  rw [List.takeWhile_cons_of_pos (by simpa using hne), List.map_cons, hs]

theorem padding_eq_ok {len i : Nat} {output out : List UInt8} (h : padding len i output = .ok out) :
    out = output := by
  unfold padding at h
  split at h <;> cases h
  rfl

/-- **The loop of the decoder.** -/
theorem sextets_decodeFrom (len : Nat) : ∀ (bytes : List UInt8) (i : Nat) {out : List UInt8},
    decodeFrom len i bytes = .ok out → sextets out = clearUnused (groups bytes)
  | [], i, out, h => by
    cases h
    rfl
  | [b1], i, out, h => by
    obtain ⟨_, -, h⟩ := bind_eq_ok.mp h
    cases h
  | b1 :: b2 :: rest, i, out, h => by
    unfold decodeFrom at h
    obtain ⟨one, h1, h⟩ := bind_eq_ok.mp h
    obtain ⟨two, h2, h⟩ := bind_eq_ok.mp h
    obtain ⟨-, hr1, -⟩ := getIndexOfByte_spec h1
    obtain ⟨-, hr2, -⟩ := getIndexOfByte_spec h2
    have hone := split_one hr1 hr2
    -- the padding, and the end of the string, leave a group of two
    have htwo : ∀ {out' : List UInt8}, groups rest = [] →
        out' = [(one <<< 2) + (two >>> 4)] →
        sextets out' = clearUnused (groups (b1 :: b2 :: rest)) := by
      rintro _ hrest rfl
      rw [groups_cons h1, groups_cons h2, hrest]
      simp only [sextets, clearUnused, hone]
    cases rest with
    | nil =>
      cases h
      exact htwo rfl rfl
    | cons b3 rest =>
      by_cases hp3 : b3 = paddingChar
      · dsimp only at h
        rw [if_pos hp3] at h
        exact htwo (by rw [hp3]; rfl) (padding_eq_ok h)
      · dsimp only at h
        rw [if_neg hp3] at h
        obtain ⟨three, h3, h⟩ := bind_eq_ok.mp h
        obtain ⟨-, hr3, -⟩ := getIndexOfByte_spec h3
        have htwo' := @split_two one two three hr2 hr3
        have hthree : ∀ {out' : List UInt8}, groups rest = [] →
            out' = [(one <<< 2) + (two >>> 4), ((two &&& 0b1111) <<< 4) + (three >>> 2)] →
            sextets out' = clearUnused (groups (b1 :: b2 :: b3 :: rest)) := by
          rintro _ hrest rfl
          rw [groups_cons h1, groups_cons h2, groups_cons h3, hrest]
          simp only [sextets, clearUnused, hone.1, htwo']
        cases rest with
        | nil =>
          cases h
          exact hthree rfl rfl
        | cons b4 rest =>
          by_cases hp4 : b4 = paddingChar
          · dsimp only at h
            rw [if_pos hp4] at h
            exact hthree (by rw [hp4]; rfl) (padding_eq_ok h)
          · dsimp only at h
            rw [if_neg hp4] at h
            obtain ⟨four, h4, h⟩ := bind_eq_ok.mp h
            obtain ⟨output, hout, h⟩ := bind_eq_ok.mp h
            obtain ⟨-, hr4, -⟩ := getIndexOfByte_spec h4
            cases h
            rw [groups_cons h1, groups_cons h2, groups_cons h3, groups_cons h4]
            simp only [sextets, clearUnused, hone.1, htwo'.1, @split_three two three four hr3 hr4,
              List.cons_append, List.nil_append, sextets_decodeFrom len rest (i + 4) hout]

theorem sextets_decode {s : Str} {out : List UInt8} (h : decode s = .ok out) :
    sextets out = significant s := by
  unfold decode decodeBytes at h
  split at h
  · rename_i hempty
    cases h
    unfold significant
    rw [hempty]
    rfl
  · split at h
    · cases h
    · split at h
      · cases h
      · exact sextets_decodeFrom _ _ 0 h

/-- **Two strings decode to the same bytes just when they have the same significant bits.** -/
theorem decode_eq_iff {s t : Str} {x y : List UInt8} (hs : decode s = .ok x) (ht : decode t = .ok y) :
    x = y ↔ significant s = significant t := by
  rw [← sextets_decode hs, ← sextets_decode ht]
  exact ⟨fun h => by rw [h], sextets_injective⟩

end Base64

/-! ## 3. The users of a config -/

/-- A signature verifies under at most one public ID. -/
def Suite.OneSigner (K : Suite) : Prop :=
  ∀ id id' key signature, K.verify id key signature = true → K.verify id' key signature = true →
    id = id'

/-- The key is signed under the public ID of the user. -/
def SharedUser.Signed (K : Suite) (key : K.Public) (signature : K.Signature) (user : SharedUser) :
    Prop :=
  ∃ id, Base64.decode user.publicId = .ok id ∧ K.verify id key signature = true

/-- A handshake belongs to at most one of the users. -/
structure OwnHandshakes (sharedUsers : List SharedUser) : Prop where
  decoded : ∀ user ∈ sharedUsers, ∃ id, Base64.decode user.publicId = .ok id
  /-- The byte strings are pairwise distinct. -/
  distinct : sharedUsers.Pairwise fun user user' =>
    Base64.decode user.publicId ≠ Base64.decode user'.publicId
  atMostOne : ∀ (K : Suite) (key : K.Public) (signature : K.Signature), K.OneSigner →
    ∀ user ∈ sharedUsers, ∀ user' ∈ sharedUsers, user.Signed K key signature →
      user'.Signed K key signature → user = user'
  anyOrder : ∀ (K : Suite) (key : K.Public) (signature : K.Signature), K.OneSigner →
    ∀ sharedUsers', sharedUsers'.Perm sharedUsers →
      matchSharedUser K key signature sharedUsers' = matchSharedUser K key signature sharedUsers

/-- No public ID is written in two ways. -/
def OneSpelling (sharedUsers : List SharedUser) : Prop :=
  sharedUsers.Pairwise fun user user' =>
    Base64.significant user.publicId ≠ Base64.significant user'.publicId

section Users

variable {K : Suite} {key : K.Public} {signature : K.Signature} {users : List SharedUser}

/-- The loop over users whose public IDs decode: it returns, and finds a user just when one has
    signed. -/
theorem matchSharedUser_decoded
    (hdecode : ∀ user ∈ users, ∃ id, Base64.decode user.publicId = .ok id) :
    (∃ user ∈ users, user.Signed K key signature ∧
      matchSharedUser K key signature users = .ok (some user)) ∨
    ((∀ user ∈ users, ¬ user.Signed K key signature) ∧
      matchSharedUser K key signature users = .ok none) := by
  induction users with
  | nil => exact .inr ⟨fun _ hu => absurd hu List.not_mem_nil, rfl⟩
  | cons user users ih =>
    obtain ⟨id, hid⟩ := hdecode user List.mem_cons_self
    have hstep : matchSharedUser K key signature (user :: users) =
        if K.verify id key signature = true then .ok (some user)
        else matchSharedUser K key signature users := by
      conv_lhs => unfold matchSharedUser
      rw [hid]
      rfl
    rw [hstep]
    by_cases hv : K.verify id key signature = true
    · rw [if_pos hv]
      exact .inl ⟨user, List.mem_cons_self, ⟨id, hid, hv⟩, rfl⟩
    · rw [if_neg hv]
      rcases ih fun u hu => hdecode u (List.mem_cons_of_mem _ hu) with ⟨u, hu, hs⟩ | ⟨hno, hmatch⟩
      · exact .inl ⟨u, List.mem_cons_of_mem _ hu, hs⟩
      · refine .inr ⟨fun u hu => ?_, hmatch⟩
        rcases List.mem_cons.mp hu with rfl | hu
        · rintro ⟨id', hid', hv'⟩
          rw [hid] at hid'
          cases hid'
          exact hv hv'
        · exact hno u hu

/-- Where at most one user has signed, the order of the users does not matter. -/
theorem matchSharedUser_perm {users' : List SharedUser}
    (hdecode : ∀ user ∈ users, ∃ id, Base64.decode user.publicId = .ok id)
    (hone : ∀ user ∈ users, ∀ user' ∈ users, user.Signed K key signature →
      user'.Signed K key signature → user = user')
    (hperm : users'.Perm users) :
    matchSharedUser K key signature users' = matchSharedUser K key signature users := by
  have hdecode' : ∀ user ∈ users', ∃ id, Base64.decode user.publicId = .ok id :=
    fun u hu => hdecode u (hperm.mem_iff.mp hu)
  rcases matchSharedUser_decoded hdecode with ⟨u, hu, hs, hm⟩ | ⟨hno, hm⟩ <;>
    rcases matchSharedUser_decoded hdecode' with ⟨u', hu', hs', hm'⟩ | ⟨hno', hm'⟩
  · rw [hm, hm', hone u' (hperm.mem_iff.mp hu') u hu hs' hs]
  · exact absurd hs (hno' u (hperm.mem_iff.mpr hu))
  · exact absurd hs' (hno u' (hperm.mem_iff.mp hu'))
  · rw [hm, hm']

/-- The decoded public IDs are distinct just when no public ID is written in two ways. -/
theorem distinct_iff_oneSpelling
    (hdecode : ∀ user ∈ users, ∃ id, Base64.decode user.publicId = .ok id) :
    (users.Pairwise fun user user' =>
      Base64.decode user.publicId ≠ Base64.decode user'.publicId) ↔ OneSpelling users := by
  refine List.Pairwise.iff_of_mem fun {user user'} hu hu' => not_congr ?_
  obtain ⟨id, hid⟩ := hdecode user hu
  obtain ⟨id', hid'⟩ := hdecode user' hu'
  rw [hid, hid', Except.ok.injEq, Base64.decode_eq_iff hid hid']

/-- With distinct byte strings a key is signed by at most one user. -/
theorem eq_of_signed (hK : K.OneSigner)
    (hdistinct : users.Pairwise fun user user' =>
      Base64.decode user.publicId ≠ Base64.decode user'.publicId) :
    ∀ user ∈ users, ∀ user' ∈ users, user.Signed K key signature → user'.Signed K key signature →
      user = user' := by
  rintro user hu user' hu' ⟨id, hid, hv⟩ ⟨id', hid', hv'⟩
  have : Std.Symm fun u v : SharedUser => Base64.decode u.publicId ≠ Base64.decode v.publicId :=
    ⟨fun _ _ h => h.symm⟩
  by_contra hne
  exact hdistinct.forall hu hu' hne (by rw [hid, hid', hK _ _ _ _ hv hv'])

/-- **The order decides wherever one public ID is written in two ways**: some key and signature are
    matched with the one user or the other. -/
theorem order_decides {user user' : SharedUser} (hu : user ∈ users) (hu' : user' ∈ users)
    {id : List UInt8} (hid : Base64.decode user.publicId = .ok id)
    (hid' : Base64.decode user'.publicId = .ok id) :
    ∃ (K : Suite) (key : K.Public) (signature : K.Signature), K.OneSigner ∧
      ∃ users₁ users₂ : List SharedUser, users₁.Perm users ∧ users₂.Perm users ∧
        matchSharedUser K key signature users₁ = .ok (some user) ∧
        matchSharedUser K key signature users₂ = .ok (some user') := by
  -- signatures that name the public ID they are made under
  let K : Suite :=
    { Secret := Unit
      Public := Unit
      Signature := List UInt8
      Key := Unit
      publicKey := fun _ => ()
      sign := fun _ _ => []
      verify := fun id _ signature => id = signature
      diffieHellman := fun _ _ => () }
  have hfirst : ∀ {u : SharedUser} {rest : List SharedUser}, Base64.decode u.publicId = .ok id →
      matchSharedUser K () id (u :: rest) = .ok (some u) := by
    intro u rest h
    unfold matchSharedUser
    rw [h]
    exact if_pos (decide_eq_true rfl)
  refine ⟨K, (), id, fun a b _ s ha hb => ?_, _, _, (List.perm_cons_erase hu).symm,
    (List.perm_cons_erase hu').symm, hfirst hid, hfirst hid'⟩
  exact (of_decide_eq_true ha).trans (of_decide_eq_true hb).symm

end Users

/-! ## 4. Accepted configs -/

/-- **A handshake belongs to at most one user of an accepted config just when no public ID is written in
    two ways.** -/
theorem verified_ownHandshakes [Crates] {configDir : Str} {raw configFile : ConfigFile}
    (h : verifyConfig configDir raw = .ok configFile) :
    OwnHandshakes configFile.sharedUsers ↔ OneSpelling configFile.sharedUsers := by
  have hdecode := (sound_of_verify h).publicIds_decode
  rw [← distinct_iff_oneSpelling hdecode]
  refine ⟨OwnHandshakes.distinct, fun hdistinct => ⟨hdecode, hdistinct, fun K key signature hK => ?_,
    fun K key signature hK users' hperm => ?_⟩⟩
  · exact eq_of_signed hK hdistinct
  · exact matchSharedUser_perm hdecode (eq_of_signed hK hdistinct) hperm

/-- Bob's public ID without the padding. -/
def sampleUnpadded : Str := sampleBob.publicId.dropLast

def sampleTwice : List SharedUser :=
  [sampleBob, { sampleBob with nickname := "carol".toList, publicId := sampleUnpadded }]

theorem sampleTwice_verified :
    @verifyConfig (usersCrates []) sampleDir (usersConfig sampleTwice) = .ok (usersConfig sampleTwice) := by
  decide +kernel

/-- The condition, on a config with two users. -/
theorem verified_ownHandshakes_two : OwnHandshakes [sampleBob, sampleCarol] := by
  have hverified : @verifyConfig (usersCrates []) sampleDir (usersConfig [sampleBob, sampleCarol]) =
      .ok (usersConfig [sampleBob, sampleCarol]) := by decide +kernel
  have hone : OneSpelling [sampleBob, sampleCarol] := by
    refine List.pairwise_pair.mpr ?_
    decide +kernel
  exact (@verified_ownHandshakes (usersCrates []) sampleDir _ _ hverified).mpr hone

/-- **An accepted config with one public ID in two spellings.** -/
theorem spelling_counterexample : ¬ ∀ (crates : Crates) (configDir : Str) (raw configFile : ConfigFile),
    @verifyConfig crates configDir raw = .ok configFile → OwnHandshakes configFile.sharedUsers := by
  intro hall
  have hown := hall _ _ _ _ sampleTwice_verified
  have hdistinct := List.rel_of_pairwise_cons hown.distinct List.mem_cons_self
  exact hdistinct (by decide +kernel)

end Transmitic
