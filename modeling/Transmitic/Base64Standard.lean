/-
  File:      Transmitic/Base64Standard.lean
  Subject:   THE ENCODER WRITES STANDARD BASE64 (base64.rs, `encode`), and the decoder undoes it.

  The source computes the length of the output in double precision, and fills the output up to it.

  * `getEncodeCapacityFloat`, `encodeChecked` -- the capacity as the source computes it, with the
    assertions on the output;
  * `getEncodeCapacityFloat_eq` -- the rounding does no harm to any input that is not enormous;
  * `rfc4648` -- base64 as a standard has it: the bits of the bytes in groups of six, the last one filled
    with zeros, and padding up to a multiple of four characters;
  * `encode_standard` -- **what is encoded is that text, and decodes to the bytes**, with and without
    its padding.
-/
import Transmitic.Base64Grammar
import Transmitic.Lib.Binary64

namespace Transmitic

open Lib

namespace Base64

/-! ## 1. The capacity -/

/-- `get_encode_capacity`: the number of bits is divided by six in double precision. -/
def getEncodeCapacityFloat (inputLen : Nat) : Nat :=
  let inputBits := binary64 ((inputLen * 8 : Nat) : ℚ)
  let capacity := ⌈binary64 (inputBits / 6)⌉.toNat
  if capacity % 4 ≠ 0 then capacity + (4 - capacity % 4) else capacity

/-- `encode`: the output is filled up to its capacity, and has the length it was made for. An output that
    outgrows its capacity fails the assertion on it. -/
def encodeChecked (bytes : List UInt8) : Except Exc Str :=
  if bytes = [] then .ok []
  else
    let capacity := getEncodeCapacityFloat bytes.length
    let output := encodeGroups bytes
    if capacity < output.length then .error .panic
    else .ok (ofAscii (output ++ List.replicate (capacity - output.length) paddingChar))

/-- **The quotient is rounded to no other ceiling**: it is an integer, or a third away from one. -/
theorem getEncodeCapacityFloat_eq {inputLen : Nat} (h : inputLen < 2 ^ 50) :
    getEncodeCapacityFloat inputLen = getEncodeCapacity inputLen := by
  have hbits : binary64 ((inputLen * 8 : Nat) : ℚ) = ((inputLen * 8 : Nat) : ℚ) :=
    binary64_natCast (by omega)
  have hceil : ⌈binary64 (((inputLen * 8 : Nat) : ℚ) / 6)⌉.toNat = (inputLen * 8 + 5) / 6 := by
    obtain ⟨k, hk⟩ : ∃ k, inputLen = 3 * k ∨ inputLen = 3 * k + 1 ∨ inputLen = 3 * k + 2 :=
      ⟨inputLen / 3, by omega⟩
    have hlt : (((inputLen * 8 : Nat) : ℚ) / 6) < 2 ^ (50 + 1) := by
      have hcast : (inputLen : ℚ) < 2 ^ 50 := by exact_mod_cast h
      push_cast
      linarith
    have hulp := ulp_le hlt
    have hquarter : (2 : ℚ) ^ (((50 : ℕ) : ℤ) - 52) = 1 / 4 := by norm_num
    rw [hquarter] at hulp
    rcases hk with rfl | rfl | rfl
    · have hquotient : (((3 * k * 8 : Nat) : ℚ) / 6) = ((4 * k : Nat) : ℚ) := by
        push_cast
        ring
      have hk4 : ⌈((4 * k : Nat) : ℚ)⌉ = ((4 * k : Nat) : ℤ) := Int.ceil_natCast (4 * k)
      rw [hquotient, binary64_natCast (by omega), hk4]
      omega
    · have hquotient : ((((3 * k + 1) * 8 : Nat) : ℚ) / 6) = 4 * k + 4 / 3 := by
        push_cast
        ring
      rw [hquotient] at hulp ⊢
      rw [@ceil_binary64 _ (4 * k + 1 : ℤ) (by push_cast; linarith) (by push_cast; linarith)]
      omega
    · have hquotient : ((((3 * k + 2) * 8 : Nat) : ℚ) / 6) = 4 * k + 8 / 3 := by
        push_cast
        ring
      rw [hquotient] at hulp ⊢
      rw [@ceil_binary64 _ (4 * k + 2 : ℤ) (by push_cast; linarith) (by push_cast; linarith)]
      omega
  unfold getEncodeCapacityFloat getEncodeCapacity
  simp only [hbits, hceil]

/-- The characters without the padding. -/
theorem length_encodeGroups : ∀ bytes : List UInt8, (encodeGroups bytes).length = (bytes.length * 8 + 5) / 6
  | [] => rfl
  | [_] => by simp [encodeGroups]
  | [_, _] => by simp [encodeGroups]
  | a :: b :: c :: rest => by
    rw [encodeGroups, List.length_append, length_encodeGroups rest]
    simp only [List.length_cons, List.length_nil]
    omega

theorem encodeGroups_le (bytes : List UInt8) :
    (encodeGroups bytes).length ≤ getEncodeCapacity bytes.length := by
  rw [length_encodeGroups, getEncodeCapacity]
  split <;> omega

theorem getEncodeCapacity_eq (inputLen : Nat) : getEncodeCapacity inputLen = 4 * ((inputLen + 2) / 3) := by
  unfold getEncodeCapacity
  dsimp only
  obtain ⟨k, hk⟩ : ∃ k, inputLen = 3 * k ∨ inputLen = 3 * k + 1 ∨ inputLen = 3 * k + 2 :=
    ⟨inputLen / 3, by omega⟩
  rcases hk with rfl | rfl | rfl <;> split <;> omega

/-- **The assertions of the encoder hold.** -/
theorem encodeChecked_eq {bytes : List UInt8} (h : bytes.length < 2 ^ 50) :
    encodeChecked bytes = .ok (encode bytes) ∧ (encode bytes).length = getEncodeCapacityFloat bytes.length := by
  have hle := encodeGroups_le bytes
  unfold encodeChecked encode encodeBytes
  dsimp only
  rw [getEncodeCapacityFloat_eq h]
  constructor
  · by_cases hnil : bytes = []
    · subst hnil
      rfl
    · rw [if_neg hnil, if_neg (by omega)]
  · rw [ofAscii, List.length_map, List.length_append, List.length_replicate]
    omega

/-! ## 2. The standard -/

/-- The bits of a byte, the most significant one first. -/
def bits (byte : UInt8) : List Nat :=
  [byte.toNat / 128 % 2, byte.toNat / 64 % 2, byte.toNat / 32 % 2, byte.toNat / 16 % 2, byte.toNat / 8 % 2,
    byte.toNat / 4 % 2, byte.toNat / 2 % 2, byte.toNat % 2]

/-- The number with these bits. -/
def ofBits (bits : List Nat) : Nat := bits.foldl (fun n bit => 2 * n + bit) 0

/-- Bits in groups of six; the last one is filled with zeros. -/
def groupsOfSix : List Nat → List (List Nat)
  | [] => []
  | b1 :: b2 :: b3 :: b4 :: b5 :: b6 :: rest => [b1, b2, b3, b4, b5, b6] :: groupsOfSix rest
  | rest => [rest ++ List.replicate (6 - rest.length) 0]

/-- The character of a number below 64. -/
def standardChar (n : Nat) : Char :=
  "ABCDEFGHIJKLMNOPQRSTUVWXYZabcdefghijklmnopqrstuvwxyz0123456789+/".toList.getD n '='

/-- Base64 of the standard. -/
def rfc4648 (bytes : List UInt8) : Str :=
  let characters := (groupsOfSix (bytes.flatMap bits)).map fun group => standardChar (ofBits group)
  characters ++ List.replicate ((4 - characters.length % 4) % 4) '='

theorem standardChar_tableAt : ∀ k : Fin 64,
    standardChar k = Char.ofNat (tableAt (UInt8.ofNat k)).toNat := by decide +kernel

theorem standardChar_eq {n : UInt8} (h : n.toNat < 64) :
    standardChar n.toNat = Char.ofNat (tableAt n).toNat := by
  have htable := standardChar_tableAt ⟨n.toNat, h⟩
  simpa only [UInt8.ofNat_toNat] using htable

/-- The numbers of the four groups of three bytes. -/
theorem ofBits_groups (a b c : UInt8) :
    ofBits [a.toNat / 128 % 2, a.toNat / 64 % 2, a.toNat / 32 % 2, a.toNat / 16 % 2, a.toNat / 8 % 2,
        a.toNat / 4 % 2] = (a >>> 2).toNat ∧
      ofBits [a.toNat / 2 % 2, a.toNat % 2, b.toNat / 128 % 2, b.toNat / 64 % 2, b.toNat / 32 % 2,
        b.toNat / 16 % 2] = (((a &&& 0b11) <<< 4) + (b >>> 4)).toNat ∧
      ofBits [b.toNat / 8 % 2, b.toNat / 4 % 2, b.toNat / 2 % 2, b.toNat % 2, c.toNat / 128 % 2,
        c.toNat / 64 % 2] = (((b &&& 0b1111) <<< 2) + (c >>> 6)).toNat ∧
      ofBits [c.toNat / 32 % 2, c.toNat / 16 % 2, c.toNat / 8 % 2, c.toNat / 4 % 2, c.toNat / 2 % 2,
        c.toNat % 2] = (c &&& 0b111111).toNat := by
  have ha := a.toNat_lt
  have hb := b.toNat_lt
  have hc := c.toNat_lt
  simp only [ofBits, List.foldl_cons, List.foldl_nil, UInt8.toNat_add, toNat_shr, toNat_shl, toNat_low]
  omega

/-- **The groups of the encoder are those of the standard.** Over three bytes at a time. -/
theorem encodeGroups_standard : ∀ bytes : List UInt8,
    ofAscii (encodeGroups bytes) =
      (groupsOfSix (bytes.flatMap bits)).map fun group => standardChar (ofBits group)
  | [] => rfl
  | [a] => by
    obtain ⟨s1, s2, -, -⟩ := sextets_lt a 0 0
    obtain ⟨g1, g2, -, -⟩ := ofBits_groups a 0 0
    have hzero : ((a &&& 0b11) <<< 4) = ((a &&& 0b11) <<< 4) + ((0 : UInt8) >>> 4) := by
      rw [zero_shr.1, UInt8.add_zero]
    show [Char.ofNat (tableAt (a >>> 2)).toNat, Char.ofNat (tableAt ((a &&& 0b11) <<< 4)).toNat] =
      [standardChar (ofBits _), standardChar (ofBits _)]
    rw [hzero, ← standardChar_eq s1, ← standardChar_eq s2, ← g1, ← g2]
    rfl
  | [a, b] => by
    obtain ⟨s1, s2, s3, -⟩ := sextets_lt a b 0
    obtain ⟨g1, g2, g3, -⟩ := ofBits_groups a b 0
    have hzero : ((b &&& 0b1111) <<< 2) = ((b &&& 0b1111) <<< 2) + ((0 : UInt8) >>> 6) := by
      rw [zero_shr.2, UInt8.add_zero]
    show [Char.ofNat (tableAt (a >>> 2)).toNat, Char.ofNat (tableAt (((a &&& 0b11) <<< 4) + (b >>> 4))).toNat,
        Char.ofNat (tableAt ((b &&& 0b1111) <<< 2)).toNat] =
      [standardChar (ofBits _), standardChar (ofBits _), standardChar (ofBits _)]
    rw [hzero, ← standardChar_eq s1, ← standardChar_eq s2, ← standardChar_eq s3, ← g1, ← g2, ← g3]
    rfl
  | a :: b :: c :: rest => by
    obtain ⟨s1, s2, s3, s4⟩ := sextets_lt a b c
    obtain ⟨g1, g2, g3, g4⟩ := ofBits_groups a b c
    have ih := encodeGroups_standard rest
    show Char.ofNat (tableAt (a >>> 2)).toNat :: Char.ofNat (tableAt (((a &&& 0b11) <<< 4) + (b >>> 4))).toNat ::
        Char.ofNat (tableAt (((b &&& 0b1111) <<< 2) + (c >>> 6))).toNat ::
          Char.ofNat (tableAt (c &&& 0b111111)).toNat :: ofAscii (encodeGroups rest) =
      standardChar (ofBits _) :: standardChar (ofBits _) :: standardChar (ofBits _) ::
        standardChar (ofBits _) :: (groupsOfSix (rest.flatMap bits)).map _
    rw [ih, ← standardChar_eq s1, ← standardChar_eq s2, ← standardChar_eq s3, ← standardChar_eq s4,
      ← g1, ← g2, ← g3, ← g4]

/-- **What is encoded is the text of the standard.** -/
theorem encode_eq_rfc4648 (bytes : List UInt8) : encode bytes = rfc4648 bytes := by
  have hpad : getEncodeCapacity bytes.length - (encodeGroups bytes).length =
      (4 - (encodeGroups bytes).length % 4) % 4 := by
    rw [length_encodeGroups, getEncodeCapacity]
    split <;> omega
  have hmap : ∀ n, (List.replicate n paddingChar).map (fun b : UInt8 => Char.ofNat b.toNat) =
      List.replicate n '=' := fun n => List.map_replicate
  unfold encode encodeBytes rfc4648
  dsimp only
  rw [← encodeGroups_standard, hpad, ofAscii, List.map_append, hmap, ofAscii, List.length_map]

/-! ## 3. Without the padding -/

theorem inAlphabet_tableAt {n : UInt8} (h : n.toNat < 64) : inAlphabet (tableAt n) = true := by
  have hlt : n.toNat < table.length := h
  rw [inAlphabet, tableAt, ← List.getElem_eq_getD badIdx (h := hlt)]
  exact List.contains_iff_mem.mpr (List.getElem_mem hlt)

/-- **The groups are of characters of the alphabet.** -/
theorem encodeGroups_inAlphabet : ∀ (bytes : List UInt8), ∀ b ∈ encodeGroups bytes, inAlphabet b = true
  | [], b, h => absurd h (List.not_mem_nil (a := b))
  | [a], d, h => by
    obtain ⟨s1, s2, -, -⟩ := sextets_lt a 0 0
    rw [zero_shr.1, UInt8.add_zero] at s2
    simp only [encodeGroups, List.mem_cons, List.not_mem_nil, or_false] at h
    rcases h with rfl | rfl
    · exact inAlphabet_tableAt s1
    · exact inAlphabet_tableAt s2
  | [a, b], d, h => by
    obtain ⟨s1, s2, s3, -⟩ := sextets_lt a b 0
    rw [zero_shr.2, UInt8.add_zero] at s3
    simp only [encodeGroups, List.mem_cons, List.not_mem_nil, or_false] at h
    rcases h with rfl | rfl | rfl
    · exact inAlphabet_tableAt s1
    · exact inAlphabet_tableAt s2
    · exact inAlphabet_tableAt s3
  | a :: b :: c :: rest, d, h => by
    obtain ⟨s1, s2, s3, s4⟩ := sextets_lt a b c
    simp only [encodeGroups, List.cons_append, List.nil_append, List.mem_cons] at h
    rcases h with rfl | rfl | rfl | rfl | h
    · exact inAlphabet_tableAt s1
    · exact inAlphabet_tableAt s2
    · exact inAlphabet_tableAt s3
    · exact inAlphabet_tableAt s4
    · exact encodeGroups_inAlphabet rest d h

/-- **The loop gives back what was encoded**, without padding at the end. -/
theorem decodeFrom_encodeGroups (len : Nat) : ∀ (bytes : List UInt8) (i : Nat),
    decodeFrom len i (encodeGroups bytes) = .ok bytes
  | [], _ => rfl
  | [a], i => by
    obtain ⟨s1, s2, -, -⟩ := sextets_lt a 0 0
    have hjoin := join_one a 0
    rw [zero_shr.1, UInt8.add_zero] at s2 hjoin
    simp only [encodeGroups, decodeFrom, (tableAt_spec s1 i).1, (tableAt_spec s2 (i + 1)).1, hjoin,
      bind, Except.bind]
  | [a, b], i => by
    obtain ⟨s1, s2, s3, -⟩ := sextets_lt a b 0
    have hjoin := join_two a b 0
    rw [zero_shr.2, UInt8.add_zero] at s3 hjoin
    simp only [encodeGroups, decodeFrom, (tableAt_spec s1 i).1, (tableAt_spec s2 (i + 1)).1,
      (tableAt_spec s3 (i + 2)).1, (tableAt_spec s3 0).2.1, join_one, hjoin, bind, Except.bind, if_false]
  | a :: b :: c :: rest, i => by
    obtain ⟨s1, s2, s3, s4⟩ := sextets_lt a b c
    have ih := decodeFrom_encodeGroups len rest (i + 4)
    simp only [encodeGroups, List.cons_append, List.nil_append, decodeFrom, (tableAt_spec s1 i).1,
      (tableAt_spec s2 (i + 1)).1, (tableAt_spec s3 (i + 2)).1, (tableAt_spec s3 0).2.1,
      (tableAt_spec s4 (i + 3)).1, (tableAt_spec s4 0).2.1, join_one, join_two, join_three, bind,
      Except.bind, if_false, ih]

/-- A string of characters of the alphabet passes the checks in front of the loop. -/
theorem decodeBytes_inAlphabet {bytes : List UInt8} (halphabet : ∀ b ∈ bytes, inAlphabet b = true)
    (hlen : bytes.length ≠ 1) : decodeBytes bytes = decodeFrom bytes.length 0 bytes := by
  unfold decodeBytes
  by_cases hnil : bytes = []
  · subst hnil
    rfl
  · have hlast : bytes.getLast? ≠ some paddingChar := fun h =>
      ne_paddingChar (halphabet _ (List.mem_of_getLast? h)) rfl
    rw [if_neg hnil, if_neg hlen, if_neg fun h => hlast h.2.1]

theorem decode_encodeGroups (bytes : List UInt8) : decode (ofAscii (encodeGroups bytes)) = .ok bytes := by
  have halphabet := encodeGroups_inAlphabet bytes
  have hlen : (encodeGroups bytes).length ≠ 1 := by
    rw [length_encodeGroups]
    omega
  rw [decode, utf8_ofAscii fun b hb => inAlphabet_ascii (halphabet b hb),
    decodeBytes_inAlphabet halphabet hlen, decodeFrom_encodeGroups]

/-- What is encoded: the groups and the padding. -/
theorem encode_append (bytes : List UInt8) : encode bytes =
    ofAscii (encodeGroups bytes) ++ List.replicate ((4 - (encodeGroups bytes).length % 4) % 4) '=' := by
  rw [encode_eq_rfc4648, rfc4648]
  rw [← encodeGroups_standard, ofAscii, List.length_map]

theorem ofAscii_encodeGroups_alphabet (bytes : List UInt8) :
    ∀ c ∈ ofAscii (encodeGroups bytes), c ∈ alphabet := by
  intro c hc
  obtain ⟨b, hb, rfl⟩ := List.mem_map.mp hc
  exact mem_alphabet (encodeGroups_inAlphabet bytes b hb)

/-- **Without its padding the text is its groups.** -/
theorem rdropWhile_encode (bytes : List UInt8) :
    (encode bytes).rdropWhile (· = '=') = ofAscii (encodeGroups bytes) := by
  have hnoPadding : '=' ∉ alphabet := by decide
  rw [encode_append]
  generalize (4 - (encodeGroups bytes).length % 4) % 4 = p
  induction p with
  | zero =>
    rw [List.replicate_zero, List.append_nil, List.rdropWhile_eq_self_iff]
    intro hne hlast
    have hmem := ofAscii_encodeGroups_alphabet bytes _ (List.getLast_mem hne)
    rw [of_decide_eq_true hlast] at hmem
    exact hnoPadding hmem
  | succ p ih =>
    rw [List.replicate_succ', ← List.append_assoc, List.rdropWhile_concat_pos _ _ _ (by simp), ih]

/-- Both texts are in the grammar, so the assertions of the decoder hold. -/
theorem inGrammar_encode (bytes : List UInt8) (p : Nat) (hp : p ≤ (4 - (encodeGroups bytes).length % 4) % 4) :
    InGrammar (ofAscii (encodeGroups bytes) ++ List.replicate p '=') (encodeGroups bytes).length := by
  refine ⟨_, p, rfl, List.length_map .., ofAscii_encodeGroups_alphabet bytes, ?_, hp⟩
  rw [length_encodeGroups]
  omega

theorem decodeChecked_of_decode (debugAssertions : Bool) {s : Str} {n : Nat} {bytes : List UInt8}
    (hgrammar : InGrammar s n) (hdecode : decode s = .ok bytes) :
    decodeChecked debugAssertions s = .ok bytes := by
  obtain ⟨output, hok, -⟩ := @decodeChecked_inGrammar debugAssertions _ _ hgrammar
  rw [hok]
  rw [decodeChecked_eq, hdecode] at hok
  change (if _ then _ else _) = _ at hok
  split at hok
  · cases hok
  · rw [Except.ok.inj hok]

/-- **The encoder writes standard base64, and the decoder undoes it**, with the padding and without it; the
    assertions of both hold. -/
theorem encode_standard (debugAssertions : Bool) (bytes : List UInt8) (h : bytes.length < 2 ^ 50) :
    encodeChecked bytes = .ok (rfc4648 bytes) ∧ encode bytes = rfc4648 bytes ∧
      (rfc4648 bytes).length = getEncodeCapacityFloat bytes.length ∧
      (rfc4648 bytes).length = 4 * ((bytes.length + 2) / 3) ∧
      decodeChecked debugAssertions (rfc4648 bytes) = .ok bytes ∧
      decodeChecked debugAssertions ((rfc4648 bytes).rdropWhile (· = '=')) = .ok bytes := by
  obtain ⟨hencode, hlen⟩ := encodeChecked_eq h
  have hgroups := inGrammar_encode bytes 0 (Nat.zero_le _)
  rw [List.replicate_zero, List.append_nil] at hgroups
  rw [← encode_eq_rfc4648, rdropWhile_encode]
  refine ⟨hencode, rfl, hlen, ?_, ?_, decodeChecked_of_decode _ hgroups (decode_encodeGroups bytes)⟩
  · rw [hlen, getEncodeCapacityFloat_eq h, getEncodeCapacity_eq]
  · have hwhole := inGrammar_encode bytes _ (Nat.le_refl _)
    rw [← encode_append] at hwhole
    exact decodeChecked_of_decode _ hwhole (decode_encode bytes)

/-- The four bytes of "rust". -/
theorem encode_standard_rust :
    rfc4648 [114, 117, 115, 116] = "cnVzdA==".toList ∧
      encodeChecked [114, 117, 115, 116] = .ok (rfc4648 [114, 117, 115, 116]) := by
  exact ⟨by decide, (encode_standard true [114, 117, 115, 116] (by decide)).1⟩

end Base64

end Transmitic
