/-
  File:      Transmitic/Base64.lean
  Subject:   Base64 (base64.rs): the encoder, the decoder with its error paths, and
             `decode_encode`: what was encoded decodes to itself.
-/
import Transmitic.Lib.Program
import Transmitic.Lib.Text

namespace Transmitic

open Lib

namespace Base64

/-! ## 1. The tables -/

def paddingChar : UInt8 := 61

/-- Indicates an invalid base64 character. -/
def badIdx : UInt8 := 255

/-- Base64 lookup table. -/
def table : List UInt8 :=
  ['A', 'B', 'C', 'D', 'E', 'F', 'G', 'H', 'I', 'J', 'K', 'L', 'M', 'N', 'O', 'P',
    'Q', 'R', 'S', 'T', 'U', 'V', 'W', 'X', 'Y', 'Z', 'a', 'b', 'c', 'd', 'e', 'f',
    'g', 'h', 'i', 'j', 'k', 'l', 'm', 'n', 'o', 'p', 'q', 'r', 's', 't', 'u', 'v',
    'w', 'x', 'y', 'z', '0', '1', '2', '3', '4', '5', '6', '7', '8', '9', '+', '/'].map
    fun c => UInt8.ofNat c.toNat

/-- Each index corresponds to a value in `table`. The value is the index of that value in
    `table`. -/
def tableReverse : List UInt8 :=
  List.replicate 43 badIdx ++ [62, badIdx, badIdx, badIdx, 63, 52, 53, 54, 55, 56, 57, 58, 59, 60,
    61, badIdx, badIdx, badIdx, badIdx, badIdx, badIdx, badIdx, 0, 1, 2, 3, 4, 5, 6, 7, 8, 9, 10,
    11, 12, 13, 14, 15, 16, 17, 18, 19, 20, 21, 22, 23, 24, 25, badIdx, badIdx, badIdx, badIdx,
    badIdx, badIdx, 26, 27, 28, 29, 30, 31, 32, 33, 34, 35, 36, 37, 38, 39, 40, 41, 42, 43, 44, 45,
    46, 47, 48, 49, 50, 51]

/-- The text of an `InvalidBase64String`: an invalid byte at an index, or a bad length. -/
def invalidBase64String (invalidByte : Option UInt8) (index : Nat) : Str :=
  match invalidByte with
  | some c =>
    if c = paddingChar then
      "Base64 string contains padding character that is not at the end of the string. '".toList ++
        [Char.ofNat c.toNat] ++ "' at index '".toList ++ natText index ++ "'".toList
    else
      "Base64 string contains character that is not valid base64. '0x".toList ++
        Nat.toDigits 16 c.toNat ++ "'/'".toList ++ [Char.ofNat c.toNat] ++
        "' at index '".toList ++ natText index ++ "'".toList
  | none =>
    ("Base64 string is invalid length. Must be empty or at least 2 characters, that are " ++
      "not only padding characters.").toList

/-! ## 2. Encoding -/

/-- `TABLE[byte as usize]`. -/
def tableAt (byte : UInt8) : UInt8 := table.getD byte.toNat badIdx

/-- The characters of `bytes`, three bytes at a time, without padding. -/
def encodeGroups : List UInt8 → List UInt8
  | [] => []
  | [a] => [tableAt (a >>> 2), tableAt ((a &&& 0b11) <<< 4)]
  | [a, b] =>
    [tableAt (a >>> 2), tableAt (((a &&& 0b11) <<< 4) + (b >>> 4)), tableAt ((b &&& 0b1111) <<< 2)]
  | a :: b :: c :: rest =>
    [tableAt (a >>> 2), tableAt (((a &&& 0b11) <<< 4) + (b >>> 4)),
      tableAt (((b &&& 0b1111) <<< 2) + (c >>> 6)), tableAt (c &&& 0b111111)] ++ encodeGroups rest

/-- The number of characters with padding: the groups of six bits, rounded up to a multiple of
    four. -/
def getEncodeCapacity (inputLen : Nat) : Nat :=
  let capacity := (inputLen * 8 + 5) / 6
  if capacity % 4 ≠ 0 then capacity + (4 - capacity % 4) else capacity

/-- The bytes of the encoding. -/
def encodeBytes (bytes : List UInt8) : List UInt8 :=
  let output := encodeGroups bytes
  output ++ List.replicate (getEncodeCapacity bytes.length - output.length) paddingChar

/-- The text of ASCII bytes. -/
def ofAscii (bytes : List UInt8) : Str := bytes.map fun b => Char.ofNat b.toNat

def encode (bytes : List UInt8) : Str := ofAscii (encodeBytes bytes)

/-! ## 3. Decoding -/

def getIndexOfByte (byte : UInt8) (byteIndex : Nat) : Except Exc UInt8 :=
  match tableReverse[byte.toNat]? with
  | none => .error (.err (invalidBase64String (some byte) byteIndex))
  | some index =>
    if index = badIdx then .error (.err (invalidBase64String (some byte) byteIndex)) else .ok index

/-- A padding character at `byteIndex`: the end of the output, unless it stands too early. -/
def padding (len byteIndex : Nat) (output : List UInt8) : Except Exc (List UInt8) :=
  if byteIndex < len - 2 then .error (.err (invalidBase64String (some paddingChar) byteIndex))
  else .ok output

/-- The decoder's loop over groups of four characters, from index `i` of `len` on. -/
def decodeFrom (len i : Nat) : List UInt8 → Except Exc (List UInt8)
  | [] => .ok []
  | [b1] => do
    let _ ← getIndexOfByte b1 i
    .error .panic
  | b1 :: b2 :: rest => do
    let one ← getIndexOfByte b1 i
    let two ← getIndexOfByte b2 (i + 1)
    let out1 := (one <<< 2) + (two >>> 4)
    match rest with
    | [] => .ok [out1]
    | b3 :: rest =>
      if b3 = paddingChar then padding len (i + 2) [out1]
      else do
        let three ← getIndexOfByte b3 (i + 2)
        let out2 := ((two &&& 0b1111) <<< 4) + (three >>> 2)
        match rest with
        | [] => .ok [out1, out2]
        | b4 :: rest =>
          if b4 = paddingChar then padding len (i + 3) [out1, out2]
          else do
            let four ← getIndexOfByte b4 (i + 3)
            let out3 := ((three &&& 0b11) <<< 6) + four
            let output ← decodeFrom len (i + 4) rest
            .ok (out1 :: out2 :: out3 :: output)

/-- The decoder on the bytes of the string. -/
def decodeBytes (bytes : List UInt8) : Except Exc (List UInt8) :=
  if bytes = [] then .ok []
  else if bytes.length = 1 then .error (.err (invalidBase64String none 0))
  else if bytes.length < 4 ∧ bytes.getLast? = some paddingChar ∧
      bytes.dropLast.getLast? = some paddingChar then .error (.err (invalidBase64String none 0))
  else decodeFrom bytes.length 0 bytes

def decode (base64String : Str) : Except Exc (List UInt8) := decodeBytes (utf8 base64String)

/-! ## 4. The round trip -/

theorem tableReverse_tableAt : ∀ k : Fin 64,
    tableReverse[(tableAt (UInt8.ofNat k)).toNat]? = some (UInt8.ofNat k) ∧
      UInt8.ofNat k ≠ badIdx ∧ tableAt (UInt8.ofNat k) ≠ paddingChar ∧
      (tableAt (UInt8.ofNat k)).toNat < 128 := by decide +kernel

/-- A sextet's character is found again, is no padding and is ASCII. -/
theorem tableAt_spec {n : UInt8} (h : n.toNat < 64) (i : Nat) :
    getIndexOfByte (tableAt n) i = .ok n ∧ tableAt n ≠ paddingChar ∧ (tableAt n).toNat < 128 := by
  obtain ⟨h1, h2, h3, h4⟩ := tableReverse_tableAt ⟨n.toNat, h⟩
  simp only [UInt8.ofNat_toNat] at h1 h2 h3 h4
  refine ⟨?_, h3, h4⟩
  unfold getIndexOfByte
  rw [h1]
  exact if_neg h2

theorem toNat_low (n : UInt8) : (n &&& 0b11).toNat = n.toNat % 4 ∧
    (n &&& 0b1111).toNat = n.toNat % 16 ∧ (n &&& 0b111111).toNat = n.toNat % 64 := by
  refine ⟨?_, ?_, ?_⟩ <;> rw [UInt8.toNat_and]
  · exact Nat.and_two_pow_sub_one_eq_mod n.toNat 2
  · exact Nat.and_two_pow_sub_one_eq_mod n.toNat 4
  · exact Nat.and_two_pow_sub_one_eq_mod n.toNat 6

theorem toNat_shr (n : UInt8) : (n >>> 2).toNat = n.toNat / 4 ∧ (n >>> 4).toNat = n.toNat / 16 ∧
    (n >>> 6).toNat = n.toNat / 64 := by
  refine ⟨?_, ?_, ?_⟩ <;> rw [UInt8.toNat_shiftRight, Nat.shiftRight_eq_div_pow] <;> rfl

theorem toNat_shl (n : UInt8) : (n <<< 2).toNat = n.toNat * 4 % 256 ∧
    (n <<< 4).toNat = n.toNat * 16 % 256 ∧ (n <<< 6).toNat = n.toNat * 64 % 256 := by
  refine ⟨?_, ?_, ?_⟩ <;> rw [UInt8.toNat_shiftLeft, Nat.shiftLeft_eq] <;> rfl

section Sextets

variable (a b c : UInt8)

/-- The four sextets of three bytes. -/
theorem sextets_lt : (a >>> 2).toNat < 64 ∧ (((a &&& 0b11) <<< 4) + (b >>> 4)).toNat < 64 ∧
    (((b &&& 0b1111) <<< 2) + (c >>> 6)).toNat < 64 ∧ (c &&& 0b111111).toNat < 64 := by
  have ha := a.toNat_lt
  have hb := b.toNat_lt
  have hc := c.toNat_lt
  simp only [UInt8.toNat_add, toNat_shr, toNat_shl, toNat_low]
  omega

/-- The first byte from its sextets. -/
theorem join_one :
    ((a >>> 2) <<< 2) + ((((a &&& 0b11) <<< 4) + (b >>> 4)) >>> 4) = a := by
  have ha := a.toNat_lt
  have hb := b.toNat_lt
  apply UInt8.toNat_inj.mp
  simp only [UInt8.toNat_add, toNat_shr, toNat_shl, toNat_low]
  omega

/-- The second byte from its sextets. -/
theorem join_two :
    (((((a &&& 0b11) <<< 4) + (b >>> 4)) &&& 0b1111) <<< 4) +
      ((((b &&& 0b1111) <<< 2) + (c >>> 6)) >>> 2) = b := by
  have ha := a.toNat_lt
  have hb := b.toNat_lt
  have hc := c.toNat_lt
  apply UInt8.toNat_inj.mp
  simp only [UInt8.toNat_add, toNat_shr, toNat_shl, toNat_low]
  omega

/-- The third byte from its sextets. -/
theorem join_three :
    (((((b &&& 0b1111) <<< 2) + (c >>> 6)) &&& 0b11) <<< 6) + (c &&& 0b111111) = c := by
  have hb := b.toNat_lt
  have hc := c.toNat_lt
  apply UInt8.toNat_inj.mp
  simp only [UInt8.toNat_add, toNat_shr, toNat_shl, toNat_low]
  omega

end Sextets

theorem zero_shr : (0 : UInt8) >>> 4 = 0 ∧ (0 : UInt8) >>> 6 = 0 := by decide

theorem encodeBytes_one (a : UInt8) : encodeBytes [a] =
    [tableAt (a >>> 2), tableAt (((a &&& 0b11) <<< 4) + ((0 : UInt8) >>> 4)), paddingChar, paddingChar] := by
  have hcap : getEncodeCapacity [a].length = 4 := by
    show getEncodeCapacity 1 = 4
    decide
  rw [zero_shr.1, UInt8.add_zero, encodeBytes, hcap]
  simp only [encodeGroups]
  rfl

theorem encodeBytes_two (a b : UInt8) : encodeBytes [a, b] =
    [tableAt (a >>> 2), tableAt (((a &&& 0b11) <<< 4) + (b >>> 4)),
      tableAt (((b &&& 0b1111) <<< 2) + ((0 : UInt8) >>> 6)), paddingChar] := by
  have hcap : getEncodeCapacity [a, b].length = 4 := by
    show getEncodeCapacity 2 = 4
    decide
  rw [zero_shr.2, UInt8.add_zero, encodeBytes, hcap]
  simp only [encodeGroups]
  rfl

theorem getEncodeCapacity_add_three (n : Nat) :
    getEncodeCapacity (n + 3) = getEncodeCapacity n + 4 := by
  unfold getEncodeCapacity
  have h : ((n + 3) * 8 + 5) / 6 = (n * 8 + 5) / 6 + 4 := by omega
  simp only [h, Nat.add_mod_right]
  split <;> omega

theorem encodeBytes_three (a b c : UInt8) (rest : List UInt8) :
    encodeBytes (a :: b :: c :: rest) =
      tableAt (a >>> 2) :: tableAt (((a &&& 0b11) <<< 4) + (b >>> 4)) ::
        tableAt (((b &&& 0b1111) <<< 2) + (c >>> 6)) :: tableAt (c &&& 0b111111) ::
          encodeBytes rest := by
  have hlen : (a :: b :: c :: rest).length = rest.length + 3 := rfl
  have hpad : ∀ n m : Nat, n + 4 - (m + 1 + 1 + 1 + 1) = n - m := by omega
  unfold encodeBytes
  simp only [encodeGroups, hlen, getEncodeCapacity_add_three, List.length_cons, hpad,
    List.cons_append, List.nil_append]

/-- **The decoder's loop gives back what was encoded.** -/
theorem decodeFrom_encodeBytes (len : Nat) : ∀ (bytes : List UInt8) (i : Nat),
    len = i + (encodeBytes bytes).length → decodeFrom len i (encodeBytes bytes) = .ok bytes
  | [], _, _ => rfl
  | [a], i, hi => by
    obtain ⟨s1, s2, -, -⟩ := sextets_lt a 0 0
    rw [encodeBytes_one] at hi ⊢
    have hpad : ¬ i + 2 < len - 2 := by simp only [List.length_cons, List.length_nil] at hi; omega
    simp only [decodeFrom, (tableAt_spec s1 i).1, (tableAt_spec s2 (i + 1)).1, join_one,
      bind, Except.bind, if_true, padding, if_neg hpad]
  | [a, b], i, hi => by
    obtain ⟨s1, s2, s3, -⟩ := sextets_lt a b 0
    rw [encodeBytes_two] at hi ⊢
    have hpad : ¬ i + 3 < len - 2 := by simp only [List.length_cons, List.length_nil] at hi; omega
    simp only [decodeFrom, (tableAt_spec s1 i).1, (tableAt_spec s2 (i + 1)).1,
      (tableAt_spec s3 (i + 2)).1, (tableAt_spec s3 0).2.1, join_one, join_two, bind, Except.bind,
      if_true, if_false, padding, if_neg hpad]
  | a :: b :: c :: rest, i, hi => by
    obtain ⟨s1, s2, s3, s4⟩ := sextets_lt a b c
    rw [encodeBytes_three] at hi ⊢
    have hrest : len = i + 4 + (encodeBytes rest).length := by
      simp only [List.length_cons] at hi; omega
    simp only [decodeFrom, (tableAt_spec s1 i).1, (tableAt_spec s2 (i + 1)).1,
      (tableAt_spec s3 (i + 2)).1, (tableAt_spec s3 0).2.1, (tableAt_spec s4 (i + 3)).1,
      (tableAt_spec s4 0).2.1, join_one, join_two, join_three, bind, Except.bind, if_false,
      decodeFrom_encodeBytes len rest (i + 4) hrest]

theorem encodeBytes_ascii : ∀ (bytes : List UInt8), ∀ b ∈ encodeBytes bytes, b.toNat < 128
  | [], b, h => absurd h (List.not_mem_nil (a := b))
  | [a], d, h => by
    obtain ⟨s1, s2, -, -⟩ := sextets_lt a 0 0
    rw [encodeBytes_one] at h
    simp only [List.mem_cons, List.not_mem_nil, or_false] at h
    rcases h with rfl | rfl | rfl | rfl
    · exact (tableAt_spec s1 0).2.2
    · exact (tableAt_spec s2 0).2.2
    · decide
    · decide
  | [a, b], d, h => by
    obtain ⟨s1, s2, s3, -⟩ := sextets_lt a b 0
    rw [encodeBytes_two] at h
    simp only [List.mem_cons, List.not_mem_nil, or_false] at h
    rcases h with rfl | rfl | rfl | rfl
    · exact (tableAt_spec s1 0).2.2
    · exact (tableAt_spec s2 0).2.2
    · exact (tableAt_spec s3 0).2.2
    · decide
  | a :: b :: c :: rest, d, h => by
    obtain ⟨s1, s2, s3, s4⟩ := sextets_lt a b c
    rw [encodeBytes_three] at h
    simp only [List.mem_cons] at h
    rcases h with rfl | rfl | rfl | rfl | h
    · exact (tableAt_spec s1 0).2.2
    · exact (tableAt_spec s2 0).2.2
    · exact (tableAt_spec s3 0).2.2
    · exact (tableAt_spec s4 0).2.2
    · exact encodeBytes_ascii rest d h

/-- The bytes of an ASCII text are its characters. -/
theorem utf8_ofAscii {bytes : List UInt8} (h : ∀ b ∈ bytes, b.toNat < 128) :
    utf8 (ofAscii bytes) = bytes := by
  induction bytes with
  | nil => rfl
  | cons b bs ih =>
    have hb : b.toNat < 128 := h b List.mem_cons_self
    have hchar : String.utf8EncodeChar (Char.ofNat b.toNat) = [b] := by
      have hv : (Char.ofNat b.toNat).val.toNat = b.toNat := by
        rw [Char.ofNat, dif_pos (by unfold Nat.isValidChar; omega)]
        rfl
      unfold String.utf8EncodeChar
      rw [hv]
      simp only [if_pos (show b.toNat ≤ 0x7f by omega)]
      simp
    have hbs := ih fun c hc => h c (List.mem_cons_of_mem _ hc)
    unfold utf8 ofAscii at hbs ⊢
    rw [List.map_cons, List.flatMap_cons, hchar, hbs]
    rfl

/-- **What was encoded decodes to itself.** -/
theorem decode_encode (bytes : List UInt8) : decode (encode bytes) = .ok bytes := by
  unfold decode encode decodeBytes
  rw [utf8_ofAscii (encodeBytes_ascii bytes)]
  have hloop := decodeFrom_encodeBytes (encodeBytes bytes).length bytes 0 (Nat.zero_add _).symm
  have hlen : encodeBytes bytes = [] ∨ 4 ≤ (encodeBytes bytes).length := by
    match bytes with
    | [] => exact .inl rfl
    | [a] => exact .inr (by rw [encodeBytes_one]; exact Nat.le_refl 4)
    | [a, b] => exact .inr (by rw [encodeBytes_two]; exact Nat.le_refl 4)
    | a :: b :: c :: rest => exact .inr (by rw [encodeBytes_three]; simp)
  rcases hlen with h | h
  · rw [h] at hloop ⊢
    rw [if_pos rfl]
    exact hloop
  · have hne : encodeBytes bytes ≠ [] := fun e => by simp [e] at h
    rw [if_neg hne, if_neg (by omega), if_neg (fun hc => by omega)]
    exact hloop

end Base64

end Transmitic
