/-
  File:      Transmitic/Base64Grammar.lean
  Subject:   WHAT THE BASE64 DECODER ACCEPTS (base64.rs, `decode`), with the capacity of its output and
             the assertions on it.

  * `getDecodeCapacity`, `decodeChecked` -- the decoder with its capacity, and, in a debug build, with the
    assertions that compare the two;
  * `outcome_decodeFrom` -- **the loop**: what it makes of a string is read off the number of characters of
    the alphabet in front, and off what follows them;
  * `InGrammar` -- base64 text, with its padding, with a part of it, or with none;
  * `decode_right_iff` -- **exactly** when the decoder tells base64 text from other strings: three kinds of
    strings get past its checks.
-/
import Transmitic.Base64

namespace Transmitic

open Lib

namespace Base64

/-! ## 1. The capacity -/

/-- `a - b` of two lengths. -/
def checkedSub (a b : Nat) : Except Exc Nat := if b ≤ a then .ok (a - b) else .error .panic

/-- `bytes[i]`. -/
def byteAt (bytes : List UInt8) (i : Nat) : Except Exc UInt8 :=
  match bytes[i]? with
  | some byte => .ok byte
  | none => .error .panic

def getDecodeCapacity (stringBytes : List UInt8) : Except Exc Nat := do
  let capacity := stringBytes.length * 6 / 8
  let last ← byteAt stringBytes (← checkedSub stringBytes.length 1)
  let capacity ← if last = paddingChar then checkedSub capacity 1 else .ok capacity
  let secondLast ← byteAt stringBytes (← checkedSub stringBytes.length 2)
  if secondLast = paddingChar then checkedSub capacity 1 else .ok capacity

/-- `decode`, in a build with the debug assertions or in one without. The output has the capacity it was
    made with, unless it outgrew it. -/
def decodeChecked (debugAssertions : Bool) (base64String : Str) : Except Exc (List UInt8) :=
  let bytes := utf8 base64String
  if bytes = [] then .ok []
  else if bytes.length = 1 then .error (.err (invalidBase64String none 0))
  else if bytes.length < 4 ∧ bytes.getLast? = some paddingChar ∧
      bytes.dropLast.getLast? = some paddingChar then .error (.err (invalidBase64String none 0))
  else do
    let capacity ← getDecodeCapacity bytes
    let output ← decodeFrom bytes.length 0 bytes
    if debugAssertions = true ∧ output.length ≠ capacity then .error .panic else .ok output

/-- The capacity, by the last two bytes. -/
theorem getDecodeCapacity_append {front : List UInt8} {a b : UInt8}
    (h : front ≠ [] ∨ ¬ (b = paddingChar ∧ a = paddingChar)) :
    getDecodeCapacity (front ++ [a, b]) = .ok ((front.length + 2) * 6 / 8 -
      (if b = paddingChar then 1 else 0) - (if a = paddingChar then 1 else 0)) := by
  have hlen : (front ++ [a, b]).length = front.length + 2 := by simp
  have hlast : byteAt (front ++ [a, b]) (front.length + 2 - 1) = .ok b := by
    simp [byteAt]
  have hsecond : byteAt (front ++ [a, b]) (front.length + 2 - 2) = .ok a := by
    simp [byteAt]
  have hpos : front ≠ [] → 0 < front.length := List.length_pos_of_ne_nil
  unfold getDecodeCapacity
  simp only [hlen, checkedSub, if_pos (show 1 ≤ front.length + 2 by omega),
    if_pos (show 2 ≤ front.length + 2 by omega), bind, Except.bind, hlast, hsecond]
  by_cases hb : b = paddingChar
  · rw [if_pos hb, if_pos hb, if_pos (by omega)]
    by_cases ha : a = paddingChar
    · have hne := hpos (h.resolve_right fun hno => hno ⟨hb, ha⟩)
      simp only [if_pos ha]
      rw [if_pos (by omega)]
    · simp only [if_neg ha, Nat.sub_zero]
  · rw [if_neg hb, if_neg hb]
    by_cases ha : a = paddingChar
    · simp only [if_pos ha, Nat.sub_zero]
      rw [if_pos (by omega)]
    · simp only [if_neg ha, Nat.sub_zero]

/-! ## 2. The alphabet -/

/-- A character of the alphabet. -/
def inAlphabet (byte : UInt8) : Bool := table.contains byte

theorem tableReverse_inAlphabet : ∀ k : Fin 256, inAlphabet (UInt8.ofNat k) =
    tableReverse[(UInt8.ofNat k).toNat]?.any fun index => index ≠ badIdx := by decide +kernel

theorem inAlphabet_eq (byte : UInt8) :
    inAlphabet byte = tableReverse[byte.toNat]?.any fun index => index ≠ badIdx := by
  have htable := tableReverse_inAlphabet ⟨byte.toNat, byte.toNat_lt⟩
  simpa only [UInt8.ofNat_toNat] using htable

theorem getIndexOfByte_inAlphabet {byte : UInt8} (h : inAlphabet byte = true) :
    ∃ index, ∀ i, getIndexOfByte byte i = .ok index := by
  rw [inAlphabet_eq] at h
  unfold getIndexOfByte
  cases hindex : tableReverse[byte.toNat]? with
  | none => simp [hindex] at h
  | some index =>
    have hne : index ≠ badIdx := by simpa [hindex] using h
    exact ⟨index, fun i => if_neg hne⟩

theorem getIndexOfByte_other {byte : UInt8} (h : inAlphabet byte = false) (i : Nat) :
    getIndexOfByte byte i = .error (.err (invalidBase64String (some byte) i)) := by
  rw [inAlphabet_eq] at h
  unfold getIndexOfByte
  cases hindex : tableReverse[byte.toNat]? with
  | none => rfl
  | some index =>
    have heq : index = badIdx := by simpa [hindex] using h
    exact if_pos heq

theorem paddingChar_other : inAlphabet paddingChar = false := by decide

theorem ne_paddingChar {byte : UInt8} (h : inAlphabet byte = true) : byte ≠ paddingChar := by
  rintro rfl
  cases h

theorem inAlphabet_ascii {byte : UInt8} (h : inAlphabet byte = true) : byte.toNat < 128 := by
  have htable : ∀ b ∈ table, b.toNat < 128 := by decide +kernel
  exact htable byte (List.contains_iff_mem.mp h)

/-! ## 3. The loop -/

/-- The characters of the alphabet in front. -/
def chars (bytes : List UInt8) : List UInt8 := bytes.takeWhile inAlphabet

/-- What follows them. -/
def afterChars (bytes : List UInt8) : List UInt8 := bytes.dropWhile inAlphabet

theorem chars_append (bytes : List UInt8) : chars bytes ++ afterChars bytes = bytes :=
  List.takeWhile_append_dropWhile

theorem chars_cons {b : UInt8} (h : inAlphabet b = true) (bytes : List UInt8) :
    chars (b :: bytes) = b :: chars bytes ∧ afterChars (b :: bytes) = afterChars bytes := by
  simp [chars, afterChars, h]

theorem chars_other {b : UInt8} (h : inAlphabet b = false) (bytes : List UInt8) :
    chars (b :: bytes) = [] ∧ afterChars (b :: bytes) = b :: bytes := by
  simp [chars, afterChars, h]

/-- The loop accepts `n` characters of the alphabet with this behind them. -/
def Accepts (n : Nat) (rest : List UInt8) : Prop :=
  rest = [] ∧ n % 4 ≠ 1 ∨ ∃ more, rest = paddingChar :: more ∧ more.length ≤ 1 ∧ 2 ≤ n % 4

/-- It reads behind the end of the string. -/
def Overruns (n : Nat) (rest : List UInt8) : Prop := rest = [] ∧ n % 4 = 1

/-- What the decoder makes of `n` characters of the alphabet with this behind them. -/
structure Outcome (n : Nat) (rest : List UInt8) (r : Except Exc (List UInt8)) : Prop where
  accepted : Accepts n rest → ∃ output, r = .ok output ∧ output.length = 6 * n / 8
  overrun : Overruns n rest → r = .error .panic
  rejected : ¬ Accepts n rest → ¬ Overruns n rest →
    ∃ byte i, r = .error (.err (invalidBase64String byte i))

theorem outcome_accepted {n : Nat} {rest output : List UInt8} (h : Accepts n rest)
    (hlen : output.length = 6 * n / 8) : Outcome n rest (.ok output) where
  accepted _ := ⟨output, rfl, hlen⟩
  overrun ho := by
    rcases h with h | ⟨more, h, -⟩
    · exact absurd ho.2 h.2
    · rw [ho.1] at h
      cases h
  rejected hno := absurd h hno

theorem outcome_rejected {n : Nat} {rest : List UInt8} {byte : Option UInt8} {i : Nat}
    (hrest : rest ≠ []) (hno : ¬ Accepts n rest) :
    Outcome n rest (.error (.err (invalidBase64String byte i))) where
  accepted h := absurd h hno
  overrun ho := absurd ho.1 hrest
  rejected _ _ := ⟨byte, i, rfl⟩

/-- The padding after `n` characters, `n` of which is the place. -/
theorem outcome_padding {n i len : Nat} {more output : List UInt8} (hn : 2 ≤ n % 4)
    (hlen : len = i + 1 + more.length) (hi : 0 < i) (houtput : output.length = 6 * n / 8) :
    Outcome n (paddingChar :: more) (padding len i output) := by
  unfold padding
  split
  · refine outcome_rejected (by simp) ?_
    rintro (h | ⟨more', h, hmore, -⟩)
    · cases h.1
    · cases h
      omega
  · exact outcome_accepted (.inr ⟨more, rfl, by omega, hn⟩) houtput

/-- A group of four characters in front. -/
theorem Outcome.next {n : Nat} {rest : List UInt8} {r : Except Exc (List UInt8)} (h : Outcome n rest r)
    (a b c : UInt8) :
    Outcome (n + 4) rest (r >>= fun output => .ok (a :: b :: c :: output)) := by
  have haccepts : Accepts (n + 4) rest ↔ Accepts n rest := by simp [Accepts]
  have hoverruns : Overruns (n + 4) rest ↔ Overruns n rest := by simp [Overruns]
  refine ⟨fun ha => ?_, fun ho => ?_, fun ha ho => ?_⟩
  · obtain ⟨output, rfl, hlen⟩ := h.accepted (haccepts.mp ha)
    refine ⟨_, rfl, ?_⟩
    simp only [List.length_cons, hlen]
    omega
  · rw [h.overrun (hoverruns.mp ho)]
    rfl
  · obtain ⟨byte, i, rfl⟩ := h.rejected (mt haccepts.mpr ha) (mt hoverruns.mpr ho)
    exact ⟨byte, i, rfl⟩

/-- **The loop of the decoder**, over the groups of four. -/
theorem outcome_decodeFrom (len : Nat) : ∀ (bytes : List UInt8) (i : Nat), len = i + bytes.length →
    Outcome (chars bytes).length (afterChars bytes) (decodeFrom len i bytes)
  | [], i, _ => outcome_accepted (.inl ⟨rfl, by decide⟩) rfl
  | [b1], i, _ => by
    unfold decodeFrom
    cases h1 : inAlphabet b1 with
    | false =>
      rw [getIndexOfByte_other h1, (chars_other h1 []).1, (chars_other h1 []).2]
      exact outcome_rejected (by simp) (by simp [Accepts])
    | true =>
      obtain ⟨one, hone⟩ := getIndexOfByte_inAlphabet h1
      rw [hone, (chars_cons h1 []).1, (chars_cons h1 []).2]
      refine ⟨fun ha => ?_, fun _ => rfl, fun _ ho => absurd ⟨rfl, rfl⟩ ho⟩
      simp [Accepts, chars, afterChars] at ha
  | b1 :: b2 :: rest, i, hlen => by
    unfold decodeFrom
    cases h1 : inAlphabet b1 with
    | false =>
      rw [getIndexOfByte_other h1, (chars_other h1 _).1, (chars_other h1 _).2]
      exact outcome_rejected (by simp) (by simp [Accepts])
    | true =>
    obtain ⟨one, hone⟩ := getIndexOfByte_inAlphabet h1
    rw [hone, (chars_cons h1 _).1, (chars_cons h1 _).2]
    cases h2 : inAlphabet b2 with
    | false =>
      rw [getIndexOfByte_other h2, (chars_other h2 _).1, (chars_other h2 _).2]
      exact outcome_rejected (by simp) (by simp [Accepts])
    | true =>
    obtain ⟨two, htwo⟩ := getIndexOfByte_inAlphabet h2
    rw [htwo, (chars_cons h2 _).1, (chars_cons h2 _).2]
    cases rest with
    | nil => exact outcome_accepted (.inl ⟨rfl, by simp [chars]⟩) (by simp [chars])
    | cons b3 rest =>
      simp only [List.length_cons] at hlen
      show Outcome _ _ (if b3 = paddingChar then _ else _)
      by_cases hp3 : b3 = paddingChar
      · rw [if_pos hp3, hp3, (chars_other paddingChar_other _).1, (chars_other paddingChar_other _).2]
        exact outcome_padding (by simp) (by omega) (by omega) (by simp)
      · rw [if_neg hp3]
        cases h3 : inAlphabet b3 with
        | false =>
          rw [getIndexOfByte_other h3, (chars_other h3 _).1, (chars_other h3 _).2]
          refine outcome_rejected (by simp) ?_
          simp [Accepts, hp3]
        | true =>
        obtain ⟨three, hthree⟩ := getIndexOfByte_inAlphabet h3
        rw [hthree, (chars_cons h3 _).1, (chars_cons h3 _).2]
        cases rest with
        | nil => exact outcome_accepted (.inl ⟨rfl, by simp [chars]⟩) (by simp [chars])
        | cons b4 rest =>
          simp only [List.length_cons] at hlen
          show Outcome _ _ (if b4 = paddingChar then _ else _)
          by_cases hp4 : b4 = paddingChar
          · rw [if_pos hp4, hp4, (chars_other paddingChar_other _).1, (chars_other paddingChar_other _).2]
            exact outcome_padding (by simp) (by omega) (by omega) (by simp)
          · rw [if_neg hp4]
            cases h4 : inAlphabet b4 with
            | false =>
              rw [getIndexOfByte_other h4, (chars_other h4 _).1, (chars_other h4 _).2]
              refine outcome_rejected (by simp) ?_
              simp [Accepts, hp4]
            | true =>
              obtain ⟨four, hfour⟩ := getIndexOfByte_inAlphabet h4
              rw [hfour, (chars_cons h4 _).1, (chars_cons h4 _).2]
              exact (outcome_decodeFrom len rest (i + 4) (by omega)).next _ _ _

/-! ## 4. The whole decoder -/

/-- The decoder on the bytes of a string: one character alone is an error as well. -/
structure Decodes (n : Nat) (rest : List UInt8) (r : Except Exc (List UInt8)) : Prop where
  accepted : Accepts n rest → ∃ output, r = .ok output ∧ output.length = 6 * n / 8
  overrun : Overruns n rest → n ≠ 1 → r = .error .panic
  rejected : ¬ Accepts n rest → (Overruns n rest → n = 1) →
    ∃ byte i, r = .error (.err (invalidBase64String byte i))

theorem decodes_rejected {n : Nat} {rest : List UInt8} {byte : Option UInt8} {i : Nat}
    (hno : ¬ Accepts n rest) (hone : Overruns n rest → n = 1) :
    Decodes n rest (.error (.err (invalidBase64String byte i))) where
  accepted h := absurd h hno
  overrun ho hne := absurd (hone ho) hne
  rejected _ _ := ⟨byte, i, rfl⟩

/-- The end of a string that is not too short. -/
theorem exists_lastTwo {bytes : List UInt8} (h : 2 ≤ bytes.length) :
    ∃ front a b, bytes = front ++ [a, b] := by
  have hne : bytes ≠ [] := by
    rintro rfl
    cases h
  have hne' : bytes.dropLast ≠ [] := by
    intro hnil
    have hlen := congrArg List.length hnil
    simp at hlen
    omega
  refine ⟨bytes.dropLast.dropLast, bytes.dropLast.getLast hne', bytes.getLast hne, ?_⟩
  have hfront := List.dropLast_append_getLast hne'
  calc bytes = bytes.dropLast ++ [bytes.getLast hne] := (List.dropLast_append_getLast hne).symm
    _ = _ := by
      conv_lhs => rw [← hfront]
      rw [List.append_assoc]
      rfl

/-- Two paddings at the end of a short string leave at most one character. -/
theorem short_rejected {front : List UInt8} (h : front.length < 2) :
    ¬ Accepts (chars (front ++ [paddingChar, paddingChar])).length
        (afterChars (front ++ [paddingChar, paddingChar])) ∧
      afterChars (front ++ [paddingChar, paddingChar]) ≠ [] := by
  have hpad := chars_other paddingChar_other
  match front, h with
  | [], _ =>
    rw [List.nil_append, (hpad _).1, (hpad _).2]
    simp [Accepts]
  | [a], _ =>
    rw [List.singleton_append]
    cases ha : inAlphabet a with
    | false =>
      rw [(chars_other ha _).1, (chars_other ha _).2]
      simp [Accepts]
    | true =>
      rw [(chars_cons ha _).1, (chars_cons ha _).2, (hpad _).1, (hpad _).2]
      simp [Accepts]

/-- **The decoder without the assertions.** -/
theorem decodes_decodeBytes (bytes : List UInt8) :
    Decodes (chars bytes).length (afterChars bytes) (decodeBytes bytes) := by
  unfold decodeBytes
  split
  · rename_i hnil
    subst hnil
    have h := @outcome_accepted 0 [] [] (.inl ⟨rfl, by decide⟩) rfl
    exact ⟨h.accepted, fun ho => absurd ho.2 (by decide), fun hno => absurd (.inl ⟨rfl, by decide⟩) hno⟩
  split
  · rename_i hone
    obtain ⟨b, rfl⟩ := List.length_eq_one_iff.mp hone
    cases hb : inAlphabet b with
    | false =>
      rw [(chars_other hb _).1, (chars_other hb _).2]
      exact decodes_rejected (by simp [Accepts]) fun ho => by cases ho.1
    | true =>
      rw [(chars_cons hb _).1, (chars_cons hb _).2]
      exact decodes_rejected (by simp [Accepts, chars, afterChars]) fun _ => by simp [chars]
  split
  · rename_i hne hone hshort
    obtain ⟨hlt, hlast, hsecond⟩ := hshort
    have hlen : 2 ≤ bytes.length := by
      have hpos := List.length_pos_of_ne_nil hne
      omega
    obtain ⟨front, a, b, rfl⟩ := exists_lastTwo hlen
    have hb : b = paddingChar := by simpa using hlast
    have ha : a = paddingChar := by
      rw [show front ++ [a, b] = (front ++ [a]) ++ [b] by simp, List.dropLast_concat] at hsecond
      simpa using hsecond
    subst ha hb
    have hfront : front.length < 2 := by
      simp only [List.length_append, List.length_cons, List.length_nil] at hlt
      omega
    obtain ⟨hno, hrest⟩ := short_rejected hfront
    exact decodes_rejected hno fun ho => absurd ho.1 hrest
  · rename_i hne hone hshort
    have h := outcome_decodeFrom bytes.length bytes 0 (Nat.zero_add _).symm
    refine ⟨h.accepted, fun ho _ => h.overrun ho, fun hno ho => ?_⟩
    refine h.rejected hno fun hover => ?_
    have hall : chars bytes = bytes := by
      have happend := chars_append bytes
      rw [hover.1, List.append_nil] at happend
      exact happend
    rw [hall] at ho hover
    exact hone (ho hover)

/-! ## 5. The assertions -/

/-- The capacity the output is made with, where the decoder comes to making it. -/
def expectedCapacity (bytes : List UInt8) : Nat :=
  match getDecodeCapacity bytes with
  | .ok capacity => capacity
  | .error _ => 0

theorem expectedCapacity_append {front : List UInt8} {a b : UInt8}
    (h : front ≠ [] ∨ ¬ (b = paddingChar ∧ a = paddingChar)) :
    expectedCapacity (front ++ [a, b]) = (front.length + 2) * 6 / 8 -
      (if b = paddingChar then 1 else 0) - (if a = paddingChar then 1 else 0) := by
  rw [expectedCapacity, getDecodeCapacity_append h]

/-- The capacity is computed without a panic; the assertions are all that a debug build adds. -/
theorem decodeChecked_eq (debugAssertions : Bool) (s : Str) :
    decodeChecked debugAssertions s = decode s >>= fun output =>
      if debugAssertions = true ∧ output.length ≠ expectedCapacity (utf8 s) then .error .panic
      else .ok output := by
  unfold decodeChecked decode decodeBytes
  dsimp only
  split
  · rename_i hnil
    rw [hnil]
    exact (if_neg fun h => h.2 rfl).symm
  split
  · rfl
  split
  · rfl
  · rename_i hnil hone hshort
    have hlen : 2 ≤ (utf8 s).length := by
      have hpos := List.length_pos_of_ne_nil hnil
      omega
    obtain ⟨front, a, b, hbytes⟩ := exists_lastTwo hlen
    rw [hbytes] at hshort ⊢
    have hroom : front ≠ [] ∨ ¬ (b = paddingChar ∧ a = paddingChar) := by
      by_contra hno
      simp only [not_or, not_not] at hno
      obtain ⟨rfl, rfl, rfl⟩ := hno
      exact hshort (by decide)
    rw [expectedCapacity_append hroom, getDecodeCapacity_append hroom]
    rfl

/-- The last two bytes of characters and what follows them. -/
theorem expectedCapacity_accepted {cs rest : List UInt8} (hcs : ∀ b ∈ cs, inAlphabet b = true)
    (h : Accepts cs.length rest) : expectedCapacity (cs ++ rest) = 6 * cs.length / 8 ↔
      ¬ ∃ b, rest = [paddingChar, b] ∧
        (b ≠ paddingChar ∧ cs.length % 4 = 2 ∨ b = paddingChar ∧ cs.length % 4 = 3) := by
  have hne : ∀ b ∈ cs, b ≠ paddingChar := fun b hb => ne_paddingChar (hcs b hb)
  rcases h with ⟨rfl, hn⟩ | ⟨more, rfl, hmore, hn⟩
  · simp only [List.append_nil, List.nil_eq, reduceCtorEq, false_and, exists_false, not_false_eq_true,
      iff_true]
    rcases Nat.lt_or_ge cs.length 2 with hlt | hge
    · have hnil : cs = [] := List.length_eq_zero_iff.mp (by omega)
      subst hnil
      rfl
    · obtain ⟨front, a, b, rfl⟩ := exists_lastTwo hge
      have ha := hne a (by simp)
      have hb := hne b (by simp)
      rw [expectedCapacity_append (.inr fun h => hb h.1), if_neg hb, if_neg ha]
      simp only [List.length_append, List.length_cons, List.length_nil]
      omega
  · have hlen : 2 ≤ cs.length := by omega
    obtain ⟨k, hk⟩ : ∃ k, cs.length = 4 * k + 2 ∨ cs.length = 4 * k + 3 := ⟨cs.length / 4, by omega⟩
    match more, hmore with
    | [], _ =>
      -- the last character stands before the padding
      have hcsne : cs ≠ [] := List.ne_nil_of_length_pos (by omega)
      have hlast := List.dropLast_append_getLast hcsne
      have ha := hne _ (List.getLast_mem hcsne)
      have hfront : cs.dropLast.length = cs.length - 1 := List.length_dropLast
      have hbytes : cs ++ [paddingChar] = cs.dropLast ++ [cs.getLast hcsne, paddingChar] := by
        conv_lhs => rw [← hlast]
        simp
      rw [hbytes, expectedCapacity_append (.inr fun h => ha h.2), if_pos rfl, if_neg ha, hfront]
      simp only [List.cons.injEq, reduceCtorEq, and_false, false_and, exists_false, not_false_eq_true,
        iff_true]
      rcases hk with hk | hk <;> omega
    | [b], _ =>
      have hcsne : cs ≠ [] := List.ne_nil_of_length_pos (by omega)
      rw [expectedCapacity_append (.inl hcsne), if_pos (rfl : paddingChar = paddingChar)]
      by_cases hb : b = paddingChar
      · subst hb
        simp
        omega
      · rw [if_neg hb]
        simp [hb]
        omega

/-! ## 6. Base64 text -/

def alphabet : Str := ofAscii table

/-- Base64 text: `n` characters, then the padding up to a multiple of four, a part of it, or none. -/
def InGrammar (s : Str) (n : Nat) : Prop :=
  ∃ cs p, s = cs ++ List.replicate p '=' ∧ cs.length = n ∧ (∀ c ∈ cs, c ∈ alphabet) ∧ n % 4 ≠ 1 ∧
    p ≤ (4 - n % 4) % 4

/-- The decoder does what it should in such a build: it reads base64 text, to a byte for every eight of its
    bits, and everything else is an error. -/
def DecodesRight (debugAssertions : Bool) (s : Str) : Prop :=
  (∀ n, InGrammar s n →
    ∃ output, decodeChecked debugAssertions s = .ok output ∧ output.length = 6 * n / 8) ∧
  ((∀ n, ¬ InGrammar s n) →
    ∃ byte i, decodeChecked debugAssertions s = .error (.err (invalidBase64String byte i)))

/-- The strings that get past the checks: characters of the alphabet with one too many, and a last
    incomplete group with a padding and one more byte, which is not looked at. -/
def Misread (s : Str) : Prop :=
  ∃ cs : List UInt8, (∀ b ∈ cs, inAlphabet b = true) ∧
    (utf8 s = cs ∧ cs.length % 4 = 1 ∧ cs.length ≠ 1 ∨
      ∃ b, utf8 s = cs ++ [paddingChar, b] ∧
        (b ≠ paddingChar ∧ cs.length % 4 = 2 ∨ cs.length % 4 = 3))

theorem utf8_injective {s t : Str} (h : utf8 s = utf8 t) : s = t := by
  have hs := fromUtf8_utf8 s
  rw [h, fromUtf8_utf8] at hs
  exact (Option.some.inj hs).symm

theorem utf8_append (s t : Str) : utf8 (s ++ t) = utf8 s ++ utf8 t := List.flatMap_append

theorem mem_alphabet {b : UInt8} (h : inAlphabet b = true) : Char.ofNat b.toNat ∈ alphabet :=
  List.mem_map_of_mem (f := fun b : UInt8 => Char.ofNat b.toNat) (List.contains_iff_mem.mp h)

/-- Characters of the alphabet are bytes of it. -/
theorem exists_bytes : ∀ {cs : Str}, (∀ c ∈ cs, c ∈ alphabet) →
    ∃ bytes, cs = ofAscii bytes ∧ ∀ b ∈ bytes, inAlphabet b = true
  | [], _ => ⟨[], rfl, fun _ h => absurd h List.not_mem_nil⟩
  | c :: cs, h => by
    obtain ⟨bytes, rfl, hbytes⟩ := exists_bytes fun c hc => h c (List.mem_cons_of_mem _ hc)
    obtain ⟨b, hb, rfl⟩ := List.mem_map.mp (h c List.mem_cons_self)
    refine ⟨b :: bytes, rfl, fun b' hb' => ?_⟩
    rcases List.mem_cons.mp hb' with rfl | hb'
    · exact List.contains_iff_mem.mpr hb
    · exact hbytes b' hb'

theorem utf8_replicate_padding (p : Nat) :
    utf8 (List.replicate p '=') = List.replicate p paddingChar := by
  induction p with
  | zero => rfl
  | succ p ih =>
    rw [List.replicate_succ, List.replicate_succ, ← ih]
    rfl

/-- Characters of the alphabet and something else behind them. -/
theorem chars_of_append {cs rest : List UInt8} (hcs : ∀ b ∈ cs, inAlphabet b = true)
    (hrest : ∀ b ∈ rest.head?, inAlphabet b = false) :
    chars (cs ++ rest) = cs ∧ afterChars (cs ++ rest) = rest := by
  induction cs with
  | nil =>
    cases rest with
    | nil => exact ⟨rfl, rfl⟩
    | cons b rest => exact chars_other (hrest b rfl) rest
  | cons c cs ih =>
    obtain ⟨hchars, hafter⟩ := ih fun b hb => hcs b (List.mem_cons_of_mem _ hb)
    rw [List.cons_append, (chars_cons (hcs c List.mem_cons_self) _).1,
      (chars_cons (hcs c List.mem_cons_self) _).2, hchars, hafter]
    exact ⟨rfl, rfl⟩

/-- The grammar on the bytes. -/
theorem inGrammar_iff (s : Str) (n : Nat) : InGrammar s n ↔ (chars (utf8 s)).length = n ∧ n % 4 ≠ 1 ∧
    ∃ p, p ≤ (4 - n % 4) % 4 ∧ afterChars (utf8 s) = List.replicate p paddingChar := by
  constructor
  · rintro ⟨cs, p, rfl, rfl, hcs, hn, hp⟩
    obtain ⟨bytes, rfl, hbytes⟩ := exists_bytes hcs
    have hutf : utf8 (ofAscii bytes ++ List.replicate p '=') = bytes ++ List.replicate p paddingChar := by
      rw [utf8_append, utf8_ofAscii fun b hb => inAlphabet_ascii (hbytes b hb), utf8_replicate_padding]
    have hhead : ∀ b ∈ (List.replicate p paddingChar).head?, inAlphabet b = false := by
      intro b hb
      rw [List.eq_of_mem_replicate (List.mem_of_mem_head? hb)]
      exact paddingChar_other
    obtain ⟨hchars, hafter⟩ := chars_of_append hbytes hhead
    rw [hutf, hchars, hafter]
    have hlen : (ofAscii bytes).length = bytes.length := List.length_map _
    rw [hlen] at hn hp ⊢
    exact ⟨rfl, hn, p, hp, rfl⟩
  · rintro ⟨rfl, hn, p, hp, hafter⟩
    have hbytes : ∀ b ∈ chars (utf8 s), inAlphabet b = true := fun b hb => List.mem_takeWhile_imp hb
    have happend := chars_append (utf8 s)
    rw [hafter] at happend
    refine ⟨ofAscii (chars (utf8 s)), p, utf8_injective ?_, List.length_map _, fun c hc => ?_, hn, hp⟩
    · rw [utf8_append, utf8_ofAscii fun b hb => inAlphabet_ascii (hbytes b hb), utf8_replicate_padding,
        happend]
    · obtain ⟨b, hb, rfl⟩ := List.mem_map.mp hc
      exact mem_alphabet (hbytes b hb)

/-- What is accepted is base64 text, or a last group with something behind its first padding. -/
theorem inGrammar_of_accepts {s : Str} (h : Accepts (chars (utf8 s)).length (afterChars (utf8 s)))
    (hno : ¬ Misread s) : InGrammar s (chars (utf8 s)).length := by
  have hbytes : ∀ b ∈ chars (utf8 s), inAlphabet b = true := fun b hb => List.mem_takeWhile_imp hb
  refine (inGrammar_iff _ _).mpr ⟨rfl, ?_⟩
  rcases h with ⟨hrest, hn⟩ | ⟨more, hrest, hmore, hn⟩
  · exact ⟨hn, 0, Nat.zero_le _, hrest⟩
  · match more, hmore with
    | [], _ => exact ⟨by omega, 1, by omega, hrest⟩
    | [b], _ =>
      have happend : utf8 s = chars (utf8 s) ++ [paddingChar, b] := by
        conv_lhs => rw [← chars_append (utf8 s), hrest]
      have hb : b = paddingChar ∧ (chars (utf8 s)).length % 4 = 2 := by
        by_contra hother
        refine hno ⟨_, hbytes, .inr ⟨b, happend, ?_⟩⟩
        by_cases hthree : (chars (utf8 s)).length % 4 = 3
        · exact .inr hthree
        · refine .inl ⟨fun hb => hother ⟨hb, ?_⟩, ?_⟩
          · omega
          · omega
      refine ⟨by omega, 2, by omega, ?_⟩
      rw [hrest, hb.1]
      rfl

/-- Base64 text is accepted. -/
theorem accepts_of_inGrammar {s : Str} {n : Nat} (h : InGrammar s n) :
    (chars (utf8 s)).length = n ∧ Accepts n (afterChars (utf8 s)) ∧
      ∀ b, afterChars (utf8 s) = [paddingChar, b] → b = paddingChar ∧ n % 4 = 2 := by
  obtain ⟨hn, hmod, p, hp, hafter⟩ := (inGrammar_iff s n).mp h
  refine ⟨hn, ?_, fun b hb => ?_⟩
  · match p with
    | 0 => exact .inl ⟨hafter, hmod⟩
    | p + 1 =>
      refine .inr ⟨List.replicate p paddingChar, hafter, ?_, ?_⟩
      · rw [List.length_replicate]
        omega
      · omega
  · rw [hb] at hafter
    have hlen := congrArg List.length hafter
    have hmem : b ∈ List.replicate p paddingChar := by
      rw [← hafter]
      simp
    simp at hlen
    exact ⟨List.eq_of_mem_replicate hmem, by omega⟩

/-- The checks hold of what is read as base64 text. -/
theorem decodeChecked_inGrammar {debugAssertions : Bool} {s : Str} {n : Nat} (h : InGrammar s n) :
    ∃ output, decodeChecked debugAssertions s = .ok output ∧ output.length = 6 * n / 8 := by
  obtain ⟨rfl, haccepts, hrest⟩ := accepts_of_inGrammar h
  obtain ⟨output, hdecode, hlen⟩ := (decodes_decodeBytes (utf8 s)).accepted haccepts
  refine ⟨output, ?_, hlen⟩
  have hcapacity : expectedCapacity (utf8 s) = 6 * (chars (utf8 s)).length / 8 := by
    conv_lhs => rw [← chars_append (utf8 s)]
    refine (expectedCapacity_accepted (fun b hb => List.mem_takeWhile_imp hb) haccepts).mpr ?_
    rintro ⟨b, hb, hbad⟩
    obtain ⟨hpad, hn⟩ := hrest b hb
    rcases hbad with hbad | hbad
    · exact hbad.1 hpad
    · have hthree : (chars (utf8 s)).length % 4 = 3 := hbad.2
      omega
  rw [decodeChecked_eq, show decode s = .ok output from hdecode, hcapacity]
  exact if_neg fun hne => hne.2 hlen

/-- A string of one of the three kinds is read, or leads to a panic. -/
theorem misread_wrong {debugAssertions : Bool} {s : Str} (h : Misread s) :
    ¬ DecodesRight debugAssertions s := by
  have hwhole := decodes_decodeBytes (utf8 s)
  obtain ⟨cs, hcs, hkind⟩ := h
  intro hright
  have hnoGrammar : ∀ n, ¬ InGrammar s n := by
    intro n hn
    obtain ⟨hlen, haccepts, hrest⟩ := accepts_of_inGrammar hn
    rcases hkind with ⟨hbytes, hmod, -⟩ | ⟨b, hbytes, hb⟩
    · have hchars := @chars_of_append cs [] hcs nofun
      rw [List.append_nil, ← hbytes] at hchars
      rw [← hlen, hchars.1, hchars.2, hbytes] at haccepts
      simp [Accepts, hmod] at haccepts
    · have hchars := @chars_of_append cs [paddingChar, b] hcs (by simp [paddingChar_other])
      rw [← hbytes] at hchars
      obtain ⟨hpad, hn⟩ := hrest b hchars.2
      rw [← hlen, hchars.1] at hn
      rcases hb with hb | hb
      · exact hb.1 hpad
      · omega
  obtain ⟨byte, i, herr⟩ := hright.2 hnoGrammar
  rw [decodeChecked_eq] at herr
  rcases hkind with ⟨hbytes, hmod, hone⟩ | ⟨b, hbytes, hb⟩
  · -- the loop reads behind the end
    have hchars := @chars_of_append cs [] hcs nofun
    rw [List.append_nil, ← hbytes] at hchars
    have hpanic := hwhole.overrun ⟨hchars.2, by rw [hchars.1, hbytes]; exact hmod⟩
      (by rw [hchars.1, hbytes]; exact hone)
    rw [show decode s = .error .panic from hpanic] at herr
    cases herr
  · -- the loop ends at the padding
    have hchars := @chars_of_append cs [paddingChar, b] hcs (by simp [paddingChar_other])
    rw [← hbytes] at hchars
    obtain ⟨output, hok, -⟩ := hwhole.accepted (.inr ⟨[b], hchars.2, by simp, by rw [hchars.1]; omega⟩)
    rw [show decode s = .ok output from hok] at herr
    have herr : (if debugAssertions = true ∧ output.length ≠ expectedCapacity (utf8 s) then
        .error .panic else .ok output : Except Exc (List UInt8)) = _ := herr
    split at herr
    · cases herr
    · cases herr

/-- **The decoder does what it should just where a string is not of the three kinds**, in both builds. -/
theorem decode_right_iff (debugAssertions : Bool) (s : Str) :
    DecodesRight debugAssertions s ↔ ¬ Misread s := by
  refine ⟨fun hright hmis => misread_wrong hmis hright, fun hno => ?_⟩
  have hwhole := decodes_decodeBytes (utf8 s)
  refine ⟨fun n hn => decodeChecked_inGrammar hn, fun hnoGrammar => ?_⟩
  have hreject : ¬ Accepts (chars (utf8 s)).length (afterChars (utf8 s)) :=
    fun haccepts => hnoGrammar _ (inGrammar_of_accepts haccepts hno)
  obtain ⟨byte, i, herr⟩ := hwhole.rejected hreject fun ho => by
    by_contra hone
    refine hno ⟨chars (utf8 s), fun b hb => List.mem_takeWhile_imp hb, .inl ⟨?_, ho.2, hone⟩⟩
    conv_lhs => rw [← chars_append (utf8 s), ho.1]
    simp
  refine ⟨byte, i, ?_⟩
  rw [decodeChecked_eq, show decode s = _ from herr]
  rfl

/-- **Four characters and one more**: the decoder reads behind the end of the string. -/
theorem fiveChars_misread : ¬ DecodesRight false "AAAAA".toList ∧ ¬ DecodesRight true "AAAAA".toList ∧
    decodeChecked false "AAAAA".toList = .error .panic ∧
    -- what stands behind a padding is not looked at
    decodeChecked true "AAA=!".toList = .ok [0, 0] ∧ ¬ DecodesRight true "AAA=!".toList := by
  have hfive : Misread "AAAAA".toList :=
    ⟨utf8 "AAAAA".toList, by decide +kernel, .inl ⟨rfl, by decide, by decide⟩⟩
  have hbang : Misread "AAA=!".toList :=
    ⟨utf8 "AAA".toList, by decide +kernel, .inr ⟨33, by decide, .inr (by decide)⟩⟩
  exact ⟨misread_wrong hfive, misread_wrong hfive, by decide, by decide, misread_wrong hbang⟩

end Base64

end Transmitic
