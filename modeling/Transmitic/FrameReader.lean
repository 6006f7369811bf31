/-
  File:      Transmitic/FrameReader.lean
  Subject:   CAN A PEER MAKE THE FRAME READER PANIC?

  The first frame of a message announces how long the second one is, by a number of 32 bits. `read` takes
  the announced bytes into the buffer of encrypted bytes, and the decrypted ones into the plain buffer
  behind the header; it checks the number against neither.

  * `Arrivals`, `arriving` -- what the peer sends, frame by frame, as far as it can be decrypted;
  * `Fits` -- the announced frame fits the buffers, or it does not come as far as the buffer it is too
    long for;
  * `wp_read_of` -- **reading a message in any surroundings**;
  * `readMessage_panics_iff` -- **reading a message panics exactly where this fails**;
  * `readMessage_panics` -- a first frame that announces 100,011 bytes.
-/
import Transmitic.DownloaderCommands
import Transmitic.Messages

namespace Transmitic

open Lib

/-! ## 1. What arrives -/

/-- What a read of `size` bytes comes to, where it is the `k`-th of the connection. -/
structure Arrivals where
  frame : Nat → Nat → Unsealed
  /-- Decrypting takes the tag off. -/
  length : ∀ k size bytes, frame k size = .plain bytes → bytes.length + cryptoExtensionSize = size

/-- The second frame the first one announces: the payload, with its checksum if it has one. -/
def announced (front : List UInt8) : Nat :=
  sizeOf' front + if EncryptedStream.isCrcPayload (msgOf front) then crcSize else 0

/-- What is announced in a message that starts with the `k`-th frame has its place in the plain buffer;
    or it has its place among the encrypted bytes, and no such frame comes. -/
def Fits (x : Arrivals) (k nonce : Nat) : Prop :=
  ∀ front, x.frame k (payloadOffset + cryptoExtensionSize) = .plain front → nonce < nonceMax →
    sizeOf' front ≠ 0 →
    payloadOffset + announced front ≤ totalBufferSize ∨
      announced front + cryptoExtensionSize ≤ totalCryptoBufferSize ∧
        ∀ bytes, x.frame (k + 1) (announced front + cryptoExtensionSize) ≠ .plain bytes

section Reader

variable {T L : Type} {LA : L → Type}

/-- The surroundings of a thread that reads frames. -/
def arriving (x : Arrivals) : Env (Thread T) (Wire ⊕ L) (Ans LA) Nat where
  ok _ _ c := ∃ nonce size, c = .inl (.unseal nonce size)
  step w _ c a w' :=
    match c, a with
    | .inl (.unseal _ size), a => a = x.frame w size ∧ w' = w + 1
    | _, _ => False

theorem arriving_total (x : Arrivals) (w : Nat) (s : Thread T) (c : Wire ⊕ L)
    (h : (@arriving T L LA x).ok w s c) : ∃ a w', (@arriving T L LA x).step w s c a w' := by
  obtain ⟨nonce, size, rfl⟩ := h
  exact ⟨x.frame w size, w + 1, rfl, rfl⟩

/-- A message is read, and its type and payload taken. -/
def readMessage [Crates] : Method T LA (UInt16 × List UInt8) := do
  read
  let msg ← getMessage
  let payload ← getPayload
  return (msg, payload)

variable {x : Arrivals} {t : Thread T} {k : Nat}

/-- **Reading a frame**: the announced bytes have to have their place, and then it is a frame or an
    error. -/
theorem wp_readFrame_numbered {W : Type} {E : Env (Thread T) (Wire ⊕ L) (Ans LA) W} {w : W} {size : Nat}
    {error : Str} {Q : List UInt8 → Thread T → W → Prop} {R : Exc → Thread T → W → Prop}
    (hpanic : totalCryptoBufferSize < size → R .panic t w)
    (hok : E.ok w t (.inl (.unseal t.encryptedStream.getNonceBytes size)))
    (hplain : size ≤ totalCryptoBufferSize → ∀ bytes w',
      E.step w t (.inl (.unseal t.encryptedStream.getNonceBytes size)) (Unsealed.plain bytes) w' →
        Q bytes t w')
    (herr : size ≤ totalCryptoBufferSize → ∀ (a : Unsealed) w',
      E.step w t (.inl (.unseal t.encryptedStream.getNonceBytes size)) a w' →
        (∀ bytes, a ≠ .plain bytes) → ∀ e, R (.err e) t w') :
    wp E (readFrame size error : Method T LA (List UInt8)) Q R t w := by
  refine (wp_bind _ _).mpr ((wp_throwIf _ _).mpr ?_)
  split
  · exact hpanic ‹_›
  · have hsize : size ≤ totalCryptoBufferSize := Nat.le_of_not_lt ‹_›
    refine (wp_bind _ _).mpr ?_
    refine (wp_bind _ _).mpr ⟨hok, fun a w' hs => ?_⟩
    cases a with
    | plain bytes => exact hplain hsize bytes w' hs
    | io e => exact herr hsize _ w' hs nofun e
    | rejected e => exact herr hsize _ w' hs nofun _

/-- The same, whatever the number. -/
theorem wp_readFrame_of {W : Type} {E : Env (Thread T) (Wire ⊕ L) (Ans LA) W} {w : W} {size : Nat}
    {error : Str} {Q : List UInt8 → Thread T → W → Prop} {R : Exc → Thread T → W → Prop}
    (hpanic : totalCryptoBufferSize < size → R .panic t w)
    (hok : ∀ n, E.ok w t (.inl (.unseal n size)))
    (hplain : size ≤ totalCryptoBufferSize → ∀ n bytes w',
      E.step w t (.inl (.unseal n size)) (Unsealed.plain bytes) w' → Q bytes t w')
    (herr : size ≤ totalCryptoBufferSize → ∀ n (a : Unsealed) w',
      E.step w t (.inl (.unseal n size)) a w' → (∀ bytes, a ≠ .plain bytes) → ∀ e, R (.err e) t w') :
    wp E (readFrame size error : Method T LA (List UInt8)) Q R t w :=
  wp_readFrame_numbered hpanic (hok _) (fun hsize => hplain hsize _) fun hsize => herr hsize _

theorem wp_readFrame_arriving {size : Nat} {error : Str} {Q : List UInt8 → Thread T → Nat → Prop}
    {R : Exc → Thread T → Nat → Prop}
    (hpanic : totalCryptoBufferSize < size → R .panic t k)
    (hplain : size ≤ totalCryptoBufferSize → ∀ bytes, x.frame k size = .plain bytes →
      Q bytes t (k + 1))
    (herr : size ≤ totalCryptoBufferSize → (∀ bytes, x.frame k size ≠ .plain bytes) →
      ∀ e, R (.err e) t (k + 1)) :
    wp (arriving x) (readFrame size error : Method T LA (List UInt8)) Q R t k := by
  refine wp_readFrame_of hpanic (fun n => ⟨n, size, rfl⟩) (fun hsize n bytes w' hs => ?_)
    fun hsize n a w' hs hne e => ?_
  · obtain ⟨ha, rfl⟩ := hs
    exact hplain hsize bytes ha.symm
  · obtain ⟨ha, rfl⟩ := hs
    exact herr hsize (fun bytes h => hne bytes (ha.trans h)) e

/-- A copy behind the end of the buffer. -/
theorem wp_copyToBuffer_panic {W : Type} {E : Env (Thread T) (Wire ⊕ L) (Ans LA) W} {i : Nat}
    {src : List UInt8} {Q : Unit → Thread T → W → Prop} {R : Exc → Thread T → W → Prop} {w : W}
    (hi : totalBufferSize < i + src.length) (hR : R .panic t w) :
    wp E (copyToBuffer i src : Method T LA Unit) Q R t w := by
  have hlength := t.encryptedStream.buffer.length_eq
  have hcopy : copyFromSlice t.encryptedStream.buffer.bytes i src = none := if_neg (by omega)
  show wp E (orPanic (t.encryptedStream.buffer.write i src) >>= _) Q R t w
  have hnone : t.encryptedStream.buffer.write i src = none := by
    unfold Buffer.write
    split
    · rfl
    · rename_i bytes hsome
      rw [hcopy] at hsome
      cases hsome
  rw [hnone]
  exact hR

/-- **Reading a message in any surroundings**: its first frame says whether there is a second one. Each is
    decrypted under the number the counter then has. `J` holds of the first one in between. A frame that does not come, and the end of the counter, are
    errors. -/
theorem wp_read_numbered {W : Type} {E : Env (Thread T) (Wire ⊕ L) (Ans LA) W} {w : W}
    {J : List UInt8 → W → Prop} {Q : Unit → Thread T → W → Prop} {R : Exc → Thread T → W → Prop}
    (hfront : E.ok w t (.inl (.unseal t.encryptedStream.getNonceBytes
        (payloadOffset + cryptoExtensionSize))) ∧
      ∀ a w', E.step w t (.inl (.unseal t.encryptedStream.getNonceBytes
          (payloadOffset + cryptoExtensionSize))) a w' →
        (∀ front, a = Unsealed.plain front → front.length = payloadOffset ∧
          (t.encryptedStream.nonce < nonceMax → J front w') ∧
          (nonceMax ≤ t.encryptedStream.nonce → ∀ e t', t'.self = t.self → R (.err e) t' w')) ∧
        ((∀ front, a ≠ Unsealed.plain front) → ∀ e, R (.err e) t w'))
    (hempty : ∀ front rest t' w', Passed t 1 t' → front.length = payloadOffset →
      t'.encryptedStream.buffer.bytes = front ++ rest → J front w' → sizeOf' front = 0 → Q () t' w')
    (hlong : ∀ front t' w', t'.self = t.self → J front w' →
      totalCryptoBufferSize < announced front + cryptoExtensionSize → R .panic t' w')
    (hbody : ∀ front t' w', Passed t 1 t' → front.length = payloadOffset → J front w' →
      sizeOf' front ≠ 0 → E.ok w' t' (.inl (.unseal t'.encryptedStream.getNonceBytes
        (announced front + cryptoExtensionSize))) ∧
        ∀ a w'', E.step w' t' (.inl (.unseal t'.encryptedStream.getNonceBytes
            (announced front + cryptoExtensionSize))) a w'' →
          (∀ bytes, a = Unsealed.plain bytes →
            (t'.encryptedStream.nonce < nonceMax → ∀ t'' rest, Passed t 2 t'' →
              t''.encryptedStream.buffer.bytes = front ++ (bytes ++ rest) → Q () t'' w'') ∧
            (nonceMax ≤ t'.encryptedStream.nonce → ∀ e t'', t''.self = t.self → R (.err e) t'' w'') ∧
            (totalBufferSize < payloadOffset + bytes.length → ∀ t'', t''.self = t.self →
              R .panic t'' w'')) ∧
          ((∀ bytes, a ≠ Unsealed.plain bytes) → ∀ e t'', t''.self = t.self → R (.err e) t'' w'')) :
    wp E (read : Method T LA Unit) Q R t w := by
  refine (wp_bind _ _).mpr (wp_readFrame_numbered (fun h => absurd h (by decide)) hfront.1
    (fun _ front w₁ hs => ?_) fun _ a w₁ hs hne e => (hfront.2 a w₁ hs).2 hne e)
  obtain ⟨hlen, hJ, hfull⟩ := (hfront.2 _ w₁ hs).1 front rfl
  refine (wp_bind _ _).mpr (wp_copyToBuffer ?_ fun buffer hbuffer => ?_)
  · rw [Nat.zero_add, hlen]
    decide
  rw [List.take_zero, List.nil_append] at hbuffer
  refine (wp_bind _ _).mpr (wp_incrementNonce (fun hlt => ?_) fun hle e => ?_)
  rotate_left
  · exact hfull hle e _ (by rfl)
  have hJ : J front w₁ := hJ hlt
  generalize hes : ({ t.encryptedStream with
    buffer, nonce := t.encryptedStream.nonce + 1 } : EncryptedStream) = es
  have hpassed : Passed t 1 ⟨t.self, es⟩ := by
    rw [← hes]
    exact ⟨rfl, rfl⟩
  obtain ⟨rest, hb⟩ : ∃ rest, es.buffer.bytes = front ++ rest := by
    rw [← hes]
    exact ⟨_, hbuffer⟩
  have hsize := payloadSize_front hb hlen
  have hmsg := getMessage_front hb hlen
  show wp _ (if es.payloadSize ≠ 0 then _ else pure ()) _ _ (⟨t.self, es⟩ : Thread T) _
  rw [hsize]
  by_cases hz : sizeOf' front = 0
  · rw [if_neg (not_not.mpr hz)]
    exact hempty front rest _ w₁ hpassed hlen hb hJ hz
  rw [if_pos hz]
  have hsum : sizeOf' front + cryptoExtensionSize +
      (if EncryptedStream.isCrcPayload es.getMessage then crcSize else 0) =
      announced front + cryptoExtensionSize := by
    rw [hmsg, announced]
    omega
  rw [hsum]
  have hsecond := hbody front ⟨t.self, es⟩ w₁ hpassed hlen hJ hz
  refine (wp_bind _ _).mpr (wp_readFrame_numbered (fun h => hlong front _ w₁ (by rfl) hJ h)
    hsecond.1 (fun _ bytes w₂ hs => ?_)
    fun _ a w₂ hs hne e => (hsecond.2 a w₂ hs).2 hne e _ (by rfl))
  obtain ⟨hdone, herr, hpanic⟩ := (hsecond.2 _ w₂ hs).1 bytes rfl
  refine (wp_bind _ _).mpr ?_
  rcases Nat.lt_or_ge totalBufferSize (front.length + bytes.length) with hover | hroom
  · exact wp_copyToBuffer_panic hover (hpanic (by rw [← hlen]; exact hover) _ rfl)
  · refine wp_copyToBuffer hroom fun buffer' hcopied => ?_
    refine wp_incrementNonce (fun hlt₂ => ?_) fun hle e => herr hle e _ (by rfl)
    refine hdone hlt₂ _ (es.buffer.bytes.drop (front.length + bytes.length)) ⟨rfl, congrArg (· + 1) hpassed.nonce⟩ ?_
    rw [hcopied]
    show es.buffer.bytes.take _ ++ _ = _
    rw [hb, List.take_left]

/-- The same, whatever the numbers. -/
theorem wp_read_counted {W : Type} {E : Env (Thread T) (Wire ⊕ L) (Ans LA) W} {w : W}
    {J : List UInt8 → W → Prop} {Q : Unit → Thread T → W → Prop} {R : Exc → Thread T → W → Prop}
    (hfront : ∀ n, E.ok w t (.inl (.unseal n (payloadOffset + cryptoExtensionSize))) ∧
      ∀ a w', E.step w t (.inl (.unseal n (payloadOffset + cryptoExtensionSize))) a w' →
        (∀ front, a = Unsealed.plain front → front.length = payloadOffset ∧
          (t.encryptedStream.nonce < nonceMax → J front w') ∧
          (nonceMax ≤ t.encryptedStream.nonce → ∀ e t', t'.self = t.self → R (.err e) t' w')) ∧
        ((∀ front, a ≠ Unsealed.plain front) → ∀ e, R (.err e) t w'))
    (hempty : ∀ front rest t' w', Passed t 1 t' → front.length = payloadOffset →
      t'.encryptedStream.buffer.bytes = front ++ rest → J front w' → sizeOf' front = 0 → Q () t' w')
    (hlong : ∀ front t' w', t'.self = t.self → J front w' →
      totalCryptoBufferSize < announced front + cryptoExtensionSize → R .panic t' w')
    (hbody : ∀ front t' n w', Passed t 1 t' → front.length = payloadOffset → J front w' →
      sizeOf' front ≠ 0 → E.ok w' t' (.inl (.unseal n (announced front + cryptoExtensionSize))) ∧
        ∀ a w'', E.step w' t' (.inl (.unseal n (announced front + cryptoExtensionSize))) a w'' →
          (∀ bytes, a = Unsealed.plain bytes →
            (t'.encryptedStream.nonce < nonceMax → ∀ t'' rest, Passed t 2 t'' →
              t''.encryptedStream.buffer.bytes = front ++ (bytes ++ rest) → Q () t'' w'') ∧
            (nonceMax ≤ t'.encryptedStream.nonce → ∀ e t'', t''.self = t.self → R (.err e) t'' w'') ∧
            (totalBufferSize < payloadOffset + bytes.length → ∀ t'', t''.self = t.self →
              R .panic t'' w'')) ∧
          ((∀ bytes, a ≠ Unsealed.plain bytes) → ∀ e t'', t''.self = t.self → R (.err e) t'' w'')) :
    wp E (read : Method T LA Unit) Q R t w :=
  wp_read_numbered (hfront _) hempty hlong fun front t' => hbody front t' _

/-- The same, where the end of the counter is like any other error. -/
theorem wp_read_of {W : Type} {E : Env (Thread T) (Wire ⊕ L) (Ans LA) W} {w : W}
    {J : List UInt8 → W → Prop} {Q : Unit → Thread T → W → Prop} {R : Exc → Thread T → W → Prop}
    (hfront : ∀ n, E.ok w t (.inl (.unseal n (payloadOffset + cryptoExtensionSize))) ∧
      ∀ a w', E.step w t (.inl (.unseal n (payloadOffset + cryptoExtensionSize))) a w' →
        (∀ front, a = Unsealed.plain front → front.length = payloadOffset ∧ J front w') ∧
          ((∀ front, a ≠ Unsealed.plain front) → ∀ e, R (.err e) t w'))
    (hfull : ∀ front e t' w', t'.self = t.self → J front w' → R (.err e) t' w')
    (hempty : ∀ front rest t' w', t'.self = t.self → front.length = payloadOffset →
      t'.encryptedStream.buffer.bytes = front ++ rest → J front w' → sizeOf' front = 0 → Q () t' w')
    (hlong : ∀ front t' w', t'.self = t.self → J front w' →
      totalCryptoBufferSize < announced front + cryptoExtensionSize → R .panic t' w')
    (hbody : ∀ front t' n w', t'.self = t.self → front.length = payloadOffset → J front w' →
      sizeOf' front ≠ 0 → E.ok w' t' (.inl (.unseal n (announced front + cryptoExtensionSize))) ∧
        ∀ a w'', E.step w' t' (.inl (.unseal n (announced front + cryptoExtensionSize))) a w'' →
          (∀ bytes, a = Unsealed.plain bytes →
            (∀ t'' rest, t''.self = t.self →
              t''.encryptedStream.buffer.bytes = front ++ (bytes ++ rest) → Q () t'' w'') ∧
            (∀ e t'', t''.self = t.self → R (.err e) t'' w'') ∧
            (totalBufferSize < payloadOffset + bytes.length → ∀ t'', t''.self = t.self →
              R .panic t'' w'')) ∧
          ((∀ bytes, a ≠ Unsealed.plain bytes) → ∀ e t'', t''.self = t.self → R (.err e) t'' w'')) :
    wp E (read : Method T LA Unit) Q R t w := by
  refine wp_read_counted (fun n => ⟨(hfront n).1, fun a w' hs => ?_⟩)
    (fun front rest t' w' ht => hempty front rest t' w' ht.self) hlong
    fun front t' n w' ht hlen hJ hz => ⟨(hbody front t' n w' ht.self hlen hJ hz).1, fun a w'' hs => ?_⟩
  · obtain ⟨hplain, herr⟩ := (hfront n).2 a w' hs
    refine ⟨fun front ha => ?_, herr⟩
    obtain ⟨hlen, hJ⟩ := hplain front ha
    exact ⟨hlen, fun _ => hJ, fun _ e t' ht => hfull front e t' w' ht hJ⟩
  · obtain ⟨hplain, herr⟩ := (hbody front t' n w' ht.self hlen hJ hz).2 a w'' hs
    refine ⟨fun bytes ha => ?_, herr⟩
    obtain ⟨hdone, hfail, hpanic⟩ := hplain bytes ha
    exact ⟨fun _ t'' rest ht'' => hdone t'' rest ht''.self, fun _ => hfail, hpanic⟩

/-- **Writing a message that has no place in the buffer**, with its checksum: the first frame, and a
    panic. -/
theorem wp_write_unfit [Crates] {W : Type} {E : Env (Thread T) (Wire ⊕ L) (Ans LA) W} {msg : UInt16}
    {payload : List UInt8} {Q : Unit → Thread T → W → Prop} {R : Exc → Thread T → W → Prop}
    {w : W} (hcrc : EncryptedStream.isCrcPayload msg = true)
    (hlong : totalBufferSize < payload.length + crcSize)
    (hheader : ∀ t' n plain, plain.length = payloadOffset →
      E.ok w t' (.inl (.seal n plain)) ∧ ∀ a w', E.step w t' (.inl (.seal n plain)) a w' →
        ∀ x t'', R x t'' w') :
    wp E (write msg payload : Method T LA Unit) Q R t w := by
  have hfirst : wp E (writeMessage msg payload : Method T LA Unit)
      (fun _ _ w' => ∀ x t'', R x t'' w') R t w := by
    refine (wp_bind _ _).mpr (wp_copyToBuffer (by rw [length_beBytes]; decide) fun b₁ _ => ?_)
    refine (wp_bind _ _).mpr (wp_copyToBuffer (by rw [length_beBytes]; decide) fun b₂ _ => ?_)
    obtain ⟨plain, hplain⟩ : ∃ plain, slice b₂.bytes 0 payloadOffset = some plain :=
      ⟨_, if_pos ⟨Nat.zero_le _, by rw [b₂.length_eq]; decide⟩⟩
    have hlen : plain.length = payloadOffset := length_slice hplain
    show wp _ (orPanic (slice b₂.bytes 0 payloadOffset) >>= _) _ _ _ _
    rw [hplain]
    refine (wp_bind _ _).mpr ⟨(hheader _ _ plain hlen).1, fun a w' hs => ?_⟩
    have hR := (hheader _ _ plain hlen).2 a w' hs
    cases a with
    | done => exact wp_incrementNonce (fun _ => hR) fun _ e => hR _ _
    | io e => exact hR _ _
    | rejected e => exact hR _ _
  refine wp_seq hfirst (fun _ t' w' hR => ?_) fun _ _ _ h => h
  have hne : payload ≠ [] := by
    rintro rfl
    exact absurd hlong (by decide)
  rw [wp_ite, if_pos hne]
  refine (wp_bind _ _).mpr ?_
  rcases Nat.lt_or_ge totalBufferSize (0 + payload.length) with hover | hroom
  · exact wp_copyToBuffer_panic hover (hR _ _)
  · refine wp_copyToBuffer hroom fun b₃ _ => ?_
    rw [wp_ite, if_pos hcrc]
    refine (wp_bind _ _).mpr (wp_copyToBuffer_panic ?_ (hR _ _))
    rw [length_beBytes]
    exact hlong

/-! ## 2. Taking the payload -/

theorem slice_some (buffer : List UInt8) {i j : Nat} (h : i ≤ j) (hj : j ≤ buffer.length) :
    ∃ bytes, slice buffer i j = some bytes := ⟨_, if_pos ⟨h, hj⟩⟩

/-- A payload that lies in the buffer, with its checksum, can be taken. -/
theorem getPayload_noPanic [Crates] {es : EncryptedStream}
    (h : payloadOffset + es.payloadSize +
      (if EncryptedStream.isCrcPayload es.getMessage ∧ 0 < es.payloadSize then crcSize else 0) ≤
        totalBufferSize) : es.getPayload ≠ .error .panic := by
  have hlen := es.buffer.length_eq
  obtain ⟨payload, hpayload⟩ := slice_some es.buffer.bytes
    (show payloadOffset ≤ payloadOffset + es.payloadSize by omega) (by omega)
  simp only [EncryptedStream.getPayload, hpayload]
  split
  · rename_i hcrc
    rw [if_pos hcrc] at h
    obtain ⟨sum, hsum⟩ := slice_some es.buffer.bytes
      (show payloadOffset + es.payloadSize ≤ payloadOffset + es.payloadSize + crcSize by omega)
      (by omega)
    simp only [hsum]
    split
    · exact fun hp => by cases hp
    · exact fun hp => by cases hp
  · exact fun hp => by cases hp

/-- What is taken as the payload is the front of the second frame. -/
theorem getPayload_taken [Crates] {es : EncryptedStream} {front bytes rest payload : List UInt8}
    (hlen : front.length = payloadOffset) (hb : es.buffer.bytes = front ++ (bytes ++ rest))
    (hbytes : bytes.length = announced front) (h : es.getPayload = .ok payload) :
    payload = bytes.take (sizeOf' front) := by
  have hsize : (bytes.take (sizeOf' front)).length = sizeOf' front := by
    rw [List.length_take, hbytes, announced]
    omega
  obtain ⟨sum, hsum, hsummed⟩ : ∃ sum : List UInt8, sum.length = crcSize ∧
      bytes = summed (msgOf front) (bytes.take (sizeOf' front)) sum := by
    unfold announced at hbytes
    unfold summed
    split at hbytes
    · rename_i hcrc
      refine ⟨bytes.drop (sizeOf' front), ?_, ?_⟩
      · rw [List.length_drop]
        omega
      · rw [if_pos hcrc, List.take_append_drop]
    · rename_i hcrc
      refine ⟨beBytes crcSize 0, length_beBytes _ _, ?_⟩
      rw [if_neg hcrc, List.append_nil, List.take_of_length_le (by omega)]
  rw [hsummed] at hb
  obtain ⟨hright, hwrong⟩ := getPayload_summed hsum hb hlen hsize.symm
  by_cases hs : RightSum (msgOf front) (bytes.take (sizeOf' front)) sum
  · rw [hright hs] at h
    exact (Except.ok.inj h).symm
  · obtain ⟨text, herr⟩ := hwrong hs
    rw [herr] at h
    cases h

/-! ## 3. The second frame -/

variable [Crates]

/-- What `readMessage` does once the first frame is in the buffer. -/
def readRest (front : List UInt8) : Method T LA (UInt16 × List UInt8) := do
  (do
    let es := (← get).encryptedStream
    if es.payloadSize ≠ 0 then
      let crc := if EncryptedStream.isCrcPayload es.getMessage then crcSize else 0
      let plaintextPayload ← readFrame (es.payloadSize + cryptoExtensionSize + crc)
        "Encrypted Stream read failed to decrypt payload. ".toList
      copyToBuffer front.length plaintextPayload
      incrementNonce : Method T LA Unit)
  let msg ← getMessage
  let payload ← getPayload
  return (msg, payload)

/-- The first frame: an error, or the rest with the frame in the buffer. -/
theorem wp_readMessage {Q : UInt16 × List UInt8 → Thread T → Nat → Prop}
    {R : Exc → Thread T → Nat → Prop}
    (herr : nonceMax ≤ t.encryptedStream.nonce ∨
      (∀ bytes, x.frame k (payloadOffset + cryptoExtensionSize) ≠ .plain bytes) →
        ∀ e t' w, R (.err e) t' w)
    (hrest : ∀ front rest t', x.frame k (payloadOffset + cryptoExtensionSize) = .plain front →
      t.encryptedStream.nonce < nonceMax → front.length = payloadOffset →
      t'.encryptedStream.buffer.bytes = front ++ rest →
      wp (arriving x) (readRest front : Method T LA _) Q R t' (k + 1)) :
    wp (arriving x) (readMessage : Method T LA (UInt16 × List UInt8)) Q R t k := by
  refine (wp_bind _ _).mpr ((wp_bind _ _).mpr (wp_readFrame_arriving (fun h => ?_)
    (fun _ front hfront => ?_) fun _ h e => herr (.inr h) e _ _))
  · exact absurd h (by decide)
  have hlen : front.length = payloadOffset := by
    have h := x.length k _ front hfront
    omega
  refine (wp_bind _ _).mpr (wp_copyToBuffer ?_ fun buffer hbuffer => ?_)
  · rw [Nat.zero_add, hlen]
    decide
  rw [List.take_zero, List.nil_append] at hbuffer
  refine (wp_bind _ _).mpr (wp_incrementNonce (fun hlt => ?_) fun hle e => herr (.inl hle) e _ _)
  exact (wp_bind _ _).mp (hrest front _ ⟨t.self, { t.encryptedStream with
    buffer, nonce := t.encryptedStream.nonce + 1 }⟩ hfront hlt hlen hbuffer)

/-- The second frame: where it fits, nothing panics. -/
theorem wp_readRest_fits {front rest : List UInt8} (hlen : front.length = payloadOffset)
    (hbuffer : t.encryptedStream.buffer.bytes = front ++ rest)
    (hfits : sizeOf' front ≠ 0 → payloadOffset + announced front ≤ totalBufferSize ∨
      announced front + cryptoExtensionSize ≤ totalCryptoBufferSize ∧
        ∀ bytes, x.frame k (announced front + cryptoExtensionSize) ≠ .plain bytes) :
    wp (arriving x) (readRest front : Method T LA _) (fun _ _ _ => True) (fun e _ _ => e ≠ .panic)
      t k := by
  have hsize := payloadSize_front hbuffer hlen
  have hmsg := getMessage_front hbuffer hlen
  -- what is taken of the buffer at the end
  have hend : ∀ t' : Thread T, (∃ rest', t'.encryptedStream.buffer.bytes = front ++ rest') →
      (sizeOf' front ≠ 0 → payloadOffset + announced front ≤ totalBufferSize) → ∀ w,
      wp (arriving x) (do
        let msg ← getMessage
        let payload ← getPayload
        return (msg, payload) : Method T LA _) (fun _ _ _ => True) (fun e _ _ => e ≠ .panic) t' w := by
    rintro t' ⟨rest', hb⟩ hroom w
    have hnoPanic : t'.encryptedStream.getPayload ≠ .error .panic := by
      refine getPayload_noPanic ?_
      rw [payloadSize_front hb hlen, getMessage_front hb hlen]
      by_cases hz : sizeOf' front = 0
      · rw [hz, if_neg (by simp)]
        decide
      · have hroom := hroom hz
        unfold announced at hroom
        split
        · rename_i hc
          rw [if_pos hc.1] at hroom
          omega
        · omega
    show wp _ (orThrow t'.encryptedStream.getPayload >>= _) _ _ t' w
    cases hp : t'.encryptedStream.getPayload with
    | ok payload => exact trivial
    | error e =>
      intro he
      rw [hp, he] at hnoPanic
      exact hnoPanic rfl
  refine (wp_bind _ _).mpr ?_
  show wp _ (if t.encryptedStream.payloadSize ≠ 0 then _ else pure ()) _ _ t k
  rw [hsize]
  split
  · rename_i hz
    have hsum : sizeOf' front + cryptoExtensionSize +
        (if EncryptedStream.isCrcPayload t.encryptedStream.getMessage then crcSize else 0) =
        announced front + cryptoExtensionSize := by
      rw [hmsg, announced]
      omega
    have hcrypto : announced front + cryptoExtensionSize ≤ totalCryptoBufferSize := by
      have h : totalBufferSize + cryptoExtensionSize = totalCryptoBufferSize := rfl
      rcases hfits hz with hf | hf
      · omega
      · exact hf.1
    rw [hsum]
    refine (wp_bind _ _).mpr (wp_readFrame_arriving (fun h => absurd h (by omega))
      (fun _ bytes hbytes => ?_) fun _ _ e he => by cases he)
    have hroom : payloadOffset + announced front ≤ totalBufferSize := by
      rcases hfits hz with hf | hf
      · exact hf
      · exact absurd hbytes (hf.2 bytes)
    have hbytesLen : bytes.length = announced front := by
      have h := x.length k _ bytes hbytes
      omega
    refine (wp_bind _ _).mpr (wp_copyToBuffer ?_ fun buffer hcopied => ?_)
    · rw [hlen, hbytesLen]
      exact hroom
    have hfront : buffer.bytes = front ++ (bytes ++
        t.encryptedStream.buffer.bytes.drop (front.length + bytes.length)) := by
      rw [hcopied, hbuffer, List.take_left]
    exact wp_incrementNonce (fun _ => hend _ ⟨_, hfront⟩ (fun _ => hroom) _)
      fun _ e he => by cases he
  · rename_i hz
    exact hend t ⟨rest, hbuffer⟩ (fun h => absurd h (by simpa using hz)) k

/-- The second frame: where it does not fit, a panic is what comes of it. -/
theorem wp_readRest_panics {front rest : List UInt8} (hlen : front.length = payloadOffset)
    (hbuffer : t.encryptedStream.buffer.bytes = front ++ rest) (hz : sizeOf' front ≠ 0)
    (hlong : totalBufferSize < payloadOffset + announced front)
    (hcomes : announced front + cryptoExtensionSize ≤ totalCryptoBufferSize →
      ∃ bytes, x.frame k (announced front + cryptoExtensionSize) = .plain bytes) :
    wp (arriving x) (readRest front : Method T LA _) (fun _ _ _ => False)
      (fun e _ _ => e = .panic) t k := by
  have hsize := payloadSize_front hbuffer hlen
  have hmsg := getMessage_front hbuffer hlen
  refine (wp_bind _ _).mpr ?_
  show wp _ (if t.encryptedStream.payloadSize ≠ 0 then _ else pure ()) _ _ t k
  rw [hsize, if_pos hz]
  have hsum : sizeOf' front + cryptoExtensionSize +
      (if EncryptedStream.isCrcPayload t.encryptedStream.getMessage then crcSize else 0) =
      announced front + cryptoExtensionSize := by
    rw [hmsg, announced]
    omega
  rw [hsum]
  refine (wp_bind _ _).mpr (wp_readFrame_arriving (fun _ => rfl) (fun _ bytes hbytes => ?_)
    fun hle hnone => ?_)
  · have hbytesLen : bytes.length = announced front := by
      have h := x.length k _ bytes hbytes
      omega
    refine (wp_bind _ _).mpr (wp_copyToBuffer_panic ?_ rfl)
    rw [hlen, hbytesLen]
    exact hlong
  · obtain ⟨bytes, hbytes⟩ := hcomes hle
    exact absurd hbytes (hnone bytes)

/-! ## 4. A whole message -/

/-- **Reading a message and taking its payload panics exactly where the second frame does not fit**:
    whatever arrives, and whatever was read before. -/
theorem readMessage_panics_iff (x : Arrivals) (t : Thread T) (k : Nat) :
    (∀ t' w, ¬ Reach (arriving x) ((readMessage : Method T LA (UInt16 × List UInt8)) t, k)
      (.fail .panic t', w)) ↔ Fits x k t.encryptedStream.nonce := by
  constructor
  · intro h front hfront hnonce hz
    by_contra hno
    obtain ⟨hlong, hcomes⟩ := not_or.mp hno
    have hpanics : wp (arriving x) (readMessage : Method T LA (UInt16 × List UInt8))
        (fun _ _ _ => False) (fun e _ _ => e = .panic) t k := by
      refine wp_readMessage (fun hbad => ?_) fun front' rest t' hfront' _ hlen hbuffer => ?_
      · rcases hbad with hbad | hbad
        · omega
        · exact absurd hfront (hbad front)
      · rw [hfront] at hfront'
        cases hfront'
        refine wp_readRest_panics hlen hbuffer hz (by omega) fun hle => ?_
        by_contra hnone
        exact hcomes ⟨hle, fun bytes hbytes => hnone ⟨bytes, hbytes⟩⟩
    obtain ⟨p, w, hr, ⟨a, s, -, hend⟩ | ⟨e, s, rfl, rfl⟩⟩ :=
      reach_some_end (arriving_total x) hpanics
    · exact hend
    · exact h s w hr
  · intro hfits t' w hr
    have hnoPanic : wp (arriving x) (readMessage : Method T LA (UInt16 × List UInt8))
        (fun _ _ _ => True) (fun e _ _ => e ≠ .panic) t k := by
      refine wp_readMessage (fun _ e t' w he => by cases he) fun front rest t' hfront hlt hlen hb => ?_
      exact wp_readRest_fits hlen hb (hfits front hfront hlt)
    exact holds_reach (c := (_, k)) hnoPanic hr rfl

end Reader

/-- A peer whose first frame announces a file list of 100,011 bytes. -/
def oversized : Arrivals where
  frame k size := if k = 0 ∧ size = payloadOffset + cryptoExtensionSize then
      .plain (header msgFileList 100011) else .io "failed to fill whole buffer".toList
  length k size bytes h := by
    split at h
    · rename_i hk
      cases h
      rw [length_header, hk.2]
    · cases h

/-- A stream just made. -/
def freshStream : EncryptedStream :=
  .new { nickname := "bob".toList, publicId := [], ip := [], port := [], allowed := true } []

/-- **The frame reader panics**: the buffer of encrypted bytes is too short for the second frame. -/
theorem readMessage_panics : ∃ t' w, Reach (arriving oversized)
    ((@readMessage Unit Empty Empty.elim idleCrates) ⟨(), freshStream⟩, 0)
      (.fail .panic t', w) := by
  by_contra hno
  have hfits := (@readMessage_panics_iff Unit Empty Empty.elim idleCrates oversized
    ⟨(), freshStream⟩ 0).mp fun t' w hr => hno ⟨t', w, hr⟩
  have hannounced : sizeOf' (header msgFileList 100011) = 100011 := by decide
  rcases hfits _ rfl (by decide) (by rw [hannounced]; decide) with h | h
  · exact absurd h (by decide)
  · exact absurd h.1 (by decide)

end Transmitic
