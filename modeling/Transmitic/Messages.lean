/-
  File:      Transmitic/Messages.lean
  Subject:   MESSAGES AS FRAMES. A protocol of messages, read off the frames `write` makes and `read`
             expects.

  `write` makes a frame with the type of the message and the size of its payload, and if the payload
  is not empty a second one with the payload and perhaps a checksum. Each is encrypted under the next
  value of the counter. `read` finds out from the first frame whether there is a second one, and how
  long it is.

  * `MessageProtocol`, `View`, `MessageProtocol.frames` -- whose turn it is to send which messages, and
    the protocol of frames this comes to;
  * `onWire` -- a thread on its connection, as far as the protocol goes;
  * `EncryptedStream.Holds` -- the message the buffer of a stream holds;
  * `wp_write`, `wp_read` -- **the specifications of `write` and `read`**: they move the protocol on by
    one message, and what is read is what was written.
-/
import Transmitic.EncryptedStream
import Transmitic.Lib.Duplex

namespace Transmitic

open Lib

/-! ## 1. Protocols of messages -/

/-- Whose turn it is to send, which sizes a message may have, and where a message leads to. -/
structure MessageProtocol (σ : Type) where
  turn : σ → Side
  opens : σ → UInt16 → Nat → Bool
  deliver : σ → UInt16 → List UInt8 → Option σ
  delivers : ∀ s msg size, opens s msg size = true →
    ∃ payload s', payload.length = size ∧ deliver s msg payload = some s'
  small : ∀ s msg size, opens s msg size = true → size ≤ maxDataSize

/-- How far a connection is: the messages so far have led to `state` in `count` frames; after the
    first frame of a message with a payload, its type and the size of the payload are `pending`. -/
structure View (σ : Type) where
  state : σ
  count : Nat
  pending : Option (UInt16 × Nat)

/-- A frame: the number it is encrypted under, and its plaintext. -/
abbrev Frame := Nat × List UInt8

/-- The first frame of a message. -/
def header (msg : UInt16) (size : Nat) : List UInt8 :=
  beBytes msgTypeSize msg.toNat ++ beBytes payloadSizeLen size

/-- The second frame of a message. -/
def body [Crates] (msg : UInt16) (payload : List UInt8) : List UInt8 :=
  if EncryptedStream.isCrcPayload msg then
    payload ++ beBytes crcSize (Crates.crc32 payload).toNat
  else payload

theorem length_body [Crates] (msg : UInt16) (payload : List UInt8) : (body msg payload).length =
    payload.length + if EncryptedStream.isCrcPayload msg then crcSize else 0 := by
  unfold body
  split
  · simp
  · simp

/-- The second frame of a message, with the checksum its sender made. -/
def summed (msg : UInt16) (payload sum : List UInt8) : List UInt8 :=
  payload ++ if EncryptedStream.isCrcPayload msg then sum else []

/-- The checksum is right, where the message has one. -/
def RightSum [Crates] (msg : UInt16) (payload sum : List UInt8) : Prop :=
  EncryptedStream.isCrcPayload msg = true → payload ≠ [] → ofBe sum = (Crates.crc32 payload).toNat

theorem body_eq_summed [Crates] (msg : UInt16) (payload : List UInt8) :
    body msg payload = summed msg payload (beBytes crcSize (Crates.crc32 payload).toNat) := by
  unfold body summed
  split
  · rfl
  · rw [List.append_nil]

theorem rightSum_own [Crates] (msg : UInt16) (payload : List UInt8) :
    RightSum msg payload (beBytes crcSize (Crates.crc32 payload).toNat) := fun _ _ =>
  ofBe_beBytes_of_lt (show (Crates.crc32 payload).toNat < 256 ^ crcSize from
    (Crates.crc32 payload).toNat_lt)

/-- The message type in the first two bytes. -/
def msgOf (bytes : List UInt8) : UInt16 := UInt16.ofNat (ofBe (bytes.take 2))

/-- The payload size in the four bytes behind. -/
def sizeOf' (bytes : List UInt8) : Nat := ofBe ((bytes.drop msgTypeSize).take payloadSizeLen)

theorem length_header (msg : UInt16) (size : Nat) : (header msg size).length = payloadOffset := by
  simp [header, payloadOffset]

theorem msgOf_header (msg : UInt16) (size : Nat) (rest : List UInt8) :
    msgOf (header msg size ++ rest) = msg := by
  have htake : (header msg size ++ rest).take 2 = beBytes msgTypeSize msg.toNat := by
    rw [header, List.append_assoc]
    exact List.take_left' (length_beBytes _ _)
  have hlt : msg.toNat < 256 ^ msgTypeSize := msg.toNat_lt
  rw [msgOf, htake, ofBe_beBytes_of_lt hlt, UInt16.ofNat_toNat]

theorem sizeOf'_header {size : Nat} (h : size < 2 ^ 32) (msg : UInt16) (rest : List UInt8) :
    sizeOf' (header msg size ++ rest) = size := by
  have hdrop : (header msg size ++ rest).drop msgTypeSize = beBytes payloadSizeLen size ++ rest := by
    rw [header, List.append_assoc]
    exact List.drop_left' (length_beBytes _ _)
  have htake : (beBytes payloadSizeLen size ++ rest).take payloadSizeLen =
      beBytes payloadSizeLen size := List.take_left' (length_beBytes _ _)
  rw [sizeOf', hdrop, htake]
  exact ofBe_beBytes_of_lt h

namespace MessageProtocol

variable {σ : Type} (Γ : MessageProtocol σ)

/-- The protocol of frames. -/
def next [Crates] (v : View σ) (f : Frame) : Option (View σ) :=
  if f.1 ≠ v.count then none
  else
    match v.pending with
    | none =>
      if f.2.length = payloadOffset ∧ Γ.opens v.state (msgOf f.2) (sizeOf' f.2) then
        if sizeOf' f.2 = 0 then
          (Γ.deliver v.state (msgOf f.2) []).map fun s => ⟨s, v.count + 1, none⟩
        else some ⟨v.state, v.count + 1, some (msgOf f.2, sizeOf' f.2)⟩
      else none
    | some (msg, size) =>
      if (f.2.take size).length = size ∧ f.2 = body msg (f.2.take size) then
        (Γ.deliver v.state msg (f.2.take size)).map fun s => ⟨s, v.count + 1, none⟩
      else none

variable {Γ} [Crates] {v u : View σ} {f : Frame}

theorem next_number (h : Γ.next v f = some u) : f.1 = v.count := by
  unfold next at h
  split at h
  · cases h
  · exact not_not.mp ‹_›

/-- What the first frame of a message does. -/
theorem next_header (h : Γ.next v f = some u) (hp : v.pending = none) :
    f.2.length = payloadOffset ∧ Γ.opens v.state (msgOf f.2) (sizeOf' f.2) = true ∧
      ((sizeOf' f.2 = 0 ∧ ∃ s, Γ.deliver v.state (msgOf f.2) [] = some s ∧
          u = ⟨s, v.count + 1, none⟩) ∨
        sizeOf' f.2 ≠ 0 ∧ u = ⟨v.state, v.count + 1, some (msgOf f.2, sizeOf' f.2)⟩) := by
  unfold next at h
  rw [hp] at h
  split at h
  · cases h
  · simp only at h
    split at h
    · rename_i hopen
      refine ⟨hopen.1, hopen.2, ?_⟩
      split at h
      · rename_i hsize
        obtain ⟨s, hs, rfl⟩ := Option.map_eq_some_iff.mp h
        exact .inl ⟨hsize, s, hs, rfl⟩
      · rename_i hsize
        exact .inr ⟨hsize, (Option.some.inj h).symm⟩
    · cases h

/-- What the second frame does. -/
theorem next_body {msg : UInt16} {size : Nat} (h : Γ.next v f = some u)
    (hp : v.pending = some (msg, size)) :
    ∃ payload s, payload.length = size ∧ f.2 = body msg payload ∧
      Γ.deliver v.state msg payload = some s ∧ u = ⟨s, v.count + 1, none⟩ := by
  unfold next at h
  rw [hp] at h
  split at h
  · cases h
  · simp only at h
    split at h
    · rename_i hbody
      obtain ⟨s, hs, rfl⟩ := Option.map_eq_some_iff.mp h
      exact ⟨_, s, hbody.1, hbody.2, hs, rfl⟩
    · cases h

theorem next_count (h : Γ.next v f = some u) : u.count = v.count + 1 := by
  cases hp : v.pending with
  | none =>
    rcases (next_header h hp).2.2 with ⟨-, s, -, rfl⟩ | ⟨-, rfl⟩
    · rfl
    · rfl
  | some p =>
    obtain ⟨payload, s, -, -, -, rfl⟩ := next_body h hp
    rfl

/-- The first frame of a message without a payload. -/
theorem next_of_empty {s s' : σ} {n : Nat} {msg : UInt16} (hopen : Γ.opens s msg 0 = true)
    (hs : Γ.deliver s msg [] = some s') :
    Γ.next ⟨s, n, none⟩ (n, header msg 0) = some ⟨s', n + 1, none⟩ := by
  have hmsg : msgOf (header msg 0) = msg := by simpa using msgOf_header msg 0 []
  have hsize : sizeOf' (header msg 0) = 0 := by
    simpa using sizeOf'_header (show (0 : Nat) < 2 ^ 32 by decide) msg []
  simp [next, hmsg, hsize, length_header, hopen, hs]

/-- The first frame of a message with a payload. -/
theorem next_of_header {s : σ} {n size : Nat} {msg : UInt16} (hlt : size < 2 ^ 32)
    (hne : size ≠ 0) (hopen : Γ.opens s msg size = true) :
    Γ.next ⟨s, n, none⟩ (n, header msg size) = some ⟨s, n + 1, some (msg, size)⟩ := by
  have hmsg : msgOf (header msg size) = msg := by simpa using msgOf_header msg size []
  have hsize : sizeOf' (header msg size) = size := by simpa using sizeOf'_header hlt msg []
  simp [next, hmsg, hsize, length_header, hopen, hne]

/-- The second frame. -/
theorem next_of_body {s s' : σ} {n : Nat} {msg : UInt16} {payload : List UInt8}
    (hs : Γ.deliver s msg payload = some s') :
    Γ.next ⟨s, n, some (msg, payload.length)⟩ (n, body msg payload) = some ⟨s', n + 1, none⟩ := by
  have htake : (body msg payload).take payload.length = payload := by
    unfold body
    split
    · exact List.take_left
    · exact List.take_length
  simp [next, htake, hs]

variable (Γ)

/-- The protocol of frames a protocol of messages comes to. -/
def frames : Protocol (View σ) Frame where
  turn v := Γ.turn v.state
  next := Γ.next
  number := Prod.fst
  count := View.count
  number_eq _ _ _ h := next_number h
  count_next _ _ _ h := next_count h

end MessageProtocol

/-- A read of `r.2` bytes under the number `r.1` takes the frame `f`. -/
def fits (r : Nat × Nat) (f : Frame) : Prop :=
  f.1 = r.1 ∧ f.2.length + cryptoExtensionSize = r.2

/-! ## 2. A thread on its connection -/

section OnWire

variable {σ T L W : Type} {LA : L → Type} [Crates]

/-- A frame `f` leads from the view `v` to the view `v'`. -/
def MessageProtocol.Moves (Γ : MessageProtocol σ) (f : Frame) (v v' : Option (View σ)) : Prop :=
  ∃ u u', v = some u ∧ Γ.next u f = some u' ∧ v' = some u'

/-- The answers to the encryption and the writing of the frame `f`. -/
def sealStep (Γ : MessageProtocol σ) (mayBreak : Prop) (f : Frame) (v : Option (View σ)) :
    Sealed → Option (View σ) → Prop
  | .done, v' => Γ.Moves f v v'
  | .io _, v' => mayBreak ∧ v' = none
  | .rejected _, v' => mayBreak ∧ v' = none

/-- The answers to the reading and the decryption of a frame under the number `n`. -/
def unsealStep (Γ : MessageProtocol σ) (mayBreak : Prop) (n : Nat) (v : Option (View σ)) :
    Unsealed → Option (View σ) → Prop
  | .plain bytes, v' => Γ.Moves (n, bytes) v v'
  | .io _, v' => mayBreak ∧ v' = none
  | .rejected _, v' => mayBreak ∧ v' = none

/-- The side `me` reads in the view `v`, and any frame that may come is one the read `r` takes. -/
def MessageProtocol.Expects (Γ : MessageProtocol σ) (me : Side) (r : Nat × Nat)
    (v : Option (View σ)) : Prop :=
  ∃ u, v = some u ∧ Γ.turn u.state = me.other ∧ (∃ f, (Γ.next u f).isSome) ∧
    ∀ f u', Γ.next u f = some u' → fits r f

/-- The surroundings of a thread of the side `me` that keeps to the protocol: `LE` answers its own
    commands; frames move the view of the protocol on, until the connection is lost (`none`), if it
    may be lost. -/
def onWire (Γ : MessageProtocol σ) (me : Side) (mayBreak : Prop) (LE : Env (Thread T) L LA W) :
    Env (Thread T) (Wire ⊕ L) (Ans LA) (W × Option (View σ)) where
  ok w t c :=
    match c with
    | .inl (.seal n plain) =>
      ∃ u, w.2 = some u ∧ Γ.turn u.state = me ∧ (Γ.next u (n, plain)).isSome
    | .inl (.unseal n size) => Γ.Expects me (n, size) w.2
    | .inr c => LE.ok w.1 t c
  step w t c a w' :=
    match c, a with
    | .inl (.seal n plain), a => w'.1 = w.1 ∧ sealStep Γ mayBreak (n, plain) w.2 a w'.2
    | .inl (.unseal n _), a => w'.1 = w.1 ∧ unsealStep Γ mayBreak n w.2 a w'.2
    | .inr c, a => LE.step w.1 t c a w'.1 ∧ w'.2 = w.2

/-- Where a thread keeps to the protocol, there is an answer. -/
theorem onWire_total {Γ : MessageProtocol σ} {me : Side} {mayBreak : Prop} {LE : Env (Thread T) L LA W}
    (hLE : ∀ w t c, LE.ok w t c → ∃ a w', LE.step w t c a w') (w : W × Option (View σ))
    (t : Thread T) : ∀ c, (onWire Γ me mayBreak LE).ok w t c →
      ∃ a w', (onWire Γ me mayBreak LE).step w t c a w'
  | .inl (.seal _ _), ⟨u, hu, _, hnext⟩ => by
    obtain ⟨u', hu'⟩ := Option.isSome_iff_exists.mp hnext
    exact ⟨Sealed.done, (w.1, some u'), rfl, u, u', hu, hu', rfl⟩
  | .inl (.unseal n _), ⟨u, hu, _, ⟨f, hf⟩, hfits⟩ => by
    obtain ⟨u', hu'⟩ := Option.isSome_iff_exists.mp hf
    have hn : f.1 = n := (hfits f u' hu').1
    refine ⟨Unsealed.plain f.2, (w.1, some u'), rfl, u, u', hu, ?_, rfl⟩
    rw [← hn]
    exact hu'
  | .inr c, h => by
    obtain ⟨a, w', hstep⟩ := hLE w.1 t c h
    exact ⟨a, (w', w.2), hstep, rfl⟩

end OnWire

/-! ## 3. The buffer -/

/-- The message the buffer of a stream holds. -/
structure EncryptedStream.Holds [Crates] (es : EncryptedStream) (msg : UInt16)
    (payload : List UInt8) : Prop where
  message : es.getMessage = msg
  payload : es.getPayload = .ok payload

section Buffers

variable {es : EncryptedStream} {front rest : List UInt8}

theorem getMessage_front (h : es.buffer.bytes = front ++ rest) (hl : front.length = payloadOffset) :
    es.getMessage = msgOf front := by
  have htake : (front ++ rest).take 2 = front.take 2 :=
    List.take_append_of_le_length (by rw [hl]; decide)
  rw [EncryptedStream.getMessage, msgOf, h, htake]

theorem payloadSize_front (h : es.buffer.bytes = front ++ rest)
    (hl : front.length = payloadOffset) : es.payloadSize = sizeOf' front := by
  have hdrop : (front ++ rest).drop msgTypeSize = front.drop msgTypeSize ++ rest :=
    List.drop_append_of_le_length (by rw [hl]; decide)
  have htake : (front.drop msgTypeSize ++ rest).take payloadSizeLen =
      (front.drop msgTypeSize).take payloadSizeLen :=
    List.take_append_of_le_length (by rw [List.length_drop, hl]; decide)
  rw [EncryptedStream.payloadSize, sizeOf', h, hdrop, htake]

variable [Crates]

/-- A message without a payload. -/
theorem holds_header (h : es.buffer.bytes = front ++ rest) (hl : front.length = payloadOffset)
    (hsize : sizeOf' front = 0) : es.Holds (msgOf front) [] := by
  refine ⟨getMessage_front h hl, ?_⟩
  have hslice : slice es.buffer.bytes payloadOffset payloadOffset = some [] := by
    rw [h]
    exact slice_append (b := []) (c := rest) hl (by rw [List.length_nil, hl, Nat.add_zero])
  have hzero : es.payloadSize = 0 := (payloadSize_front h hl).trans hsize
  simp only [EncryptedStream.getPayload, hzero, Nat.add_zero, hslice]
  rw [if_neg (by simp)]

/-- A payload behind the header, with the checksum the peer made: it is taken if the checksum is right,
    and an error otherwise. -/
theorem getPayload_summed {payload sum : List UInt8} (hsum : sum.length = crcSize)
    (h : es.buffer.bytes = front ++ (summed (msgOf front) payload sum ++ rest))
    (hl : front.length = payloadOffset) (hsize : sizeOf' front = payload.length) :
    (RightSum (msgOf front) payload sum → es.getPayload = .ok payload) ∧
      (¬ RightSum (msgOf front) payload sum → ∃ text, es.getPayload = .error (.err text)) := by
  have hmsg : es.getMessage = msgOf front := getMessage_front h hl
  have hps : es.payloadSize = payload.length := (payloadSize_front h hl).trans hsize
  by_cases hcrc : EncryptedStream.isCrcPayload (msgOf front) = true
  · have hbytes : summed (msgOf front) payload sum = payload ++ sum := by rw [summed, if_pos hcrc]
    rw [hbytes, List.append_assoc] at h
    have hpayload : slice es.buffer.bytes payloadOffset (payloadOffset + payload.length) =
        some payload := by
      rw [h]
      exact slice_append hl (by rw [hl])
    have hslice : slice es.buffer.bytes (payloadOffset + payload.length)
        (payloadOffset + payload.length + crcSize) = some sum := by
      rw [h, ← List.append_assoc]
      exact slice_append (by simp [hl]) (by simp [hl, hsum])
    simp only [EncryptedStream.getPayload, hps, hmsg, hpayload, hslice, RightSum, hcrc,
      List.ne_nil_iff_length_pos, true_and, true_implies]
    by_cases hpos : 0 < payload.length
    · by_cases hright : ofBe sum = (Crates.crc32 payload).toNat
      · simp [hpos, hright]
      · simp [hpos, hright]
    · simp [hpos]
  · have hbytes : summed (msgOf front) payload sum = payload := by
      rw [summed, if_neg hcrc, List.append_nil]
    rw [hbytes] at h
    have hpayload : slice es.buffer.bytes payloadOffset (payloadOffset + payload.length) =
        some payload := by
      rw [h]
      exact slice_append hl (by rw [hl])
    simp only [EncryptedStream.getPayload, hps, hmsg, hpayload]
    rw [if_neg fun hc => hcrc hc.1]
    exact ⟨fun _ => rfl, fun hno => absurd (fun hc => absurd hc hcrc) hno⟩

/-- A message with a payload: the payload, with its checksum if it has one, is behind the header. -/
theorem holds_body {payload : List UInt8}
    (h : es.buffer.bytes = front ++ (body (msgOf front) payload ++ rest))
    (hl : front.length = payloadOffset) (hsize : sizeOf' front = payload.length) :
    es.Holds (msgOf front) payload := by
  rw [body_eq_summed] at h
  exact ⟨getMessage_front h hl,
    (getPayload_summed (length_beBytes _ _) h hl hsize).1 (rightSum_own _ _)⟩

end Buffers

/-! ## 4. The frames of `read` and `write` -/

section Frames

variable {σ T L W : Type} {LA : L → Type} {t : Thread T} {w : W}

theorem getNonceBytes_eq {es : EncryptedStream} (h : es.nonce ≤ nonceMax) :
    es.getNonceBytes = es.nonce := by
  rw [nonceMax_eq] at h
  exact Nat.mod_eq_of_lt (by omega)

theorem wp_copyToBuffer {E : Env (Thread T) (Wire ⊕ L) (Ans LA) W} {i : Nat} {src : List UInt8}
    {Q : Unit → Thread T → W → Prop} {R : Exc → Thread T → W → Prop}
    (hi : i + src.length ≤ totalBufferSize)
    (hQ : ∀ buffer : Buffer, buffer.bytes = t.encryptedStream.buffer.bytes.take i ++
        (src ++ t.encryptedStream.buffer.bytes.drop (i + src.length)) →
      Q () { t with encryptedStream := { t.encryptedStream with buffer } } w) :
    wp E (copyToBuffer i src : Method T LA Unit) Q R t w := by
  have hlen : i + src.length ≤ t.encryptedStream.buffer.bytes.length := by
    rw [t.encryptedStream.buffer.length_eq]
    exact hi
  have hcopy := copyFromSlice_isSome hlen
  show wp E (orPanic (t.encryptedStream.buffer.write i src) >>= _) Q R t w
  unfold Buffer.write
  split
  · rename_i hnone
    rw [hcopy] at hnone
    cases hnone
  · rename_i bytes hsome
    rw [hcopy] at hsome
    exact hQ _ (Option.some.inj hsome).symm

theorem wp_incrementNonce {E : Env (Thread T) (Wire ⊕ L) (Ans LA) W}
    {Q : Unit → Thread T → W → Prop} {R : Exc → Thread T → W → Prop}
    (hQ : t.encryptedStream.nonce < nonceMax → Q () { t with
      encryptedStream := { t.encryptedStream with nonce := t.encryptedStream.nonce + 1 } } w)
    (hR : nonceMax ≤ t.encryptedStream.nonce → ∀ e, R (.err e) t w) :
    wp E (incrementNonce : Method T LA Unit) Q R t w := by
  show wp E (throwIf (nonceMax ≤ t.encryptedStream.nonce) _ >>= _) Q R t w
  refine (wp_bind _ _).mpr ((wp_throwIf _ _).mpr ?_)
  split
  · exact hR ‹_› _
  · exact hQ (Nat.lt_of_not_le ‹_›)

variable [Crates] {Γ : MessageProtocol σ} {me : Side} {mayBreak : Prop}
  {LE : Env (Thread T) L LA W}

/-- One frame is read: the next one of the protocol. -/
theorem wp_readFrame {u : View σ} {readSize : Nat} {error : Str}
    {Q : List UInt8 → Thread T → W × Option (View σ) → Prop}
    {R : Exc → Thread T → W × Option (View σ) → Prop} (hn : t.encryptedStream.nonce = u.count)
    (hmax : u.count ≤ nonceMax) (hsize : readSize ≤ totalCryptoBufferSize)
    (hturn : Γ.turn u.state = me.other) (hex : ∃ f, (Γ.next u f).isSome)
    (hfit : ∀ f u', Γ.next u f = some u' → f.2.length + cryptoExtensionSize = readSize)
    (hQ : ∀ bytes u', Γ.next u (u.count, bytes) = some u' → Q bytes t (w, some u'))
    (hR : ∀ e, mayBreak → R e t (w, none)) :
    wp (onWire Γ me mayBreak LE) (readFrame readSize error : Method T LA (List UInt8)) Q R t
      (w, some u) := by
  have hnonce : t.encryptedStream.getNonceBytes = u.count := by
    rw [getNonceBytes_eq (hn ▸ hmax), hn]
  refine (wp_bind _ _).mpr ((wp_throwIf _ _).mpr ?_)
  rw [if_neg (Nat.not_lt.mpr hsize)]
  show wp _ (issue (Sum.inl (Wire.unseal t.encryptedStream.getNonceBytes readSize)) >>= _) Q R t _
  rw [hnonce]
  refine (wp_bind _ _).mpr ⟨⟨u, rfl, hturn, hex, fun f u' hf => ?_⟩, fun a w' hs => ?_⟩
  · exact ⟨MessageProtocol.next_number hf, hfit f u' hf⟩
  · obtain ⟨w₁, v⟩ := w'
    obtain ⟨rfl, hs⟩ := hs
    cases a with
    | plain bytes =>
      obtain ⟨u₁, u', hu, hnext, rfl⟩ := hs
      obtain rfl := Option.some.inj hu
      exact hQ bytes u' hnext
    | io e =>
      obtain ⟨hb, rfl⟩ := hs
      exact hR _ hb
    | rejected e =>
      obtain ⟨hb, rfl⟩ := hs
      exact hR _ hb

/-- One frame is written, if the protocol allows it. -/
theorem wp_writeFrame {u u' : View σ} {used : Nat} {plain : List UInt8} {error : Str}
    {Q : Unit → Thread T → W × Option (View σ) → Prop}
    {R : Exc → Thread T → W × Option (View σ) → Prop} (hn : t.encryptedStream.nonce = u.count)
    (hmax : u.count ≤ nonceMax) (hplain : slice t.encryptedStream.buffer.bytes 0 used = some plain)
    (hturn : Γ.turn u.state = me) (hnext : Γ.next u (u.count, plain) = some u')
    (hQ : u.count < nonceMax → Q () { t with
      encryptedStream := { t.encryptedStream with nonce := u.count + 1 } } (w, some u'))
    (hR : ∀ e v, mayBreak ∨ nonceMax ≤ u.count → R e t (w, v)) :
    wp (onWire Γ me mayBreak LE) (writeFrame used error : Method T LA Unit) Q R t (w, some u) := by
  have hnonce : t.encryptedStream.getNonceBytes = u.count := by
    rw [getNonceBytes_eq (hn ▸ hmax), hn]
  show wp _ (orPanic (slice t.encryptedStream.buffer.bytes 0 used) >>= _) Q R t _
  rw [hplain]
  show wp _ (issue (Sum.inl (Wire.seal t.encryptedStream.getNonceBytes plain)) >>= _) Q R t _
  rw [hnonce]
  refine (wp_bind _ _).mpr ⟨⟨u, rfl, hturn, by rw [hnext]; rfl⟩, fun a w' hs => ?_⟩
  obtain ⟨w₁, v⟩ := w'
  obtain ⟨rfl, hs⟩ := hs
  cases a with
  | done =>
    obtain ⟨u₁, u₂, hu, hnext', rfl⟩ := hs
    obtain rfl := Option.some.inj hu
    rw [hnext] at hnext'
    obtain rfl := Option.some.inj hnext'
    refine wp_incrementNonce (fun hlt => ?_) fun hle e => hR _ _ (.inr (hn ▸ hle))
    rw [hn] at hlt ⊢
    exact hQ hlt
  | io e =>
    obtain ⟨hb, rfl⟩ := hs
    exact hR _ _ (.inl hb)
  | rejected e =>
    obtain ⟨hb, rfl⟩ := hs
    exact hR _ _ (.inl hb)

/-- Some frame may come where a message may. -/
theorem next_of_opens {s : σ} {n : Nat} (h : ∃ msg size, Γ.opens s msg size = true) :
    ∃ f, (Γ.next ⟨s, n, none⟩ f).isSome := by
  obtain ⟨msg, size, hopen⟩ := h
  by_cases hsize : size = 0
  · subst hsize
    obtain ⟨payload, s', hlen, hs⟩ := Γ.delivers s msg 0 hopen
    rw [List.length_eq_zero_iff.mp hlen] at hs
    exact ⟨_, by rw [MessageProtocol.next_of_empty hopen hs]; rfl⟩
  · have hlt : size < 2 ^ 32 := Nat.lt_of_le_of_lt (Γ.small s msg size hopen) (by decide)
    exact ⟨_, by rw [MessageProtocol.next_of_header hlt hsize hopen]; rfl⟩

/-- The number of frames of a message. -/
def frameCount (payload : List UInt8) : Nat := if payload = [] then 1 else 2

omit [Crates] in
theorem frameCount_pos (payload : List UInt8) : 1 ≤ frameCount payload := by
  unfold frameCount
  split
  · exact le_rfl
  · exact Nat.le_succ 1

omit [Crates] in
theorem frameCount_le (payload : List UInt8) : frameCount payload ≤ 2 := by
  unfold frameCount
  split
  · exact Nat.le_succ 1
  · exact le_rfl

omit [Crates] in
theorem frameCount_of_length {payload : List UInt8} (h : payload.length ≠ 0) :
    frameCount payload = 2 := if_neg fun hnil => h (List.length_eq_zero_iff.mpr hnil)

/-- The next message does not fit into the numbers left. -/
def MessageProtocol.Exhausted (Γ : MessageProtocol σ) (s : σ) (n : Nat) : Prop :=
  ∃ msg payload s', Γ.opens s msg payload.length = true ∧ Γ.deliver s msg payload = some s' ∧
    nonceMax < n + frameCount payload

omit [Crates] in
theorem exhausted_of_opens {s : σ} {n size : Nat} {msg : UInt16}
    (hopen : Γ.opens s msg size = true) (h : nonceMax < n + if size = 0 then 1 else 2) :
    Γ.Exhausted s n := by
  obtain ⟨payload, s', hlen, hs⟩ := Γ.delivers s msg size hopen
  refine ⟨msg, payload, s', hlen ▸ hopen, hs, ?_⟩
  unfold frameCount
  by_cases hsize : size = 0
  · rw [if_pos hsize] at h
    rw [if_pos (List.length_eq_zero_iff.mp (hlen.trans hsize))]
    exact h
  · rw [if_neg hsize] at h
    rw [if_neg fun hnil => hsize (by rw [← hlen, hnil, List.length_nil])]
    exact h

/-- The rest of a message with a payload. -/
theorem wp_readPayload {s : σ} {n : Nat} {front rest : List UInt8}
    {Q : Unit → Thread T → W × Option (View σ) → Prop}
    {R : Exc → Thread T → W × Option (View σ) → Prop} (hlen : front.length = payloadOffset)
    (hopen : Γ.opens s (msgOf front) (sizeOf' front) = true)
    (hbuffer : t.encryptedStream.buffer.bytes = front ++ rest)
    (hn : t.encryptedStream.nonce = n + 1) (hlt : n < nonceMax) (hturn : Γ.turn s = me.other)
    (hQ : ∀ payload s' buffer, payload.length = sizeOf' front →
      Γ.deliver s (msgOf front) payload = some s' → n + 2 ≤ nonceMax →
      EncryptedStream.Holds { t.encryptedStream with nonce := n + 2, buffer } (msgOf front) payload →
      Q () { t with encryptedStream := { t.encryptedStream with nonce := n + 2, buffer } }
        (w, some ⟨s', n + 2, none⟩))
    (hR : ∀ e t' v, t'.self = t.self → mayBreak ∨ nonceMax < n + 2 → R e t' (w, v)) :
    wp (onWire Γ me mayBreak LE) (do
      let plaintextPayload ← readFrame (sizeOf' front + cryptoExtensionSize +
        if EncryptedStream.isCrcPayload (msgOf front) then crcSize else 0)
        "Encrypted Stream read failed to decrypt payload. ".toList
      copyToBuffer front.length plaintextPayload
      incrementNonce : Method T LA Unit) Q R t (w, some ⟨s, n + 1, some (msgOf front, sizeOf' front)⟩) := by
  have hsmall : sizeOf' front ≤ maxDataSize := Γ.small _ _ _ hopen
  have hcrc : (if EncryptedStream.isCrcPayload (msgOf front) then crcSize else 0) ≤ crcSize := by
    split
    · exact le_rfl
    · exact Nat.zero_le _
  generalize hc : (if EncryptedStream.isCrcPayload (msgOf front) then crcSize else 0) = crc at hcrc ⊢
  have htotal : payloadOffset + sizeOf' front + crc ≤ totalBufferSize := by
    have h : payloadOffset + maxDataSize + crcSize = totalBufferSize := by decide
    omega
  have hcrypto : sizeOf' front + cryptoExtensionSize + crc ≤ totalCryptoBufferSize := by
    have h : totalBufferSize + cryptoExtensionSize = totalCryptoBufferSize := rfl
    omega
  have hex : ∃ f, (Γ.next ⟨s, n + 1, some (msgOf front, sizeOf' front)⟩ f).isSome := by
    obtain ⟨payload, s', hl, hs'⟩ := Γ.delivers _ _ _ hopen
    rw [← hl]
    exact ⟨_, by rw [MessageProtocol.next_of_body hs']; rfl⟩
  refine (wp_bind _ _).mpr (wp_readFrame hn hlt hcrypto hturn hex (fun f u' hf => ?_)
    (fun bytes u' hnext => ?_) fun e hb => hR e t _ rfl (.inl hb))
  · obtain ⟨payload, s', hl, hf, -, -⟩ := MessageProtocol.next_body hf rfl
    rw [hf, length_body, hl, hc]
    omega
  obtain ⟨payload, s', hl, hbytes, hs', rfl⟩ := MessageProtocol.next_body hnext rfl
  obtain rfl : bytes = body (msgOf front) payload := hbytes
  refine (wp_bind _ _).mpr (wp_copyToBuffer ?_ fun buffer hb => ?_)
  · rw [length_body, hl, hc, hlen]
    omega
  rw [hbuffer, List.take_left] at hb
  refine wp_incrementNonce (fun hlt' => ?_) fun hle e => ?_
  · have hlt' : t.encryptedStream.nonce < nonceMax := hlt'
    rw [hn] at hlt' ⊢
    exact hQ payload s' buffer hl hs' hlt' (holds_body hb hlen hl.symm)
  · have hle : nonceMax ≤ t.encryptedStream.nonce := hle
    rw [hn] at hle
    exact hR _ _ _ rfl (.inr (by omega))

/-- **Reading a message**: it is the next one of the protocol. -/
theorem wp_read {s : σ} {n : Nat} {Q : Unit → Thread T → W × Option (View σ) → Prop}
    {R : Exc → Thread T → W × Option (View σ) → Prop} (hn : t.encryptedStream.nonce = n)
    (hmax : n ≤ nonceMax) (hturn : Γ.turn s = me.other)
    (hopen : ∃ msg size, Γ.opens s msg size = true)
    (hQ : ∀ msg payload s' nonce buffer, Γ.opens s msg payload.length = true →
      Γ.deliver s msg payload = some s' → nonce = n + frameCount payload → nonce ≤ nonceMax →
      EncryptedStream.Holds { t.encryptedStream with nonce, buffer } msg payload →
      Q () { t with encryptedStream := { t.encryptedStream with nonce, buffer } }
        (w, some ⟨s', nonce, none⟩))
    (hR : ∀ e t' v, t'.self = t.self → mayBreak ∨ Γ.Exhausted s n → R e t' (w, v)) :
    wp (onWire Γ me mayBreak LE) (read : Method T LA Unit) Q R t (w, some ⟨s, n, none⟩) := by
  refine (wp_bind _ _).mpr (wp_readFrame hn hmax (by decide) hturn (next_of_opens hopen)
    (fun f u' hf => ?_) (fun front u₁ hnext => ?_) fun e hb => hR e t _ rfl (.inl hb))
  · rw [(MessageProtocol.next_header hf rfl).1]
  obtain ⟨hlen, hfront, hcases⟩ := MessageProtocol.next_header hnext rfl
  refine (wp_bind _ _).mpr (wp_copyToBuffer ?_ fun buffer₁ hbuffer₁ => ?_)
  · rw [Nat.zero_add, show front.length = payloadOffset from hlen]
    decide
  rw [List.take_zero, List.nil_append] at hbuffer₁
  refine (wp_bind _ _).mpr (wp_incrementNonce (fun hlt => ?_) fun hle e => ?_)
  rotate_left
  · have hle : nonceMax ≤ n := hn ▸ hle
    refine hR _ _ _ rfl (.inr (exhausted_of_opens hfront ?_))
    split
    · omega
    · omega
  have hlt : n < nonceMax := hn ▸ hlt
  rw [hn]
  generalize hes : { t.encryptedStream with buffer := buffer₁, nonce := n + 1 } = es₁
  have hes₁ : ∃ rest, es₁.buffer.bytes = front ++ rest := ⟨_, by rw [← hes]; exact hbuffer₁⟩
  obtain ⟨rest, hrest⟩ := hes₁
  have hsize := payloadSize_front hrest hlen
  have hmsg := getMessage_front hrest hlen
  show wp _ (if es₁.payloadSize ≠ 0 then _ else pure ()) Q R ⟨t.self, es₁⟩ _
  refine (wp_ite _ _ _).mpr ?_
  rw [hsize]
  rcases hcases with ⟨hzero, s', hs', rfl⟩ | ⟨hne, rfl⟩
  · rw [if_neg (not_not.mpr hzero)]
    have hholds := holds_header hrest hlen hzero
    rw [← hes] at hholds ⊢
    refine hQ _ [] s' (n + 1) buffer₁ ?_ hs' rfl hlt hholds
    rw [List.length_nil, ← hzero]
    exact hfront
  · rw [if_pos hne]
    simp only [hmsg]
    refine (wp_readPayload hlen hfront (by rw [← hes]; exact hbuffer₁) (by rw [← hes])
      hlt hturn (fun payload s' buffer hpayload hs' hmax' hholds => ?_) fun e t' v ht hb => ?_)
    · rw [← hes] at hholds ⊢
      refine hQ _ payload s' (n + 2) buffer (hpayload ▸ hfront) hs' ?_ hmax' hholds
      rw [frameCount_of_length (hpayload ▸ hne)]
    · refine hR e t' v ht (hb.imp_right fun h => exhausted_of_opens hfront ?_)
      rw [if_neg hne]
      exact h

/-- The first frame of a message. -/
theorem wp_writeMessage {u u' : View σ} {msg : UInt16} {payload : List UInt8}
    {Q : Unit → Thread T → W × Option (View σ) → Prop}
    {R : Exc → Thread T → W × Option (View σ) → Prop} (hn : t.encryptedStream.nonce = u.count)
    (hmax : u.count ≤ nonceMax) (hturn : Γ.turn u.state = me) (hsmall : payload.length ≤ maxDataSize)
    (hnext : Γ.next u (u.count, header msg payload.length) = some u')
    (hQ : ∀ buffer, u.count < nonceMax → Q () { t with
      encryptedStream := { t.encryptedStream with nonce := u.count + 1, buffer } } (w, some u'))
    (hR : ∀ e t' v, t'.self = t.self → mayBreak ∨ nonceMax ≤ u.count → R e t' (w, v)) :
    wp (onWire Γ me mayBreak LE) (writeMessage msg payload : Method T LA Unit) Q R t
      (w, some u) := by
  have hmod : payload.length % 2 ^ 32 = payload.length :=
    Nat.mod_eq_of_lt (Nat.lt_of_le_of_lt hsmall (by decide))
  refine (wp_bind _ _).mpr (wp_copyToBuffer (by rw [length_beBytes]; decide) fun b₁ hb₁ => ?_)
  rw [List.take_zero, List.nil_append] at hb₁
  refine (wp_bind _ _).mpr (wp_copyToBuffer (by rw [length_beBytes]; decide) fun b₂ hb₂ => ?_)
  have htake : b₁.bytes.take msgTypeSize = beBytes msgTypeSize msg.toNat := by
    rw [hb₁]
    exact List.take_left' (length_beBytes _ _)
  have hb₂ : b₂.bytes = b₁.bytes.take msgTypeSize ++ (beBytes payloadSizeLen payload.length ++
      b₁.bytes.drop (msgTypeSize + (beBytes payloadSizeLen payload.length).length)) := by
    rw [← hmod]
    exact hb₂
  have hslice : slice b₂.bytes 0 payloadOffset = some (header msg payload.length) := by
    rw [hb₂, htake, ← List.append_assoc]
    exact slice_front (length_header msg payload.length)
  refine wp_writeFrame hn hmax hslice hturn hnext (fun hlt => hQ b₂ hlt) fun e v h => ?_
  exact hR e _ v rfl h

/-- **Writing a message** that may come next. -/
theorem wp_write {s s' : σ} {n : Nat} {msg : UInt16} {payload : List UInt8}
    {Q : Unit → Thread T → W × Option (View σ) → Prop}
    {R : Exc → Thread T → W × Option (View σ) → Prop} (hn : t.encryptedStream.nonce = n)
    (hmax : n ≤ nonceMax) (hturn : Γ.turn s = me) (hopen : Γ.opens s msg payload.length = true)
    (hs : Γ.deliver s msg payload = some s')
    (hQ : ∀ nonce buffer, nonce = n + frameCount payload → nonce ≤ nonceMax → Q () { t with
      encryptedStream := { t.encryptedStream with nonce, buffer } } (w, some ⟨s', nonce, none⟩))
    (hR : ∀ e t' v, t'.self = t.self → mayBreak ∨ nonceMax < n + frameCount payload →
      R e t' (w, v)) :
    wp (onWire Γ me mayBreak LE) (write msg payload : Method T LA Unit) Q R t
      (w, some ⟨s, n, none⟩) := by
  have hsmall : payload.length ≤ maxDataSize := Γ.small _ _ _ hopen
  refine (wp_bind _ _).mpr ?_
  by_cases hnil : payload = []
  · subst hnil
    refine wp_writeMessage hn hmax hturn hsmall (MessageProtocol.next_of_empty hopen hs)
      (fun buffer hlt => ?_) fun e t' v ht hb => hR e t' v ht (hb.imp_right fun h => ?_)
    · rw [if_neg (not_not.mpr rfl)]
      exact hQ (n + 1) buffer rfl hlt
    · have h : nonceMax ≤ n := h
      exact Nat.lt_succ_of_le h
  have hlt32 : payload.length < 2 ^ 32 := Nat.lt_of_le_of_lt hsmall (by decide)
  have hne : payload.length ≠ 0 := fun h => hnil (List.length_eq_zero_iff.mp h)
  refine wp_writeMessage hn hmax hturn hsmall (MessageProtocol.next_of_header hlt32 hne hopen)
    (fun b₁ hlt => ?_) fun e t' v ht hb => hR e t' v ht (hb.imp_right fun h => ?_)
  rotate_left
  · have h : nonceMax ≤ n := h
    have hpos := frameCount_pos payload
    omega
  have hcount : frameCount payload = 2 := frameCount_of_length hne
  rw [if_pos hnil]
  have hlt : n < nonceMax := hlt
  have hfit : payload.length + crcSize ≤ totalBufferSize := by
    have h : payloadOffset + maxDataSize + crcSize = totalBufferSize := by decide
    omega
  have hbody : Γ.next ⟨s, n + 1, some (msg, payload.length)⟩ (n + 1, body msg payload) =
      some ⟨s', n + 2, none⟩ := MessageProtocol.next_of_body hs
  refine (wp_bind _ _).mpr (wp_copyToBuffer (by omega) fun b₂ hb₂ => ?_)
  rw [List.take_zero, List.nil_append] at hb₂
  have hfail : ∀ (e : Exc) (t' : Thread T) (v : Option (View σ)), t'.self = t.self →
      mayBreak ∨ nonceMax ≤ n + 1 → R e t' (w, v) := by
    intro e t' v ht hb
    exact hR e t' v ht (hb.imp_right fun h => by omega)
  by_cases hcrc : EncryptedStream.isCrcPayload msg = true
  · rw [if_pos hcrc]
    refine (wp_bind _ _).mpr (wp_copyToBuffer (by rw [length_beBytes]; exact hfit) fun b₃ hb₃ => ?_)
    have htake : b₂.bytes.take payload.length = payload := by
      rw [hb₂]
      exact List.take_left
    have hslice : slice b₃.bytes 0 (payload.length + crcSize) = some (body msg payload) := by
      rw [hb₃, htake, ← List.append_assoc, show body msg payload = _ from if_pos hcrc]
      exact slice_front (by simp)
    exact wp_writeFrame rfl hlt hslice hturn hbody (fun hlt' => hQ (n + 2) b₃ (by rw [hcount]) hlt')
      fun e v h => hfail e _ v rfl h
  · rw [if_neg hcrc]
    have hslice : slice b₂.bytes 0 payload.length = some (body msg payload) := by
      rw [hb₂, show body msg payload = _ from if_neg hcrc]
      exact slice_front rfl
    exact wp_writeFrame rfl hlt hslice hturn hbody (fun hlt' => hQ (n + 2) b₂ (by rw [hcount]) hlt')
      fun e v h => hfail e _ v rfl h

omit [Crates] in
/-- A payload of the size of a piece has its place in the buffer, with its checksum. -/
theorem fits_of_small {payload : List UInt8} (h : payload.length ≤ maxDataSize) :
    payload.length + crcSize ≤ totalBufferSize := by
  have hsum : payloadOffset + maxDataSize + crcSize = totalBufferSize := by decide
  omega

/-- `k` frames later: the counter is that much further, and the thread's own state the same. -/
structure Passed (t : Thread T) (k : Nat) (t' : Thread T) : Prop where
  self : t'.self = t.self
  nonce : t'.encryptedStream.nonce = t.encryptedStream.nonce + k

/-- **Writing a message in any surroundings**: its first frame is its header, and where it has a payload
    the second one is its body. Each is encrypted under the number the counter then has. `J` holds in
    between. A frame that is not written, and the end of the counter, are errors. -/
theorem wp_write_numbered {E : Env (Thread T) (Wire ⊕ L) (Ans LA) W} {msg : UInt16}
    {payload : List UInt8} {J : W → Prop} {Q : Unit → Thread T → W → Prop}
    {R : Exc → Thread T → W → Prop} (hfit : payload.length + crcSize ≤ totalBufferSize)
    (hheader : ∀ t', Passed t 0 t' →
      E.ok w t' (.inl (.seal t'.encryptedStream.getNonceBytes (header msg payload.length))) ∧
        ∀ a w', E.step w t'
            (.inl (.seal t'.encryptedStream.getNonceBytes (header msg payload.length))) a w' →
          (a = Sealed.done → t'.encryptedStream.nonce < nonceMax → J w') ∧
            (a ≠ Sealed.done ∨ nonceMax ≤ t'.encryptedStream.nonce → ∀ e, R (.err e) t' w'))
    (hnil : payload = [] → ∀ t' w', Passed t 1 t' → J w' → Q () t' w')
    (hbody : payload ≠ [] → ∀ t' w', Passed t 1 t' → J w' →
      E.ok w' t' (.inl (.seal t'.encryptedStream.getNonceBytes (body msg payload))) ∧
        ∀ a w'', E.step w' t'
            (.inl (.seal t'.encryptedStream.getNonceBytes (body msg payload))) a w'' →
          (a = Sealed.done → t'.encryptedStream.nonce < nonceMax →
            ∀ t'', Passed t 2 t'' → Q () t'' w'') ∧
          (a ≠ Sealed.done ∨ nonceMax ≤ t'.encryptedStream.nonce → ∀ e, R (.err e) t' w'')) :
    wp E (write msg payload : Method T LA Unit) Q R t w := by
  have hmod : payload.length % 2 ^ 32 = payload.length :=
    Nat.mod_eq_of_lt (Nat.lt_of_le_of_lt (Nat.le_of_add_right_le hfit) (by decide))
  -- one frame: the thread's own state is as it was, whatever the answer
  have hframe : ∀ {k : Nat} {t₁ : Thread T} {w₁ : W} {used : Nat} {plain : List UInt8} {error : Str}
      {K : Unit → Thread T → W → Prop}, Passed t k t₁ →
      slice t₁.encryptedStream.buffer.bytes 0 used = some plain →
      E.ok w₁ t₁ (.inl (.seal t₁.encryptedStream.getNonceBytes plain)) →
      (∀ a w', E.step w₁ t₁ (.inl (.seal t₁.encryptedStream.getNonceBytes plain)) a w' →
        (a = Sealed.done → t₁.encryptedStream.nonce < nonceMax →
          ∀ t'', Passed t (k + 1) t'' → K () t'' w') ∧
        (a ≠ Sealed.done ∨ nonceMax ≤ t₁.encryptedStream.nonce → ∀ e, R (.err e) t₁ w')) →
      wp E (writeFrame used error : Method T LA Unit) K R t₁ w₁ := by
    intro k t₁ w₁ used plain error K ht hslice hok hstep
    show wp _ (orPanic (slice t₁.encryptedStream.buffer.bytes 0 used) >>= _) K R t₁ w₁
    rw [hslice]
    refine (wp_bind _ _).mpr ⟨hok, fun a w' hs => ?_⟩
    obtain ⟨hdone, hfail⟩ := hstep a w' hs
    cases a with
    | done =>
      have hpassed : Passed t (k + 1) { t₁ with
          encryptedStream := { t₁.encryptedStream with nonce := t₁.encryptedStream.nonce + 1 } } :=
        ⟨ht.self, congrArg (· + 1) ht.nonce⟩
      exact wp_incrementNonce (fun hlt => hdone rfl hlt _ hpassed) fun hle e => hfail (.inr hle) e
    | io e => exact hfail (.inl nofun) _
    | rejected e => exact hfail (.inl nofun) _
  have hfirst : wp E (writeMessage msg payload : Method T LA Unit)
      (fun _ t' w' => Passed t 1 t' ∧ J w') R t w := by
    refine (wp_bind _ _).mpr (wp_copyToBuffer (by rw [length_beBytes]; decide) fun b₁ hb₁ => ?_)
    rw [List.take_zero, List.nil_append] at hb₁
    refine (wp_bind _ _).mpr (wp_copyToBuffer (by rw [length_beBytes]; decide) fun b₂ hb₂ => ?_)
    have htake : b₁.bytes.take msgTypeSize = beBytes msgTypeSize msg.toNat := by
      rw [hb₁]
      exact List.take_left' (length_beBytes _ _)
    have hb₂ : b₂.bytes = b₁.bytes.take msgTypeSize ++ (beBytes payloadSizeLen payload.length ++
        b₁.bytes.drop (msgTypeSize + (beBytes payloadSizeLen payload.length).length)) := by
      rw [← hmod]
      exact hb₂
    have hslice : slice b₂.bytes 0 payloadOffset = some (header msg payload.length) := by
      rw [hb₂, htake, ← List.append_assoc]
      exact slice_front (length_header msg payload.length)
    refine hframe (k := 0) ⟨rfl, rfl⟩ hslice (hheader _ (by exact ⟨rfl, rfl⟩)).1 fun a w' hs => ?_
    obtain ⟨hdone, hfail⟩ := (hheader _ (by exact ⟨rfl, rfl⟩)).2 a w' hs
    exact ⟨fun ha hlt t'' ht => ⟨ht, hdone ha hlt⟩, hfail⟩
  refine wp_seq hfirst (fun _ t' w' h' => ?_) fun _ _ _ h' => h'
  obtain ⟨ht, hJ⟩ := h'
  rw [wp_ite]
  by_cases hempty : payload = []
  · rw [if_neg (not_not.mpr hempty)]
    exact hnil hempty t' w' ht hJ
  · rw [if_pos hempty]
    refine (wp_bind _ _).mpr (wp_copyToBuffer (by omega) fun b₂ hb₂ => ?_)
    rw [List.take_zero, List.nil_append] at hb₂
    rw [wp_ite]
    by_cases hcrc : EncryptedStream.isCrcPayload msg = true
    · rw [if_pos hcrc]
      refine (wp_bind _ _).mpr (wp_copyToBuffer (by rw [length_beBytes]; exact hfit) fun b₃ hb₃ => ?_)
      have htake : b₂.bytes.take payload.length = payload := by
        rw [hb₂]
        exact List.take_left
      have hslice : slice b₃.bytes 0 (payload.length + crcSize) = some (body msg payload) := by
        rw [hb₃, htake, ← List.append_assoc, show body msg payload = _ from if_pos hcrc]
        exact slice_front (by simp)
      exact hframe (k := 1) ⟨ht.self, ht.nonce⟩ hslice
        (hbody hempty _ w' (by exact ⟨ht.self, ht.nonce⟩) hJ).1
        fun a w'' hs => (hbody hempty _ w' (by exact ⟨ht.self, ht.nonce⟩) hJ).2 a w'' hs
    · rw [if_neg hcrc]
      have hslice : slice b₂.bytes 0 payload.length = some (body msg payload) := by
        rw [hb₂, show body msg payload = _ from if_neg hcrc]
        exact slice_front rfl
      exact hframe (k := 1) ⟨ht.self, ht.nonce⟩ hslice
        (hbody hempty _ w' (by exact ⟨ht.self, ht.nonce⟩) hJ).1
        fun a w'' hs => (hbody hempty _ w' (by exact ⟨ht.self, ht.nonce⟩) hJ).2 a w'' hs

/-- The same, whatever the numbers. -/
theorem wp_write_counted {E : Env (Thread T) (Wire ⊕ L) (Ans LA) W} {msg : UInt16}
    {payload : List UInt8} {J : W → Prop} {Q : Unit → Thread T → W → Prop}
    {R : Exc → Thread T → W → Prop} (hfit : payload.length + crcSize ≤ totalBufferSize)
    (hheader : ∀ t' n, Passed t 0 t' →
      E.ok w t' (.inl (.seal n (header msg payload.length))) ∧
        ∀ a w', E.step w t' (.inl (.seal n (header msg payload.length))) a w' →
          (a = Sealed.done → t'.encryptedStream.nonce < nonceMax → J w') ∧
            (a ≠ Sealed.done ∨ nonceMax ≤ t'.encryptedStream.nonce → ∀ e, R (.err e) t' w'))
    (hnil : payload = [] → ∀ t' w', Passed t 1 t' → J w' → Q () t' w')
    (hbody : payload ≠ [] → ∀ t' n w', Passed t 1 t' → J w' →
      E.ok w' t' (.inl (.seal n (body msg payload))) ∧
        ∀ a w'', E.step w' t' (.inl (.seal n (body msg payload))) a w'' →
          (a = Sealed.done → t'.encryptedStream.nonce < nonceMax →
            ∀ t'', Passed t 2 t'' → Q () t'' w'') ∧
          (a ≠ Sealed.done ∨ nonceMax ≤ t'.encryptedStream.nonce → ∀ e, R (.err e) t' w'')) :
    wp E (write msg payload : Method T LA Unit) Q R t w :=
  wp_write_numbered hfit (fun t' => hheader t' _) hnil fun hne t' => hbody hne t' _

/-- The same, with one case for the end of the counter after the first frame. -/
theorem wp_write_sealed {E : Env (Thread T) (Wire ⊕ L) (Ans LA) W} {msg : UInt16}
    {payload : List UInt8} {J : W → Prop} {Q : Unit → Thread T → W → Prop}
    {R : Exc → Thread T → W → Prop} (hfit : payload.length + crcSize ≤ totalBufferSize)
    (hheader : ∀ t' n, t'.self = t.self →
      E.ok w t' (.inl (.seal n (header msg payload.length))) ∧
        ∀ a w', E.step w t' (.inl (.seal n (header msg payload.length))) a w' →
          (a = Sealed.done → J w') ∧
            (a ≠ Sealed.done → ∀ e t'', t''.self = t.self → R (.err e) t'' w'))
    (hnil : payload = [] → ∀ t' w', t'.self = t.self → J w' → Q () t' w')
    (hbody : payload ≠ [] → ∀ t' n w', t'.self = t.self → J w' →
      E.ok w' t' (.inl (.seal n (body msg payload))) ∧
        ∀ a w'', E.step w' t' (.inl (.seal n (body msg payload))) a w'' →
          (a = Sealed.done → (∀ t'', t''.self = t.self → Q () t'' w'') ∧ ∀ e t'',
            t''.self = t.self → nonceMax ≤ t''.encryptedStream.nonce → R (.err e) t'' w'') ∧
          (a ≠ Sealed.done → ∀ e t'', t''.self = t.self → R (.err e) t'' w''))
    (hfull : ∀ e t' w', t'.self = t.self → J w' → nonceMax ≤ t'.encryptedStream.nonce →
      R (.err e) t' w') :
    wp E (write msg payload : Method T LA Unit) Q R t w := by
  refine wp_write_counted hfit (fun t' n ht => ⟨(hheader t' n ht.self).1, fun a w' hs => ?_⟩)
    (fun hempty t' w' ht => hnil hempty t' w' ht.self)
    fun hne t' n w' ht hJ => ⟨(hbody hne t' n w' ht.self hJ).1, fun a w'' hs => ?_⟩
  · obtain ⟨hdone, hfail⟩ := (hheader t' n ht.self).2 a w' hs
    refine ⟨fun ha _ => hdone ha, fun hcause e => ?_⟩
    by_cases ha : a = Sealed.done
    · exact hfull e t' w' ht.self (hdone ha) (hcause.resolve_left (not_not.mpr ha))
    · exact hfail ha e t' ht.self
  · obtain ⟨hdone, hfail⟩ := (hbody hne t' n w' ht.self hJ).2 a w'' hs
    refine ⟨fun ha _ t'' ht'' => (hdone ha).1 t'' ht''.self, fun hcause e => ?_⟩
    by_cases ha : a = Sealed.done
    · exact (hdone ha).2 e t' ht.self (hcause.resolve_left (not_not.mpr ha))
    · exact hfail ha e t' ht.self

/-- The same, where it makes no difference whether a frame is written. -/
theorem wp_write_frames {E : Env (Thread T) (Wire ⊕ L) (Ans LA) W} {msg : UInt16}
    {payload : List UInt8} {J : W → Prop} {Q : Unit → Thread T → W → Prop}
    {R : Exc → Thread T → W → Prop} (hsmall : payload.length ≤ maxDataSize)
    (hheader : ∀ t' n, t'.self = t.self →
      E.ok w t' (.inl (.seal n (header msg payload.length))) ∧
        ∀ a w', E.step w t' (.inl (.seal n (header msg payload.length))) a w' → J w')
    (hnil : payload = [] → ∀ t' w', t'.self = t.self → J w' → Q () t' w')
    (hbody : payload ≠ [] → ∀ t' n w', t'.self = t.self → J w' →
      E.ok w' t' (.inl (.seal n (body msg payload))) ∧
        ∀ a w'', E.step w' t' (.inl (.seal n (body msg payload))) a w'' →
          (∀ t'', t''.self = t.self → Q () t'' w'') ∧
            ∀ e t'', t''.self = t.self → R (.err e) t'' w'')
    (hR : ∀ e t' w', t'.self = t.self → J w' → R (.err e) t' w') :
    wp E (write msg payload : Method T LA Unit) Q R t w := by
  refine wp_write_sealed (fits_of_small hsmall) (fun t' n ht => ⟨(hheader t' n ht).1, fun a w' hs => ?_⟩) hnil
    (fun hne t' n w' ht hJ => ⟨(hbody hne t' n w' ht hJ).1, fun a w'' hs => ?_⟩)
    fun e t' w' ht hJ _ => hR e t' w' ht hJ
  · have hJ := (hheader t' n ht).2 a w' hs
    exact ⟨fun _ => hJ, fun _ e t'' ht'' => hR e t'' w' ht'' hJ⟩
  · obtain ⟨hQ, hfail⟩ := (hbody hne t' n w' ht hJ).2 a w'' hs
    exact ⟨fun _ => ⟨hQ, fun e t'' ht'' _ => hfail e t'' ht''⟩, fun _ => hfail⟩

end Frames

end Transmitic
