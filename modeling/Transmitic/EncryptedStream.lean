/-
  File:      Transmitic/EncryptedStream.lean
  Subject:   THE ENCRYPTED STREAM (encrypted_stream.rs): a message is written as one or two frames,
             each encrypted under the next value of one counter, and read back the same way.

  A thread works on its own state (`Thread.self`) and on one encrypted stream. Its commands are
  those of the stream (`Wire`) and those of its own (`L`).

  * `Wire` -- encrypting a frame and writing it to the socket, reading a frame and decrypting it;
  * `read`, `write`, `EncryptedStream.getMessage`, `EncryptedStream.getPayload`;
  * `steady_read`, `steady_write` -- a message passes without a change of the thread's own state.
-/
import Transmitic.Config
import Transmitic.Lib.Bytes
import Transmitic.Lib.Invariant

namespace Transmitic

open Lib

/-! ## 1. The stream -/

/-- The plaintext buffer: its length never changes. -/
structure Buffer where
  bytes : List UInt8
  length_eq : bytes.length = totalBufferSize

def Buffer.zero : Buffer := ⟨List.replicate totalBufferSize 0, List.length_replicate⟩

/-- `buffer[i..i + src.len()].copy_from_slice(src)`; `none` where that panics. -/
def Buffer.write (buffer : Buffer) (i : Nat) (src : List UInt8) : Option Buffer :=
  match h : copyFromSlice buffer.bytes i src with
  | none => none
  | some bytes => some ⟨bytes, (copyFromSlice_length h).trans buffer.length_eq⟩

/-- The socket and the cipher are in the surroundings: `Wire` commands act on them. -/
structure EncryptedStream where
  nonce : Nat
  buffer : Buffer
  sharedUser : SharedUser
  privateIdBytes : List UInt8
  reverseMessage : UInt16

namespace EncryptedStream

def new (sharedUser : SharedUser) (privateIdBytes : List UInt8) : EncryptedStream :=
  { nonce := nonceInit, buffer := Buffer.zero, sharedUser, privateIdBytes, reverseMessage := 0 }

/-- The twelve bytes the cipher gets, as a number: the low 96 bits of the counter. -/
def getNonceBytes (es : EncryptedStream) : Nat := es.nonce % 2 ^ 96

def isCrcPayload (message : UInt16) : Bool := crcMessages.contains message

def getMessage (es : EncryptedStream) : UInt16 := UInt16.ofNat (ofBe (es.buffer.bytes.take 2))

/-- The size field of the buffer. -/
def payloadSize (es : EncryptedStream) : Nat :=
  ofBe ((es.buffer.bytes.drop msgTypeSize).take payloadSizeLen)

def getPayload [Crates] (es : EncryptedStream) : Except Exc (List UInt8) :=
  let payloadSize := es.payloadSize
  match slice es.buffer.bytes payloadOffset (payloadOffset + payloadSize) with
  | none => .error .panic
  | some payload =>
    if isCrcPayload es.getMessage ∧ 0 < payloadSize then
      match slice es.buffer.bytes (payloadOffset + payloadSize)
        (payloadOffset + payloadSize + crcSize) with
      | none => .error .panic
      | some expectedChecksumBytes =>
        let expectedChecksum := ofBe expectedChecksumBytes
        let actualChecksum := (Crates.crc32 payload).toNat
        if expectedChecksum ≠ actualChecksum then
          .error (.err ("Checksum mismatch. Actual: '".toList ++ natText actualChecksum ++
            "' - Expected '".toList ++ natText expectedChecksum ++ "'".toList))
        else .ok payload
    else .ok payload

end EncryptedStream

/-! ## 2. Commands and threads -/

/-- Commands on the socket and the cipher: encrypt `plain` under `nonce` and write it; read `size`
    bytes and decrypt them under `nonce`. -/
inductive Wire where
  | seal (nonce : Nat) (plain : List UInt8)
  | unseal (nonce : Nat) (size : Nat)

inductive Sealed where
  | done
  | io (e : Str)
  | rejected (e : Str)

inductive Unsealed where
  | plain (bytes : List UInt8)
  | io (e : Str)
  | rejected (e : Str)

def Wire.Ans : Wire → Type
  | .seal _ _ => Sealed
  | .unseal _ _ => Unsealed

/-- A thread: its own state, and the encrypted stream it works on. -/
structure Thread (T : Type) where
  self : T
  encryptedStream : EncryptedStream

/-- The answers to the commands of a thread with commands `L` of its own. -/
abbrev Ans {L : Type} (LA : L → Type) : Wire ⊕ L → Type := Sum.elim Wire.Ans LA

/-- The text of a method of a thread. -/
abbrev Method (T : Type) {L : Type} (LA : L → Type) (α : Type) : Type :=
  Act (Thread T) (Wire ⊕ L) (Ans LA) Exc α

section Methods

variable {T L : Type} {LA : L → Type} {α : Type}

/-- A command of the thread's own. -/
def ask (c : L) : Method T LA (LA c) := issue (Sum.inr c)

def orPanic : Option α → Method T LA α
  | some a => pure a
  | none => throw .panic

def orThrow : Except Exc α → Method T LA α
  | .ok a => pure a
  | .error e => throw e

/-- `if b { return Err(e) }`, or a panic. -/
def throwIf (b : Prop) [Decidable b] (e : Exc) : Method T LA Unit := if b then throw e else pure ()

def modifySelf (f : T → T) : Method T LA Unit := modify fun t => { t with self := f t.self }

def modifyStream (f : EncryptedStream → EncryptedStream) : Method T LA Unit :=
  modify fun t => { t with encryptedStream := f t.encryptedStream }

/-! ## 3. Frames -/

/-- Copy `src` to the place `i` of the buffer. -/
def copyToBuffer (i : Nat) (src : List UInt8) : Method T LA Unit := do
  let buffer ← orPanic ((← get).encryptedStream.buffer.write i src)
  modifyStream fun es => { es with buffer }

def incrementNonce : Method T LA Unit := do
  throwIf (nonceMax ≤ (← get).encryptedStream.nonce) (.err "Nonce maxed. Reconnect.".toList)
  modifyStream fun es => { es with nonce := es.nonce + 1 }

/-- Encrypt the first `used` bytes of the buffer and write them. -/
def writeFrame (used : Nat) (error : Str) : Method T LA Unit := do
  let es := (← get).encryptedStream
  let plain ← orPanic (slice es.buffer.bytes 0 used)
  match ← (issue (Sum.inl (Wire.seal es.getNonceBytes plain)) : Method T LA Sealed) with
  | .done => incrementNonce
  | .io e => throw (.err e)
  | .rejected e => throw (.err (error ++ e))

/-- Read `readSize` bytes and decrypt them. -/
def readFrame (readSize : Nat) (error : Str) : Method T LA (List UInt8) := do
  throwIf (totalCryptoBufferSize < readSize) .panic
  let es := (← get).encryptedStream
  match ← (issue (Sum.inl (Wire.unseal es.getNonceBytes readSize)) : Method T LA Unsealed) with
  | .plain bytes => pure bytes
  | .io e => throw (.err e)
  | .rejected e => throw (.err (error ++ e))

/-! ## 4. Messages -/

def writeMessage (msg : UInt16) (payload : List UInt8) : Method T LA Unit := do
  copyToBuffer 0 (beBytes msgTypeSize msg.toNat)
  copyToBuffer msgTypeSize (beBytes payloadSizeLen (payload.length % 2 ^ 32))
  writeFrame payloadOffset "Encrypted Stream write failed to encrypt message. ".toList

def writePayload [Crates] (msg : UInt16) (payload : List UInt8) : Method T LA Unit := do
  copyToBuffer 0 payload
  if EncryptedStream.isCrcPayload msg then
    copyToBuffer payload.length (beBytes crcSize (Crates.crc32 payload).toNat)
    writeFrame (payload.length + crcSize)
      "Encrypted Stream write failed to encrypt payload. ".toList
  else
    writeFrame payload.length "Encrypted Stream write failed to encrypt payload. ".toList

def write [Crates] (msg : UInt16) (payload : List UInt8) : Method T LA Unit := do
  writeMessage msg payload
  if payload ≠ [] then writePayload msg payload

def read : Method T LA Unit := do
  let plaintextMsg ← readFrame (payloadOffset + cryptoExtensionSize)
    "Encrypted Stream read failed to decrypt message. ".toList
  copyToBuffer 0 plaintextMsg
  incrementNonce
  let es := (← get).encryptedStream
  let payloadSize := es.payloadSize
  let msg := es.getMessage
  -- No payload, therefore nothing else to decrypt
  if payloadSize ≠ 0 then
    let crc := if EncryptedStream.isCrcPayload msg then crcSize else 0
    let plaintextPayload ← readFrame (payloadSize + cryptoExtensionSize + crc)
      "Encrypted Stream read failed to decrypt payload. ".toList
    copyToBuffer plaintextMsg.length plaintextPayload
    incrementNonce

/-! ## 5. What a thread reads of a message -/

def getMessage : Method T LA UInt16 := do return (← get).encryptedStream.getMessage

def getPayload [Crates] : Method T LA (List UInt8) := do
  orThrow (← get).encryptedStream.getPayload

end Methods

/-! ## 6. Preconditions of the parts of a method -/

section Rules

variable {T L W : Type} {LA : L → Type} {α : Type} {E : Env (Thread T) (Wire ⊕ L) (Ans LA) W}
  {Q : α → Thread T → W → Prop} {R : Exc → Thread T → W → Prop} {t : Thread T} {w : W}

theorem wp_ask (c : L) {Q : LA c → Thread T → W → Prop} :
    wp E (ask c : Method T LA (LA c)) Q R t w ↔
      E.ok w t (.inr c) ∧ ∀ a w', E.step w t (.inr c) a w' → Q a t w' := Iff.rfl

@[simp] theorem wp_orPanic_some (a : α) :
    wp E (orPanic (some a) : Method T LA α) Q R t w ↔ Q a t w := Iff.rfl

@[simp] theorem wp_orPanic_none :
    wp E (orPanic none : Method T LA α) Q R t w ↔ R .panic t w := Iff.rfl

@[simp] theorem wp_orThrow_ok (a : α) :
    wp E (orThrow (.ok a) : Method T LA α) Q R t w ↔ Q a t w := Iff.rfl

@[simp] theorem wp_orThrow_error (e : Exc) :
    wp E (orThrow (.error e) : Method T LA α) Q R t w ↔ R e t w := Iff.rfl

theorem wp_orPanic_of {x : Option α} {a : α} (h : x = some a) (hQ : Q a t w) :
    wp E (orPanic x : Method T LA α) Q R t w := by
  rw [h]
  exact hQ

theorem wp_orThrow_of {x : Except Exc α} {a : α} (h : x = .ok a) (hQ : Q a t w) :
    wp E (orThrow x : Method T LA α) Q R t w := by
  rw [h]
  exact hQ

@[simp] theorem wp_throwIf (b : Prop) [Decidable b] (e : Exc) {Q : Unit → Thread T → W → Prop} :
    wp E (throwIf b e : Method T LA Unit) Q R t w ↔ if b then R e t w else Q () t w := by
  unfold throwIf
  split <;> exact Iff.rfl

@[simp] theorem wp_modifySelf (f : T → T) {Q : Unit → Thread T → W → Prop} :
    wp E (modifySelf f : Method T LA Unit) Q R t w ↔ Q () { t with self := f t.self } w := Iff.rfl

@[simp] theorem wp_modifyStream (f : EncryptedStream → EncryptedStream)
    {Q : Unit → Thread T → W → Prop} :
    wp E (modifyStream f : Method T LA Unit) Q R t w ↔
      Q () { t with encryptedStream := f t.encryptedStream } w := Iff.rfl

/-- Taking the payload, where the buffer holds one. -/
theorem wp_getPayload_of [Crates] {payload : List UInt8} {Q : List UInt8 → Thread T → W → Prop}
    (h : t.encryptedStream.getPayload = .ok payload) (hQ : Q payload t w) :
    wp E (getPayload : Method T LA (List UInt8)) Q R t w :=
  wp_orThrow_of h hQ

end Rules

/-! ## 7. What the parts of a method leave alone -/

/-- Commands of the thread's own, and of these the ones with `P`. -/
def own {L : Type} (P : L → Prop) : Wire ⊕ L → Prop := Sum.elim (fun _ => False) P

/-- Commands on the stream, and of the thread's own the ones with `P`. -/
def wireAnd {L : Type} (P : L → Prop) : Wire ⊕ L → Prop := Sum.elim (fun _ => True) P

/-- Reads from the stream, and of the thread's own commands the ones with `P`. -/
def readAnd {L : Type} (P : L → Prop) : Wire ⊕ L → Prop
  | .inl (.seal _ _) => False
  | .inl (.unseal _ _) => True
  | .inr c => P c

section Keeps

variable {T L V : Type} {LA : L → Type} {α : Type} {P : Wire ⊕ L → Prop} {r : Thread T → V}

theorem own_mono {P P' : L → Prop} (h : ∀ c, P c → P' c) : ∀ c, own P c → own P' c
  | .inl _, hc => hc
  | .inr c, hc => h c hc

theorem wireAnd_of_own {P P' : L → Prop} (h : ∀ c, P c → P' c) : ∀ c, own P c → wireAnd P' c
  | .inl _, hc => False.elim hc
  | .inr c, hc => h c hc

theorem readAnd_of_own {P P' : L → Prop} (h : ∀ c, P c → P' c) : ∀ c, own P c → readAnd P' c
  | .inl _, hc => False.elim hc
  | .inr c, hc => h c hc

theorem wireAnd_of_readAnd {P P' : L → Prop} (h : ∀ c, P c → P' c) : ∀ c, readAnd P c → wireAnd P' c
  | .inl _, _ => trivial
  | .inr c, hc => h c hc

theorem keeps_ask {c : L} (h : P (.inr c)) : Keeps P r (ask c : Method T LA (LA c)) :=
  keeps_issue h

theorem steady_orPanic : ∀ a, Steady P r (orPanic a : Method T LA α)
  | some a => steady_pure a
  | none => steady_throw _

theorem steady_orThrow : ∀ a, Steady P r (orThrow a : Method T LA α)
  | .ok a => steady_pure a
  | .error e => steady_throw e

theorem keeps_orThrow (a : Except Exc α) : Keeps P r (orThrow a : Method T LA α) :=
  (steady_orThrow a).keeps

theorem steady_throwIf (b : Prop) [Decidable b] (e : Exc) :
    Steady P r (throwIf b e : Method T LA Unit) :=
  steady_ite (steady_throw e) (steady_pure ())

theorem keeps_modifySelf (f : T → T) :
    Keeps P Thread.encryptedStream (modifySelf f : Method T LA Unit) := keeps_modify fun _ => rfl

theorem steady_modifyStream (f : EncryptedStream → EncryptedStream) :
    Steady P Thread.self (modifyStream f : Method T LA Unit) := steady_modify fun _ => rfl

/-- A part of the thread to which neither the buffer nor the counter of its stream belongs. -/
def Unbuffered (r : Thread T → V) : Prop :=
  ∀ (t : Thread T) (buffer : Buffer) (nonce : Nat),
    r { t with encryptedStream := { t.encryptedStream with buffer, nonce } } = r t

theorem unbuffered_self : Unbuffered (Thread.self : Thread T → T) := fun _ _ _ => rfl

/-- Reading and writing a message is commands on the stream, and leaves such a part alone. -/
theorem steady_copyToBuffer (hr : Unbuffered r) (i : Nat) (src : List UInt8) :
    Steady P r (copyToBuffer i src : Method T LA Unit) :=
  steady_bind steady_get fun _ => steady_bind (steady_orPanic _) fun buffer =>
    steady_modify fun t => hr t buffer t.encryptedStream.nonce

theorem steady_incrementNonce (hr : Unbuffered r) :
    Steady P r (incrementNonce : Method T LA Unit) :=
  steady_bind steady_get fun _ => steady_bind (steady_throwIf _ _) fun _ =>
    steady_modify fun t => hr t t.encryptedStream.buffer (t.encryptedStream.nonce + 1)

theorem steady_getMessage : Steady P r (getMessage : Method T LA UInt16) :=
  steady_bind steady_get fun _ => steady_pure _

theorem steady_getPayload [Crates] : Steady P r (getPayload : Method T LA (List UInt8)) :=
  steady_bind steady_get fun _ => steady_orThrow _

theorem steady_readFrame (h : ∀ n size, P (.inl (.unseal n size))) (readSize : Nat) (error : Str) :
    Steady P r (readFrame readSize error : Method T LA (List UInt8)) := by
  refine steady_bind (steady_throwIf _ _) fun _ => steady_bind steady_get fun t => ?_
  refine steady_bind (steady_issue (h _ _)) fun a => ?_
  cases a with
  | plain bytes => exact steady_pure _
  | io e => exact steady_throw _
  | rejected e => exact steady_throw _

/-- Reading a message issues reads only. -/
theorem steady_read_part (hr : Unbuffered r) (h : ∀ n size, P (.inl (.unseal n size))) :
    Steady P r (read : Method T LA Unit) := by
  refine steady_bind (steady_readFrame h _ _) fun plain => steady_bind (steady_copyToBuffer hr _ _)
    fun _ => steady_bind (steady_incrementNonce hr) fun _ => steady_bind steady_get fun t => ?_
  refine steady_ite ?_ (steady_pure ())
  exact steady_bind (steady_readFrame h _ _) fun _ => steady_bind (steady_copyToBuffer hr _ _)
    fun _ => steady_incrementNonce hr

theorem steady_writeFrame (hr : Unbuffered r) (h : ∀ n plain, P (.inl (.seal n plain))) (used : Nat)
    (error : Str) : Steady P r (writeFrame used error : Method T LA Unit) := by
  refine steady_bind steady_get fun t => steady_bind (steady_orPanic _) fun plain => ?_
  refine steady_bind (steady_issue (h _ _)) fun a => ?_
  cases a with
  | done => exact steady_incrementNonce hr
  | io e => exact steady_throw _
  | rejected e => exact steady_throw _

/-- Writing a message issues writes only. -/
theorem steady_write_part [Crates] (hr : Unbuffered r) (h : ∀ n plain, P (.inl (.seal n plain)))
    (msg : UInt16) (payload : List UInt8) :
    Steady P r (write msg payload : Method T LA Unit) := by
  refine steady_bind ?_ fun _ => steady_ite ?_ (steady_pure ())
  · exact steady_bind (steady_copyToBuffer hr _ _) fun _ => steady_bind (steady_copyToBuffer hr _ _)
      fun _ => steady_writeFrame hr h _ _
  · refine steady_bind (steady_copyToBuffer hr _ _) fun _ => steady_ite ?_ (steady_writeFrame hr h _ _)
    exact steady_bind (steady_copyToBuffer hr _ _) fun _ => steady_writeFrame hr h _ _

/-- Both leave the thread's own state alone. -/
theorem steady_read_of (h : ∀ n size, P (.inl (.unseal n size))) :
    Steady P Thread.self (read : Method T LA Unit) :=
  steady_read_part unbuffered_self h

theorem steady_write_of [Crates] (h : ∀ n plain, P (.inl (.seal n plain))) (msg : UInt16)
    (payload : List UInt8) : Steady P Thread.self (write msg payload : Method T LA Unit) :=
  steady_write_part unbuffered_self h msg payload

variable {P : L → Prop}

theorem steady_write [Crates] (msg : UInt16) (payload : List UInt8) :
    Steady (wireAnd P) Thread.self (write msg payload : Method T LA Unit) :=
  steady_write_of (fun _ _ => trivial) msg payload

theorem steady_read : Steady (wireAnd P) Thread.self (read : Method T LA Unit) :=
  steady_read_of fun _ _ => trivial

theorem keeps_write [Crates] (msg : UInt16) (payload : List UInt8) :
    Keeps (wireAnd P) Thread.self (write msg payload : Method T LA Unit) :=
  (steady_write msg payload).keeps

theorem keeps_read : Keeps (wireAnd P) Thread.self (read : Method T LA Unit) := steady_read.keeps

end Keeps

end Transmitic
