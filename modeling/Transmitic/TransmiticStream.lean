/-
  File:      Transmitic/TransmiticStream.lean
  Subject:   THE HANDSHAKE (transmitic_stream.rs): both sides greet, send an ephemeral key signed
             with their private ID, and look for a shared user under whose public ID the key of
             the other side is signed.

  The methods are written for any thread that can issue the commands of a handshake
  (`h : ∀ c, Act S C A Exc c.Ans`), and for any suite of signatures and key exchange
  (`Suite`): the bytes of the program, or the terms of an ideal attacker.

  * `HandshakeCmd` -- the socket and the random numbers;
  * `TransmiticStream.connect`, `TransmiticStream.waitForIncoming`;
  * `steady_connect`, `steady_waitForIncoming` -- what they leave alone.
-/
import Transmitic.EncryptedStream

namespace Transmitic

open Lib

/-! ## 1. Signatures and keys -/

/-- Signatures under the private ID, and the key exchange. -/
structure Suite where
  Secret : Type
  Public : Type
  Signature : Type
  Key : Type
  /-- `PublicKey::from(&secret)`. -/
  publicKey : Secret → Public
  /-- `Ed25519KeyPair::sign`, with the key pair of these bytes. -/
  sign : List UInt8 → Public → Signature
  /-- `UnparsedPublicKey::verify`, with the public ID of these bytes. -/
  verify : List UInt8 → Public → Signature → Bool
  diffieHellman : Secret → Public → Key

/-- What a handshake asks of its surroundings. -/
inductive HandshakeCmd (K : Suite) where
  | writeAll (bytes : List UInt8)
  | readExact (size : Nat)
  /-- `EphemeralSecret::random_from_rng`. -/
  | randomSecret
  /-- `write_all` of the 32 + 64 bytes of a key and its signature. -/
  | writeKey (publicKey : K.Public) (signature : K.Signature)
  | readKey
  | tryClone
  | sleep (millis : Nat)

def HandshakeCmd.Ans {K : Suite} : HandshakeCmd K → Type
  | .writeAll _ => Except Str Unit
  | .readExact _ => Except Str (List UInt8)
  | .randomSecret => K.Secret
  | .writeKey _ _ => Except Str Unit
  | .readKey => Except Str (K.Public × K.Signature)
  | .tryClone => Except Str Unit
  | .sleep _ => Unit

def errRemoteIdNotFound : Str := "Could not find matching PublicID. User unknown.".toList

structure TransmiticStream where
  connectingIp : Str
  sharedUsers : List SharedUser
  privateIdBytes : List UInt8
  matchedSharedUser : Option SharedUser

/-- `TransmiticStream::new`; the `unwrap` of the key pair panics. -/
def TransmiticStream.new [Crates] (connectingIp : Str) (sharedUsers : List SharedUser)
    (privateIdBytes : List UInt8) : Except Exc TransmiticStream :=
  match Crates.ed25519FromPkcs8 privateIdBytes with
  | .ok _ => .ok { connectingIp, sharedUsers, privateIdBytes, matchedSharedUser := none }
  | .error _ => .error .panic

/-! ## 2. The greeting -/

/-- `{:?}` of bytes. -/
def bytesText (bytes : List UInt8) : Str :=
  '[' :: ", ".toList.intercalate (bytes.map fun b => natText b.toNat) ++ [']']

/-- The eight bytes of the greeting. -/
def transmiticHeader : List UInt8 :=
  tranMagicNumber ++ (beBytes 2 tranApiMajor ++ beBytes 2 tranApiMinor)

/-- The checks on a greeting received. -/
def checkTransmiticHeader (connectingIp : Str) (buffer : List UInt8) : Except Exc Unit :=
  let magic := buffer.take 4
  let apiMajor := ofBe ((buffer.drop 4).take 2)
  if magic ≠ tranMagicNumber then
    .error (.err (connectingIp ++ " TRAN MAGIC NUMBER mismatch. ".toList ++ bytesText magic))
  else if apiMajor ≠ tranApiMajor then
    .error (.err (connectingIp ++ " TRAN API MAJOR mismatch. ".toList ++ natText apiMajor))
  else .ok ()

/-! ## 3. The matching user -/

/-- The loop of `receive_diffie_helman_key`: the first user under whose public ID the key is
    signed. -/
def matchSharedUser (K : Suite) (publicKey : K.Public) (signature : K.Signature) :
    List SharedUser → Except Exc (Option SharedUser)
  | [] => .ok none
  | sharedUser :: sharedUsers => do
    let remotePublicIdBytes ← Base64.decode sharedUser.publicId
    if K.verify remotePublicIdBytes publicKey signature then .ok (some sharedUser)
    else matchSharedUser K publicKey signature sharedUsers

/-- **The match is a user whose public ID the key is signed under.** -/
theorem matchSharedUser_some {K : Suite} {publicKey : K.Public} {signature : K.Signature}
    {sharedUsers : List SharedUser} {user : SharedUser}
    (h : matchSharedUser K publicKey signature sharedUsers = .ok (some user)) :
    user ∈ sharedUsers ∧ ∃ id, Base64.decode user.publicId = .ok id ∧
      K.verify id publicKey signature = true := by
  induction sharedUsers with
  | nil => cases h
  | cons sharedUser sharedUsers ih =>
    obtain ⟨id, hid, h⟩ := bind_eq_ok.mp h
    by_cases hv : K.verify id publicKey signature = true
    · rw [if_pos hv] at h
      cases h
      exact ⟨List.mem_cons_self, id, hid, hv⟩
    · rw [if_neg hv] at h
      obtain ⟨hm, hrest⟩ := ih h
      exact ⟨List.mem_cons_of_mem _ hm, hrest⟩

/-! ## 4. The methods -/

section Methods

variable {K : Suite} {S C : Type} {A : C → Type}
  (h : ∀ c : HandshakeCmd K, Act S C A Exc c.Ans)

/-- `?` on the result of a computation. -/
def orFail {α : Type} : Except Exc α → Act S C A Exc α
  | .ok a => pure a
  | .error e => throw e

def sendTransmiticHeader : Act S C A Exc Unit := do
  orFail (orErr id (← h (.writeAll transmiticHeader)))

def receiveTransmiticHeader (ts : TransmiticStream) : Act S C A Exc Unit := do
  let buffer ← orFail (orErr id (← h (.readExact 8)))
  orFail (checkTransmiticHeader ts.connectingIp buffer)

def sendDiffieHelmanKey (ts : TransmiticStream) : Act S C A Exc K.Secret := do
  let localDiffieSecret ← h .randomSecret
  let localDiffiePublic := K.publicKey localDiffieSecret
  let signature := K.sign ts.privateIdBytes localDiffiePublic
  orFail (orErr id (← h (.writeKey localDiffiePublic signature)))
  return localDiffieSecret

/-- Returns the key of the other side, and the stream with the matching user. -/
def receiveDiffieHelmanKey (ts : TransmiticStream) : Act S C A Exc (K.Public × TransmiticStream) := do
  let (remoteDiffiePublic, signature) ← orFail (orErr id (← h .readKey))
  match ← orFail (matchSharedUser K remoteDiffiePublic signature ts.sharedUsers) with
  | some user => return (remoteDiffiePublic, { ts with matchedSharedUser := some user })
  | none =>
    -- No SharedUser could be found. This is an unknown user.
    h (.sleep (1000 * deniedSleep))
    throw (.err errRemoteIdNotFound)

/-- The encrypted stream of the matching user, and the key its cipher is made of. -/
def getEncryptedStream (ts : TransmiticStream) (encryptionKey : K.Key) :
    Act S C A Exc (K.Key × EncryptedStream) := do
  orFail (orErr id (← h .tryClone))
  match ts.matchedSharedUser with
  | some sharedUser => return (encryptionKey, EncryptedStream.new sharedUser ts.privateIdBytes)
  -- the process exits
  | none => throw .panic

namespace TransmiticStream

def connect (ts : TransmiticStream) : Act S C A Exc (K.Key × EncryptedStream) := do
  sendTransmiticHeader h
  receiveTransmiticHeader h ts
  let localDiffieSecret ← sendDiffieHelmanKey h ts
  let (remoteDiffieKey, ts) ← receiveDiffieHelmanKey h ts
  getEncryptedStream h ts (K.diffieHellman localDiffieSecret remoteDiffieKey)

def waitForIncoming (ts : TransmiticStream) : Act S C A Exc (K.Key × EncryptedStream) := do
  receiveTransmiticHeader h ts
  sendTransmiticHeader h
  let (remoteDiffieKey, ts) ← receiveDiffieHelmanKey h ts
  let localDiffieSecret ← sendDiffieHelmanKey h ts
  getEncryptedStream h ts (K.diffieHellman localDiffieSecret remoteDiffieKey)

end TransmiticStream

/-! ## 5. What a handshake leaves alone -/

variable {P : C → Prop} {V : Type} {r : S → V} {h} (hh : ∀ c, Steady P r (h c))

theorem steady_orFail {α : Type} : ∀ a : Except Exc α, Steady P r (orFail a : Act S C A Exc α)
  | .ok a => steady_pure a
  | .error e => steady_throw e

include hh

theorem steady_sendTransmiticHeader : Steady P r (sendTransmiticHeader h) :=
  steady_bind (hh _) fun _ => steady_orFail _

theorem steady_receiveTransmiticHeader (ts : TransmiticStream) :
    Steady P r (receiveTransmiticHeader h ts) :=
  steady_bind (hh _) fun _ => steady_bind (steady_orFail _) fun _ => steady_orFail _

theorem steady_sendDiffieHelmanKey (ts : TransmiticStream) : Steady P r (sendDiffieHelmanKey h ts) :=
  steady_bind (hh _) fun _ => steady_bind (hh _) fun _ => steady_bind (steady_orFail _) fun _ =>
    steady_pure _

theorem steady_receiveDiffieHelmanKey (ts : TransmiticStream) :
    Steady P r (receiveDiffieHelmanKey h ts) := by
  refine steady_bind (hh _) fun _ => steady_bind (steady_orFail _) fun key => ?_
  refine steady_bind (steady_orFail _) fun matched => ?_
  cases matched with
  | some user => exact steady_pure _
  | none => exact steady_bind (hh _) fun _ => steady_throw _

theorem steady_getEncryptedStream (ts : TransmiticStream) (key : K.Key) :
    Steady P r (getEncryptedStream h ts key) := by
  refine steady_bind (hh _) fun _ => steady_bind (steady_orFail _) fun _ => ?_
  cases ts.matchedSharedUser with
  | some user => exact steady_pure _
  | none => exact steady_throw _

/-- **A handshake leaves alone what its commands do**, from either side. -/
theorem steady_connect (ts : TransmiticStream) : Steady P r (TransmiticStream.connect h ts) :=
  steady_bind (steady_sendTransmiticHeader hh) fun _ =>
    steady_bind (steady_receiveTransmiticHeader hh ts) fun _ =>
      steady_bind (steady_sendDiffieHelmanKey hh ts) fun _ =>
        steady_bind (steady_receiveDiffieHelmanKey hh ts) fun _ => steady_getEncryptedStream hh _ _

theorem steady_waitForIncoming (ts : TransmiticStream) :
    Steady P r (TransmiticStream.waitForIncoming h ts) :=
  steady_bind (steady_receiveTransmiticHeader hh ts) fun _ =>
    steady_bind (steady_sendTransmiticHeader hh) fun _ =>
      steady_bind (steady_receiveDiffieHelmanKey hh ts) fun _ =>
        steady_bind (steady_sendDiffieHelmanKey hh _) fun _ => steady_getEncryptedStream hh _ _

end Methods

end Transmitic
