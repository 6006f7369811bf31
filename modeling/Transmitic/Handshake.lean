/-
  File:      Transmitic/Handshake.lean
  Subject:   DO THE TWO ENDS OF A HANDSHAKE AGREE ON WHO THEY ARE?

  Any number of honest users run any number of handshakes over a network that belongs to an
  attacker. He answers every read with anything he can make: keys and signatures he has seen, keys
  of his own secrets, and signatures under the IDs he owns. Nobody else's signature can be made.

  A signature covers the sender's own ephemeral key and nothing else, so the attacker can sign the
  key of somebody else as his own.

  * `symbolic`, `Network`, `Network.next` -- keys and signatures as terms, and the moves of a run;
  * `connect_spec`, `waitForIncoming_spec` -- what one handshake has done when it is through;
  * `Network.Sound` -- the invariant of runs: a signature under an honest ID was made in a session of
    its owner, over the key of the secret of that session, and no secret belongs to two sessions;
  * `handshake_matches` -- **with equal keys, the other side matched this user or an ID of the
    attacker**, never a third honest user;
  * `handshake_misbinds` -- the run in which it is an ID of the attacker.
-/
import Transmitic.TransmiticStream

namespace Transmitic

open Lib

/-! ## 1. Keys and signatures as terms -/

/-- An ephemeral public key: of the secret `n`, or bytes that belong to no secret. -/
inductive SymPublic where
  | ofSecret (n : Nat)
  | other (n : Nat)
  deriving DecidableEq

/-- A signature over a public key under a public ID, or bytes that are none. -/
inductive SymSignature where
  | under (id : List UInt8) (publicKey : SymPublic)
  | other
  deriving DecidableEq

/-- The key two secrets have in common; what bytes that are no key lead to may always be the
    same. -/
inductive SymKey where
  | shared (secrets : Sym2 Nat)
  | weak
  deriving DecidableEq

/-- The ideal suite: `publicIdOf` is the public ID of a private ID. -/
@[reducible] def symbolic (publicIdOf : List UInt8 → List UInt8) : Suite where
  Secret := Nat
  Public := SymPublic
  Signature := SymSignature
  Key := SymKey
  publicKey := .ofSecret
  sign privateId publicKey := .under (publicIdOf privateId) publicKey
  verify id publicKey signature := decide (signature = .under id publicKey)
  diffieHellman
    | n, .ofSecret m => .shared s(n, m)
    | _, .other _ => .weak

/-! ## 2. Sessions and the network -/

/-- A handshake of an honest user: the program still to run, and what it has done so far. -/
structure Session (publicIdOf : List UInt8 → List UInt8) where
  ts : TransmiticStream
  prog : Prog Unit (HandshakeCmd (symbolic publicIdOf)) HandshakeCmd.Ans Exc
    (SymKey × EncryptedStream)
  secret : Option Nat
  received : Option (SymPublic × SymSignature)

/-- The public ID of the user whose session it is. -/
def Session.owner {publicIdOf : List UInt8 → List UInt8} (s : Session publicIdOf) : List UInt8 :=
  publicIdOf s.ts.privateIdBytes

structure Network (publicIdOf : List UInt8 → List UInt8) where
  sessions : List (Session publicIdOf)
  /-- The signed keys sent so far. -/
  wire : List (SymPublic × SymSignature)
  attackerSecrets : List Nat

/-- What a session gets to a command. -/
inductive Reply where
  | failed (e : Str)
  | done
  | bytes (bytes : List UInt8)
  | secret (n : Nat)
  | key (publicKey : SymPublic) (signature : SymSignature)

inductive Move where
  | start (incoming : Bool) (ts : TransmiticStream)
  | attackerSecret (n : Nat)
  | reply (i : Nat) (r : Reply)

section Network

variable {publicIdOf : List UInt8 → List UInt8}

/-- The reply as an answer to the command, where it is one. -/
def Reply.answer : (c : HandshakeCmd (symbolic publicIdOf)) → Reply → Option c.Ans
  | .writeAll _, .done => some (Except.ok ())
  | .writeAll _, .failed e => some (Except.error e)
  | .readExact _, .bytes bs => some (Except.ok bs)
  | .readExact _, .failed e => some (Except.error e)
  | .randomSecret, .secret n => some n
  | .writeKey _ _, .done => some (Except.ok ())
  | .writeKey _ _, .failed e => some (Except.error e)
  | .readKey, .key publicKey signature => some (Except.ok (publicKey, signature))
  | .readKey, .failed e => some (Except.error e)
  | .tryClone, .done => some (Except.ok ())
  | .tryClone, .failed e => some (Except.error e)
  | .sleep _, .done => some ()
  | _, _ => none

namespace Network

/-- A secret nobody has. -/
def Fresh (net : Network publicIdOf) (n : Nat) : Prop :=
  n ∉ net.attackerSecrets ∧ ∀ s ∈ net.sessions, s.secret ≠ some n

/-- A key the attacker can send. -/
def Knows (net : Network publicIdOf) : SymPublic → Prop
  | .ofSecret n => n ∈ net.attackerSecrets ∨ ∃ m ∈ net.wire, m.1 = .ofSecret n
  | .other _ => True

/-- A signature the attacker can send. -/
def CanSign (attackerIds : List (List UInt8)) (net : Network publicIdOf) : SymSignature → Prop
  | .under id publicKey =>
    id ∈ attackerIds ∧ net.Knows publicKey ∨ ∃ m ∈ net.wire, m.2 = .under id publicKey
  | .other => True

instance (net : Network publicIdOf) (n : Nat) : Decidable (net.Fresh n) := by
  unfold Fresh
  infer_instance

instance (net : Network publicIdOf) (k : SymPublic) : Decidable (net.Knows k) := by
  unfold Knows
  split <;> infer_instance

instance (attackerIds : List (List UInt8)) (net : Network publicIdOf) (s : SymSignature) :
    Decidable (net.CanSign attackerIds s) := by
  unfold CanSign
  split <;> infer_instance

/-- The replies the network can give: fresh random numbers, and to a read what the attacker can
    make. -/
def Allows (attackerIds : List (List UInt8)) (net : Network publicIdOf) : Reply → Prop
  | .secret n => net.Fresh n
  | .key publicKey signature => net.Knows publicKey ∧ net.CanSign attackerIds signature
  | _ => True

instance (attackerIds : List (List UInt8)) (net : Network publicIdOf) (r : Reply) :
    Decidable (net.Allows attackerIds r) := by
  unfold Allows
  split <;> infer_instance

end Network

/-- What a command with its answer changes of what a session has done. -/
def recordAnswer (secret : Option Nat) (received : Option (SymPublic × SymSignature)) :
    (c : HandshakeCmd (symbolic publicIdOf)) → c.Ans →
      Option Nat × Option (SymPublic × SymSignature)
  | .randomSecret, n => (some n, received)
  | .readKey, .ok key => (secret, some key)
  | _, _ => (secret, received)

/-- The signed key a command sends. -/
def sentKey : HandshakeCmd (symbolic publicIdOf) → List (SymPublic × SymSignature)
  | .writeKey publicKey signature => [(publicKey, signature)]
  | _ => []

/-- The session after the answer `a` to its command `c`. -/
def Session.answered (s : Session publicIdOf) (c : HandshakeCmd (symbolic publicIdOf))
    (k : c.Ans → Prog Unit (HandshakeCmd (symbolic publicIdOf)) HandshakeCmd.Ans Exc
      (SymKey × EncryptedStream)) (a : c.Ans) : Session publicIdOf :=
  { ts := s.ts
    prog := k a
    secret := (recordAnswer s.secret s.received c a).1
    received := (recordAnswer s.secret s.received c a).2 }

/-- A new session. -/
def Session.start (publicIdOf : List UInt8 → List UInt8) (incoming : Bool)
    (ts : TransmiticStream) : Session publicIdOf :=
  { ts
    prog := if incoming then ts.waitForIncoming issue () else ts.connect issue ()
    secret := none
    received := none }

/-- One reply to a session. -/
def Network.reply (net : Network publicIdOf) (i : Nat) (s : Session publicIdOf) (r : Reply) :
    Option (Network publicIdOf) :=
  match s.prog with
  | .call _ c k =>
    (r.answer c).map fun a =>
      { net with
        sessions := net.sessions.set i (s.answered c k a)
        wire := net.wire ++ sentKey c }
  | _ => none

/-- One move; `none` where it is not possible. -/
def Network.next (attackerIds : List (List UInt8)) (net : Network publicIdOf) :
    Move → Option (Network publicIdOf)
  | .start incoming ts =>
    if publicIdOf ts.privateIdBytes ∉ attackerIds ∧ ts.matchedSharedUser = none then
      some { net with sessions := net.sessions ++ [Session.start publicIdOf incoming ts] }
    else none
  | .attackerSecret n =>
    if net.Fresh n then some { net with attackerSecrets := n :: net.attackerSecrets } else none
  | .reply i r =>
    if net.Allows attackerIds r then (net.sessions[i]?).bind fun s => net.reply i s r else none

/-- The networks runs lead to. -/
inductive Network.Run (attackerIds : List (List UInt8)) : Network publicIdOf → Prop where
  | start : Run attackerIds { sessions := [], wire := [], attackerSecrets := [] }
  | step (net net' : Network publicIdOf) (m : Move) (h : Run attackerIds net)
      (hm : net.next attackerIds m = some net') : Run attackerIds net'

/-! ## 3. One session -/

/-- What a session has done: its secret, and the signed key it received. -/
abbrev Done := Option Nat × Option (SymPublic × SymSignature)

/-- The surroundings of one session: it makes one secret, and signs the key of this secret under
    its own ID. -/
def sessionEnv (ts : TransmiticStream) :
    Env Unit (HandshakeCmd (symbolic publicIdOf)) HandshakeCmd.Ans Done where
  ok done _ c :=
    match c with
    | .randomSecret => done.1 = none
    | .writeKey publicKey signature => ∃ n, done.1 = some n ∧ publicKey = .ofSecret n ∧
        signature = .under (publicIdOf ts.privateIdBytes) publicKey
    | _ => True
  step done _ c a done' := done' = recordAnswer done.1 done.2 c a

/-- What a session that is through has done: its key is made of its secret and the key received,
    and this key is signed under the ID of the matched user. -/
def Through (publicIdOf : List UInt8 → List UInt8) (ts : TransmiticStream)
    (result : SymKey × EncryptedStream) (done : Done) : Prop :=
  ∃ n publicKey id, done = (some n, some (publicKey, .under id publicKey)) ∧
    result.1 = (symbolic publicIdOf).diffieHellman n publicKey ∧
    result.2.sharedUser ∈ ts.sharedUsers ∧ Base64.decode result.2.sharedUser.publicId = .ok id

section Session

variable {ts : TransmiticStream} {done : Done} {α : Type} {Q : α → Unit → Done → Prop}

/-- A session may fail at any point. -/
def mayFail : Exc → Unit → Done → Prop := fun _ _ _ => True

/-- The answer of a command that may be an error. -/
theorem wp_orFail {E : Env Unit (HandshakeCmd (symbolic publicIdOf)) HandshakeCmd.Ans Done}
    {a : Except Exc α} (h : ∀ b, a = .ok b → Q b () done) :
    wp E (orFail a) Q mayFail () done := by
  cases a with
  | ok b => exact h b rfl
  | error e => exact trivial

theorem wp_sendTransmiticHeader {Q : Unit → Unit → Done → Prop} (hQ : Q () () done) :
    wp (sessionEnv ts) (sendTransmiticHeader (K := symbolic publicIdOf) issue) Q mayFail () done := by
  refine (wp_bind _ _).mpr ⟨trivial, fun a done' hd => ?_⟩
  obtain rfl : done' = done := hd
  exact wp_orFail fun _ _ => hQ

theorem wp_receiveTransmiticHeader {ts' : TransmiticStream} {Q : Unit → Unit → Done → Prop}
    (hQ : Q () () done) :
    wp (sessionEnv ts) (receiveTransmiticHeader (K := symbolic publicIdOf) issue ts') Q mayFail ()
      done := by
  refine (wp_bind _ _).mpr ⟨trivial, fun a done' hd => ?_⟩
  obtain rfl : done' = done := by
    cases a <;> exact hd
  exact (wp_bind _ _).mpr (wp_orFail fun _ _ => wp_orFail fun _ _ => hQ)

/-- **A session sends the key of its one secret**, signed under its own ID. -/
theorem wp_sendDiffieHelmanKey {ts' : TransmiticStream} (hts : ts'.privateIdBytes = ts.privateIdBytes)
    (hfresh : done.1 = none) {Q : Nat → Unit → Done → Prop}
    (hQ : ∀ n, Q n () (some n, done.2)) :
    wp (sessionEnv ts) (sendDiffieHelmanKey (K := symbolic publicIdOf) issue ts') Q mayFail ()
      done := by
  refine (wp_bind _ _).mpr ⟨hfresh, fun n done₁ h₁ => ?_⟩
  obtain rfl : done₁ = (some n, done.2) := h₁
  refine (wp_bind _ _).mpr ⟨⟨n, rfl, rfl, by rw [hts]⟩, fun a done₂ h₂ => ?_⟩
  obtain rfl : done₂ = (some n, done.2) := h₂
  exact (wp_bind _ _).mpr (wp_orFail fun _ _ => hQ n)

/-- **A session goes on with a key that is signed under the ID of one of its users.** -/
theorem wp_receiveDiffieHelmanKey {Q : SymPublic × TransmiticStream → Unit → Done → Prop}
    (hQ : ∀ publicKey user id, user ∈ ts.sharedUsers → Base64.decode user.publicId = .ok id →
      Q (publicKey, { ts with matchedSharedUser := some user }) ()
        (done.1, some (publicKey, .under id publicKey))) :
    wp (sessionEnv ts) (receiveDiffieHelmanKey (K := symbolic publicIdOf) issue ts) Q mayFail ()
      done := by
  refine (wp_bind _ _).mpr ⟨trivial, fun a done₁ h₁ => ?_⟩
  refine (wp_bind _ _).mpr (wp_orFail fun key hkey => ?_)
  cases a with
  | error e => cases hkey
  | ok received =>
    cases hkey
    obtain rfl : done₁ = (done.1, some key) := h₁
    obtain ⟨publicKey, signature⟩ := key
    refine (wp_bind _ _).mpr (wp_orFail fun user huser => ?_)
    cases user with
    | none =>
      refine (wp_bind _ _).mpr ⟨trivial, fun _ _ _ => ?_⟩
      exact trivial
    | some user =>
      obtain ⟨hmem, id, hid, hv⟩ := matchSharedUser_some huser
      obtain rfl : signature = .under id publicKey := of_decide_eq_true hv
      exact hQ publicKey user id hmem hid

theorem wp_getEncryptedStream {ts' : TransmiticStream} {user : SharedUser}
    (hts : ts'.matchedSharedUser = some user) {key : SymKey}
    {Q : SymKey × EncryptedStream → Unit → Done → Prop}
    (hQ : Q (key, EncryptedStream.new user ts'.privateIdBytes) () done) :
    wp (sessionEnv ts) (getEncryptedStream (K := symbolic publicIdOf) issue ts' key) Q mayFail ()
      done := by
  refine (wp_bind _ _).mpr ⟨trivial, fun a done' hd => ?_⟩
  obtain rfl : done' = done := by
    cases a <;> exact hd
  refine (wp_bind _ _).mpr (wp_orFail fun _ _ => ?_)
  rw [hts]
  exact hQ

/-- **What a session that is through has done**, on the connecting side. -/
theorem connect_spec (ts : TransmiticStream) :
    wp (sessionEnv ts) (ts.connect (K := symbolic publicIdOf) issue)
      (fun result _ done => Through publicIdOf ts result done) mayFail ()
      (none, none) := by
  refine (wp_bind _ _).mpr (wp_sendTransmiticHeader ?_)
  refine (wp_bind _ _).mpr (wp_receiveTransmiticHeader ?_)
  refine (wp_bind _ _).mpr (wp_sendDiffieHelmanKey rfl rfl fun n => ?_)
  refine (wp_bind _ _).mpr (wp_receiveDiffieHelmanKey fun publicKey user id hmem hid => ?_)
  exact wp_getEncryptedStream rfl ⟨n, publicKey, id, rfl, rfl, hmem, hid⟩

/-- **What a session that is through has done**, on the listening side. -/
theorem waitForIncoming_spec (ts : TransmiticStream) :
    wp (sessionEnv ts) (ts.waitForIncoming (K := symbolic publicIdOf) issue)
      (fun result _ done => Through publicIdOf ts result done) mayFail ()
      (none, none) := by
  refine (wp_bind _ _).mpr (wp_receiveTransmiticHeader ?_)
  refine (wp_bind _ _).mpr (wp_sendTransmiticHeader ?_)
  refine (wp_bind _ _).mpr (wp_receiveDiffieHelmanKey fun publicKey user id hmem hid => ?_)
  refine (wp_bind _ _).mpr (wp_sendDiffieHelmanKey rfl rfl fun n => ?_)
  exact wp_getEncryptedStream rfl ⟨n, publicKey, id, rfl, rfl, hmem, hid⟩

end Session

/-! ## 4. The invariant of runs -/

/-- The key was made in a session of the owner of this ID. -/
def Network.Made (net : Network publicIdOf) (id : List UInt8) (publicKey : SymPublic) : Prop :=
  ∃ (i : Nat) (s : Session publicIdOf) (n : Nat), net.sessions[i]? = some s ∧ s.owner = id ∧ s.secret = some n ∧ publicKey = .ofSecret n

/-- What holds of the networks runs lead to. -/
structure Network.Sound (attackerIds : List (List UInt8)) (net : Network publicIdOf) : Prop where
  /-- Every session does what the handshake says. -/
  follows : ∀ s ∈ net.sessions, s.prog.Holds (sessionEnv s.ts)
    (fun result _ done => Through publicIdOf s.ts result done) mayFail
    (s.secret, s.received)
  honest : ∀ s ∈ net.sessions, s.owner ∉ attackerIds
  /-- No secret belongs to two sessions. -/
  distinct : ∀ (i j : Nat) (s t : Session publicIdOf) (n : Nat), net.sessions[i]? = some s →
    net.sessions[j]? = some t → s.secret = some n → t.secret = some n → i = j
  /-- A signature under an honest ID was made in a session of its owner. -/
  signed : ∀ m ∈ net.wire, ∀ id publicKey, m.2 = .under id publicKey → id ∉ attackerIds →
    net.Made id publicKey
  received : ∀ s ∈ net.sessions, ∀ key id publicKey,
    s.received = some (key, .under id publicKey) → id ∉ attackerIds → net.Made id publicKey

section Runs

variable {attackerIds : List (List UInt8)} {net net' : Network publicIdOf}

theorem sound_start : Network.Sound attackerIds
    ({ sessions := [], wire := [], attackerSecrets := [] } : Network publicIdOf) where
  follows _ h := absurd h List.not_mem_nil
  honest _ h := absurd h List.not_mem_nil
  distinct _ _ _ _ _ h := by simp at h
  signed _ h := absurd h List.not_mem_nil
  received _ h := absurd h List.not_mem_nil

theorem startSession_follows (incoming : Bool) (ts : TransmiticStream) :
    (Session.start publicIdOf incoming ts).prog.Holds (sessionEnv ts)
      (fun result _ done => Through publicIdOf ts result done) mayFail
      (none, none) := by
  cases incoming with
  | true => exact waitForIncoming_spec ts
  | false => exact connect_spec ts

/-- What a reply does. -/
theorem reply_cases {i : Nat} {r : Reply}
    (h : net.next attackerIds (.reply i r) = some net') :
    ∃ s u c k a, net.sessions[i]? = some s ∧ s.prog = .call u c k ∧ r.answer c = some a ∧
      net.Allows attackerIds r ∧
      net' = { net with
        sessions := net.sessions.set i (s.answered c k a)
        wire := net.wire ++ sentKey c } := by
  unfold Network.next at h
  dsimp only at h
  split at h
  · rename_i hallow
    obtain ⟨s, hs, h⟩ := Option.bind_eq_some_iff.mp h
    unfold Network.reply at h
    split at h
    · rename_i u c k hprog
      obtain ⟨a, ha, rfl⟩ := Option.map_eq_some_iff.mp h
      exact ⟨s, u, c, k, a, hs, hprog, ha, hallow, rfl⟩
    · cases h
  · cases h

section Reply

variable {i : Nat} {r : Reply} {s : Session publicIdOf} {u : Unit}
  {c : HandshakeCmd (symbolic publicIdOf)} {a : c.Ans}
  {k : c.Ans → Prog Unit (HandshakeCmd (symbolic publicIdOf)) HandshakeCmd.Ans Exc
    (SymKey × EncryptedStream)}

/-- A secret, once made, stays. -/
theorem answered_secret (hok : (sessionEnv s.ts).ok (s.secret, s.received) u c) {n : Nat}
    (h : s.secret = some n) : (s.answered c k a).secret = some n := by
  cases c with
  | randomSecret =>
    have hnone : s.secret = none := hok
    rw [hnone] at h
    cases h
  | readKey => cases a <;> exact h
  | _ => exact h

/-- A secret of a session after an answer is an old one or the number the network gave. -/
theorem answered_secret_cases {n : Nat} (ha : r.answer c = some a)
    (h : (s.answered c k a).secret = some n) : s.secret = some n ∨ r = .secret n := by
  cases c with
  | randomSecret =>
    cases r with
    | secret m =>
      obtain rfl : m = n := by
        cases ha
        exact Option.some.inj h
      exact .inr rfl
    | _ => cases ha
  | readKey => cases a <;> exact .inl h
  | _ => exact .inl h

/-- A signed key a session has after an answer is an old one or what the network gave. -/
theorem answered_received_cases {m : SymPublic × SymSignature} (ha : r.answer c = some a)
    (h : (s.answered c k a).received = some m) : s.received = some m ∨ r = .key m.1 m.2 := by
  cases c with
  | readKey =>
    cases r with
    | key publicKey signature =>
      cases ha
      obtain rfl := Option.some.inj h
      exact .inr rfl
    | failed e =>
      cases ha
      exact .inl h
    | _ => cases ha
  | _ => exact .inl h

/-- What was made stays made. -/
theorem made_set (hs : net.sessions[i]? = some s)
    (hok : (sessionEnv s.ts).ok (s.secret, s.received) u c) {wire : List (SymPublic × SymSignature)}
    {id : List UInt8} {publicKey : SymPublic} (h : net.Made id publicKey) :
    Network.Made { net with sessions := net.sessions.set i (s.answered c k a), wire } id
      publicKey := by
  obtain ⟨j, t, n, ht, howner, hn, hk⟩ := h
  have hlt : i < net.sessions.length := (List.getElem?_eq_some_iff.mp hs).1
  by_cases hij : i = j
  · subst hij
    obtain rfl : s = t := Option.some.inj (hs.symm.trans ht)
    exact ⟨i, s.answered c k a, n, List.getElem?_set_self hlt, howner, answered_secret hok hn, hk⟩
  · refine ⟨j, t, n, ?_, howner, hn, hk⟩
    rw [← ht]
    exact List.getElem?_set_ne hij

/-- **One reply keeps the invariant.** -/
theorem sound_reply (hnet : net.Sound attackerIds) (hs : net.sessions[i]? = some s)
    (hprog : s.prog = .call u c k) (ha : r.answer c = some a) (hallow : net.Allows attackerIds r) :
    Network.Sound attackerIds { net with
      sessions := net.sessions.set i (s.answered c k a)
      wire := net.wire ++ sentKey c } := by
  have hmem : s ∈ net.sessions := List.mem_of_getElem? hs
  have hlt : i < net.sessions.length := (List.getElem?_eq_some_iff.mp hs).1
  have hcall := hnet.follows s hmem
  rw [hprog] at hcall
  obtain ⟨hok, hnext⟩ := hcall
  have hmade : ∀ id publicKey, net.Made id publicKey → Network.Made { net with
      sessions := net.sessions.set i (s.answered c k a), wire := net.wire ++ sentKey c } id
      publicKey := fun _ _ => made_set hs hok
  refine ⟨?_, ?_, ?_, ?_, ?_⟩
  · intro t ht
    rcases List.mem_or_eq_of_mem_set ht with ht | rfl
    · exact hnet.follows t ht
    · exact hnext a _ rfl
  · intro t ht
    rcases List.mem_or_eq_of_mem_set ht with ht | rfl
    · exact hnet.honest t ht
    · exact hnet.honest s hmem
  · -- a new secret is fresh, so no other session has it
    have hother : ∀ j t n, i ≠ j → net.sessions[j]? = some t →
        (s.answered c k a).secret = some n → t.secret ≠ some n := by
      intro j t n hij ht hn htn
      rcases answered_secret_cases ha hn with hold | rfl
      · exact hij (hnet.distinct i j s t n hs ht hold htn)
      · exact hallow.2 t (List.mem_of_getElem? ht) htn
    intro j l t t' n ht ht' hn hn'
    by_cases hij : i = j
    · subst hij
      obtain rfl := Option.some.inj ((List.getElem?_set_self hlt).symm.trans ht)
      by_cases hil : i = l
      · exact hil
      · exact absurd hn' (hother l t' n hil ((List.getElem?_set_ne hil).symm.trans ht') hn)
    · have hj := (List.getElem?_set_ne hij).symm.trans ht
      by_cases hil : i = l
      · subst hil
        obtain rfl := Option.some.inj ((List.getElem?_set_self hlt).symm.trans ht')
        exact absurd hn (hother j t n hij hj hn')
      · exact hnet.distinct j l t t' n hj ((List.getElem?_set_ne hil).symm.trans ht') hn hn'
  · intro m hm id publicKey hid hnot
    rcases List.mem_append.mp hm with hm | hm
    · exact hmade id publicKey (hnet.signed m hm id publicKey hid hnot)
    · cases c with
      | writeKey key signature =>
        obtain rfl := List.mem_singleton.mp hm
        obtain ⟨n, hn, rfl, rfl⟩ := hok
        cases hid
        exact ⟨i, _, n, List.getElem?_set_self hlt, rfl, hn, rfl⟩
      | _ => exact absurd hm List.not_mem_nil
  · intro t ht key id publicKey hrec hnot
    rcases List.mem_or_eq_of_mem_set ht with ht | rfl
    · exact hmade id publicKey (hnet.received t ht key id publicKey hrec hnot)
    · rcases answered_received_cases ha hrec with hold | rfl
      · exact hmade id publicKey (hnet.received s hmem key id publicKey hold hnot)
      · rcases hallow.2 with ⟨hin, -⟩ | ⟨m, hm, hsig⟩
        · exact absurd hin hnot
        · exact hmade id publicKey (hnet.signed m hm id publicKey hsig hnot)

end Reply

/-- **One move keeps the invariant.** -/
theorem sound_next {m : Move} (hnet : net.Sound attackerIds)
    (h : net.next attackerIds m = some net') : net'.Sound attackerIds := by
  cases m with
  | start incoming ts =>
    unfold Network.next at h
    dsimp only at h
    split at h
    · rename_i hts
      cases h
      have hmade : ∀ id publicKey, net.Made id publicKey → Network.Made { net with
          sessions := net.sessions ++ [Session.start publicIdOf incoming ts] } id publicKey := by
        rintro id publicKey ⟨i, s, n, hs, hrest⟩
        have hlt : i < net.sessions.length := (List.getElem?_eq_some_iff.mp hs).1
        exact ⟨i, s, n, (List.getElem?_append_left hlt).trans hs, hrest⟩
      -- a new session has no secret yet
      have hold : ∀ (i : Nat) (t : Session publicIdOf) (n : Nat), (net.sessions ++ [Session.start publicIdOf incoming ts])[i]? =
          some t → t.secret = some n → net.sessions[i]? = some t := by
        intro i t n ht hn
        rw [List.getElem?_append] at ht
        split at ht
        · exact ht
        · obtain rfl := List.mem_singleton.mp (List.mem_of_getElem? ht)
          cases hn
      refine ⟨?_, ?_, ?_, ?_, ?_⟩
      · intro s hs
        rcases List.mem_append.mp hs with hs | hs
        · exact hnet.follows s hs
        · obtain rfl := List.mem_singleton.mp hs
          exact startSession_follows incoming ts
      · intro s hs
        rcases List.mem_append.mp hs with hs | hs
        · exact hnet.honest s hs
        · obtain rfl := List.mem_singleton.mp hs
          exact hts.1
      · intro i j s t n hs ht hn hn'
        exact hnet.distinct i j s t n (hold i s n hs hn) (hold j t n ht hn') hn hn'
      · intro m hm id publicKey hid hnot
        exact hmade id publicKey (hnet.signed m hm id publicKey hid hnot)
      · intro s hs key id publicKey hrec hnot
        rcases List.mem_append.mp hs with hs | hs
        · exact hmade id publicKey (hnet.received s hs key id publicKey hrec hnot)
        · obtain rfl := List.mem_singleton.mp hs
          cases hrec
    · cases h
  | attackerSecret n =>
    unfold Network.next at h
    dsimp only at h
    split at h
    · cases h
      exact ⟨hnet.follows, hnet.honest, hnet.distinct, hnet.signed, hnet.received⟩
    · cases h
  | reply i r =>
    obtain ⟨s, u, c, k, a, hs, hprog, ha, hallow, rfl⟩ := reply_cases h
    exact sound_reply hnet hs hprog ha hallow

/-- **Every run keeps the invariant.** -/
theorem sound_of_run (h : net.Run attackerIds) : net.Sound attackerIds := by
  induction h with
  | start => exact sound_start
  | step net net' m _ hm ih => exact sound_next ih hm

/-- The network after some moves. -/
def Network.moves (attackerIds : List (List UInt8)) (ms : List Move) (net : Network publicIdOf) :
    Option (Network publicIdOf) :=
  ms.foldlM (Network.next attackerIds) net

theorem run_moves (ms : List Move) (h : net.Run attackerIds)
    (hm : net.moves attackerIds ms = some net') : net'.Run attackerIds := by
  induction ms generalizing net with
  | nil =>
    cases hm
    exact h
  | cons m ms ih =>
    obtain ⟨mid, hmid, hrest⟩ := Option.bind_eq_some_iff.mp hm
    exact ih (.step net mid m h hmid) hrest

end Runs

/-! ## 5. Agreement -/

/-- **With equal keys, the other side matched this user or an ID of the attacker.** One honest
    user is through with the ID of another as match, the other is through with the same key: then
    the other's match is on his own list, and is the first one or an ID of the attacker. -/
theorem handshake_matches (attackerIds : List (List UInt8)) {net : Network publicIdOf}
    (i j : Nat) {a b : Session publicIdOf} {key : SymKey} {forA : EncryptedStream}
    (forB : EncryptedStream) (h : net.Run attackerIds) (ha : net.sessions[i]? = some a)
    (hb : net.sessions[j]? = some b) (hendA : a.prog = .ret (key, forA) ())
    (hendB : b.prog = .ret (key, forB) ())
    (hmatch : Base64.decode forA.sharedUser.publicId = .ok b.owner) :
    forB.sharedUser ∈ b.ts.sharedUsers ∧ ∃ id, Base64.decode forB.sharedUser.publicId = .ok id ∧
      (id = a.owner ∨ id ∈ attackerIds) := by
  have hnet := sound_of_run h
  have hthroughA := hnet.follows a (List.mem_of_getElem? ha)
  have hthroughB := hnet.follows b (List.mem_of_getElem? hb)
  rw [hendA] at hthroughA
  rw [hendB] at hthroughB
  obtain ⟨nA, keyA, idA, hdoneA, hkeyA, -, hidA⟩ := hthroughA
  obtain ⟨nB, keyB, idB, hdoneB, hkeyB, hlist, hidB⟩ := hthroughB
  obtain ⟨hsecretA, hreceivedA⟩ := Prod.mk.inj hdoneA
  obtain ⟨hsecretB, hreceivedB⟩ := Prod.mk.inj hdoneB
  refine ⟨hlist, idB, hidB, ?_⟩
  by_cases hevil : idB ∈ attackerIds
  · exact .inr hevil
  left
  -- both received keys were made by honest users
  obtain rfl : idA = b.owner := by
    rw [hidA] at hmatch
    exact Except.ok.inj hmatch
  obtain ⟨l, t, m, ht, howner, hm, rfl⟩ := hnet.received a (List.mem_of_getElem? ha) _ _ _
    hreceivedA (hnet.honest b (List.mem_of_getElem? hb))
  obtain ⟨l', t', m', ht', howner', hm', rfl⟩ := hnet.received b (List.mem_of_getElem? hb) _ _ _
    hreceivedB hevil
  have hpair : s(nA, m) = s(nB, m') := SymKey.shared.inj (hkeyA.symm.trans hkeyB)
  rcases Sym2.eq_iff.mp hpair with ⟨hn, hmm⟩ | ⟨hn, -⟩
  · -- one session on both sides
    have hij : i = j := hnet.distinct i j a b nA ha hb hsecretA (hn ▸ hsecretB)
    subst hij
    obtain rfl := Option.some.inj (ha.symm.trans hb)
    have hll : l = l' := hnet.distinct l l' t t' m ht ht' hm (hmm ▸ hm')
    subst hll
    obtain rfl := Option.some.inj (ht.symm.trans ht')
    exact howner'.symm.trans howner
  · -- the other side received the key of this session
    have hil : i = l' := hnet.distinct i l' a t' nA ha ht' hsecretA (hn ▸ hm')
    subst hil
    obtain rfl := Option.some.inj (ha.symm.trans ht')
    exact howner'.symm

end Network

/-! ## 6. Two runs -/

/-- A user with this public ID. -/
def userWithId (nickname : Str) (id : List UInt8) : SharedUser :=
  { nickname, publicId := Base64.encode id, ip := [], port := [], allowed := true }

/-- The side of the user with the private ID 1, who lists the user 2. -/
def sideA : TransmiticStream :=
  { connectingIp := [], sharedUsers := [userWithId "b".toList [2]], privateIdBytes := [1]
    matchedSharedUser := none }

/-- The side of the user with the private ID 2, who lists the user 1 and the attacker, 3. -/
def sideB : TransmiticStream :=
  { connectingIp := [], sharedUsers := [userWithId "a".toList [1], userWithId "e".toList [3]]
    privateIdBytes := [2], matchedSharedUser := none }

/-- Both sides connect; the second one gets the key of the first one under the signature of
    `id`. -/
def connectMoves (id : List UInt8) : List Move :=
  [.start false sideA, .start true sideB,
    .reply 0 .done, .reply 0 (.bytes transmiticHeader), .reply 0 (.secret 10), .reply 0 .done,
    .reply 1 (.bytes transmiticHeader), .reply 1 .done,
    .reply 1 (.key (.ofSecret 10) (.under id (.ofSecret 10))), .reply 1 (.secret 20),
    .reply 1 .done, .reply 1 .done,
    .reply 0 (.key (.ofSecret 20) (.under [2] (.ofSecret 20))), .reply 0 .done]

/-- What a side ends with that has matched `user`. -/
def endsWith (user : SharedUser) (ts : TransmiticStream) (key : SymKey) :
    Prog Unit (HandshakeCmd (symbolic id)) HandshakeCmd.Ans Exc (SymKey × EncryptedStream) :=
  .ret (key, EncryptedStream.new user ts.privateIdBytes) ()

/-- The two secrets of a run lead to one key. -/
theorem endsWith_swap (user : SharedUser) (ts : TransmiticStream) :
    endsWith user ts (.shared s(20, 10)) = endsWith user ts (.shared s(10, 20)) :=
  congrArg (fun pair => endsWith user ts (.shared pair)) Sym2.eq_swap

/-- Where no attacker interferes, the two sides match each other. -/
theorem handshake_matches_undisturbed :
    userWithId "a".toList [1] ∈ sideB.sharedUsers ∧
      ∃ id, Base64.decode (userWithId "a".toList [1]).publicId = .ok id ∧
        (id = [1] ∨ id ∈ [[3]]) := by
  have h := @handshake_matches id [[3]] _ 0 1 _ _ _ _
    (EncryptedStream.new (userWithId "a".toList [1]) [2])
    (run_moves (connectMoves [1]) .start rfl) rfl rfl rfl
    (endsWith_swap (userWithId "a".toList [1]) sideB) rfl
  exact h

/-- **The key of one user under the signature of the attacker**: the two honest sides are through
    with one key, the first has matched the second, and the second has matched the attacker. -/
theorem handshake_misbinds : ∃ (net : Network id) (a b : Session id) (key : SymKey)
    (forA forB : EncryptedStream), net.Run [[3]] ∧ net.sessions[0]? = some a ∧
      net.sessions[1]? = some b ∧ a.prog = .ret (key, forA) () ∧ b.prog = .ret (key, forB) () ∧
      Base64.decode forA.sharedUser.publicId = .ok b.owner ∧
      Base64.decode forB.sharedUser.publicId ≠ .ok a.owner := by
  refine ⟨_, _, _, _, _, EncryptedStream.new (userWithId "e".toList [3]) [2],
    run_moves (connectMoves [3]) .start rfl, rfl, rfl, rfl,
    endsWith_swap (userWithId "e".toList [3]) sideB, rfl, ?_⟩
  intro h
  cases h

end Transmitic
