/-
  File:      Transmitic/UploaderMethods.lean
  Subject:   WHAT THE METHODS OF AN UPLOADER DO AT ALL.

  Most methods of an uploader are off the connection. They issue a few commands, and leave the stream and
  the config alone. That is said once for each of them, whatever is to be shown of the commands, so that
  a property of all its commands, a part of its state that stays, and an invariant of its surroundings all
  come from one walk over the text.

  * `kept`, `steady_readReceiver`, `steady_updateProgress`, ... -- these methods, with the commands each of
    them issues as its hypotheses;
  * `Upholds`, `upholds_sendList`, `upholds_sendFile`, `upholds_serveRequests` -- the loops on the connection keep what a
    message that is written, and a request that is answered, keep.
-/
import Transmitic.SingleUploader

namespace Transmitic

open Lib

namespace SingleUploader

/-! ## 1. Off the connection -/

/-- What only the handshake and the frames change, and what nothing changes. -/
def kept (t : Thread SingleUploader) : EncryptedStream × Config := (t.encryptedStream, t.self.config)

section Steady

variable {K : Suite} {V : Type} {P : Wire ⊕ UploaderCmd K → Prop} {r : Thread SingleUploader → V}

theorem steady_self : Steady P r (self : Up K SingleUploader) :=
  steady_bind steady_get fun _ => steady_pure _

/-- Polling the channel. -/
theorem steady_readReceiver (hrecv : P (.inr .tryRecv)) : ∀ fuel : Nat,
    Steady P kept (readReceiver fuel : Up K Unit)
  | 0 => steady_throw _
  | fuel + 1 => by
    refine steady_bind (steady_issue hrecv) fun a => ?_
    cases a with
    | value m =>
      cases m with
      | shutdownConn =>
        exact steady_bind (steady_modify fun _ => rfl) fun _ => steady_readReceiver hrecv fuel
      | doNothing => exact steady_readReceiver hrecv fuel
    | empty => exact steady_pure _
    | disconnected => exact steady_modify fun _ => rfl

theorem steady_uploadState (happ : ∀ state, P (.inr (.app (.uploadStateChange state)))) (path : Str)
    (percent : UInt64) : Steady P r (uploadState path percent : Up K Unit) :=
  steady_bind steady_self fun _ => steady_issue (happ _)

theorem steady_updateProgress (helapsed : P (.inr .progressElapsed))
    (happ : ∀ state, P (.inr (.app (.uploadStateChange state)))) (path : Str)
    (currentSentBytes fileSize : UInt64) :
    Steady P r (updateProgress path currentSentBytes fileSize : Up K Unit) :=
  steady_bind (steady_issue helapsed) fun (_ : Bool) =>
    steady_ite (steady_uploadState happ _ _) (steady_pure _)

/-- The peer's address, user by user. -/
theorem steady_retainedUsers (hresolve : ∀ ip port, P (.inr (.resolveAddress ip port))) (peer : IpAddr) :
    ∀ sharedUsers : List SharedUser,
      Steady P r (retainedUsers peer sharedUsers : Up K (List SharedUser))
  | [] => steady_pure _
  | _ :: sharedUsers => by
    refine steady_bind (steady_issue (hresolve _ _)) fun (resolved : Except Str (List IpAddr)) => ?_
    refine steady_bind (steady_retainedUsers hresolve peer sharedUsers) fun retained => ?_
    cases resolved with
    | ok addresses => exact steady_pure _
    | error e => exact steady_pure _

theorem steady_candidates (hexit : P (.inr .exit))
    (hresolve : ∀ ip port, P (.inr (.resolveAddress ip port))) (peer : IpAddr)
    (reverseUser : Option SharedUser) :
    Steady P r (candidates peer reverseUser : Up K (List SharedUser)) := by
  refine steady_bind steady_self fun u => ?_
  cases reverseUser with
  | some user =>
    refine steady_ite (steady_bind (steady_issue hexit) fun (never : Empty) => ?_) (steady_pure _)
    exact nomatch never
  | none => exact steady_ite (steady_pure _) (steady_retainedUsers hresolve peer _)

/-- The handshake, and the greeting of a reverse connection. -/
theorem steady_openStream [Crates] (hhandshake : ∀ c, P (.inr (.handshake c)))
    (hcontains : ∀ nickname, P (.inr (.reverseListContains nickname)))
    (hseal : ∀ n plain, P (.inl (.seal n plain))) (ts : TransmiticStream)
    (reverseUser : Option SharedUser) :
    Steady P Thread.self (openStream ts reverseUser : Up K Unit) := by
  have hcommands : ∀ c : HandshakeCmd K, Steady P Thread.self (handshake c) :=
    fun c => steady_issue (hhandshake c)
  cases reverseUser with
  | some user =>
    refine steady_bind (steady_bind (steady_issue (hcontains _)) fun (_ : Bool) => steady_pure _)
      fun msg => ?_
    refine steady_bind (steady_connect hcommands ts) fun r => ?_
    refine steady_bind (steady_modifyStream _) fun _ => ?_
    exact steady_write_of hseal _ _
  | none => exact steady_bind (steady_waitForIncoming hcommands ts) fun r => steady_modifyStream _

end Steady

/-! ## 2. On the connection -/

section EndsIn

variable {K : Suite} {W α : Type} {I : Thread SingleUploader → W → Prop}
  {E : Env (Thread SingleUploader) (Wire ⊕ UploaderCmd K) (Ans UploaderCmd.Ans) W}

/-- The text keeps the invariant, and may fail in any way. -/
abbrev Upholds (E : Env (Thread SingleUploader) (Wire ⊕ UploaderCmd K) (Ans UploaderCmd.Ans) W)
    (I : Thread SingleUploader → W → Prop) (m : Up K α) : Prop := EndsIn E I (fun _ => True) m

theorem upholds_throw {e : Exc} : Upholds E I (throw e : Up K α) := endsIn_throw trivial

theorem upholds_self : Upholds E I (self : Up K SingleUploader) :=
  endsIn_bind endsIn_get fun _ => endsIn_pure _

theorem upholds_orPanic : ∀ r : Option α, Upholds E I (orPanic r : Up K α)
  | some a => endsIn_pure a
  | none => upholds_throw

theorem upholds_orThrow : ∀ r : Except Exc α, Upholds E I (orThrow r : Up K α)
  | .ok a => endsIn_pure a
  | .error _ => upholds_throw

theorem upholds_tryIo (r : Except Str α) : Upholds E I (tryIo r : Up K α) := upholds_orThrow _

/-- The methods above, where the invariant looks at what they leave alone. -/
theorem upholds_of_steady {V : Type} {P : Wire ⊕ UploaderCmd K → Prop} {r : Thread SingleUploader → V}
    {m : Up K α} (h : Steady P r m) (hr : ∀ t t' w, r t' = r t → I t w → I t' w)
    (hok : ∀ t w c, I t w → P c → E.ok w t c)
    (hstep : ∀ t w c a w', I t w → P c → E.step w t c a w' → I t w') : Upholds E I m :=
  (maintains_of_steady h hr hok hstep).ends fun _ _ _ _ => trivial

variable [Crates]

/-- **The pieces of the listing**, each of them a message. -/
theorem upholds_sendList {receiverFuel : Nat} {bytes : List UInt8}
    (hwrite : ∀ sent remaining payload, (listPiece bytes sent remaining).1 = some payload →
      Upholds E I (write (listPiece bytes sent remaining).2 payload))
    (hreceive : Upholds E I (readReceiver receiverFuel))
    (hpush : ∀ nickname, Upholds E I (command (.reverseListPush nickname))) :
    ∀ fuel sent remaining : Nat, Upholds E I (sendList receiverFuel bytes fuel sent remaining)
  | 0, _, _ => upholds_throw
  | fuel + 1, sent, remaining => by
    intro t w hi
    show wp E (orPanic (listPiece bytes sent remaining).1 >>= _) _ _ t w
    cases hpiece : (listPiece bytes sent remaining).1 with
    | none => exact trivial
    | some payload =>
      refine endsIn_bind (hwrite sent remaining payload hpiece) (fun _ => ?_) t w hi
      refine endsIn_bind hreceive fun _ => endsIn_bind upholds_self fun u => ?_
      refine endsIn_ite (fun _ => endsIn_pure _) fun _ => endsIn_ite (fun _ => ?_) fun _ => ?_
      · exact endsIn_bind upholds_self fun _ => hpush _
      · exact upholds_sendList hwrite hreceive hpush fuel _ _

/-- **The chunks of a file**, each of them a message. -/
theorem upholds_sendFile {receiverFuel : Nat} {path : Str} {fileSize : UInt64}
    (hread : Upholds E I (command .fileRead))
    (hwrite : ∀ msg (chunk : ReadBytes), msg = msgFileFinished ∨ msg = msgFileChunk →
      Upholds E I (write msg chunk.1))
    (hprogress : ∀ sent, Upholds E I (updateProgress path sent fileSize))
    (hreceive : Upholds E I (readReceiver receiverFuel)) : ∀ (fuel : Nat) (sent : UInt64),
    Upholds E I (sendFile receiverFuel path fileSize fuel sent)
  | 0, _ => upholds_throw
  | fuel + 1, sent => by
    refine endsIn_bind hread fun a => endsIn_bind (upholds_tryIo a) fun readBuffer => ?_
    refine endsIn_bind (hwrite _ readBuffer ?_) fun _ => endsIn_ite (fun _ => endsIn_pure _) fun _ => ?_
    · split
      · exact .inl rfl
      · exact .inr rfl
    refine endsIn_bind (hprogress _) fun _ => ?_
    refine endsIn_bind hreceive fun _ => endsIn_bind upholds_self fun u => ?_
    exact endsIn_ite (fun _ => endsIn_pure _) fun _ =>
      upholds_sendFile hread hwrite hprogress hreceive fuel _

/-- **The requests of a connection**, one after the other. -/
theorem upholds_serveRequests {fuel : Nat} {everythingFile : SharedFile} {bytes : List UInt8}
    (hrun : Upholds E I (runLoop fuel everythingFile bytes)) (hreceive : Upholds E I (readReceiver fuel))
    (happ : ∀ enc, Upholds E I (sendApp (.reverseConnection enc))) : ∀ n : Nat,
    Upholds E I (serveRequests fuel everythingFile bytes n)
  | 0 => upholds_throw
  | n + 1 => by
    refine endsIn_bind hreceive fun _ => endsIn_bind upholds_self fun u => ?_
    refine endsIn_ite (fun _ => endsIn_pure _) fun _ => endsIn_bind hrun fun result => ?_
    cases result with
    | success => exact upholds_serveRequests hrun hreceive happ n
    | reverseConnection =>
      refine endsIn_bind endsIn_get fun t => endsIn_bind (happ t.encryptedStream) fun _ => ?_
      exact endsIn_pure _

end EndsIn

end SingleUploader

end Transmitic
