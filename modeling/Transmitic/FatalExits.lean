/-
  File:      Transmitic/FatalExits.lean
  Subject:   THE EXITS THAT ARE NEVER TAKEN, thread by thread.

  Two of the process exits guard states the code rules out elsewhere. `get_encrypted_stream` exits where
  no user was matched (`EncStreamNoUser`), and an uploader where it is to ignore who comes in and is the
  one that connects (`InvalidStateIgnoreAndRev`).

  * `ExitsUserless` -- a handshake comes to the first exit;
  * `userless_never` -- **no handshake does**: the key of the other side is read before, and taken only
    where a user matches;
  * `OneMode` -- a config does not both ignore who comes in and connect to the users itself;
  * `stays_spawned` -- **an uploader with such a config does not come to the second exit**.
-/
import Transmitic.RevocationRuns
import Transmitic.SharingMode
import Transmitic.ManagerState
import Transmitic.UploaderMethods

namespace Transmitic

open Lib

/-! ## 1. A stream without a user -/

section Userless

variable {K : Suite} {S α : Type}

/-- A handshake: the commands of a thread that does nothing else. -/
abbrev Hands (K : Suite) (S α : Type) : Type := Act S (HandshakeCmd K) HandshakeCmd.Ans Exc α

/-- The text comes to the `exit` that follows the `try_clone` of `get_encrypted_stream`. -/
def ExitsUserless (m : Hands K S α) : Prop :=
  ∃ s s' s'' k a, Reach (anyAnswers fun _ => True) (m s, ()) (.call s' .tryClone k, ()) ∧
    k a = .fail .panic s''

/-- Any answers; the state says whether the socket was cloned. -/
def cloneEnv : Env S (HandshakeCmd K) HandshakeCmd.Ans Bool where
  ok _ _ _ := True
  step cloned _ c _ cloned' := match c with
    | .tryClone => cloned' = true
    | _ => cloned' = cloned

/-- Once the socket was cloned there is no panic. -/
abbrev noPanicCloned (x : Exc) (_ : S) (cloned : Bool) : Prop := cloned = true → x ≠ .panic

/-- The same run, where it is known whether the socket was cloned. -/
theorem reach_cloneEnv {c c' : Prog S (HandshakeCmd K) HandshakeCmd.Ans Exc α × Unit}
    (h : Reach (anyAnswers fun _ => True) c c') :
    ∃ cloned, Reach cloneEnv (c.1, false) (c'.1, cloned) := by
  induction h with
  | start => exact ⟨false, .start _⟩
  | step t d k w w' a _ _ ih =>
    obtain ⟨cloned, hr⟩ := ih
    have hnext : ∃ cloned', cloneEnv.step cloned t d a cloned' := by
      cases d with
      | tryClone => exact ⟨true, rfl⟩
      | _ => exact ⟨cloned, rfl⟩
    obtain ⟨cloned', hs⟩ := hnext
    exact ⟨cloned', .step _ t d k cloned cloned' a hr hs⟩

theorem not_exitsUserless {m : Hands K S α}
    (h : ∀ s, wp cloneEnv m (fun _ _ _ => True) noPanicCloned s false) : ¬ ExitsUserless m := by
  rintro ⟨s, s', s'', k, a, hr, hexit⟩
  obtain ⟨cloned, hr⟩ := reach_cloneEnv hr
  have hcall := holds_reach (c := (m s, false)) (h s) hr
  have hend := hcall.2 a true rfl
  rw [hexit] at hend
  exact hend rfl rfl

variable {s : S}

theorem wp_issue_clone {c : HandshakeCmd K} {Q : c.Ans → S → Bool → Prop} (hc : c ≠ .tryClone)
    (hQ : ∀ a, Q a s false) : wp cloneEnv (issue c : Hands K S c.Ans) Q noPanicCloned s false := by
  refine ⟨trivial, fun a cloned hs => ?_⟩
  have hsame : cloned = false := by
    cases c with
    | tryClone => exact absurd rfl hc
    | _ => exact hs
  rw [hsame]
  exact hQ a

theorem wp_orFail_clone {r : Except Exc α} {Q : α → S → Bool → Prop}
    (hQ : ∀ a, r = .ok a → Q a s false) :
    wp cloneEnv (orFail r : Hands K S α) Q noPanicCloned s false := by
  cases r with
  | ok a => exact hQ a rfl
  | error e => exact fun hb => nomatch hb

theorem clone_sendTransmiticHeader {Q : Unit → S → Bool → Prop} (hQ : Q () s false) :
    wp cloneEnv (sendTransmiticHeader (K := K) fun c => issue c) Q noPanicCloned s false :=
  (wp_bind _ _).mpr (wp_issue_clone nofun fun _ => wp_orFail_clone fun _ _ => hQ)

theorem clone_receiveTransmiticHeader {ts : TransmiticStream} {Q : Unit → S → Bool → Prop}
    (hQ : Q () s false) :
    wp cloneEnv (receiveTransmiticHeader (K := K) (fun c => issue c) ts) Q noPanicCloned s false := by
  refine (wp_bind _ _).mpr (wp_issue_clone nofun fun a => ?_)
  exact (wp_bind _ _).mpr (wp_orFail_clone fun _ _ => wp_orFail_clone fun _ _ => hQ)

theorem clone_sendDiffieHelmanKey {ts : TransmiticStream} {Q : K.Secret → S → Bool → Prop}
    (hQ : ∀ secret, Q secret s false) :
    wp cloneEnv (sendDiffieHelmanKey (fun c => issue c) ts) Q noPanicCloned s false := by
  refine (wp_bind _ _).mpr (wp_issue_clone nofun fun secret => ?_)
  refine (wp_bind _ _).mpr (wp_issue_clone nofun fun _ => ?_)
  exact (wp_bind _ _).mpr (wp_orFail_clone fun _ _ => hQ secret)

/-- **The key is taken only where a user matches.** -/
theorem clone_receiveDiffieHelmanKey {ts : TransmiticStream}
    {Q : K.Public × TransmiticStream → S → Bool → Prop}
    (hQ : ∀ publicKey ts', ts'.matchedSharedUser.isSome = true → Q (publicKey, ts') s false) :
    wp cloneEnv (receiveDiffieHelmanKey (fun c => issue c) ts) Q noPanicCloned s false := by
  refine (wp_bind _ _).mpr (wp_issue_clone nofun fun a => ?_)
  refine (wp_bind _ _).mpr (wp_orFail_clone fun key _ => ?_)
  refine (wp_bind _ _).mpr (wp_orFail_clone fun matched _ => ?_)
  cases matched with
  | some user => exact hQ _ _ rfl
  | none => exact (wp_bind _ _).mpr (wp_issue_clone nofun fun _ hb => nomatch hb)

/-- With a matching user there is no exit. -/
theorem clone_getEncryptedStream {ts : TransmiticStream} {key : K.Key}
    (h : ts.matchedSharedUser.isSome = true) :
    wp cloneEnv (getEncryptedStream (fun c => issue c) ts key) (fun _ _ _ => True) noPanicCloned s
      false := by
  refine (wp_bind _ _).mpr ⟨trivial, fun a cloned _ => ?_⟩
  obtain ⟨user, huser⟩ := Option.isSome_iff_exists.mp h
  cases a with
  | error e => exact fun _ => nofun
  | ok u =>
    rw [huser]
    trivial

/-- **No handshake comes to the exit**, from any side, with any users, whatever the other side and the
    socket do. -/
theorem userless_never (ts : TransmiticStream) :
    ¬ ExitsUserless (TransmiticStream.connect (K := K) (S := S) (fun c => issue c) ts) ∧
      ¬ ExitsUserless (TransmiticStream.waitForIncoming (K := K) (S := S) (fun c => issue c) ts) := by
  constructor
  · refine not_exitsUserless fun s => (wp_bind _ _).mpr (clone_sendTransmiticHeader ?_)
    refine (wp_bind _ _).mpr (clone_receiveTransmiticHeader ?_)
    refine (wp_bind _ _).mpr (clone_sendDiffieHelmanKey fun secret => ?_)
    exact (wp_bind _ _).mpr (clone_receiveDiffieHelmanKey fun _ ts' h => clone_getEncryptedStream h)
  · refine not_exitsUserless fun s => (wp_bind _ _).mpr (clone_receiveTransmiticHeader ?_)
    refine (wp_bind _ _).mpr (clone_sendTransmiticHeader ?_)
    refine (wp_bind _ _).mpr (clone_receiveDiffieHelmanKey fun _ ts' h => ?_)
    exact (wp_bind _ _).mpr (clone_sendDiffieHelmanKey fun _ => clone_getEncryptedStream h)

end Userless

/-! ## 2. An uploader in the invalid state -/

/-- The config does not both ignore who comes in and connect to the users itself. -/
def ConfigFile.OneMode (c : ConfigFile) : Prop :=
  ¬ (c.ignoreIncoming = true ∧ c.reverseConnection = true)

namespace SingleUploader

/-- All commands but `exit`. -/
def stays {K : Suite} : Wire ⊕ UploaderCmd K → Prop
  | .inr .exit => False
  | _ => True

section Pass

variable {K : Suite} {α : Type} {config : Config}

/-- An uploader with this config does not exit. -/
abbrev Stays (config : Config) (m : Up K α) : Prop :=
  Upholds (anyAnswers stays) (fun t _ => t.self.config = config) m

/-- A method that leaves the config alone. -/
theorem stays_of_steady {m : Up K α} (h : Steady stays (fun t => t.self.config) m) : Stays config m :=
  upholds_of_steady h (fun _ _ _ ht hi => ht.trans hi) (fun _ _ _ _ hc => hc) fun _ _ _ _ _ hi _ _ => hi

theorem stays_command {c : UploaderCmd K} (hc : stays (.inr c)) : Stays config (command c) :=
  stays_of_steady (steady_issue hc)

/-- Polling the channel. -/
theorem stays_readReceiver (fuel : Nat) : Stays config (readReceiver fuel : Up K Unit) :=
  stays_of_steady ((steady_readReceiver trivial fuel).map Prod.snd)

theorem stays_uploadState (path : Str) (percent : UInt64) :
    Stays config (uploadState path percent : Up K Unit) :=
  stays_of_steady (steady_uploadState (fun _ => trivial) path percent)

section Served

variable [Crates]

theorem stays_write (msg : UInt16) (payload : List UInt8) :
    Stays config (write msg payload : Up K Unit) :=
  stays_of_steady ((steady_write_of (fun _ _ => trivial) msg payload).map SingleUploader.config)

theorem stays_sendList (receiverFuel : Nat) (bytes : List UInt8) (fuel sent remaining : Nat) :
    Stays config (sendList receiverFuel bytes fuel sent remaining : Up K Unit) :=
  upholds_sendList (fun _ _ _ _ => stays_write _ _) (stays_readReceiver _)
    (fun _ => stays_command trivial) fuel sent remaining

theorem stays_sendFile (receiverFuel : Nat) (path : Str) (fileSize : UInt64) (fuel : Nat)
    (sent : UInt64) : Stays config (sendFile receiverFuel path fileSize fuel sent : Up K Bool) :=
  upholds_sendFile (stays_command trivial) (fun _ _ _ => stays_write _ _)
    (fun _ => stays_of_steady (steady_updateProgress trivial (fun _ => trivial) _ _ _))
    (stays_readReceiver _) fuel sent

theorem stays_serveFile (fuel : Nat) (everythingFile : SharedFile) :
    Stays config (serveFile fuel everythingFile : Up K Unit) := by
  refine endsIn_bind (stays_of_steady steady_getPayload) fun payloadBytes => ?_
  refine endsIn_bind (upholds_orPanic _) fun _ => endsIn_bind (upholds_orThrow _) fun choice => ?_
  cases getFileByPath choice everythingFile with
  | none => exact stays_write _ _
  | some file =>
    refine endsIn_ite (fun _ => stays_write _ _) fun _ => ?_
    refine endsIn_bind (stays_command trivial) fun a => endsIn_bind (upholds_tryIo _) fun _ => ?_
    refine endsIn_bind (stays_command trivial) fun a => endsIn_bind (upholds_tryIo _) fun _ => ?_
    refine endsIn_bind (stays_uploadState _ _) fun _ => ?_
    refine endsIn_bind (stays_sendFile _ _ _ _ _) fun (_ : Bool) => ?_
    exact endsIn_ite (fun _ => stays_uploadState _ _) fun _ => endsIn_pure _

theorem stays_runLoop (fuel : Nat) (everythingFile : SharedFile) (bytes : List UInt8) :
    Stays config (runLoop fuel everythingFile bytes : Up K RunLoopResult) := by
  refine endsIn_bind (stays_of_steady ((steady_read_of fun _ _ => trivial).map SingleUploader.config))
    fun _ => ?_
  refine endsIn_bind (stays_readReceiver _) fun _ => endsIn_bind upholds_self fun u => ?_
  refine endsIn_ite (fun _ => endsIn_pure _) fun _ => ?_
  refine endsIn_bind (stays_of_steady steady_getMessage) fun msg => ?_
  refine endsIn_bind (endsIn_modify fun _ _ h => h) fun _ => ?_
  refine endsIn_ite (fun _ => ?_) fun _ => endsIn_ite (fun _ => ?_) fun _ => endsIn_ite (fun _ => ?_)
    fun _ => ?_
  · exact endsIn_bind (stays_sendList _ _ _ _ _) fun _ => endsIn_pure _
  · exact endsIn_bind (stays_serveFile _ _) fun _ => endsIn_pure _
  · exact endsIn_bind (endsIn_modify fun _ _ h => h) fun _ => endsIn_pure _
  · exact endsIn_bind upholds_self fun _ => upholds_throw

theorem stays_serveRequests (fuel : Nat) (everythingFile : SharedFile) (bytes : List UInt8) (n : Nat) :
    Stays config (serveRequests fuel everythingFile bytes n : Up K RunLoopResult) :=
  upholds_serveRequests (stays_runLoop _ _ _) (stays_readReceiver _) (fun _ => stays_command trivial) n

theorem stays_serveUser (fuel : Nat) : Stays config (serveUser fuel : Up K RunLoopResult) := by
  refine endsIn_bind endsIn_get fun t => endsIn_bind (endsIn_modify fun _ _ h => h) fun _ => ?_
  refine endsIn_ite (fun _ => endsIn_bind (stays_command trivial) fun _ => endsIn_pure _) fun _ => ?_
  refine endsIn_bind (stays_command trivial) fun (fs : FileSystem) => endsIn_bind upholds_self fun u => ?_
  refine endsIn_bind (upholds_orThrow _) fun _ => endsIn_bind (upholds_orThrow _) fun _ => ?_
  exact stays_serveRequests _ _ _ _

end Served

/-! The thread. -/

/-- A thread for a reverse connection was started with a config that does not ignore who comes in. -/
def Started (config : Config) (reverseUser : Option SharedUser) : Prop :=
  reverseUser.isSome = true → config.configFile.ignoreIncoming = false

/-- **The invalid state is not met.** -/
theorem stays_candidates (peer : IpAddr) {reverseUser : Option SharedUser}
    (h : Started config reverseUser) :
    Stays config (candidates peer reverseUser : Up K (List SharedUser)) := by
  intro t w ht
  cases reverseUser with
  | some sharedUser =>
    have hnot : ¬ t.self.config.configFile.ignoreIncoming = true := by
      rw [ht, h rfl]
      simp
    exact endsIn_ite (fun hb => absurd hb hnot) (fun _ => endsIn_pure _) t w ht
  | none =>
    exact endsIn_ite (fun _ => endsIn_pure _)
      (fun _ => stays_of_steady (steady_retainedUsers (fun _ _ => trivial) peer _)) t w ht

variable [Crates]

theorem stays_openStream (ts : TransmiticStream) (reverseUser : Option SharedUser) :
    Stays config (openStream ts reverseUser : Up K Unit) :=
  stays_of_steady ((steady_openStream (fun _ => trivial) (fun _ => trivial) (fun _ _ => trivial) ts
    reverseUser).map SingleUploader.config)

theorem stays_run (fuel : Nat) {reverseUser : Option SharedUser} (h : Started config reverseUser) :
    Stays config (run fuel reverseUser : Up K RunLoopResult) := by
  refine endsIn_bind (stays_command trivial) fun a => endsIn_bind (upholds_tryIo _) fun peer => ?_
  refine endsIn_bind (stays_candidates peer h) fun sharedUsers => endsIn_bind upholds_self fun u => ?_
  refine endsIn_ite (fun _ => endsIn_bind (stays_command trivial) fun _ => endsIn_pure _) fun _ => ?_
  refine endsIn_bind (stays_command trivial) fun _ => endsIn_bind (upholds_tryIo _) fun _ => ?_
  refine endsIn_bind upholds_self fun u => endsIn_bind (upholds_orThrow _) fun ts => ?_
  exact endsIn_bind (stays_openStream ts reverseUser) fun _ => stays_serveUser fuel

omit [Crates] in
/-- Whatever was left of the uploader, its end does not exit. -/
theorem stays_afterFailure (x : Exc) {t : Thread SingleUploader} :
    wp (anyAnswers stays) (afterFailure x : Up K RunLoopResult) (fun _ _ _ => True)
      (fun _ _ _ => True) t () := by
  cases x with
  | err e =>
    have hend : EndsIn (anyAnswers stays) (fun _ _ => True) (fun _ => True)
        (afterFailure (.err e) : Up K RunLoopResult) := by
      refine endsIn_bind (endsIn_bind endsIn_get fun _ => endsIn_pure _) fun u => ?_
      refine endsIn_ite (fun _ => endsIn_bind ?_ fun _ => endsIn_pure _) fun _ => endsIn_pure _
      exact endsIn_issue (fun _ _ _ => trivial) fun _ _ _ _ _ _ => trivial
    exact hend t () trivial
  | panic => trivial
  | fuel => trivial

theorem stays_singleThread (fuel : Nat) {reverseUser : Option SharedUser}
    (h : Started config reverseUser) {t : Thread SingleUploader} (ht : t.self.config = config) :
    wp (anyAnswers stays) (singleThread fuel reverseUser : Up K Unit) (fun _ _ _ => True)
      (fun _ _ _ => True) t () := by
  have hrun : wp (anyAnswers stays) (tryCatch (run fuel reverseUser) afterFailure : Up K RunLoopResult)
      (fun _ _ _ => True) (fun _ _ _ => True) t () :=
    (wp_tryCatch _ _).mpr (wp_conseq (stays_run fuel h t () ht) (fun _ _ _ _ => trivial)
      fun x _ _ _ => stays_afterFailure x)
  refine wp_seq hrun (fun result _ _ _ => ?_) fun _ _ _ h' => h'
  cases result with
  | success => exact ⟨trivial, fun _ _ _ => trivial⟩
  | reverseConnection => trivial

/-- **An uploader that was started as the manager starts them does not exit.** -/
theorem stays_spawned (fuel : Nat) {reverseUser : Option SharedUser} (h : Started config reverseUser)
    (encryptedStream : EncryptedStream) :
    (spawned (K := K) fuel reverseUser { self := SingleUploader.new config, encryptedStream }).Holds
      (anyAnswers stays) (fun _ _ _ => True) (fun _ _ _ => True) () := by
  cases reverseUser with
  | none => exact stays_singleThread fuel h rfl
  | some user =>
    refine (wp_bind (command (.resolveAddress user.ip user.port)) _).mpr ⟨trivial, fun r _ _ => ?_⟩
    refine wp_seq (@upholds_orPanic K _ _ (fun t _ => t.self.config = config) _ (r : Except Str (List IpAddr)).toOption _ () rfl)
      (fun addresses t' _ ht => ?_) fun _ _ _ _ => trivial
    refine (wp_bind (command (.tcpConnect addresses)) _).mpr ⟨trivial, fun (b : Bool) _ _ => ?_⟩
    refine (wp_ite _ _ _).mpr ?_
    split
    · exact stays_singleThread fuel h ht
    · trivial

end Pass

end SingleUploader

/-! ## 3. All uploaders -/

section Uploaders

variable {K : Suite} {Φ : UpProgram K → Prop} {w w' : UploadWorld K}

/-- What every uploader has still to do is of this kind. -/
def AllPrograms (Φ : UpProgram K → Prop) (uploaders : List (Uploader K)) : Prop :=
  ∀ (i : Nat) (u : Uploader K) (p : UpProgram K), uploaders[i]? = some u → u.program = some p → Φ p

/-- One uploader changes. -/
theorem allPrograms_modify {uploaders : List (Uploader K)} {i : Nat} {f : Uploader K → Uploader K}
    (h : AllPrograms Φ uploaders)
    (hf : ∀ u p, uploaders[i]? = some u → (f u).program = some p → u.program = some p ∨ Φ p) :
    AllPrograms Φ (uploaders.modify i f) := by
  intro j u p hj hp
  rw [List.getElem?_modify, Option.map_eq_map] at hj
  obtain ⟨v, hv, rfl⟩ := Option.map_eq_some_iff.mp hj
  by_cases hij : i = j
  · subst hij
    rw [if_pos rfl] at hp
    rcases hf v p hv hp with hold | hnew
    · exact h i v p hv hold
    · exact hnew
  · rw [if_neg hij] at hp
    exact h j v p hv hp

/-- **A command of the manager**: an uploader it starts is of the kind. -/
theorem allPrograms_managerStep [Crates] {c : ManagerCmd} {a : c.Ans}
    (h : AllPrograms Φ w.uploaders) (hs : w.ManagerStep c a w')
    (hspawn : ∀ i user list config, c = .spawn i user list config → ∀ fuel encryptedStream,
      Φ (spawned fuel user { self := SingleUploader.new config, encryptedStream })) :
    AllPrograms Φ w'.uploaders := by
  cases c with
  | tryRecv =>
    cases a with
    | value message =>
      obtain ⟨-, rfl⟩ := hs
      exact h
    | empty =>
      obtain ⟨-, rfl⟩ := hs
      exact h
    | disconnected => exact hs.elim
  | send i message =>
    obtain ⟨u, -, -, rfl⟩ := hs
    split
    · exact allPrograms_modify h fun _ _ _ hp => .inl hp
    · exact h
  | dropSender i =>
    rw [show w' = _ from hs]
    exact allPrograms_modify h fun _ _ _ hp => .inl hp
  | newReverseList =>
    obtain ⟨-, rfl⟩ := hs
    exact h
  | newChannel =>
    obtain ⟨-, rfl⟩ := hs
    intro i u p hi hp
    rcases List.mem_append.mp (List.mem_of_getElem? hi) with hold | hnew
    · obtain ⟨j, hj⟩ := List.getElem?_of_mem hold
      exact h j u p hj hp
    · rw [List.mem_singleton.mp hnew] at hp
      cases hp
  | spawn i user list config =>
    obtain ⟨u, fuel, encryptedStream, -, -, rfl⟩ := hs
    refine allPrograms_modify h fun _ p _ hp => .inr ?_
    cases hp
    exact hspawn i user list config rfl fuel encryptedStream
  | postSelf message =>
    rw [show w' = _ from hs]
    exact h
  | _ =>
    rw [show w' = w from hs]
    exact h

/-- **A turn of an uploader**, which goes on with what it had to do. -/
theorem allPrograms_threadStep {i : Nat} {u : Uploader K} {t : Thread SingleUploader}
    {c : Wire ⊕ UploaderCmd K} {k : Ans (@UploaderCmd.Ans K) c → UpProgram K}
    {a : Ans (@UploaderCmd.Ans K) c} (h : AllPrograms Φ w.uploaders) (hi : w.uploaders[i]? = some u)
    (hp : u.program = some (.call t c k)) (hs : w.ThreadStep i u c a w')
    (hΦ : Φ (.call t c k) → Φ (k a)) :
    AllPrograms Φ (w'.update i fun u => { u with program := some (k a) }).uploaders := by
  have hw := (threadStep_spec hi hs).1
  have hafter : AllPrograms Φ w'.uploaders := by
    rw [hw]
    refine allPrograms_modify h fun v p _ hv => .inl ?_
    have hfixed := v.fixed_after (c := c) (a := a)
    unfold Uploader.fixed at hfixed
    simp only [Prod.mk.injEq] at hfixed
    rw [← hfixed.2.2.2]
    exact hv
  refine allPrograms_modify hafter fun _ p _ hp' => .inr ?_
  cases hp'
  exact hΦ (h i u _ hi hp)

end Uploaders

end Transmitic
