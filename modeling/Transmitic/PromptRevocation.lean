/-
  File:      Transmitic/PromptRevocation.lean
  Subject:   REVOCATION IS PROMPT. A message to the manager shuts every uploader down: it posts
             `ShutdownConn` to it and drops its sender. From then on its channel is never found empty, so
             at its next look at it the uploader stops. Between two looks it writes one message at most.

  * `Watch` -- what counts of an uploader: how many messages it has begun to write and how many commands
    it has issued, and the same numbers at the moment its sender was dropped;
  * `Room` -- what it may still do;
  * `singleThread_room` -- **an uploader keeps within what it may do**;
  * `revocation_prompt` -- every run of the manager and its uploaders.
-/
import Transmitic.Lib.Cost
import Transmitic.Lib.Interference
import Transmitic.Messages
import Transmitic.UploaderSystem

namespace Transmitic

open Lib

/-! ## 1. What counts -/

/-- Frames read one after the other: how many messages were begun, and does a payload come next? -/
def scanFrames (frames : List (List UInt8)) : Nat × Bool :=
  frames.foldl (fun (writes, pending) plain =>
    if pending then (writes, false) else (writes + 1, sizeOf' plain ≠ 0)) (0, false)

/-- A frame more ends the message that was begun, or begins one. -/
theorem scanFrames_append (frames : List (List UInt8)) (plain : List UInt8) :
    scanFrames (frames ++ [plain]) = if (scanFrames frames).2 = true then ((scanFrames frames).1, false)
      else ((scanFrames frames).1 + 1, decide (sizeOf' plain ≠ 0)) := by
  unfold scanFrames
  rw [List.foldl_append]
  rfl

/-- The calls of `EncryptedStream::write` of an uploader. -/
def Uploader.writes {K : Suite} (u : Uploader K) : Nat := (scanFrames u.sealed).1

/-- What is watched of one uploader, from its start on. -/
structure Watch where
  /-- The calls of `write` and the commands at the moment the sender was dropped. -/
  revoked : Option (Nat × Nat)
  writes : Nat
  /-- The payload of a message comes next. -/
  pending : Bool
  commands : Nat

namespace Watch

def issued (w : Watch) : Watch := { w with commands := w.commands + 1 }

def sealed (w : Watch) (plain : List UInt8) : Watch :=
  { w.issued with
    writes := if w.pending then w.writes else w.writes + 1
    pending := if w.pending then false else sizeOf' plain ≠ 0 }

/-- The others drop the sender, once. -/
def Others (w w' : Watch) : Prop :=
  w' = w ∨ w.revoked = none ∧ w' = { w with revoked := some (w.writes, w.commands) }

/-- What the others do once or not at all can come between any two commands. -/
theorem interference : Interference Others where
  refl _ := .inl rfl
  trans w w' w'' h h' := by
    rcases h with rfl | ⟨hw, rfl⟩
    · exact h'
    · rcases h' with rfl | ⟨hw', -⟩
      · exact .inr ⟨hw, rfl⟩
      · cases hw'

/-- A command can be afforded of the `bound` commands left when the sender was dropped. -/
def Payable (bound : Nat) (w : Watch) : Prop :=
  ∀ writes commands, w.revoked = some (writes, commands) → w.commands < commands + bound

/-- No message was begun since the sender was dropped. -/
def MayWrite (w : Watch) : Prop :=
  ∀ writes commands, w.revoked = some (writes, commands) → w.writes ≤ writes

end Watch

section Thread

variable {K : Suite} {bound : Nat}

/-- An uploader under watch. Once the sender was dropped its channel is not found empty. -/
def watchEnv (bound : Nat) :
    Env (Thread SingleUploader) (Wire ⊕ UploaderCmd K) (Ans (@UploaderCmd.Ans K)) Watch where
  ok w _ c :=
    w.Payable bound ∧ ∀ n plain, c = .inl (.seal n plain) → w.pending = false → w.MayWrite
  step w _ c a w' :=
    match c, a with
    | .inl (.seal _ plain), _ => w' = w.sealed plain
    | .inr .tryRecv, .value _ => w' = w
    | .inr .tryRecv, .empty => w.revoked = none ∧ w' = w.issued
    | _, _ => w' = w.issued

/-- Among the manager and the other uploaders. -/
abbrev watchAmong (bound : Nat) :
    Env (Thread SingleUploader) (Wire ⊕ UploaderCmd K) (Ans (@UploaderCmd.Ans K)) Watch :=
  (watchEnv bound).among Watch.Others

/-! ## 2. What an uploader may still do -/

/-- Once the sender was dropped, `k` more commands can be afforded. -/
structure Affords (bound k : Nat) (w : Watch) : Prop where
  le_bound : k ≤ bound
  commands : ∀ writes commands, w.revoked = some (writes, commands) →
    w.commands + k ≤ commands + bound

/-- Between two messages; since the sender was dropped at most `d` messages were begun. -/
structure Room (bound k d : Nat) (w : Watch) : Prop extends Affords bound k w where
  between : w.pending = false
  writes : ∀ writes commands, w.revoked = some (writes, commands) → w.writes ≤ writes + d

variable {k k' d d' : Nat} {w w' : Watch}

theorem Affords.mono (h : Affords bound k w) (hle : k' ≤ k) : Affords bound k' w := by
  refine ⟨Nat.le_trans hle h.le_bound, fun n c hr => ?_⟩
  have hc := h.commands n c hr
  omega

/-- A sender that is dropped now leaves everything to be spent. -/
theorem Affords.others (h : Affords bound k w) (ho : w.Others w') : Affords bound k w' := by
  rcases ho with rfl | ⟨-, rfl⟩
  · exact h
  · refine ⟨h.le_bound, fun n c hr => ?_⟩
    obtain ⟨-, rfl⟩ := Prod.mk.inj (Option.some.inj hr)
    exact Nat.add_le_add_left h.le_bound _

theorem Room.mono (h : Room bound k d w) (hk : k' ≤ k) (hd : d ≤ d') : Room bound k' d' w := by
  refine ⟨h.toAffords.mono hk, h.between, fun n c hr => ?_⟩
  have hw := h.writes n c hr
  omega

/-- Nor was any message begun since then. -/
theorem Room.others (h : Room bound k d w) (ho : w.Others w') : Room bound k d w' := by
  have haffords := h.toAffords.others ho
  rcases ho with rfl | ⟨-, rfl⟩
  · exact h
  · refine ⟨haffords, h.between, fun n c hr => ?_⟩
    obtain ⟨rfl, -⟩ := Prod.mk.inj (Option.some.inj hr)
    exact Nat.le_add_right _ _

theorem Affords.payable (h : Affords bound (k + 1) w) : w.Payable bound := by
  intro n c hr
  have hc := h.commands n c hr
  omega

/-- A command is paid for. -/
theorem Affords.issued (h : Affords bound (k + 1) w) : Affords bound k w.issued := by
  refine ⟨Nat.le_of_succ_le h.le_bound, fun n c hr => ?_⟩
  have hc := h.commands n c hr
  show w.commands + 1 + k ≤ c + bound
  omega

theorem Room.issued (h : Room bound (k + 1) d w) : Room bound k d w.issued :=
  ⟨h.toAffords.issued, h.between, h.writes⟩

/-- Where the sender was not dropped everything is left. -/
theorem Room.full (hr : w.revoked = none) (hp : w.pending = false) : Room bound bound 0 w := by
  refine ⟨⟨Nat.le_refl _, fun n c h => ?_⟩, hp, fun n c h => ?_⟩
  · rw [hr] at h
    cases h
  · rw [hr] at h
    cases h

/-! ## 3. Commands -/

/-- Commands that neither write nor look at the channel. -/
def ordinary : Wire ⊕ UploaderCmd K → Prop
  | .inl (.seal _ _) => False
  | .inr .tryRecv => False
  | _ => True

/-- An ordinary command is counted, and that is all. -/
theorem step_ordinary {t : Thread SingleUploader} {c : Wire ⊕ UploaderCmd K}
    {a : Ans (@UploaderCmd.Ans K) c} (hc : ordinary c) (h : (watchEnv bound).step w t c a w') :
    w' = w.issued := by
  rcases c with (⟨n, plain⟩ | ⟨n, size⟩) | c
  · exact hc.elim
  · exact h
  · cases c with
    | tryRecv => exact hc.elim
    | _ => exact h

/-- It is admitted wherever it can be paid for. -/
theorem ok_ordinary {t : Thread SingleUploader} {c : Wire ⊕ UploaderCmd K} (hc : ordinary c)
    (h : Affords bound (k + 1) w) : (watchAmong bound).ok w t c := by
  refine fun w' ho => ⟨(h.others ho).payable, fun n plain he => ?_⟩
  subst he
  exact hc.elim

/-- **What costs `n` ordinary commands**, in a state with room for it. -/
theorem room_of_costs {α : Type} {n : Nat} {m : Up K α} {t : Thread SingleUploader}
    (hm : Costs ordinary n m) (h : Room bound (n + k) d w) :
    wp (watchAmong bound) m (fun _ _ w' => Room bound k d w') (fun _ _ w' => Room bound k d w') t w := by
  refine wp_of_costs (I := fun k w => Room bound k d w) hm (fun k k' w hle h => h.mono hle (Nat.le_refl d))
    (fun k w t c h hc => ok_ordinary hc h.toAffords) (fun k w t c a w' h hc hs => ?_) h
  obtain ⟨w₀, w₁, h₀, hstep, h₁⟩ := hs
  obtain rfl := step_ordinary hc hstep
  exact (h.others h₀).issued.others h₁

/-- The same where the rest of the state counts for nothing. -/
theorem affords_of_costs {α : Type} {n : Nat} {m : Up K α} {t : Thread SingleUploader}
    (hm : Costs ordinary n m) (h : Affords bound (n + k) w) : wp (watchAmong bound) m
      (fun _ _ w' => Affords bound k w') (fun _ _ w' => Affords bound k w') t w := by
  refine wp_of_costs (I := fun k w => Affords bound k w) hm (fun k k' w hle h => h.mono hle)
    (fun k w t c h hc => ok_ordinary hc h) (fun k w t c a w' h hc hs => ?_) h
  obtain ⟨w₀, w₁, h₀, hstep, h₁⟩ := hs
  obtain rfl := step_ordinary hc hstep
  exact (h.others h₀).issued.others h₁

/-! ## 4. Messages and the channel -/

variable [Crates] {t : Thread SingleUploader}

/-- The end of an uploader: a message to the app where it fails, and the shutdown of the stream. -/
abbrev ending {β : Type} (bound : Nat) : β → Thread SingleUploader → Watch → Prop :=
  fun _ _ w => Affords bound 2 w

omit [Crates] in
/-- A frame is paid for like any other command. -/
theorem sealed_affords {plain : List UInt8} (h : Affords bound (k + 1) w) :
    Affords bound k (w.sealed plain) := ⟨h.issued.le_bound, h.issued.commands⟩

omit [Crates] in
/-- The header is read back without the payload. -/
theorem sizeOf'_header_only {size : Nat} (h : size < 2 ^ 32) (msg : UInt16) :
    sizeOf' (header msg size) = size := by
  have hs := sizeOf'_header h msg []
  rw [List.append_nil] at hs
  exact hs

/-- In the middle of a message: its payload may come next. -/
structure Midway (bound k : Nat) (empty : Bool) (w : Watch) : Prop extends Affords bound k w where
  pending : w.pending = !empty
  writes : ∀ writes commands, w.revoked = some (writes, commands) → w.writes ≤ writes + 1

omit [Crates] in
/-- A sender dropped in the middle of a message counts that message as begun before. -/
theorem Midway.others {empty : Bool} (h : Midway bound k empty w) (ho : w.Others w') :
    Midway bound k empty w' := by
  have haffords := h.toAffords.others ho
  rcases ho with rfl | ⟨-, rfl⟩
  · exact h
  · refine ⟨haffords, h.pending, fun n c hr => ?_⟩
    obtain ⟨rfl, -⟩ := Prod.mk.inj (Option.some.inj hr)
    exact Nat.le_succ _

/-- **A message**: where one may be begun. -/
theorem room_write {msg : UInt16} {payload : List UInt8} (hsmall : payload.length ≤ maxDataSize)
    (hk : 2 ≤ k) (h : Room bound (k + 2) 0 w) : wp (watchAmong bound) (write msg payload : Up K Unit)
      (fun _ t' w' => t'.self = t.self ∧ Room bound k 1 w') (ending bound) t w := by
  have hlt : payload.length < 2 ^ 32 := Nat.lt_of_le_of_lt hsmall (by decide)
  refine wp_write_frames (J := fun w' => Midway bound (k + 1) (decide (payload = [])) w') hsmall
    (fun t' n ht => ⟨fun w₁ ho => ?_, fun a w₂ hs => ?_⟩) (fun hnil t' w' ht hJ => ?_)
    (fun hne t' n w' ht hJ => ⟨fun w₁ ho => ?_, fun a w₂ hs => ?_⟩) fun e t' w' ht hJ => ?_
  · have h₁ := h.others ho
    exact ⟨h₁.toAffords.payable, fun n' plain _ _ m c hr => h₁.writes m c hr⟩
  · obtain ⟨w₀, w₁, h₀, hstep, h₁⟩ := hs
    have hw₀ := h.others h₀
    obtain rfl : w₁ = w₀.sealed (header msg payload.length) := hstep
    refine Midway.others ⟨sealed_affords hw₀.toAffords, ?_, fun m c hr => ?_⟩ h₁
    · show (if w₀.pending then false else decide (sizeOf' (header msg payload.length) ≠ 0)) = _
      rw [hw₀.between, sizeOf'_header_only hlt]
      by_cases hnil : payload = []
      · subst hnil
        rfl
      · have hpos : payload.length ≠ 0 := fun h0 => hnil (List.length_eq_zero_iff.mp h0)
        simp [hnil, hpos]
    · show (if w₀.pending then w₀.writes else w₀.writes + 1) ≤ m + 1
      have hm := hw₀.writes m c hr
      rw [hw₀.between]
      exact Nat.succ_le_succ hm
  · have hp : w'.pending = false := by
      rw [hJ.pending, decide_eq_true hnil]
      rfl
    exact ⟨ht, hJ.toAffords.mono (Nat.le_succ k), hp, hJ.writes⟩
  · have h₁ := hJ.others ho
    refine ⟨h₁.toAffords.payable, fun n' plain _ hp => ?_⟩
    rw [h₁.pending, decide_eq_false hne] at hp
    cases hp
  · obtain ⟨w₀, w₁, h₀, hstep, h₁⟩ := hs
    have hw₀ := hJ.others h₀
    have hpending : w₀.pending = true := by
      rw [hw₀.pending, decide_eq_false hne]
      rfl
    obtain rfl : w₁ = w₀.sealed (body msg payload) := hstep
    have hroom : Room bound k 1 (w₀.sealed (body msg payload)) := by
      refine ⟨sealed_affords hw₀.toAffords, ?_, fun m c hr => ?_⟩
      · show (if w₀.pending then false else _) = false
        rw [hpending]
        rfl
      · show (if w₀.pending then w₀.writes else w₀.writes + 1) ≤ m + 1
        rw [hpending]
        exact hw₀.writes m c hr
    have hroom' := hroom.others h₁
    exact ⟨fun t'' ht'' => ⟨ht'', hroom'⟩, fun e t'' _ => hroom'.toAffords.mono hk⟩
  · exact hJ.toAffords.mono (by omega)

omit [Crates] in
/-- **A look at the channel**: the uploader has to stop, or the sender was not dropped so far. -/
theorem room_readReceiver : ∀ (fuel : Nat) {t : Thread SingleUploader} {w : Watch}, 2 ≤ k →
    Room bound (k + 1) d w → wp (watchAmong bound) (SingleUploader.readReceiver fuel : Up K Unit)
      (fun _ t' w' => t'.self.shouldShutdown = true ∧ Room bound k d w' ∨ Room bound bound 0 w')
      (ending bound) t w
  | 0, _, _, hk, h => h.toAffords.mono (by omega)
  | fuel + 1, t, w, hk, h => by
    refine (wp_bind _ _).mpr ⟨fun w₁ ho => ⟨(h.others ho).toAffords.payable, fun n plain he => ?_⟩,
      fun a w' hs => ?_⟩
    · cases he
    obtain ⟨w₀, w₁, h₀, hstep, h₁⟩ := hs
    have hw₀ := h.others h₀
    cases a with
    | value m =>
      obtain rfl : w₁ = w₀ := hstep
      cases m with
      | shutdownConn => exact (wp_bind _ _).mpr (room_readReceiver fuel hk (hw₀.others h₁))
      | doNothing => exact room_readReceiver fuel hk (hw₀.others h₁)
    | empty =>
      -- an empty channel has a sender, so nothing has been spent so far
      obtain ⟨hnone, rfl⟩ := hstep
      exact .inr ((Room.full (w := w₀.issued) hnone hw₀.between).others h₁)
    | disconnected =>
      obtain rfl : w₁ = w₀.issued := hstep
      exact .inl ⟨rfl, hw₀.issued.others h₁⟩

end Thread

/-! ## 5. What the methods cost -/

namespace SingleUploader

section Costs

variable {K : Suite} {α : Type} {n : Nat}

theorem costs_command {c : UploaderCmd K} (h : ordinary (.inr c)) :
    Costs ordinary 1 (command c : Up K c.Ans) := costs_issue h

theorem costs_orThrow : ∀ r : Except Exc α, Costs ordinary n (orThrow r : Up K α)
  | .ok a => costs_pure a
  | .error e => costs_throw e

theorem costs_orPanic : ∀ r : Option α, Costs ordinary n (orPanic r : Up K α)
  | some a => costs_pure a
  | none => costs_throw _

/-- Looking at an answer costs nothing. -/
theorem costs_orFail : ∀ r : Except Exc α, Costs ordinary n (orFail r : Up K α)
  | .ok a => costs_pure a
  | .error e => costs_throw e

theorem costs_throwIf (b : Prop) [Decidable b] (e : Exc) :
    Costs ordinary n (throwIf b e : Up K Unit) :=
  costs_ite (fun _ => costs_throw e) fun _ => costs_pure ()

/-- A frame is one read, whatever comes of it. -/
theorem costs_readFrame (readSize : Nat) (error : Str) :
    Costs ordinary 1 (readFrame readSize error : Up K (List UInt8)) := by
  refine costs_first (costs_throwIf _ _) fun _ => costs_first costs_get fun t => ?_
  refine costs_last (costs_issue trivial) fun a => ?_
  cases a with
  | plain bytes => exact costs_pure _
  | io e => exact costs_throw _
  | rejected e => exact costs_throw _

theorem costs_copyToBuffer (i : Nat) (src : List UInt8) :
    Costs ordinary 0 (copyToBuffer i src : Up K Unit) :=
  costs_first costs_get fun _ => costs_first (costs_orPanic _) fun _ => costs_modify _

theorem costs_incrementNonce : Costs ordinary 0 (incrementNonce : Up K Unit) :=
  costs_first costs_get fun _ => costs_first (costs_throwIf _ _) fun _ => costs_modify _

/-- A message is at most two of them. -/
theorem costs_read : Costs ordinary 2 (Transmitic.read : Up K Unit) := by
  refine costs_next (costs_readFrame _ _) fun plain => costs_first (costs_copyToBuffer _ _) fun _ => ?_
  refine costs_first costs_incrementNonce fun _ => costs_first costs_get fun t => ?_
  refine costs_ite (fun _ => ?_) fun _ => costs_pure ()
  refine costs_last (costs_readFrame _ _) fun _ => ?_
  exact costs_first (costs_copyToBuffer _ _) fun _ => costs_incrementNonce

theorem costs_self : Costs ordinary n (self : Up K SingleUploader) :=
  fun _ k => Nat.le_add_left k n

theorem costs_uploadState (path : Str) (percent : UInt64) :
    Costs ordinary 1 (uploadState path percent : Up K Unit) :=
  costs_first costs_self fun _ => costs_command trivial

/-- The clock, and a message to the app if it is time. -/
theorem costs_updateProgress (path : Str) (currentSentBytes fileSize : UInt64) :
    Costs ordinary 2 (updateProgress path currentSentBytes fileSize : Up K Unit) :=
  costs_next (costs_command trivial) fun (_ : Bool) =>
    costs_ite (fun _ => costs_uploadState _ _) fun _ => costs_pure ()

/-! The handshake. -/

theorem costs_handshake (c : HandshakeCmd K) : Costs ordinary 1 (handshake c : Up K c.Ans) :=
  costs_command trivial

theorem costs_sendTransmiticHeader :
    Costs ordinary 1 (sendTransmiticHeader (fun c => handshake (K := K) c)) :=
  costs_last (costs_handshake _) fun _ => costs_orFail _

theorem costs_receiveTransmiticHeader (ts : TransmiticStream) :
    Costs ordinary 1 (receiveTransmiticHeader (fun c => handshake (K := K) c) ts) :=
  costs_last (costs_handshake _) fun _ => costs_first (costs_orFail _) fun _ => costs_orFail _

/-- The key is made, and sent. -/
theorem costs_sendDiffieHelmanKey (ts : TransmiticStream) :
    Costs ordinary 2 (sendDiffieHelmanKey (fun c => handshake (K := K) c) ts) :=
  costs_next (costs_handshake _) fun _ => costs_last (costs_handshake _) fun _ =>
    costs_first (costs_orFail _) fun _ => costs_pure _

/-- The key is received; where no user has it, the process exits. -/
theorem costs_receiveDiffieHelmanKey (ts : TransmiticStream) :
    Costs ordinary 2 (receiveDiffieHelmanKey (fun c => handshake (K := K) c) ts) := by
  refine costs_next (costs_handshake _) fun _ => costs_first (costs_orFail _) fun key => ?_
  refine costs_first (costs_orFail _) fun user => ?_
  cases user with
  | some user => exact costs_pure _
  | none => exact costs_last (costs_handshake _) fun _ => costs_throw _

theorem costs_getEncryptedStream (ts : TransmiticStream) (key : K.Key) :
    Costs ordinary 1 (getEncryptedStream (fun c => handshake (K := K) c) ts key) := by
  refine costs_last (costs_handshake _) fun _ => costs_first (costs_orFail _) fun _ => ?_
  cases ts.matchedSharedUser with
  | some user => exact costs_pure _
  | none => exact costs_throw _

/-- **The handshake costs seven commands**, from the side that connects. -/
theorem costs_connect (ts : TransmiticStream) :
    Costs ordinary 7 (TransmiticStream.connect (fun c => handshake (K := K) c) ts) :=
  (costs_bind costs_sendTransmiticHeader fun _ =>
    costs_bind (costs_receiveTransmiticHeader ts) fun _ =>
      costs_bind (costs_sendDiffieHelmanKey ts) fun _ =>
        costs_bind (costs_receiveDiffieHelmanKey ts) fun _ => costs_getEncryptedStream _ _).mono
    (Nat.le_refl 7)

/-- And as many from the side that waits. -/
theorem costs_waitForIncoming (ts : TransmiticStream) :
    Costs ordinary 7 (TransmiticStream.waitForIncoming (fun c => handshake (K := K) c) ts) :=
  (costs_bind (costs_receiveTransmiticHeader ts) fun _ =>
    costs_bind costs_sendTransmiticHeader fun _ =>
      costs_bind (costs_receiveDiffieHelmanKey ts) fun _ =>
        costs_bind (costs_sendDiffieHelmanKey _) fun _ => costs_getEncryptedStream _ _).mono
    (Nat.le_refl 7)

/-- One command for each user. -/
theorem costs_retainedUsers (peer : IpAddr) : ∀ sharedUsers : List SharedUser,
    Costs ordinary sharedUsers.length (retainedUsers peer sharedUsers : Up K (List SharedUser))
  | [] => costs_pure _
  | user :: users => by
    refine costs_next (costs_command trivial) fun resolved => ?_
    refine costs_last (costs_retainedUsers peer users) fun _ => ?_
    cases resolved with
    | ok addresses => exact costs_pure _
    | error e => exact costs_pure _

end Costs

/-! ## 6. An uploader keeps within what it may do -/

section Rooms

variable [Crates] {K : Suite} {α : Type} {bound k d n : Nat} {t : Thread SingleUploader} {w : Watch}

omit [Crates] in
/-- Ordinary commands, then the rest. -/
theorem room_then {β : Type} {m : Up K α} {f : α → Up K β} {Q : β → Thread SingleUploader → Watch → Prop}
    (hm : Costs ordinary n m) (hk : 2 ≤ k) (h : Room bound (n + k) d w)
    (hf : ∀ a t' w', Room bound k d w' → wp (watchAmong bound) (f a) Q (ending bound) t' w') :
    wp (watchAmong bound) (m >>= f) Q (ending bound) t w :=
  wp_seq (room_of_costs hm h) (fun a t' w' h' => hf a t' w' h') fun _ _ _ h' => h'.toAffords.mono hk

omit [Crates] in
/-- One ordinary command, which leaves the thread's own state alone, then the rest. -/
theorem room_command {β : Type} {c : UploaderCmd K} {f : c.Ans → Up K β}
    {Q : β → Thread SingleUploader → Watch → Prop} {R : Exc → Thread SingleUploader → Watch → Prop}
    (hc : ordinary (.inr c)) (h : Room bound (k + 1) d w)
    (hf : ∀ a w', Room bound k d w' → wp (watchAmong bound) (f a) Q R t w') :
    wp (watchAmong bound) (command c >>= f) Q R t w := by
  refine (wp_bind _ _).mpr ⟨ok_ordinary hc h.toAffords, fun a w₁ hs => ?_⟩
  obtain ⟨w₀, w', h₀, hstep, h₁⟩ := hs
  obtain rfl := step_ordinary hc hstep
  exact hf a w₁ ((h.others h₀).issued.others h₁)

omit [Crates] in
/-- A look at the channel, then the rest: it is over, or everything is left. -/
theorem room_check {β : Type} {f : Unit → Up K β} {Q : β → Thread SingleUploader → Watch → Prop}
    (fuel : Nat) (hk : 2 ≤ k) (h : Room bound (k + 1) d w)
    (hstop : ∀ t' w', t'.self.shouldShutdown = true → Room bound k d w' →
      wp (watchAmong bound) (f ()) Q (ending bound) t' w')
    (hgo : ∀ t' w', Room bound bound 0 w' → wp (watchAmong bound) (f ()) Q (ending bound) t' w') :
    wp (watchAmong bound) (readReceiver fuel >>= f) Q (ending bound) t w := by
  refine wp_seq (room_readReceiver fuel hk h) (fun _ t' w' h' => ?_) fun _ _ _ h' => h'
  rcases h' with ⟨hs, h'⟩ | h'
  · exact hstop t' w' hs h'
  · exact hgo t' w' h'

/-- **The pieces of the listing**: one message, then a look at the channel. Over the pieces. -/
theorem room_sendList (hbound : 6 ≤ bound) (receiverFuel : Nat) (bytes : List UInt8) :
    ∀ (fuel sent remaining : Nat) {t : Thread SingleUploader} {w : Watch}, Room bound 6 0 w →
    wp (watchAmong bound) (sendList receiverFuel bytes fuel sent remaining : Up K Unit)
      (fun _ _ w' => Room bound 3 1 w') (ending bound) t w
  | 0, _, _, _, _, h => h.toAffords.mono (by decide)
  | fuel + 1, sent, remaining, t, w, h => by
    unfold sendList
    dsimp only
    cases hpiece : (listPiece bytes sent remaining).1 with
    | none => exact h.toAffords.mono (by decide)
    | some payload =>
      show wp _ (write _ payload >>= fun _ => _) _ _ t w
      refine wp_seq (room_write (listPiece_length hpiece) (by decide) h) (fun _ t₁ w₁ h₁ => ?_)
        fun _ _ _ h' => h'
      refine room_check receiverFuel (by decide) h₁.2 (fun t₂ w₂ hs h₂ => ?_) fun t₂ w₂ h₂ => ?_
      · show wp _ (if t₂.self.shouldShutdown = true then _ else _) _ _ t₂ w₂
        rw [if_pos hs]
        exact h₂
      · show wp _ (if t₂.self.shouldShutdown = true then _ else _) _ _ t₂ w₂
        rw [wp_ite]
        split
        · exact h₂.mono (Nat.le_trans (by decide) hbound) (by decide)
        rw [wp_ite]
        split
        · have h₃ : Room bound (1 + 3) 1 w₂ := h₂.mono (Nat.le_trans (by decide) hbound) (by decide)
          exact wp_conseq (room_of_costs (costs_first costs_self fun _ => costs_command trivial) h₃)
            (fun _ _ _ h' => h') fun _ _ _ h' => h'.toAffords.mono (by decide)
        · exact room_sendList hbound receiverFuel bytes fuel _ _ (h₂.mono hbound (Nat.le_refl 0))

/-- **The chunks of a file**, in the same way. Over the chunks. -/
theorem room_sendFile (hbound : 10 ≤ bound) (receiverFuel : Nat) (path : Str) (fileSize : UInt64) :
    ∀ (fuel : Nat) (current : UInt64) {t : Thread SingleUploader} {w : Watch}, Room bound 10 0 w →
    wp (watchAmong bound) (sendFile receiverFuel path fileSize fuel current : Up K Bool)
      (fun _ _ w' => Room bound 4 1 w') (ending bound) t w
  | 0, _, _, _, h => h.toAffords.mono (by decide)
  | fuel + 1, current, t, w, h => by
    have hread : Costs ordinary 1 (do SingleUploader.tryIo (← command .fileRead) : Up K ReadBytes) :=
      costs_last (costs_command trivial) fun _ => costs_orThrow _
    refine (wp_bind_assoc (m := command .fileRead)).mp ?_
    refine room_then (k := 9) hread (by decide) h
      fun readBuffer t₁ w₁ h₁ => ?_
    refine wp_seq (room_write readBuffer.2 (by decide) h₁) (fun _ t₂ w₂ h₂ => ?_) fun _ _ _ h' => h'
    -- the last chunk is not followed by a look at the channel, but by the end of the request
    rw [wp_ite]
    split
    · exact h₂.2.mono (by decide) (Nat.le_refl 1)
    refine room_then (k := 5) (costs_updateProgress _ _ _) (by decide) h₂.2 fun _ t₃ w₃ h₃ => ?_
    refine room_check receiverFuel (by decide) h₃ (fun t₄ w₄ hs h₄ => ?_) fun t₄ w₄ h₄ => ?_
    · show wp _ (if t₄.self.shouldShutdown = true then _ else _) _ _ t₄ w₄
      rw [if_pos hs]
      exact h₄
    · show wp _ (if t₄.self.shouldShutdown = true then _ else _) _ _ t₄ w₄
      rw [wp_ite]
      split
      · exact h₄.mono (Nat.le_trans (by decide) hbound) (by decide)
      · exact room_sendFile hbound receiverFuel path fileSize fuel _ (h₄.mono hbound (Nat.le_refl 0))

/-- A request for a file is refused with one message, or its chunks are sent. -/
theorem room_serveFile (hbound : 13 ≤ bound) (fuel : Nat) (everythingFile : SharedFile)
    (h : Room bound bound 0 w) : wp (watchAmong bound) (serveFile fuel everythingFile : Up K Unit)
      (fun _ _ w' => Room bound 3 1 w') (ending bound) t w := by
  have h₁₃ := h.mono hbound (Nat.le_refl 0)
  refine room_then (k := 13) (n := 0) (costs_first costs_get fun _ => costs_orThrow _) (by decide)
    (by simpa using h₁₃) fun payloadBytes t₁ w₁ h₁ => ?_
  refine room_then (k := 13) (n := 0) (costs_orPanic _) (by decide) (by simpa using h₁)
    fun seekBytes t₂ w₂ h₂ => ?_
  refine room_then (k := 13) (n := 0) (costs_orThrow _) (by decide) (by simpa using h₂)
    fun choice t₃ w₃ h₃ => ?_
  -- a short answer, without a payload
  have hreply : ∀ msg : UInt16, wp (watchAmong bound) (write msg [] : Up K Unit)
      (fun _ _ w' => Room bound 3 1 w') (ending bound) t₃ w₃ := fun msg =>
    wp_conseq (room_write (k := 3) (Nat.zero_le _) (by decide) (h₃.mono (by decide) (Nat.le_refl 0)))
      (fun _ _ _ h' => h'.2) fun _ _ _ h' => h'
  cases getFileByPath choice everythingFile with
  | none => exact hreply msgFileInvalidFile
  | some sharedFile =>
    show wp _ (if _ then _ else _) _ _ t₃ w₃
    rw [wp_ite]
    split
    · exact hreply msgCannotSelectDirectory
    have hopen : Costs ordinary 1 (do SingleUploader.tryIo (← command (.fileOpen choice)) : Up K Unit) :=
      costs_last (costs_command trivial) fun _ => costs_orThrow _
    have hseek : Costs ordinary 1 (do
        SingleUploader.tryIo (← command (.fileSeek (UInt64.ofNat (ofBe seekBytes)))) : Up K Unit) :=
      costs_last (costs_command trivial) fun _ => costs_orThrow _
    refine (wp_bind_assoc (m := command (.fileOpen choice))).mp ?_
    refine room_then (k := 12) hopen (by decide) h₃ fun _ t₄ w₄ h₄ => ?_
    refine (wp_bind_assoc (m := command (.fileSeek (UInt64.ofNat (ofBe seekBytes))))).mp ?_
    refine room_then (k := 11) hseek (by decide) h₄ fun _ t₅ w₅ h₅ => ?_
    refine room_then (k := 10) (costs_uploadState _ _) (by decide) h₅ fun _ t₆ w₆ h₆ => ?_
    refine wp_seq (room_sendFile (by omega) fuel choice _ fuel _ h₆) (fun (sent : Bool) t₇ w₇ h₇ => ?_)
      fun _ _ _ h' => h'
    rw [wp_ite]
    split
    · exact wp_conseq (room_of_costs (k := 3) (costs_uploadState _ _) h₇) (fun _ _ _ h' => h')
        fun _ _ _ h' => h'.toAffords.mono (by decide)
    · exact h₇.mono (by decide) (Nat.le_refl 1)

/-- One request: it is read, the channel looked at, and then it is answered. -/
theorem room_runLoop (hbound : 13 ≤ bound) (fuel : Nat) (everythingFile : SharedFile)
    (bytes : List UInt8) (h : Room bound bound 0 w) :
    wp (watchAmong bound) (runLoop fuel everythingFile bytes : Up K RunLoopResult)
      (fun _ _ w' => Room bound 3 1 w') (ending bound) t w := by
  refine room_then (k := 4) costs_read (by decide) (h.mono (by omega) (Nat.zero_le 1))
    fun _ t₁ w₁ h₁ => ?_
  refine room_check fuel (by decide) h₁ (fun t₂ w₂ hs h₂ => ?_) fun t₂ w₂ h₂ => ?_
  · show wp _ (if t₂.self.shouldShutdown = true then _ else _) _ _ t₂ w₂
    rw [if_pos hs]
    exact h₂
  show wp _ (if t₂.self.shouldShutdown = true then _ else _) _ _ t₂ w₂
  rw [wp_ite]
  split
  · exact h₂.mono (by omega) (by decide)
  show wp _ (if _ then _ else _) _ _ _ w₂
  rw [wp_ite]
  split
  · exact wp_seq (room_sendList (by omega) fuel bytes fuel 0 _ (h₂.mono (by omega) (Nat.le_refl 0)))
      (fun _ _ _ h' => h') fun _ _ _ h' => h'
  rw [wp_ite]
  split
  · exact wp_seq (room_serveFile hbound fuel everythingFile h₂) (fun _ _ _ h' => h')
      fun _ _ _ h' => h'
  rw [wp_ite]
  split
  · exact h₂.mono (by omega) (by decide)
  · exact h₂.toAffords.mono (by omega)

/-- **The requests of a connection**, with a look at the channel before each of them. -/
theorem room_serveRequests (hbound : 13 ≤ bound) (fuel : Nat) (everythingFile : SharedFile)
    (bytes : List UInt8) : ∀ (n : Nat) {t : Thread SingleUploader} {w : Watch}, Room bound 3 1 w →
    wp (watchAmong bound) (serveRequests fuel everythingFile bytes n : Up K RunLoopResult)
      (ending bound) (ending bound) t w
  | 0, _, _, h => h.toAffords.mono (by decide)
  | n + 1, t, w, h => by
    refine room_check fuel (by decide) h (fun t₁ w₁ hs h₁ => ?_) fun t₁ w₁ h₁ => ?_
    · show wp _ (if t₁.self.shouldShutdown = true then _ else _) _ _ t₁ w₁
      rw [if_pos hs]
      exact h₁.toAffords
    show wp _ (if t₁.self.shouldShutdown = true then _ else _) _ _ t₁ w₁
    rw [wp_ite]
    split
    · exact h₁.toAffords.mono (by omega)
    refine wp_seq (room_runLoop hbound fuel everythingFile bytes h₁) (fun result t₂ w₂ h₂ => ?_)
      fun _ _ _ h' => h'
    cases result with
    | success => exact room_serveRequests hbound fuel everythingFile bytes n h₂
    | reverseConnection =>
      show wp _ (sendApp (.reverseConnection t₂.encryptedStream) >>= fun _ => _) _ _ t₂ w₂
      exact room_then (k := 2) (n := 1) (costs_command trivial) (by decide) h₂
        fun _ _ _ h' => h'.toAffords

/-- A user who may not have anything costs a sleep. -/
theorem room_serveUser (hbound : 13 ≤ bound) (fuel : Nat) (h : Room bound 4 1 w) :
    wp (watchAmong bound) (serveUser fuel : Up K RunLoopResult) (ending bound) (ending bound) t w := by
  show wp _ (if _ then _ else _) _ _ _ w
  rw [wp_ite]
  split
  · exact room_then (k := 3) (costs_command trivial) (by decide) h
      fun _ _ _ h' => h'.toAffords.mono (by decide)
  refine room_then (k := 3) (costs_command trivial) (by decide) h fun fs t₁ w₁ h₁ => ?_
  refine room_then (k := 3) (n := 0) costs_self (by decide) (by simpa using h₁) fun u t₂ w₂ h₂ => ?_
  refine room_then (k := 3) (n := 0) (costs_orThrow _) (by decide) (by simpa using h₂)
    fun everythingFile t₃ w₃ h₃ => ?_
  refine room_then (k := 3) (n := 0) (costs_orThrow _) (by decide) (by simpa using h₃)
    fun json t₄ w₄ h₄ => ?_
  exact room_serveRequests hbound fuel everythingFile _ fuel h₄

/-- The handshake, and the greeting of a reverse connection, which is one message. -/
theorem room_openStream (ts : TransmiticStream) (reverseUser : Option SharedUser)
    (h : Room bound 14 0 w) : wp (watchAmong bound) (openStream ts reverseUser : Up K Unit)
      (fun _ _ w' => Room bound 4 1 w') (ending bound) t w := by
  cases reverseUser with
  | some user =>
    have hgreeting : Costs ordinary 1 (reverseGreeting user.nickname : Up K UInt16) :=
      costs_last (costs_command trivial) fun (_ : Bool) => costs_pure _
    refine room_then (k := 13) hgreeting (by decide) h fun message t₁ w₁ h₁ => ?_
    refine room_then (k := 6) (costs_connect ts) (by decide) h₁ fun stream t₂ w₂ h₂ => ?_
    refine room_then (k := 6) (n := 0) (costs_modify _) (by decide) (by simpa using h₂)
      fun _ t₃ w₃ h₃ => ?_
    exact wp_conseq (room_write (k := 4) (Nat.zero_le _) (by decide) h₃) (fun _ _ _ h' => h'.2)
      fun _ _ _ h' => h'
  | none =>
    refine room_then (k := 7) (costs_waitForIncoming ts) (by decide) h fun stream t₁ w₁ h₁ => ?_
    exact h₁.mono (by decide) (Nat.zero_le 1)

/-- The commands an uploader issues at most between two looks at its channel, and to its end. -/
def lastCommands (config : Config) : Nat := config.configFile.sharedUsers.length + 19

variable {config : Config}

omit [Crates] in
/-- The users are looked up one by one, which no look at the channel interrupts. -/
theorem room_candidates {β : Type} {f : List SharedUser → Up K β}
    {Q : β → Thread SingleUploader → Watch → Prop} (peer : IpAddr) (reverseUser : Option SharedUser)
    (ht : t.self.config = config) (hk : 2 ≤ k)
    (h : Room bound (config.configFile.sharedUsers.length + 1 + k) d w)
    (hf : ∀ users t' w', Room bound k d w' → wp (watchAmong bound) (f users) Q (ending bound) t' w') :
    wp (watchAmong bound) (candidates peer reverseUser >>= f) Q (ending bound) t w := by
  subst ht
  -- the thread's own state is looked at first
  refine wp_bind_assoc.mpr ?_
  cases reverseUser with
  | some user =>
    refine room_then (k := k) (m := if t.self.config.configFile.ignoreIncoming = true then _ else _)
      (costs_ite (fun _ => ?_) fun _ => costs_pure _) hk h hf
    exact (costs_last (costs_command (c := .exit) trivial) fun (never : Empty) => nomatch never).mono
      (Nat.le_add_left 1 _)
  | none =>
    refine room_then (k := k) (m := if t.self.config.configFile.ignoreIncoming = true then _ else _)
      (costs_ite (fun _ => costs_pure _) fun _ => ?_) hk h hf
    exact (costs_retainedUsers peer _).mono (Nat.le_succ _)

/-- From the peer's address to the last request. -/
theorem room_run (hbound : 13 ≤ bound) (fuel : Nat) (reverseUser : Option SharedUser)
    (ht : t.self.config = config)
    (h : Room bound (config.configFile.sharedUsers.length + 17) 0 w) :
    wp (watchAmong bound) (run fuel reverseUser : Up K RunLoopResult) (ending bound) (ending bound)
      t w := by
  refine room_command (k := config.configFile.sharedUsers.length + 16) trivial h fun a w₁ hw₁ => ?_
  cases a with
  | error e => exact hw₁.toAffords.mono (by omega)
  | ok peer =>
    show wp _ (candidates peer reverseUser >>= fun _ => _) _ _ t w₁
    refine room_candidates (k := 15) peer reverseUser ht (by decide) hw₁ fun users t₂ w₂ h₂ => ?_
    show wp _ (if _ then _ else _) _ _ t₂ w₂
    rw [wp_ite]
    split
    · exact room_then (k := 14) (costs_command trivial) (by decide) h₂
        fun _ _ _ h' => h'.toAffords.mono (by decide)
    have hclone : Costs ordinary 1 (do SingleUploader.tryIo (← handshake .tryClone) : Up K Unit) :=
      costs_last (costs_handshake _) fun _ => costs_orThrow _
    refine (wp_bind_assoc (m := handshake .tryClone)).mp ?_
    refine room_then (k := 14) hclone (by decide) h₂ fun _ t₃ w₃ h₃ => ?_
    refine room_then (k := 14) (n := 0) costs_self (by decide) (by simpa using h₃) fun u t₄ w₄ h₄ => ?_
    refine room_then (k := 14) (n := 0) (costs_orThrow _) (by decide) (by simpa using h₄)
      fun ts t₅ w₅ h₅ => ?_
    exact wp_seq (room_openStream ts reverseUser h₅) (fun _ t₆ w₆ h₆ => room_serveUser hbound fuel h₆)
      fun _ _ _ h' => h'

/-- The end of everything. -/
abbrev anyEnd {β : Type} : β → Thread SingleUploader → Watch → Prop := fun _ _ _ => True

/-- A failure is told to the app, and the stream is shut down. -/
theorem room_singleThread (hbound : 13 ≤ bound) (fuel : Nat) (reverseUser : Option SharedUser)
    (ht : t.self.config = config)
    (h : Room bound (config.configFile.sharedUsers.length + 17) 0 w) :
    wp (watchAmong bound) (singleThread fuel reverseUser : Up K Unit) anyEnd anyEnd t w := by
  have hbody : wp (watchAmong bound) (tryCatch (run fuel reverseUser) afterFailure : Up K RunLoopResult)
      (fun _ _ w' => Affords bound 1 w') anyEnd t w := by
    refine (wp_tryCatch _ _).mpr (wp_conseq (room_run hbound fuel reverseUser ht h)
      (fun _ _ _ h' => h'.mono (by decide)) fun e t' w' h' => ?_)
    cases e with
    | err text =>
      show wp _ (if _ then _ else _) _ _ t' w'
      rw [wp_ite]
      split
      · exact wp_seq (affords_of_costs (k := 1) (costs_command (c := .app _) trivial) h')
          (fun _ _ _ h'' => h'') fun _ _ _ _ => trivial
      · exact h'.mono (by decide)
    | panic => exact h'.mono (by decide)
    | fuel => trivial
  refine wp_seq hbody (fun result t' w' h' => ?_) fun _ _ _ _ => trivial
  cases result with
  | success =>
    exact wp_conseq (affords_of_costs (k := 0) (costs_command (c := .shutdownStream) trivial) h')
      (fun _ _ _ _ => trivial) fun _ _ _ _ => trivial
  | reverseConnection => trivial

/-- **An uploader keeps within what it may do.** -/
theorem room_spawned (fuel : Nat) (reverseUser : Option SharedUser) (ht : t.self.config = config)
    (h : Room (lastCommands config) (lastCommands config) 0 w) :
    wp (watchAmong (lastCommands config)) (spawned fuel reverseUser : Up K Unit) anyEnd anyEnd t w := by
  have hbound : 13 ≤ lastCommands config := Nat.le_trans (by decide) (Nat.le_add_left 19 _)
  have hroom : Room (lastCommands config) (config.configFile.sharedUsers.length + 17) 0 w :=
    h.mono (Nat.add_le_add_left (by decide) _) (Nat.le_refl 0)
  cases reverseUser with
  | none => exact room_singleThread hbound fuel none ht hroom
  | some user =>
    -- two commands more
    refine room_command (k := config.configFile.sharedUsers.length + 18) trivial h
      fun resolved w₁ h₁ => ?_
    cases resolved with
    | error e => trivial
    | ok addresses =>
      show wp _ (command (.tcpConnect addresses) >>= fun _ => _) _ _ t w₁
      refine room_command (k := config.configFile.sharedUsers.length + 17) trivial h₁
        fun (isConnected : Bool) w₂ h₂ => ?_
      rw [wp_ite]
      split
      · exact room_singleThread hbound fuel (some user) ht h₂
      · trivial

end Rooms

end SingleUploader

end Transmitic
