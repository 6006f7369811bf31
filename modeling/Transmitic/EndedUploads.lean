/-
  File:      Transmitic/EndedUploads.lean
  Subject:   THE UPLOADS THE USER SEES, once the thread of a connection has ended (incoming_uploader.rs,
             `single_thread`; app_aggregator.rs, `app_loop`).

  The app keeps one `SingleUploadState` for each nickname. An uploader tells it of every file it sends, and
  tells it that the upload is disconnected where it fails while the last request it took was for a file.
  On every other end it tells it nothing.

  Left out: messages to the log.

  * `appLoopUpload` -- one message of an uploader, as the app takes it;
  * `uploading` -- the surroundings of an uploader, with what the app shows;
  * `GoesWell` -- what a step has to be like while the user is shown to be online;
  * `wp_serveRequests` -- such steps lead to no end but the one the app is told of;
  * `ended_upload_offline` -- **after a run of such steps the user is not shown to be online**;
  * `ended_upload_online` -- a run with a step that is not: sharing is shut down after a file was sent.
-/
import Transmitic.FatalExits
import Transmitic.SharerServes

namespace Transmitic

open Lib SingleUploader

/-! ## 1. What the app shows -/

/-- The uploads by nickname. -/
abbrev UploadState : Type := Str → Option SingleUploadState

namespace UploadState

def insert (l : UploadState) (nickname : Str) (s : SingleUploadState) : UploadState :=
  Function.update l nickname (some s)

/-- Is an upload of the user shown as going on? -/
def Online (l : UploadState) (nickname : Str) : Prop := ∃ s, l nickname = some s ∧ s.isOnline = true

end UploadState

/-- One message of an uploader, as `app_loop` takes it. -/
def appLoopUpload (l : UploadState) : UploadMessage → UploadState
  | .uploadStateChange f => l.insert f.nickname f
  | .uploadDisconnected nickname =>
    match l nickname with
    -- There was Some existing download in progress
    | some state => l.insert nickname { state with isOnline := false }
    | none => l
  | .reverseConnection _ => l

/-- **Who is told to be disconnected is not online.** -/
theorem offline_of_disconnected (l : UploadState) (nickname : Str) :
    ¬ (appLoopUpload l (.uploadDisconnected nickname)).Online nickname := by
  rintro ⟨s, hs, honline⟩
  rw [appLoopUpload] at hs
  cases hl : l nickname with
  | none => simp [hl] at hs
  | some state =>
    simp only [hl, UploadState.insert, Function.update_self, Option.some.injEq] at hs
    rw [← hs] at honline
    cases honline

/-- **Who is online after a message was so before**, unless it is about his upload. -/
theorem online_of_message {l : UploadState} {nickname : Str} {m : UploadMessage}
    (h : (appLoopUpload l m).Online nickname)
    (hm : ∀ f, m = .uploadStateChange f → f.nickname ≠ nickname) : l.Online nickname := by
  obtain ⟨s, hs, honline⟩ := h
  cases m with
  | uploadStateChange f =>
    rw [appLoopUpload, UploadState.insert, Function.update_of_ne (Ne.symm (hm f rfl))] at hs
    exact ⟨s, hs, honline⟩
  | uploadDisconnected user =>
    by_cases huser : user = nickname
    · subst huser
      exact absurd ⟨s, hs, honline⟩ (offline_of_disconnected l user)
    · rw [appLoopUpload] at hs
      cases hl : l user with
      | none =>
        simp only [hl] at hs
        exact ⟨s, hs, honline⟩
      | some state =>
        simp only [hl, UploadState.insert, Function.update_of_ne (Ne.symm huser)] at hs
        exact ⟨s, hs, honline⟩
  | reverseConnection enc => exact ⟨s, hs, honline⟩

/-! ## 2. The surroundings of an uploader -/

/-- What the app shows, once it has taken the messages of the thread so far; and what the thread has
    read: is the second frame of a message to come, and has a frame come since the channel was last found
    empty? -/
structure Uploads where
  state : UploadState
  second : Bool
  fresh : Bool

/-- No connection has been made. -/
def Uploads.start (state : UploadState) : Uploads := { state, second := false, fresh := false }

variable {K : Suite}

/-- After a command of the thread was answered. -/
def Uploads.after (w : Uploads) : (c : Wire ⊕ UploaderCmd K) → Ans UploaderCmd.Ans c → Uploads
  | .inl (.unseal _ _), .plain bytes =>
    { w with second := !w.second && decide (sizeOf' bytes ≠ 0), fresh := true }
  | .inr .tryRecv, .empty => { w with fresh := false }
  | .inr (.app m), _ => { w with state := appLoopUpload w.state m }
  | _, _ => w

/-- A frame that comes has the length that was read. -/
def Sized : (c : Wire ⊕ UploaderCmd K) → Ans UploaderCmd.Ans c → Prop
  | .inl (.unseal _ size), .plain bytes => bytes.length + cryptoExtensionSize = size
  | _, _ => True

/-- The surroundings of an uploader, whose connection is the only one of this user. The messages of the
    other uploaders are about others; the list may be emptied at any time
    (`downloads_clear_finished_from_me`). -/
def uploading (K : Suite) (nickname : Str) :
    Env (Thread SingleUploader) (Wire ⊕ UploaderCmd K) (Ans UploaderCmd.Ans) Uploads where
  ok _ _ _ := True
  step w _ c a w' := Sized c a ∧ ∃ state, w' = { w.after c a with state } ∧
    (state nickname = (w.after c a).state nickname ∨ state nickname = none)

/-- The message in the buffer is one the uploader goes on after: a request for the listing, or for a file,
    with room for the position in front of the path. -/
def Understood [Crates] (es : EncryptedStream) : Prop :=
  es.getMessage = msgFileList ∨ es.getMessage = msgFileSelectionContinue ∧
    match es.getPayload with
    | .ok payload => 8 ≤ payload.length
    | .error e => e ≠ .panic

/-- The payload of a request for a file that is understood holds a position. -/
theorem Understood.payload [Crates] {es : EncryptedStream} (h : Understood es)
    (hmsg : es.getMessage = msgFileSelectionContinue) :
    (∀ payload, es.getPayload = .ok payload → 8 ≤ payload.length) ∧ es.getPayload ≠ .error .panic := by
  rcases h with hlist | ⟨-, hpayload⟩
  · rw [hmsg] at hlist
    exact absurd hlist (by decide)
  · constructor
    · intro payload hp
      rw [hp] at hpayload
      exact hpayload
    · intro hp
      rw [hp] at hpayload
      exact hpayload rfl

/-- A frame can be read: the first one of a message does not announce more than the buffer of encrypted
    bytes takes, and the second one has a place in the buffer behind the first. -/
def Taken (w : Uploads) (bytes : List UInt8) : Prop :=
  if w.second then payloadOffset + bytes.length ≤ totalBufferSize
  else announced bytes + cryptoExtensionSize ≤ totalCryptoBufferSize

/-- What a step is like that does not leave the user shown online for ever: the uploader is not shut down,
    what it has read it understands, and it has trouble with the connection only while the last request it
    took was for a file. -/
def GoesWell [Crates] (w : Uploads) (t : Thread SingleUploader) :
    (c : Wire ⊕ UploaderCmd K) → Ans UploaderCmd.Ans c → Prop
  | .inr .tryRecv, .value .shutdownConn => False
  | .inr .tryRecv, .disconnected => False
  | .inr .tryRecv, .empty => w.fresh = true → Understood t.encryptedStream
  | .inl (.seal _ _), a =>
    a ≠ Sealed.done ∨ nonceMax ≤ t.encryptedStream.nonce → t.self.activeMsg = msgFileSelectionContinue
  | .inl (.unseal _ _), .plain bytes =>
    (w.second = true ∨ t.encryptedStream.nonce < nonceMax → Taken w bytes) ∧
      (nonceMax ≤ t.encryptedStream.nonce → t.self.activeMsg = msgFileSelectionContinue)
  | .inl (.unseal _ _), _ => t.self.activeMsg = msgFileSelectionContinue
  | _, _ => True

/-- The same, where every step goes well while the user is shown to be online. -/
def uploadingWell [Crates] (K : Suite) (nickname : Str) :
    Env (Thread SingleUploader) (Wire ⊕ UploaderCmd K) (Ans UploaderCmd.Ans) Uploads where
  ok _ _ _ := True
  step w t c a w' := (uploading K nickname).step w t c a w' ∧ (w.state.Online nickname → GoesWell w t c a)

/-! ## 3. What the uploader relies on -/

/-- The user is not shown to be online, and no message is half read. -/
def Unseen (nickname : Str) (_ : Thread SingleUploader) (w : Uploads) : Prop :=
  w.second = false ∧ ¬ w.state.Online nickname

/-- Between two messages: where the user is shown to be online he is the uploader's, which is not to shut
    down, and has taken requests for files or for the listing. -/
structure Safe (nickname : Str) (u : SingleUploader) (w : Uploads) : Prop where
  rest : w.second = false
  going : w.state.Online nickname → u.shouldShutdown = false
  user : w.state.Online nickname → u.nickname = nickname
  asked : w.state.Online nickname → u.activeMsg = msgFileList ∨ u.activeMsg = msgFileSelectionContinue

/-- A file is being sent. -/
structure Sending (nickname : Str) (u : SingleUploader) (w : Uploads) : Prop where
  rest : w.second = false
  going : u.shouldShutdown = false
  user : w.state.Online nickname → u.nickname = nickname
  asked : u.activeMsg = msgFileSelectionContinue

/-- How the uploader may fail: with an error of which the app is told, or where the user is not online. -/
def Failed (nickname : Str) : Exc → Thread SingleUploader → Uploads → Prop
  | .err _, t, w =>
    w.state.Online nickname → t.self.nickname = nickname ∧ t.self.activeMsg = msgFileSelectionContinue
  | .panic, _, w => ¬ w.state.Online nickname
  | .fuel, _, _ => True

/-- The app shows no more than before, and the reading is where it was. -/
structure Quieter (nickname : Str) (w w' : Uploads) : Prop where
  second : w'.second = w.second
  online : w'.state.Online nickname → w.state.Online nickname

section Uploader

variable [Crates] {nickname : Str} {u : SingleUploader} {t : Thread SingleUploader} {w w' w'' : Uploads}

omit [Crates] in
theorem Sending.safe (h : Sending nickname u w) : Safe nickname u w :=
  ⟨h.rest, fun _ => h.going, h.user, fun _ => .inr h.asked⟩

omit [Crates] in
theorem Quieter.safe (h : Quieter nickname w w') (hw : Safe nickname u w) : Safe nickname u w' :=
  ⟨h.second.trans hw.rest, fun ho => hw.going (h.online ho), fun ho => hw.user (h.online ho),
    fun ho => hw.asked (h.online ho)⟩

omit [Crates] in
theorem Quieter.sending (h : Quieter nickname w w') (hw : Sending nickname u w) : Sending nickname u w' :=
  ⟨h.second.trans hw.rest, hw.going, fun ho => hw.user (h.online ho), hw.asked⟩

omit [Crates] in
theorem Quieter.trans (h : Quieter nickname w w') (h' : Quieter nickname w' w'') :
    Quieter nickname w w'' :=
  ⟨h'.second.trans h.second, fun ho => h.online (h'.online ho)⟩

omit [Crates] in
/-- Any failure will do where the user is not online. -/
theorem failed_of_offline (x : Exc) (h : ¬ w.state.Online nickname) : Failed nickname x t w := by
  cases x with
  | err text => exact fun ho => absurd ho h
  | panic => exact h
  | fuel => trivial

omit [Crates] in
/-- **After a step** no more is shown than the message of the thread makes of it. -/
theorem online_step {c : Wire ⊕ UploaderCmd K} {a : Ans UploaderCmd.Ans c}
    (hs : (uploading K nickname).step w t c a w') (ho : w'.state.Online nickname) :
    (w.after c a).state.Online nickname := by
  obtain ⟨-, state, rfl, hstate⟩ := hs
  obtain ⟨s, hshown, honline⟩ := ho
  rcases hstate with h | h
  · exact ⟨s, h.symm.trans hshown, honline⟩
  · rw [show state nickname = some s from hshown] at h
    cases h

omit [Crates] in
/-- Without a message to the app, none that was not before. -/
theorem online_quiet {c : Wire ⊕ UploaderCmd K} {a : Ans UploaderCmd.Ans c}
    (hs : (uploading K nickname).step w t c a w') (hc : ∀ m, c ≠ .inr (.app m))
    (ho : w'.state.Online nickname) : w.state.Online nickname := by
  have hsame : (w.after c a).state = w.state := by
    unfold Uploads.after
    split
    · rfl
    · rfl
    · exact absurd rfl (hc _)
    · rfl
  rw [← hsame]
  exact online_step hs ho

omit [Crates] in
/-- After a message to the app, no more than the message shows. -/
theorem online_told {m : UploadMessage} {a : Unit}
    (hs : (uploading K nickname).step w t (.inr (.app m)) a w') (ho : w'.state.Online nickname) :
    (appLoopUpload w.state m).Online nickname := online_step hs ho

omit [Crates] in
/-- A command other than a read, and than a message to the app. -/
theorem quieter_step {c : Wire ⊕ UploaderCmd K} {a : Ans UploaderCmd.Ans c}
    (hs : (uploading K nickname).step w t c a w') (hc : ∀ m, c ≠ .inr (.app m))
    (hr : ∀ n size, c ≠ .inl (.unseal n size)) : Quieter nickname w w' := by
  refine ⟨?_, online_quiet hs hc⟩
  obtain ⟨-, state, rfl, -⟩ := hs
  show (w.after c a).second = w.second
  unfold Uploads.after
  split
  · exact absurd rfl (hr _ _)
  · rfl
  · rfl
  · rfl

/-! ## 4. The methods -/

namespace SingleUploader

/-- A command after which nothing new is shown. -/
theorem wp_quiet {c : UploaderCmd K} {Q : c.Ans → Thread SingleUploader → Uploads → Prop}
    {R : Exc → Thread SingleUploader → Uploads → Prop} (hc : ∀ m, c ≠ .app m)
    (hQ : ∀ a w', Quieter nickname w w' → Q a t w') :
    wp (uploadingWell K nickname) (command c) Q R t w :=
  ⟨trivial, fun a w' hs => hQ a w'
    (quieter_step hs.1 (fun m h => hc m (Sum.inr.inj h)) fun _ _ => Sum.inr_ne_inl)⟩

/-- **The channel**: where the user is online it holds no message to shut down, and what was read before is
    understood. Over the messages. -/
theorem wp_readReceiver_well : ∀ (fuel : Nat) {t : Thread SingleUploader} {w : Uploads},
    Safe nickname t.self w →
    wp (uploadingWell K nickname) (readReceiver fuel : Up K Unit)
      (fun _ t' w' => (∃ stop, t' = { t with self := { t.self with shouldShutdown := stop } }) ∧
        Safe nickname t'.self w' ∧
        (w.fresh = true → w'.state.Online nickname → Understood t.encryptedStream))
      (Failed nickname) t w
  | 0, _, _, _ => trivial
  | fuel + 1, t, w, h => by
    refine (wp_bind (command .tryRecv) _).mpr ⟨trivial, fun a w' hs => ?_⟩
    obtain ⟨hstep, hwell⟩ := hs
    have hquiet : Quieter nickname w w' := quieter_step hstep nofun nofun
    cases a with
    | value m =>
      have hfresh : w'.fresh = w.fresh := by
        obtain ⟨-, state, rfl, -⟩ := hstep
        rfl
      cases m with
      | shutdownConn =>
        have hoffline : ¬ w'.state.Online nickname := fun ho => hwell (hquiet.online ho)
        have hsafe : Safe nickname { t.self with shouldShutdown := true } w' :=
          ⟨hquiet.second.trans h.rest, fun ho => absurd ho hoffline, fun ho => absurd ho hoffline,
            fun ho => absurd ho hoffline⟩
        refine (wp_bind _ _).mpr ((wp_modifySelf _).mpr ?_)
        refine wp_conseq (wp_readReceiver_well (t := { t with self := _ }) fuel hsafe)
          (fun _ t'' w'' h'' => ?_) fun _ _ _ h'' => h''
        obtain ⟨⟨stop, rfl⟩, hsafe', hunderstood⟩ := h''
        exact ⟨⟨stop, rfl⟩, hsafe', fun hf => hunderstood (hfresh.trans hf)⟩
      | doNothing =>
        show wp _ (readReceiver fuel) _ _ t w'
        refine wp_conseq (wp_readReceiver_well fuel (hquiet.safe h)) (fun _ t'' w'' h'' => ?_)
          fun _ _ _ h'' => h''
        exact ⟨h''.1, h''.2.1, fun hf => h''.2.2 (hfresh.trans hf)⟩
    | empty =>
      exact ⟨⟨t.self.shouldShutdown, rfl⟩, hquiet.safe h, fun hf ho => hwell (hquiet.online ho) hf⟩
    | disconnected =>
      have hoffline : ¬ w'.state.Online nickname := fun ho => hwell (hquiet.online ho)
      exact ⟨⟨true, rfl⟩, ⟨hquiet.second.trans h.rest, fun ho => absurd ho hoffline,
        fun ho => absurd ho hoffline, fun ho => absurd ho hoffline⟩, fun _ ho => absurd ho hoffline⟩

/-- **A message is written**: nothing new is shown. Where that fails the last request was for a file. -/
theorem wp_write_well {msg : UInt16} {payload : List UInt8} (hsmall : payload.length ≤ maxDataSize)
    (huser : w.state.Online nickname → t.self.nickname = nickname) :
    wp (uploadingWell K nickname) (write msg payload : Up K Unit)
      (fun _ t' w' => t'.self = t.self ∧ Quieter nickname w w') (Failed nickname) t w := by
  have hseal : ∀ {t' : Thread SingleUploader} {w₁ w₂ : Uploads} {n : Nat} {plain : List UInt8}
      {a : Sealed}, t'.self = t.self → Quieter nickname w w₁ →
      (uploadingWell K nickname).step w₁ t' (.inl (.seal n plain)) a w₂ →
        Quieter nickname w w₂ ∧ (a ≠ Sealed.done ∨ nonceMax ≤ t'.encryptedStream.nonce →
          ∀ e, Failed nickname (.err e) t' w₂) := by
    intro t' w₁ w₂ n plain a ht hq hs
    have hquiet : Quieter nickname w₁ w₂ := quieter_step hs.1 nofun nofun
    refine ⟨hq.trans hquiet, fun hcause e ho => ?_⟩
    have ho₁ := hquiet.online ho
    exact ⟨by rw [ht]; exact huser (hq.online ho₁), hs.2 ho₁ hcause⟩
  refine wp_write_counted (J := Quieter nickname w) (fits_of_small hsmall)
    (fun t' n ht => ⟨trivial, fun a w' hs => ?_⟩) (fun _ t' w' ht hJ => ⟨ht.self, hJ⟩)
    fun _ t' n w' ht hJ => ⟨trivial, fun a w'' hs => ?_⟩
  · obtain ⟨hquiet, hfail⟩ := hseal ht.self ⟨rfl, id⟩ hs
    exact ⟨fun _ _ => hquiet, hfail⟩
  · obtain ⟨hquiet, hfail⟩ := hseal ht.self hJ hs
    exact ⟨fun _ _ t'' ht'' => ⟨ht''.self, hquiet⟩, hfail⟩

/-- **A message is read.** -/
theorem wp_read_well (h : Safe nickname t.self w) :
    wp (uploadingWell K nickname) (Transmitic.read : Up K Unit)
      (fun _ t' w' => t'.self = t.self ∧ Safe nickname t.self w' ∧ w'.fresh = true)
      (Failed nickname) t w := by
  -- a frame comes, or does not
  have hframe : ∀ {t' : Thread SingleUploader} {w₁ w₂ : Uploads} {n size : Nat} {a : Unsealed},
      t'.self = t.self → (w₁.state.Online nickname → w.state.Online nickname) →
      (uploadingWell K nickname).step w₁ t' (.inl (.unseal n size)) a w₂ →
        (w₂.state.Online nickname → w₁.state.Online nickname) ∧
        ((∀ bytes, a ≠ Unsealed.plain bytes) → ∀ e t'', t''.self = t.self →
          Failed nickname (.err e) t'' w₂) ∧
        (nonceMax ≤ t'.encryptedStream.nonce → ∀ e t'', t''.self = t.self →
          Failed nickname (.err e) t'' w₂) := by
    intro t' w₁ w₂ n size a ht hw₁ hs
    have honline := online_quiet hs.1 (fun _ => Sum.inl_ne_inr)
    have hfail : (w₁.state.Online nickname → t'.self.activeMsg = msgFileSelectionContinue) → ∀ e t'',
        t''.self = t.self → Failed nickname (.err e) t'' w₂ := by
      intro hactive e t'' ht'' ho
      rw [ht'', ← ht]
      exact ⟨by rw [ht]; exact h.user (hw₁ (honline ho)), hactive (honline ho)⟩
    refine ⟨honline, fun hne => hfail fun ho => ?_, fun hle => hfail fun ho => ?_⟩
    · cases a with
      | plain bytes => exact absurd rfl (hne bytes)
      | io e => exact hs.2 ho
      | rejected e => exact hs.2 ho
    · cases a with
      | plain bytes => exact (hs.2 ho).2 hle
      | io e => exact hs.2 ho
      | rejected e => exact hs.2 ho
  refine wp_read_counted (J := fun front w' => (w'.state.Online nickname → w.state.Online nickname) ∧
      w'.second = decide (sizeOf' front ≠ 0) ∧ w'.fresh = true ∧
      (w'.state.Online nickname → announced front + cryptoExtensionSize ≤ totalCryptoBufferSize))
    (fun n => ⟨trivial, fun a w' hs => ?_⟩) (fun front rest t' w' ht _ _ hJ hz => ?_)
    (fun front t' w' _ hJ hlong ho => Nat.not_le_of_lt hlong (hJ.2.2.2 ho))
    fun front t' n w' ht _ hJ hz => ⟨trivial, fun a w'' hs => ?_⟩
  · obtain ⟨honline, hfail, hfull⟩ := hframe rfl id hs
    refine ⟨fun front ha => ?_, fun hne e => hfail hne e t rfl⟩
    subst ha
    obtain ⟨⟨hsize, state, rfl, hstate⟩, hwell⟩ := hs
    refine ⟨Nat.add_right_cancel hsize, fun hlt => ⟨honline, ?_, rfl, fun ho => ?_⟩, hfull⟩
    · simp [Uploads.after, h.rest]
    · have htaken := (hwell (honline ho)).1 (.inr hlt)
      rw [Taken, h.rest] at htaken
      exact htaken
  · obtain ⟨honline, hsecond, hfresh, -⟩ := hJ
    have hrest : w'.second = false := by simp [hsecond, hz]
    exact ⟨ht.self, ⟨hrest, fun ho => h.going (honline ho), fun ho => h.user (honline ho),
      fun ho => h.asked (honline ho)⟩, hfresh⟩
  · obtain ⟨honline, hsecond, -, -⟩ := hJ
    obtain ⟨honline', hfail, hfull⟩ := hframe ht.self honline hs
    have hsecond : w'.second = true := by simp [hsecond, hz]
    refine ⟨fun bytes ha => ?_, hfail⟩
    subst ha
    obtain ⟨⟨-, state, rfl, hstate⟩, hwell⟩ := hs
    refine ⟨fun _ t'' rest ht'' _ => ⟨ht''.self, ⟨?_, ?_, ?_, ?_⟩, rfl⟩, hfull, fun hlong t'' _ ho => ?_⟩
    · simp [Uploads.after, hsecond]
    · exact fun ho => h.going (honline (honline' ho))
    · exact fun ho => h.user (honline (honline' ho))
    · exact fun ho => h.asked (honline (honline' ho))
    · have htaken := (hwell (honline' ho)).1 (.inl hsecond)
      rw [Taken, hsecond] at htaken
      exact Nat.not_le_of_lt hlong htaken

/-- **The app is told of the file**: the user is shown to be online, and it is this uploader's. -/
theorem wp_uploadState_well {path : Str} {percent : UInt64} (h : Sending nickname t.self w) :
    wp (uploadingWell K nickname) (uploadState path percent : Up K Unit)
      (fun _ t' w' => t' = t ∧ Sending nickname t.self w') (Failed nickname) t w := by
  refine (wp_bind self _).mpr ⟨trivial, fun a w' hs => ⟨rfl, ?_⟩⟩
  have hrest : w'.second = false := by
    obtain ⟨⟨-, state, rfl, -⟩, -⟩ := hs
    exact h.rest
  refine ⟨hrest, h.going, fun ho => ?_, h.asked⟩
  by_contra hne
  refine hne (h.user (online_of_message (online_told hs.1 ho) fun f hf => ?_))
  rw [← UploadMessage.uploadStateChange.inj hf]
  exact hne

theorem wp_updateProgress_well {path : Str} {current fileSize : UInt64} (h : Sending nickname t.self w) :
    wp (uploadingWell K nickname) (updateProgress path current fileSize : Up K Unit)
      (fun _ t' w' => t' = t ∧ Sending nickname t.self w') (Failed nickname) t w := by
  refine (wp_bind (command .progressElapsed) _).mpr (wp_quiet nofun fun (elapsed : Bool) w' hq => ?_)
  cases elapsed with
  | true => exact wp_uploadState_well (hq.sending h)
  | false => exact ⟨rfl, hq.sending h⟩

/-- The pieces of the listing. Over the passes; what is left is what has not been sent. -/
theorem wp_sendList_well {receiverFuel : Nat} {bytes : List UInt8} : ∀ (fuel : Nat) {sent remaining : Nat}
    {t : Thread SingleUploader} {w : Uploads}, sent + remaining = bytes.length → Safe nickname t.self w →
    wp (uploadingWell K nickname) (sendList receiverFuel bytes fuel sent remaining : Up K Unit)
      (fun _ t' w' => Safe nickname t'.self w') (Failed nickname) t w
  | 0, _, _, _, _, _, _ => trivial
  | fuel + 1, sent, remaining, t, w, hsum, h => by
    obtain ⟨payload, hpayload⟩ : ∃ payload, (listPiece bytes sent remaining).1 = some payload := by
      unfold listPiece
      split
      · exact slice_some bytes (by omega) (by omega)
      · exact slice_some bytes (by omega) (by omega)
    show wp _ (orPanic (listPiece bytes sent remaining).1 >>= _) _ _ t w
    refine (wp_bind _ _).mpr (wp_orPanic_of hpayload ?_)
    refine wp_seq (wp_write_well (listPiece_length hpayload) h.user) (fun _ t₁ w₁ h₁ => ?_)
      fun _ _ _ h' => h'
    have hsafe : Safe nickname t₁.self w₁ := by
      rw [h₁.1]
      exact h₁.2.safe h
    refine wp_seq (wp_readReceiver_well receiverFuel hsafe) (fun _ t₂ w₂ h₂ => ?_) fun _ _ _ h' => h'
    refine (wp_bind self _).mpr ((wp_ite _ _ _).mpr ?_)
    split
    · exact h₂.2.1
    refine (wp_ite _ _ _).mpr ?_
    split
    · exact (wp_bind self _).mpr (wp_quiet nofun fun _ _ hq => hq.safe h₂.2.1)
    · rename_i hmore
      have hlarge : ¬ remaining ≤ maxDataSize := fun hle =>
        hmore (show (listPiece bytes sent remaining).2 = msgFileListFinal by rw [listPiece, if_pos hle])
      exact wp_sendList_well fuel (by omega) h₂.2.1

/-- The chunks of a file. Over the passes. -/
theorem wp_sendFile_well {receiverFuel : Nat} {path : Str} {fileSize : UInt64} :
    ∀ (fuel : Nat) {current : UInt64} {t : Thread SingleUploader} {w : Uploads},
    Sending nickname t.self w → wp (uploadingWell K nickname) (sendFile receiverFuel path fileSize fuel current : Up K Bool)
      (fun sent t' w' => Safe nickname t'.self w' ∧ (sent = true → Sending nickname t'.self w'))
      (Failed nickname) t w
  | 0, _, _, _, _ => trivial
  | fuel + 1, current, t, w, h => by
    refine (wp_bind (command .fileRead) _).mpr (wp_quiet nofun fun a w₁ hq => ?_)
    have h₁ : Sending nickname t.self w₁ := hq.sending h
    cases a with
    | error e => exact fun ho => ⟨h₁.user ho, h₁.asked⟩
    | ok readBuffer =>
      refine (wp_bind (tryIo (.ok readBuffer)) _).mpr ?_
      refine wp_seq (wp_write_well readBuffer.2 h₁.user) (fun _ t₂ w₂ h₂ => ?_) fun _ _ _ h' => h'
      have hsending : Sending nickname t₂.self w₂ := by
        rw [h₂.1]
        exact h₂.2.sending h₁
      refine (wp_ite _ _ _).mpr ?_
      split
      · exact ⟨hsending.safe, fun _ => hsending⟩
      refine wp_seq (wp_updateProgress_well hsending) (fun _ t₃ w₃ h₃ => ?_) fun _ _ _ h' => h'
      obtain ⟨rfl, hsending⟩ := h₃
      refine wp_seq (wp_readReceiver_well receiverFuel hsending.safe) (fun _ t₄ w₄ h₄ => ?_)
        fun _ _ _ h' => h'
      obtain ⟨⟨stop, rfl⟩, hsafe, -⟩ := h₄
      refine (wp_bind self _).mpr ((wp_ite _ _ _).mpr ?_)
      split
      · exact ⟨hsafe, nofun⟩
      · rename_i hgoing
        exact wp_sendFile_well fuel ⟨hsafe.rest, by simpa using hgoing, hsafe.user, hsending.asked⟩

/-- **The answer to a request for a file.** -/
theorem wp_serveFile_well {fuel : Nat} {everythingFile : SharedFile} (h : Sending nickname t.self w)
    (hmsg : t.encryptedStream.getMessage = msgFileSelectionContinue)
    (hunderstood : w.state.Online nickname → Understood t.encryptedStream) :
    wp (uploadingWell K nickname) (serveFile fuel everythingFile : Up K Unit)
      (fun _ t' w' => Safe nickname t'.self w') (Failed nickname) t w := by
  -- an error here is one the app is told of
  have herr : ∀ {w' : Uploads}, Quieter nickname w w' → w'.state.Online nickname →
      t.self.nickname = nickname ∧ t.self.activeMsg = msgFileSelectionContinue :=
    fun hq ho => ⟨h.user (hq.online ho), h.asked⟩
  have hrefuse : ∀ {msg : UInt16} {t' : Thread SingleUploader} {w' : Uploads},
      Sending nickname t'.self w' →
      wp (uploadingWell K nickname) (write msg [] : Up K Unit)
        (fun _ t'' w'' => Safe nickname t''.self w'') (Failed nickname) t' w' := by
    intro msg t' w' h'
    refine wp_conseq (wp_write_well (Nat.zero_le _) h'.user) (fun _ t'' w'' h'' => ?_) fun _ _ _ h'' => h''
    rw [h''.1]
    exact h''.2.safe h'.safe
  have hpayload := fun ho => (hunderstood ho).payload hmsg
  show wp _ (orThrow t.encryptedStream.getPayload >>= _) _ _ t w
  cases hp : t.encryptedStream.getPayload with
  | error e =>
    cases e with
    | err text => exact herr ⟨rfl, id⟩
    | panic => exact fun ho => (hpayload ho).2 hp
    | fuel => trivial
  | ok payload =>
    show wp _ (orPanic (slice payload 0 8) >>= _) _ _ t w
    cases hseek : slice payload 0 8 with
    | none =>
      intro ho
      obtain ⟨bytes, hbytes⟩ := slice_some payload (Nat.zero_le 8) ((hpayload ho).1 payload hp)
      rw [hseek] at hbytes
      cases hbytes
    | some seekBytes =>
      refine (wp_bind (orPanic (some seekBytes)) _).mpr ((wp_orPanic_some seekBytes).mpr ?_)
      dsimp only
      cases fromUtf8 (payload.drop 8) with
      | none => exact herr ⟨rfl, id⟩
      | some path =>
        refine (wp_bind (orThrow (.ok path)) _).mpr ((wp_orThrow_ok path).mpr ?_)
        cases getFileByPath path everythingFile with
        | none => exact hrefuse h
        | some file =>
          refine (wp_ite _ _ _).mpr ?_
          split
          · exact hrefuse h
          refine (wp_bind (command (.fileOpen path)) _).mpr (wp_quiet (by intro _ h; cases h) fun a w₁ hq₁ => ?_)
          cases a with
          | error e => exact herr hq₁
          | ok _ =>
            refine (wp_bind (command (.fileSeek _)) _).mpr (wp_quiet (by intro _ h; cases h) fun a w₂ hq₂ => ?_)
            cases a with
            | error e => exact herr (hq₁.trans hq₂)
            | ok _ =>
              refine (wp_bind (tryIo (.ok _)) _).mpr ?_
              refine wp_seq (wp_uploadState_well ((hq₁.trans hq₂).sending h)) (fun _ t₃ w₃ h₃ => ?_)
                fun _ _ _ h' => h'
              obtain ⟨rfl, hsending⟩ := h₃
              refine wp_seq (wp_sendFile_well fuel hsending) (fun sent t₄ w₄ h₄ => ?_) fun _ _ _ h' => h'
              refine (wp_ite _ _ _).mpr ?_
              split
              · rename_i hsent
                refine wp_conseq (wp_uploadState_well (h₄.2 hsent)) (fun _ t₅ w₅ h₅ => ?_)
                  fun _ _ _ h' => h'
                rw [h₅.1]
                exact h₅.2.safe
              · exact h₄.1

/-- **A request.** -/
theorem wp_runLoop_well {fuel : Nat} {everythingFile : SharedFile} {bytes : List UInt8}
    (h : Safe nickname t.self w) :
    wp (uploadingWell K nickname) (runLoop fuel everythingFile bytes : Up K RunLoopResult)
      (fun result t' w' => Safe nickname t'.self w' ∧
        (result = .reverseConnection → ¬ w'.state.Online nickname)) (Failed nickname) t w := by
  refine wp_seq (wp_read_well h) (fun _ t₁ w₁ h₁ => ?_) fun _ _ _ h' => h'
  obtain ⟨hself, hsafe, hfresh⟩ := h₁
  rw [← hself] at hsafe
  refine wp_seq (wp_readReceiver_well fuel hsafe) (fun _ t₂ w₂ h₂ => ?_) fun _ _ _ h' => h'
  obtain ⟨⟨stop, rfl⟩, hsafe, hunderstood⟩ := h₂
  have hunderstood := hunderstood hfresh
  refine (wp_bind self _).mpr ((wp_ite _ _ _).mpr ?_)
  split
  · exact ⟨hsafe, nofun⟩
  rename_i hgoing
  have hgoing : stop = false := by simpa using hgoing
  subst hgoing
  -- what is asked for, and that the request was understood where the user is online
  show wp _ (if t₁.encryptedStream.getMessage = msgFileList then _ else _) _ _
    { t₁ with self := { t₁.self with
      shouldShutdown := false, activeMsg := t₁.encryptedStream.getMessage } } w₂
  refine (wp_ite _ _ _).mpr ?_
  split
  · rename_i hlist
    refine wp_seq (wp_sendList_well fuel (Nat.zero_add _) ⟨hsafe.rest, fun _ => rfl, hsafe.user,
      fun _ => .inl hlist⟩) (fun _ _ _ h' => ⟨h', nofun⟩) fun _ _ _ h' => h'
  rename_i hlist
  refine (wp_ite _ _ _).mpr ?_
  split
  · rename_i hfile
    refine wp_seq (wp_serveFile_well ⟨hsafe.rest, rfl, hsafe.user, hfile⟩ hfile hunderstood)
      (fun _ _ _ h' => ⟨h', nofun⟩) fun _ _ _ h' => h'
  rename_i hfile
  have hoffline : ¬ w₂.state.Online nickname := by
    intro ho
    rcases hunderstood ho with hmsg | hmsg
    · exact hlist hmsg
    · exact hfile hmsg.1
  refine (wp_ite _ _ _).mpr ?_
  split
  · exact ⟨⟨hsafe.rest, fun ho => absurd ho hoffline, fun ho => absurd ho hoffline,
      fun ho => absurd ho hoffline⟩, fun _ => hoffline⟩
  · exact fun ho => absurd ho hoffline

/-- **The requests of a connection**: it ends where the user is not online. Over the requests. -/
theorem wp_serveRequests_well {fuel : Nat} {everythingFile : SharedFile} {bytes : List UInt8} :
    ∀ (n : Nat) {t : Thread SingleUploader} {w : Uploads}, Safe nickname t.self w →
    wp (uploadingWell K nickname) (serveRequests fuel everythingFile bytes n : Up K RunLoopResult)
      (fun _ => Unseen nickname) (Failed nickname) t w
  | 0, _, _, _ => trivial
  | n + 1, t, w, h => by
    refine wp_seq (wp_readReceiver_well fuel h) (fun _ t₁ w₁ h₁ => ?_) fun _ _ _ h' => h'
    have hsafe := h₁.2.1
    refine (wp_bind self _).mpr ((wp_ite _ _ _).mpr ?_)
    split
    · rename_i hstop
      refine ⟨hsafe.rest, fun ho => ?_⟩
      rw [hsafe.going ho] at hstop
      cases hstop
    refine wp_seq (wp_runLoop_well hsafe) (fun result t₂ w₂ h₂ => ?_) fun _ _ _ h' => h'
    cases result with
    | success => exact wp_serveRequests_well n h₂.1
    | reverseConnection =>
      refine (wp_bind get _).mpr ((wp_bind (sendApp _) _).mpr ⟨trivial, fun _ w₃ hs => ?_⟩)
      have hrest : w₃.second = false := by
        obtain ⟨⟨-, state, rfl, -⟩, -⟩ := hs
        exact h₂.1.rest
      exact ⟨hrest, fun ho => h₂.2 rfl (online_of_message (online_told hs.1 ho) nofun)⟩

/-! ## 5. The thread -/

/-- The commands of a connection that is not served yet: none is a read of a message, or tells the app of
    an upload. -/
def opening : Wire ⊕ UploaderCmd K → Prop
  | .inl (.unseal _ _) => False
  | .inr (.app _) => False
  | _ => True

/-- Nothing is shown before the requests. -/
theorem ends_of_steady {α : Type} {m : Up K α} (h : Steady opening Thread.self m) :
    Ends (uploadingWell K nickname) (Unseen nickname) (Failed nickname) m := by
  have hm : Maintains (uploadingWell K nickname) (Unseen nickname) m := by
    refine maintains_of_steady h (fun _ _ _ _ hi => hi) (fun _ _ _ _ _ => trivial)
      fun t w c a w' hi hc hs => ?_
    have hquiet : Quieter nickname w w' := by
      refine quieter_step hs.1 ?_ ?_
      · rintro m rfl
        exact hc
      · rintro n size rfl
        exact hc
    exact ⟨hquiet.second.trans hi.1, fun ho => hi.2 (hquiet.online ho)⟩
  exact hm.ends fun x _ _ hi => failed_of_offline x hi.2

theorem ends_serveUser (fuel : Nat) : Ends (uploadingWell K nickname) (Unseen nickname) (Failed nickname)
    (serveUser fuel : Up K RunLoopResult) := by
  refine ends_bind ends_get fun t => ends_bind (ends_modify fun _ _ h => h) fun _ => ends_ite (fun _ => ?_)
    fun _ => ?_
  · exact ends_of_steady (steady_bind (steady_issue trivial) fun _ => steady_pure _)
  refine ends_bind (ends_of_steady (steady_issue trivial)) fun (fs : FileSystem) => ?_
  refine ends_bind (ends_of_steady steady_self) fun u => ?_
  refine ends_bind (ends_of_steady (steady_orThrow _)) fun everythingFile => ?_
  refine ends_bind (ends_of_steady (steady_orThrow _)) fun json t w h => ?_
  exact wp_serveRequests_well fuel ⟨h.1, fun ho => absurd ho h.2, fun ho => absurd ho h.2,
    fun ho => absurd ho h.2⟩

theorem ends_run (fuel : Nat) (reverseUser : Option SharedUser) :
    Ends (uploadingWell K nickname) (Unseen nickname) (Failed nickname)
      (run fuel reverseUser : Up K RunLoopResult) := by
  have hself : Ends (uploadingWell K nickname) (Unseen nickname) (Failed nickname)
      (self : Up K SingleUploader) := ends_of_steady steady_self
  refine ends_bind (ends_of_steady (steady_issue trivial)) fun a => ?_
  refine ends_bind (ends_of_steady (steady_orThrow _)) fun peer => ?_
  refine ends_bind (ends_of_steady (steady_candidates trivial (fun _ _ => trivial) peer reverseUser))
    fun sharedUsers => ?_
  refine ends_bind hself fun u => ends_ite (fun _ => ?_) fun _ => ?_
  · exact ends_of_steady (steady_bind (steady_issue trivial) fun _ => steady_pure _)
  refine ends_bind (ends_of_steady (steady_issue trivial)) fun a => ?_
  refine ends_bind (ends_of_steady (steady_orThrow _)) fun _ => ends_bind hself fun u => ?_
  refine ends_bind (ends_of_steady (steady_orThrow _)) fun ts => ?_
  exact ends_bind (ends_of_steady (steady_openStream (fun _ => trivial) (fun _ => trivial)
    (fun _ _ => trivial) ts reverseUser)) fun _ => ends_serveUser fuel

/-- **Where the failure is one the app is told of**, or the user is not online, he is not afterwards. -/
theorem wp_afterFailure_well {x : Exc} (h : Failed nickname x t w) :
    wp (uploadingWell K nickname) (afterFailure x : Up K RunLoopResult)
      (fun _ _ w' => ¬ w'.state.Online nickname) (fun _ _ _ => True) t w := by
  cases x with
  | err text =>
    refine (wp_bind self _).mpr ((wp_ite _ _ _).mpr ?_)
    split
    · refine (wp_bind (sendApp _) _).mpr ⟨trivial, fun _ w' hs ho => ?_⟩
      have htold : (appLoopUpload w.state (.uploadDisconnected t.self.nickname)).Online nickname :=
        online_told hs.1 ho
      rw [(h (online_of_message htold nofun)).1] at htold
      exact offline_of_disconnected w.state nickname htold
    · rename_i hactive
      exact fun ho => hactive (h ho).2
  | panic => exact h
  | fuel => trivial

theorem wp_singleThread_well (fuel : Nat) (reverseUser : Option SharedUser) (h : Unseen nickname t w) :
    wp (uploadingWell K nickname) (singleThread fuel reverseUser : Up K Unit)
      (fun _ _ w' => ¬ w'.state.Online nickname) (fun _ _ _ => True) t w := by
  have hbody : wp (uploadingWell K nickname)
      (tryCatch (run fuel reverseUser) afterFailure : Up K RunLoopResult) (fun _ _ w' => ¬ w'.state.Online nickname) (fun _ _ _ => True) t w :=
    (wp_tryCatch _ _).mpr (wp_conseq (ends_run fuel reverseUser t w h) (fun _ _ _ h' => h'.2)
      fun _ _ _ h' => wp_afterFailure_well h')
  refine wp_seq hbody (fun result t' w' h' => ?_) fun _ _ _ h' => h'
  cases result with
  | success => exact wp_quiet nofun fun _ _ hq ho => h' (hq.online ho)
  | reverseConnection => exact h'

end SingleUploader

/-- **After the thread of a connection has ended its user is not shown to be online**, in every run whose
    steps go well while he is: whatever is asked, from whichever side the connection came, and however the
    run ends. -/
theorem ended_upload_offline {fuel : Nat} {reverseUser : Option SharedUser} {config : Config}
    {es : EncryptedStream} {state : UploadState} {t' : Thread SingleUploader} {w' : Uploads}
    (hstart : ¬ state.Online nickname)
    (hrun : Reach (uploadingWell K nickname)
      (singleThread fuel reverseUser ⟨SingleUploader.new config, es⟩, Uploads.start state)
      (.ret () t', w')) :
    ∀ s, w'.state nickname = some s → s.isOnline = false := by
  intro s hs
  have hoffline : ¬ w'.state.Online nickname :=
    holds_reach (c := (_, Uploads.start state)) (wp_singleThread_well fuel reverseUser ⟨rfl, hstart⟩) hrun
  by_contra honline
  exact hoffline ⟨s, hs, by simpa using honline⟩

end Uploader

/-! ## 6. Two runs -/

/-- Other packages, where there is the listing of one file, and every key is one. -/
@[reducible] def openCrates : Crates :=
  { oneFileCrates with ed25519FromPkcs8 := fun _ => .ok samplePublicKey }

/-- He asks for the file from its start. -/
def bobsRequest : List UInt8 := requestPayload 0 pathA

/-- The frame of his request that is read next. -/
def bobsFrame (w : Uploads) : List UInt8 :=
  if w.second then @body openCrates msgFileSelectionContinue bobsRequest
  else header msgFileSelectionContinue bobsRequest.length

/-- A peer that asks for the file. As soon as the upload is shown the uploader is shut down, where it is
    to be (`shutdown`); otherwise the peer goes away. `told` says that it was shut down. -/
def oneRequest (shutdown : Bool) (w : Uploads) (told : Bool) :
    (c : Wire ⊕ UploaderCmd openSuite) → Option (Ans UploaderCmd.Ans c)
  | .inl (.seal _ _) => some Sealed.done
  | .inl (.unseal _ size) => some (
    if w.state bob.nickname = none ∧ (bobsFrame w).length + cryptoExtensionSize = size then
      Unsealed.plain (bobsFrame w)
    else Unsealed.io "failed to fill whole buffer".toList)
  | .inr .tryRecv => some (
    if w.state bob.nickname ≠ none ∧ told = false ∧ shutdown = true then
      TryRecv.value MessageSingleUploader.shutdownConn
    else TryRecv.empty)
  | .inr c => bobsAnswers twoDirsFs c

/-- Has the uploader been told to shut down after this answer? -/
def toldAfter (told : Bool) : (c : Wire ⊕ UploaderCmd openSuite) → Ans UploaderCmd.Ans c → Bool
  | .inr .tryRecv, .value _ => true
  | _, _ => told

/-- The surroundings with this peer. Where the uploader is not shut down, every step goes well. -/
def requesting (shutdown : Bool) :
    Env (Thread SingleUploader) (Wire ⊕ UploaderCmd openSuite) (Ans UploaderCmd.Ans) (Uploads × Bool) where
  ok w t c := ∃ a, oneRequest shutdown w.1 w.2 c = some a ∧
    (shutdown = false → w.1.state.Online bob.nickname → @GoesWell openSuite openCrates w.1 t c a)
  step w t c a w' := oneRequest shutdown w.1 w.2 c = some a ∧
    (shutdown = false → w.1.state.Online bob.nickname → @GoesWell openSuite openCrates w.1 t c a) ∧
      w' = (w.1.after c a, toldAfter w.2 c a)

section Requesting

variable {shutdown : Bool} {α : Type} {Q : α → Thread SingleUploader → Uploads × Bool → Prop}
  {R : Exc → Thread SingleUploader → Uploads × Bool → Prop} {t : Thread SingleUploader}
  {w w' : Uploads × Bool} {c : Wire ⊕ UploaderCmd openSuite} {a : Ans UploaderCmd.Ans c}

theorem requesting_total (w : Uploads × Bool) (t : Thread SingleUploader)
    (c : Wire ⊕ UploaderCmd openSuite) (h : (requesting shutdown).ok w t c) : ∃ a w', (requesting shutdown).step w t c a w' := by
  obtain ⟨a, hreply, hwell⟩ := h
  exact ⟨a, _, hreply, hwell, rfl⟩

/-- It is one of the peers an uploader may have. -/
theorem requesting_uploading (h : (requesting shutdown).step w t c a w') :
    (uploading openSuite bob.nickname).step w.1 t c a w'.1 := by
  obtain ⟨hreply, -, rfl⟩ := h
  refine ⟨?_, (w.1.after c a).state, rfl, .inl rfl⟩
  unfold Sized
  split
  · rename_i n size bytes
    have hreply : (if w.1.state bob.nickname = none ∧
        (bobsFrame w.1).length + cryptoExtensionSize = size then Unsealed.plain (bobsFrame w.1) else Unsealed.io "failed to fill whole buffer".toList) =
        Unsealed.plain bytes := Option.some.inj hreply
    split at hreply
    · rename_i hcomes
      rw [← Unsealed.plain.inj hreply]
      exact hcomes.2
    · cases hreply
  · trivial

/-- A command, and its answer. -/
theorem holds_reply {k : Ans UploaderCmd.Ans c → Prog (Thread SingleUploader)
      (Wire ⊕ UploaderCmd openSuite) (Ans UploaderCmd.Ans) Exc α}
    (hreply : oneRequest shutdown w.1 w.2 c = some a)
    (hwell : shutdown = false → w.1.state.Online bob.nickname → @GoesWell openSuite openCrates w.1 t c a)
    (hk : (k a).Holds (requesting shutdown) Q R (w.1.after c a, toldAfter w.2 c a)) :
    (Prog.call t c k).Holds (requesting shutdown) Q R w := by
  refine ⟨⟨a, hreply, hwell⟩, fun a' w' hs => ?_⟩
  obtain rfl : a = a' := Option.some.inj (hreply.symm.trans hs.1)
  rw [hs.2.2]
  exact hk

/-- Nothing is shown. -/
def unseenUploads : Uploads × Bool := (Uploads.start fun _ => none, false)

/-- The same before the upload is shown. -/
theorem holds_unseen {k : Ans UploaderCmd.Ans c → Prog (Thread SingleUploader)
      (Wire ⊕ UploaderCmd openSuite) (Ans UploaderCmd.Ans) Exc α}
    (hreply : oneRequest shutdown unseenUploads.1 false c = some a)
    (hkept : (unseenUploads.1.after c a, toldAfter false c a) = unseenUploads)
    (hk : (k a).Holds (requesting shutdown) Q R unseenUploads) :
    (Prog.call t c k).Holds (requesting shutdown) Q R unseenUploads := by
  refine holds_reply hreply (fun _ ho => ?_) ?_
  · obtain ⟨s, hs, -⟩ := ho
    cases hs
  · rw [show unseenUploads.2 = false from rfl, hkept]
    exact hk

theorem matchSharedUser_bob : matchSharedUser openSuite () () [bob] = .ok (some bob) := by
  show (Base64.decode bob.publicId >>= fun id => if openSuite.verify id () () = true then
    Except.ok (some bob) else matchSharedUser openSuite () () []) = _
  rw [show Base64.decode bob.publicId = .ok samplePublicKey from Base64.decode_encode _]
  rfl

def bobsUploader : Thread SingleUploader := ⟨SingleUploader.new (homeConfig pathA), freshStream⟩

/-- His handshake succeeds. -/
theorem wp_waitForIncoming_requesting
    {Q : Unit × EncryptedStream → Thread SingleUploader → Uploads × Bool → Prop} (ts : TransmiticStream) (hts : ts.sharedUsers = [bob])
    (hQ : Q ((), EncryptedStream.new bob ts.privateIdBytes) t unseenUploads) :
    wp (requesting shutdown) (TransmiticStream.waitForIncoming (fun c => handshake (K := openSuite) c) ts)
      Q R t unseenUploads := by
  -- both sides greet
  refine holds_unseen rfl rfl ?_
  refine holds_unseen rfl rfl ?_
  -- his key is signed by him
  refine holds_unseen rfl rfl ?_
  show wp _ ((orFail (matchSharedUser openSuite () () ts.sharedUsers) >>= fun _ => _) >>= fun _ => _)
    _ _ _ _
  rw [hts, matchSharedUser_bob]
  refine holds_unseen rfl rfl ?_
  refine holds_unseen rfl rfl ?_
  refine holds_unseen rfl rfl ?_
  exact hQ

/-- His connection is opened. -/
theorem wp_run_requesting {Q : RunLoopResult → Thread SingleUploader → Uploads × Bool → Prop}
    (h : ∀ es, es.nonce = 0 → wp (requesting shutdown)
      (@SingleUploader.serveRequests openSuite openCrates 5 oneFileListing (utf8 oneFileJson) 5) Q R
      ⟨{ SingleUploader.new (homeConfig pathA) with nickname := bob.nickname }, es⟩ unseenUploads) :
    wp (requesting shutdown) (@SingleUploader.run openSuite openCrates 5 none) Q R bobsUploader
      unseenUploads := by
  -- his address, and that of the user
  refine holds_unseen rfl rfl ?_
  refine holds_unseen rfl rfl ?_
  refine holds_unseen rfl rfl ?_
  show wp _ ((TransmiticStream.waitForIncoming (fun c => handshake (K := openSuite) c)
    { connectingIp := bobsAddress.text, sharedUsers := [bob], privateIdBytes := sampleKey,
      matchedSharedUser := none } >>= fun r => modifyStream fun _ => r.2) >>= fun _ =>
        @serveUser openSuite openCrates 5) _ _ _ _
  refine (wp_bind _ _).mpr ((wp_bind _ _).mpr (wp_waitForIncoming_requesting _ rfl ?_))
  -- the listing
  refine holds_unseen rfl rfl ?_
  show wp _ (orThrow (getEverythingFile twoDirsFs (homeConfig pathA) "bob".toList) >>= fun _ => _) _ _ _ _
  rw [show getEverythingFile twoDirsFs (homeConfig pathA) "bob".toList = .ok oneFileListing by rfl]
  exact h _ rfl

/-- His request is read. -/
theorem wp_read_requesting {Q : Unit → Thread SingleUploader → Uploads × Bool → Prop}
    (hnonce : t.encryptedStream.nonce = 0)
    (hQ : ∀ es, es.nonce = 2 → @EncryptedStream.Holds openCrates es msgFileSelectionContinue bobsRequest →
      Q () ⟨t.self, es⟩ ({ unseenUploads.1 with fresh := true }, false)) :
    wp (requesting shutdown) (Transmitic.read : Up openSuite Unit) Q R t unseenUploads := by
  have hmsgOf : msgOf (header msgFileSelectionContinue bobsRequest.length) = msgFileSelectionContinue := by
    decide
  have hsizeOf : sizeOf' (header msgFileSelectionContinue bobsRequest.length) = bobsRequest.length := by
    decide
  have hannounced : announced (header msgFileSelectionContinue bobsRequest.length) =
      (@body openCrates msgFileSelectionContinue bobsRequest).length := by
    decide
  have hunseen : ∀ {second fresh : Bool},
      ¬ (Uploads.mk (fun _ => none) second fresh).state.Online bob.nickname := by
    rintro second fresh ⟨s, hs, -⟩
    cases hs
  have hpos : t.encryptedStream.nonce + 1 < nonceMax := by
    rw [hnonce]
    decide
  refine wp_read_counted (J := fun front w' => front = header msgFileSelectionContinue bobsRequest.length ∧
      w' = ({ unseenUploads.1 with second := true, fresh := true }, false))
    (fun n => ⟨⟨_, rfl, fun _ ho => absurd ho hunseen⟩, fun a w' hs => ?_⟩)
    (fun front rest t' w' _ _ _ hJ hz => ?_) (fun front t' w' _ hJ hlong => ?_)
    fun front t' n w' ht hlen hJ hz => ?_
  · obtain rfl : Unsealed.plain (header msgFileSelectionContinue bobsRequest.length) = a :=
      (if_pos ⟨rfl, by decide⟩).symm.trans (Option.some.inj hs.1)
    refine ⟨fun front ha => ?_, fun hne => absurd rfl (hne _)⟩
    cases ha
    refine ⟨length_header _ _, fun _ => ⟨rfl, hs.2.2.trans ?_⟩, fun hle => absurd hle (by omega)⟩
    simp [Uploads.after, toldAfter, unseenUploads, Uploads.start, hsizeOf]
    decide
  · rw [hJ.1, hsizeOf] at hz
    exact absurd hz (by decide)
  · rw [hJ.1, hannounced] at hlong
    exact absurd hlong (by decide)
  · obtain ⟨rfl, rfl⟩ := hJ
    refine ⟨⟨_, rfl, fun _ ho => absurd ho hunseen⟩, fun a w'' hs => ?_⟩
    obtain rfl : Unsealed.plain (@body openCrates msgFileSelectionContinue bobsRequest) = a :=
      (if_pos ⟨rfl, by rw [hannounced]; rfl⟩).symm.trans (Option.some.inj hs.1)
    refine ⟨fun bytes ha => ?_, fun hne => absurd rfl (hne _)⟩
    cases ha
    refine ⟨fun _ t'' rest ht'' hb => ?_, fun hle => ?_, fun hlong => ?_⟩
    · have hholds := @holds_body _ _ _ openCrates bobsRequest (by rw [hmsgOf]; exact hb) hlen hsizeOf
      rw [hmsgOf] at hholds
      rw [hs.2.2]
      obtain ⟨u, es⟩ := t''
      obtain rfl : u = t.self := ht''.self
      exact hQ es (by rw [ht''.nonce, hnonce]) hholds
    · rw [ht.nonce] at hle
      omega
    · rw [← hannounced] at hlong
      exact absurd hlong (by decide)

/-- What is shown of him: his file, and how much of it he has. -/
def bobsUpload (percent : UInt64) : UploadMessage :=
  .uploadStateChange { nickname := bob.nickname, path := pathA, percent, isOnline := true }

def startedState : UploadState := appLoopUpload (fun _ => none) (bobsUpload 0)

def sentState : UploadState := appLoopUpload startedState (bobsUpload 100)

theorem wp_uploadState_requesting {percent : UInt64}
    {Q : Unit → Thread SingleUploader → Uploads × Bool → Prop}
    (huser : t.self.nickname = bob.nickname)
    (hQ : Q () t ({ w.1 with state := appLoopUpload w.1.state (bobsUpload percent) }, w.2)) :
    wp (requesting shutdown) (uploadState pathA percent : Up openSuite Unit) Q R t w := by
  rw [bobsUpload, ← huser] at hQ
  exact holds_reply rfl (fun _ _ => trivial) hQ

/-- The file is empty: it is sent in one message. -/
theorem wp_sendFile_requesting {fileSize current : UInt64}
    {Q : Bool → Thread SingleUploader → Uploads × Bool → Prop} (hnonce : t.encryptedStream.nonce = 2)
    (hactive : t.self.activeMsg = msgFileSelectionContinue) (hQ : ∀ t', t'.self = t.self → Q true t' w) :
    wp (requesting shutdown) (@sendFile openSuite openCrates 5 pathA fileSize 5 current) Q R t w := by
  refine holds_reply rfl (fun _ _ => trivial) ?_
  have hwrite : wp (requesting shutdown) (@write _ _ _ openCrates msgFileFinished [] : Up openSuite Unit)
      (fun _ t' w' => t'.self = t.self ∧ w' = w) R t w := by
    let crates : Crates := openCrates
    refine wp_write_counted (J := fun w' => w' = w) (by decide)
      (fun t' n ht => ⟨⟨Sealed.done, rfl, fun _ _ _ => ?_⟩, fun a w' hs => ?_⟩)
      (fun _ t' w' ht hJ => ⟨ht.self, hJ⟩) fun hne => absurd rfl hne
    · rw [ht.self]
      exact hactive
    · obtain rfl : Sealed.done = a := Option.some.inj hs.1
      refine ⟨fun _ _ => hs.2.2, fun hcause => ?_⟩
      rcases hcause with hne | hle
      · exact absurd rfl hne
      · rw [ht.nonce, hnonce] at hle
        exact absurd hle (by decide)
  show wp _ (@write _ _ _ openCrates
    (if fileSize ≤ current + UInt64.ofNat 0 ∨ 0 = 0 then msgFileFinished else msgFileChunk) [] >>= fun _ =>
    if (if fileSize ≤ current + UInt64.ofNat 0 ∨ 0 = 0 then msgFileFinished else msgFileChunk) =
      msgFileFinished then pure true else _) _ _ t w
  rw [if_pos (.inr rfl), if_pos rfl]
  exact wp_seq hwrite (fun _ t' w' h' => by rw [h'.2]; exact hQ t' h'.1) fun _ _ _ h' => h'

/-- He is sent the file. -/
theorem wp_serveFile_requesting {listing : SharedFile} {payload seekBytes : List UInt8}
    {Q : Unit → Thread SingleUploader → Uploads × Bool → Prop}
    (hpayload : @EncryptedStream.getPayload openCrates t.encryptedStream = .ok payload)
    (hseek : slice payload 0 8 = some seekBytes) (hpath : fromUtf8 (payload.drop 8) = some pathA)
    (hfound : getFileByPath pathA listing = some (emptyFile pathA))
    (hnonce : t.encryptedStream.nonce = 2) (hactive : t.self.activeMsg = msgFileSelectionContinue)
    (huser : t.self.nickname = bob.nickname)
    (hQ : ∀ t', t'.self = t.self → Q () t' ({ unseenUploads.1 with state := sentState }, false)) :
    wp (requesting shutdown) (@serveFile openSuite openCrates 5 listing) Q R t unseenUploads := by
  show wp _ (orThrow (@EncryptedStream.getPayload openCrates t.encryptedStream) >>= _) _ _ t _
  rw [hpayload]
  refine (wp_bind (orThrow (.ok payload)) _).mpr ((wp_orThrow_ok payload).mpr ?_)
  refine (wp_bind (orPanic (slice payload 0 8)) _).mpr (wp_orPanic_of hseek ?_)
  dsimp only
  rw [hpath]
  refine (wp_bind (orThrow (.ok pathA)) _).mpr ((wp_orThrow_ok pathA).mpr ?_)
  rw [hfound]
  refine holds_unseen rfl rfl ?_
  refine holds_unseen rfl rfl ?_
  show wp _ (uploadState pathA 0 >>= fun _ =>
    @sendFile openSuite openCrates 5 pathA (emptyFile pathA).fileSize 5 (UInt64.ofNat (ofBe seekBytes)) >>=
      fun sent => if sent = true then uploadState pathA 100 else pure ()) _ _ t _
  refine (wp_bind _ _).mpr (wp_uploadState_requesting huser ?_)
  refine (wp_bind _ _).mpr (wp_sendFile_requesting hnonce hactive fun t' ht' => ?_)
  rw [if_pos rfl]
  refine wp_uploadState_requesting ?_ (hQ t' ht')
  rw [ht']
  exact huser

/-- The uploader that serves him. -/
def bobsServer (es : EncryptedStream) : Thread SingleUploader :=
  ⟨{ SingleUploader.new (homeConfig pathA) with nickname := bob.nickname }, es⟩

/-- He is shown, with the whole file. -/
def sentUploads (told : Bool) : Uploads × Bool := ({ unseenUploads.1 with state := sentState }, told)

/-- What comes of the requests: the uploader is shut down, or the connection is gone. -/
theorem wp_serveRequests_requesting {es : EncryptedStream} (hnonce : es.nonce = 0) :
    wp (requesting shutdown)
      (@SingleUploader.serveRequests openSuite openCrates 5 oneFileListing (utf8 oneFileJson) 5)
      (fun _ _ w' => shutdown = true ∧ w' = sentUploads true)
      (fun e t' w' => shutdown = false ∧ (∃ text, e = .err text) ∧ w' = sentUploads false ∧
        t'.self.activeMsg = msgFileSelectionContinue ∧ t'.self.nickname = bob.nickname)
      (bobsServer es) unseenUploads := by
  refine holds_unseen rfl rfl ?_
  have hpath : fromUtf8 (bobsRequest.drop 8) = some pathA := by
    rw [show bobsRequest.drop 8 = utf8 pathA from List.drop_left' (length_beBytes _ _), fromUtf8_utf8]
  obtain ⟨seekBytes, hseek⟩ := slice_some bobsRequest (show 0 ≤ 8 by decide) (by decide)
  have hfound : getFileByPath pathA oneFileListing = some (emptyFile pathA) := by rfl
  have hloop : wp (requesting shutdown)
      (@SingleUploader.runLoop openSuite openCrates 5 oneFileListing (utf8 oneFileJson))
      (fun result t' w' => result = .success ∧ w' = sentUploads false ∧ t'.self =
        { (bobsServer es).self with activeMsg := msgFileSelectionContinue }) (fun _ _ _ => False)
      (bobsServer es) unseenUploads := by
    refine (wp_bind _ _).mpr (wp_read_requesting hnonce fun es' hnonce' hholds => ?_)
    obtain ⟨hmessage, hpayload⟩ := hholds
    refine holds_reply rfl (fun _ ho => ?_) ?_
    · obtain ⟨s, hs, -⟩ := ho
      cases hs
    show wp _ (if es'.getMessage = msgFileList then _ else _) _ _
      { bobsServer es' with
        self := { (bobsServer es').self with activeMsg := es'.getMessage } } unseenUploads
    rw [hmessage, if_neg (by decide), if_pos rfl]
    exact (wp_bind _ _).mpr (wp_serveFile_requesting hpayload hseek hpath hfound hnonce' rfl rfl
      fun t' ht' => ⟨rfl, rfl, ht'⟩)
  show wp _ (@SingleUploader.runLoop openSuite openCrates 5 oneFileListing (utf8 oneFileJson) >>= _) _ _
    (bobsServer es) unseenUploads
  refine wp_seq hloop (fun result t' w' h' => ?_) fun _ _ _ h' => h'.elim
  obtain ⟨rfl, rfl, hself⟩ := h'
  obtain ⟨u, es'⟩ := t'
  obtain rfl : u = _ := hself
  cases shutdown with
  | true =>
    refine holds_reply rfl (by intro h; cases h) ?_
    refine holds_reply rfl (by intro h; cases h) ?_
    exact ⟨rfl, rfl⟩
  | false =>
    refine holds_reply rfl (fun _ _ => ?_) ?_
    · exact fun hfresh => by cases hfresh
    refine holds_reply rfl (fun _ _ => ?_) ?_
    · exact rfl
    · exact ⟨rfl, ⟨_, rfl⟩, rfl, rfl, rfl⟩

/-- **The whole run**: he is shown to have the whole file, whether the uploader was shut down or not. -/
theorem wp_singleThread_requesting : wp (requesting shutdown) (@singleThread openSuite openCrates 5 none)
    (fun _ _ w' => w'.1.state bob.nickname = some
      { nickname := bob.nickname, path := pathA, percent := 100, isOnline := shutdown })
    (fun _ _ _ => False) bobsUploader unseenUploads := by
  have hbody : wp (requesting shutdown) (tryCatch (@SingleUploader.run openSuite openCrates 5 none)
      SingleUploader.afterFailure : Up openSuite RunLoopResult) (fun _ _ w' => w'.1.state bob.nickname = some
        { nickname := bob.nickname, path := pathA, percent := 100, isOnline := shutdown })
      (fun _ _ _ => False) bobsUploader unseenUploads := by
    refine (wp_tryCatch _ _).mpr (wp_run_requesting fun es hnonce => ?_)
    refine wp_conseq (wp_serveRequests_requesting hnonce) (fun _ t' w' h' => ?_) fun e t' w' h' => ?_
    · obtain ⟨rfl, rfl⟩ := h'
      rfl
    · obtain ⟨rfl, ⟨text, rfl⟩, rfl, hactive, huser⟩ := h'
      show wp _ (if t'.self.activeMsg = msgFileSelectionContinue then _ else _) _ _ t' _
      rw [if_pos hactive, huser]
      exact holds_reply rfl (fun _ _ => trivial) rfl
  refine wp_seq hbody (fun result t' w' h' => ?_) fun _ _ _ h' => h'
  cases result with
  | success => exact holds_reply rfl (fun _ _ => trivial) h'
  | reverseConnection => exact h'

/-- Such a run there is. -/
theorem requesting_run (shutdown : Bool) : ∃ t' w', Reach (requesting shutdown)
    (@singleThread openSuite openCrates 5 none bobsUploader, unseenUploads) (.ret () t', w') ∧
    w'.1.state bob.nickname = some
      { nickname := bob.nickname, path := pathA, percent := 100, isOnline := shutdown } := by
  obtain ⟨p, w', hrun, ⟨_, t', rfl, hshown⟩ | ⟨_, _, _, hfalse⟩⟩ :=
    reach_some_end requesting_total (@wp_singleThread_requesting shutdown)
  · exact ⟨t', w', hrun, hshown⟩
  · exact hfalse.elim

end Requesting

/-- The user has got the file and goes away: the app is told so. -/
theorem ended_upload_offline_bob : ∃ t' w', Reach (@uploadingWell openCrates openSuite bob.nickname)
    (@singleThread openSuite openCrates 5 none bobsUploader, Uploads.start fun _ => none)
    (.ret () t', w') ∧
      w'.state bob.nickname ≠ none ∧ ∀ s, w'.state bob.nickname = some s → s.isOnline = false := by
  obtain ⟨t', w', hrun, hshown⟩ := requesting_run false
  have hwell : Reach (@uploadingWell openCrates openSuite bob.nickname)
      (@singleThread openSuite openCrates 5 none bobsUploader, Uploads.start fun _ => none)
      (.ret () t', w'.1) :=
    Reach.map (E := @uploadingWell openCrates openSuite bob.nickname) (g := Prod.fst)
      (fun _ _ _ _ _ hs => ⟨requesting_uploading hs, hs.2.1 rfl⟩) hrun
  refine ⟨t', w'.1, hwell, ?_, @ended_upload_offline openSuite openCrates _ _ _ _ _ _ _ _ ?_ hwell⟩
  · rw [hshown]
    exact nofun
  · rintro ⟨s, hs, -⟩
    cases hs

/-- **Sharing is shut down after the user has got the file**: the thread ends, and he is still shown to be
    online. -/
theorem ended_upload_online : ∃ t' w' s, Reach (uploading openSuite bob.nickname)
    (@singleThread openSuite openCrates 5 none bobsUploader, Uploads.start fun _ => none)
    (.ret () t', w') ∧
      w'.state bob.nickname = some s ∧ s.isOnline = true := by
  obtain ⟨t', w', hrun, hshown⟩ := requesting_run true
  exact ⟨t', w'.1, _, Reach.map (g := Prod.fst) (fun _ _ _ _ _ hs => requesting_uploading hs) hrun,
    hshown, rfl⟩

end Transmitic
