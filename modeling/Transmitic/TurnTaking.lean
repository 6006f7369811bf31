/-
  File:      Transmitic/TurnTaking.lean
  Subject:   A DOWNLOADER AND AN UPLOADER TAKE TURNS, over the stream of a connection and of a reverse one.

  No message of the code says whose turn it is, and no side has a timeout for an answer. That a downloader
  and an uploader never wait for each other, never speak at the same time and never use a value of their
  common counter twice rests on the conversation each of them keeps to.

  * `OnDuty`, `wp_serveRequests_exchange` -- **an uploader keeps to the conversation**, whatever it is asked
    for and whenever it is told to stop;
  * `Source` -- what the files it reads are, in the terms of the conversation;
  * `anyAnswer` -- the terms both sides keep to, whatever they share;
  * `wp_openStream`, `wp_singleThread_exchange` -- from the handshake on;
  * `serveConnection_takesTurns` -- **a downloader and an uploader take turns**;
  * `reverseConnection_takesTurns` -- **so do they after a reverse connection has been handed over**.
-/
import Transmitic.EndedUploads
import Transmitic.Exchange
import Transmitic.Lib.Turns
import Transmitic.Parties
import Transmitic.SendLoop

namespace Transmitic

open Lib

namespace SingleUploader

/-! ## 1. An uploader -/

section Uploader

variable {C W : Type} [Crates] {K : Terms C} {S : Suite} {mayBreak : Prop} {me : Side}
  {LE : Env (Thread SingleUploader) (UploaderCmd S) UploaderCmd.Ans W} {t : Thread SingleUploader}
  {w : W × Option (View (Phase C))}

/-- It is the downloader's turn, or the uploader has been told to shut down. -/
def OnDuty (t : Thread SingleUploader) (w : W × Option (View (Phase C))) : Prop :=
  At .idle t w ∨ t.self.shouldShutdown = true

/-- Commands that are not on the file that is open. -/
def elsewhere : UploaderCmd S → Prop
  | .fileOpen _ => False
  | .fileSeek _ => False
  | .fileRead => False
  | _ => True

theorem wp_tryIo_exchange {α : Type} (r : Except Str α) :
    wp (onWire (exchange K) me mayBreak LE) (tryIo r) (fun a t' w' => r = .ok a ∧ t' = t ∧ w' = w)
      (fun _ _ _ => True) t w := by
  cases r with
  | ok a => exact ⟨rfl, rfl, rfl⟩
  | error e => trivial

/-- The stream is as it was, and a shutdown is not forgotten. -/
structure Attended (t t' : Thread SingleUploader) : Prop where
  stream : t'.encryptedStream = t.encryptedStream
  shutdown : t.self.shouldShutdown = true → t'.self.shouldShutdown = true

omit [Crates] in
/-- **The channel is polled.** Over the messages in it. -/
theorem wp_readReceiver_any : ∀ (fuel : Nat) (t : Thread SingleUploader),
    wp (anyAnswers (own elsewhere)) (readReceiver fuel : Up S Unit) (fun _ t' _ => Attended t t')
      (fun _ _ _ => True) t ()
  | 0, _ => trivial
  | fuel + 1, t => by
    refine (wp_bind (command .tryRecv) _).mpr ⟨trivial, fun a _ _ => ?_⟩
    cases a with
    | value m =>
      cases m with
      | shutdownConn =>
        refine (wp_bind (modifySelf _) _).mpr ((wp_modifySelf _).mpr ?_)
        exact wp_conseq (wp_readReceiver_any fuel _) (fun _ _ _ h => ⟨h.stream, fun _ => h.shutdown rfl⟩)
          fun _ _ _ h => h
      | doNothing => exact wp_readReceiver_any fuel t
    | empty => exact ⟨rfl, id⟩
    | disconnected => exact ⟨rfl, fun _ => rfl⟩

theorem wp_readReceiver_exchange {J : W → Prop} (hP : LE.Spares elsewhere J) (fuel : Nat) (hJ : J w.1) :
    wp (onWire (exchange K) me mayBreak LE) (readReceiver fuel : Up S Unit)
      (fun _ t' w' => Attended t t' ∧ w'.2 = w.2 ∧ J w'.1) (fun _ _ _ => True) t w :=
  wp_conseq (wp_own hP (wp_readReceiver_any fuel t) hJ) (fun _ _ _ h' => h') fun _ _ _ _ => trivial

omit [Crates] in
/-- A piece may come, and it is the downloader's turn after the last one. -/
theorem deliver_listPiece (json : List UInt8) (sent remaining : Nat) : ∃ p' : Phase C,
    (∀ payload, (Phase.listing : Phase C).deliver K (listPiece json sent remaining).2 payload = some p') ∧
      p' = if (listPiece json sent remaining).2 = msgFileListFinal then .idle else .listing := by
  unfold listPiece
  split
  · exact ⟨.idle, deliver_final, (if_pos rfl).symm⟩
  · exact ⟨.listing, deliver_piece, by simp [msgFileListPiece, msgFileListFinal]⟩

/-- **The pieces of the listing**: the last one makes it the downloader's turn. Over the pieces. -/
theorem wp_sendList_exchange (hok : ∀ w t c, LE.ok w t c) (receiverFuel : Nat) (json : List UInt8) :
    ∀ (fuel sent remaining : Nat) {t : Thread SingleUploader} {w : W × Option (View (Phase C))},
    At .listing t w → wp (onWire (exchange K) .right mayBreak LE)
      (sendList receiverFuel json fuel sent remaining : Up S Unit) (fun _ => OnDuty) (fun _ _ _ => True) t w
  | 0, _, _, _, _, _ => trivial
  | fuel + 1, sent, remaining, t, w, h => by
    obtain ⟨p', hd, hp'⟩ := deliver_listPiece (K := K) json sent remaining
    show wp _ (orPanic (listPiece json sent remaining).1 >>= fun payload =>
      write (listPiece json sent remaining).2 payload >>= fun _ =>
      readReceiver receiverFuel >>= fun _ => self >>= fun u => if u.shouldShutdown = true then pure ()
        else if (listPiece json sent remaining).2 = msgFileListFinal then
          self >>= fun u => command (.reverseListPush u.nickname)
        else sendList receiverFuel json fuel (sent + maxDataSize) (remaining - maxDataSize)) _ _ t w
    cases hslice : (listPiece json sent remaining).1 with
    | none => trivial
    | some payload =>
      refine (wp_bind (orPanic _) _).mpr ((wp_orPanic_some payload).mpr ?_)
      refine (wp_bind (write _ _) _).mpr (wp_write_at h rfl (listPiece_length hslice) (hd payload)
        fun t₁ w₁ _ _ h₁ => ?_)
      refine wp_seq (wp_readReceiver_exchange (spares_true hok) receiverFuel trivial)
        (fun _ t₂ w₂ h₂ => ?_) fun _ _ _ h' => h'
      have hat := h₁.congr h₂.1.stream h₂.2.1
      refine (wp_bind self _).mpr ((wp_ite _ _ _).mpr ?_)
      split
      · exact .inr ‹_›
      refine (wp_ite _ _ _).mpr ?_
      split
      · rename_i hfinal
        rw [hp', if_pos hfinal] at hat
        show wp _ (command (.reverseListPush t₂.self.nickname)) _ _ t₂ w₂
        refine wp_conseq (wp_ask_exchange (hok _ _ _)) (fun _ t₃ w₃ h₃ => ?_) fun _ _ _ h' => h'
        obtain ⟨rfl, hw₃, -⟩ := h₃
        exact .inl (hat.congr rfl hw₃)
      · rename_i hfinal
        rw [hp', if_neg hfinal] at hat
        exact wp_sendList_exchange hok receiverFuel json fuel _ _ hat

/-- Requests of the terms `K` are answered as they say, in these surroundings. -/
def Answering (K : Terms C) (mayBreak : Prop)
    (LE : Env (Thread SingleUploader) (UploaderCmd S) UploaderCmd.Ans W) (fuel : Nat)
    (everythingFile : SharedFile) : Prop :=
  ∀ (c : C) payload (t : Thread SingleUploader) (w : W × Option (View (Phase C))),
    K.request payload = some c → t.encryptedStream.Holds msgFileSelectionContinue payload →
    At (.sending c) t w → wp (onWire (exchange K) .right mayBreak LE) (serveFile fuel everythingFile)
      (fun _ => OnDuty) (fun _ _ _ => True) t w

/-- **One request.** The downloader has the connection again after the answer. -/
theorem wp_runLoop_exchange (hok : ∀ w t c, LE.ok w t c) {fuel : Nat} {everythingFile : SharedFile}
    (hanswer : Answering K mayBreak LE fuel everythingFile) (json : List UInt8) (h : At .idle t w) :
    wp (onWire (exchange K) .right mayBreak LE) (runLoop fuel everythingFile json)
      (fun result t' w' => OnDuty t' w' ∧ result = .success) (fun _ _ _ => True) t w := by
  have hopen : ∃ msg payload p', payload.length ≤ maxDataSize ∧
      (Phase.idle : Phase C).deliver K msg payload = some p' :=
    ⟨msgFileList, [], .listing, Nat.zero_le _, deliver_list⟩
  refine (wp_bind read _).mpr (wp_read_at h rfl hopen fun msg payload p' t₁ w₁ _ hd _ _ hholds h₁ => ?_)
  refine wp_seq (wp_readReceiver_exchange (spares_true hok) fuel trivial) (fun _ t₂ w₂ h₂ => ?_)
    fun _ _ _ h' => h'
  have hat := h₁.congr h₂.1.stream h₂.2.1
  refine (wp_bind self _).mpr ((wp_ite _ _ _).mpr ?_)
  split
  · exact ⟨.inr ‹_›, rfl⟩
  rw [← h₂.1.stream] at hholds
  show wp _ (if t₂.encryptedStream.getMessage = msgFileList then _ else _) _ _
    { t₂ with self := { t₂.self with activeMsg := t₂.encryptedStream.getMessage } } w₂
  rw [hholds.message]
  -- the message is one the downloader may ask with
  rcases deliver_idle hd with ⟨rfl, -, rfl⟩ | ⟨rfl, c, hc, rfl⟩
  · rw [if_pos rfl]
    exact wp_seq (wp_sendList_exchange hok fuel json fuel 0 json.length hat)
      (fun _ _ _ h' => ⟨h', rfl⟩) fun _ _ _ h' => h'
  · rw [if_neg (by decide), if_pos rfl]
    exact wp_seq (hanswer c payload _ _ hc hholds hat) (fun _ _ _ h' => ⟨h', rfl⟩) fun _ _ _ h' => h'

/-- **The requests of a connection.** Over the requests. -/
theorem wp_serveRequests_exchange (hok : ∀ w t c, LE.ok w t c) {fuel : Nat} {everythingFile : SharedFile}
    (hanswer : Answering K mayBreak LE fuel everythingFile) (json : List UInt8) :
    ∀ (n : Nat) {t : Thread SingleUploader} {w : W × Option (View (Phase C))}, OnDuty t w →
    wp (onWire (exchange K) .right mayBreak LE) (serveRequests fuel everythingFile json n)
      (fun _ _ _ => True) (fun _ _ _ => True) t w
  | 0, _, _, _ => trivial
  | n + 1, t, w, h => by
    refine wp_seq (wp_readReceiver_exchange (spares_true hok) fuel trivial) (fun _ t₁ w₁ h₁ => ?_)
      fun _ _ _ h' => h'
    refine (wp_bind self _).mpr ((wp_ite _ _ _).mpr ?_)
    split
    · trivial
    rename_i hstop
    have hat : At .idle t₁ w₁ := by
      rcases h with hat | hshut
      · exact hat.congr h₁.1.stream h₁.2.1
      · exact absurd (h₁.1.shutdown hshut) hstop
    refine wp_seq (wp_runLoop_exchange hok hanswer json hat) (fun result t₂ w₂ h₂ => ?_) fun _ _ _ h' => h'
    obtain ⟨h₂, rfl⟩ := h₂
    exact wp_serveRequests_exchange hok hanswer json n h₂

end Uploader

/-! ## 2. What is shared -/

section Sources

variable {C W : Type} [Crates] {K : Terms C} {S : Suite} {mayBreak : Prop}
  {LE : Env (Thread SingleUploader) (UploaderCmd S) UploaderCmd.Ans W} {t : Thread SingleUploader}
  {w : W × Option (View (Phase C))}

/-- In the surroundings `LE`, files are what the terms `K` say of them: `Opened c` holds while a file is open
    from which `c` is to be sent. -/
structure Source (K : Terms C) (LE : Env (Thread SingleUploader) (UploaderCmd S) UploaderCmd.Ans W)
    (Opened : C → W → Prop) : Prop where
  refuses : ∀ c msg, msg = msgFileInvalidFile ∨ msg = msgCannotSelectDirectory →
    K.answer c msg [] = some none
  opens : ∀ c payload seekBytes path t w w₁ w₂, K.request payload = some c →
    slice payload 0 8 = some seekBytes → fromUtf8 (payload.drop 8) = some path →
    LE.step w t (.fileOpen path) (Except.ok ()) w₁ →
    LE.step w₁ t (.fileSeek (UInt64.ofNat (ofBe seekBytes))) (Except.ok ()) w₂ → Opened c w₂
  reads : ∀ c t w w' (readBuffer : ReadBytes), Opened c w →
    LE.step w t .fileRead (Except.ok readBuffer) w' →
    K.answer c msgFileFinished readBuffer.1 = some none ∧
      ∃ c', K.answer c msgFileChunk readBuffer.1 = some (some c') ∧ Opened c' w'
  besides : ∀ c, LE.Spares elsewhere (Opened c)

omit [Crates] in
/-- An answer that ends the transfer. -/
theorem deliver_last {c : C} {msg : UInt16} {payload : List UInt8} (h : K.answer c msg payload = some none) :
    (Phase.sending c).deliver K msg payload = some .idle := by
  rw [Phase.deliver, h]
  rfl

omit [Crates] in
theorem deliver_chunk {c c' : C} {payload : List UInt8} (h : K.answer c msgFileChunk payload = some (some c')) :
    (Phase.sending c).deliver K msgFileChunk payload = some (.sending c') := by
  rw [Phase.deliver, h]
  rfl

/-- A method without the file that leaves the thread alone. -/
theorem wp_elsewhere {J : W → Prop} {α : Type} {m : Up S α} (hP : LE.Spares elsewhere J)
    (hm : Keeps (own elsewhere) id m) (hJ : J w.1) :
    wp (onWire (exchange K) .right mayBreak LE) m (fun _ t' w' => t' = t ∧ w'.2 = w.2 ∧ J w'.1)
      (fun _ _ _ => True) t w :=
  wp_conseq (wp_own hP (hm t) hJ) (fun _ _ _ h' => h') fun _ _ _ _ => trivial

/-- **The chunks of a file**: the last message makes it the downloader's turn. Over the chunks. -/
theorem wp_sendFile_exchange {Opened : C → W → Prop} (hok : ∀ w t c, LE.ok w t c)
    (hs : Source K LE Opened) (receiverFuel : Nat) (path : Str) (fileSize : UInt64) : ∀ (fuel : Nat)
    {current : UInt64} {c : C} {t : Thread SingleUploader} {w : W × Option (View (Phase C))},
    At (.sending c) t w → Opened c w.1 → wp (onWire (exchange K) .right mayBreak LE)
      (sendFile receiverFuel path fileSize fuel current : Up S Bool) (fun _ => OnDuty)
      (fun _ _ _ => True) t w
  | 0, _, _, _, _, _, _ => trivial
  | fuel + 1, current, c, t, w, h, ho => by
    refine wp_seq (wp_ask_exchange (R := fun _ _ _ => True) (hok w.1 t .fileRead))
      (fun a t₁ w₁ h₁ => ?_) fun _ _ _ h' => h'
    obtain ⟨rfl, hw₁, hstep⟩ := h₁
    have h : At (.sending c) t₁ w₁ := h.congr rfl hw₁
    cases a with
    | error e => trivial
    | ok readBuffer =>
      obtain ⟨hlast, c', hchunk, ho'⟩ := hs.reads c t₁ _ _ readBuffer ho hstep
      refine (wp_bind (tryIo _) _).mpr ((wp_orThrow_ok _).mpr ?_)
      dsimp only
      split
      · -- the last part of the file
        refine (wp_bind (write _ _) _).mpr (wp_write_at h rfl readBuffer.2 (deliver_last hlast)
          fun t₂ w₂ _ _ h₂ => ?_)
        rw [if_pos rfl]
        exact .inl h₂
      · refine (wp_bind (write _ _) _).mpr (wp_write_at h rfl readBuffer.2 (deliver_chunk hchunk)
          fun t₂ w₂ _ hw₂ h₂ => ?_)
        rw [if_neg (by decide)]
        rw [← hw₂] at ho'
        refine wp_seq (wp_elsewhere (hs.besides c')
          (steady_updateProgress trivial (fun _ => trivial) path _ fileSize).keeps ho')
          (fun _ t₃ w₃ h₃ => ?_) fun _ _ _ h' => h'
        obtain ⟨rfl, hw₃, ho₃⟩ := h₃
        refine wp_seq (wp_readReceiver_exchange (hs.besides c') receiverFuel ho₃) (fun _ t₄ w₄ h₄ => ?_)
          fun _ _ _ h' => h'
        refine (wp_bind self _).mpr ((wp_ite _ _ _).mpr ?_)
        split
        · exact .inr ‹_›
        · exact wp_sendFile_exchange hok hs receiverFuel path fileSize fuel
            (h₂.congr h₄.1.stream (h₄.2.1.trans hw₃)) h₄.2.2

/-- **Any request is answered**: with the file, or with what is wrong about the request. -/
theorem answering_source {Opened : C → W → Prop} (hok : ∀ w t c, LE.ok w t c)
    (hs : Source K LE Opened) (fuel : Nat) (everythingFile : SharedFile) :
    Answering K mayBreak LE fuel everythingFile := by
  intro c payload t w hrequest hholds hat
  refine (wp_bind getPayload _).mpr (wp_getPayload_of hholds.payload ?_)
  refine (wp_bind (orPanic _) _).mpr ?_
  cases hseek : slice payload 0 8 with
  | none => trivial
  | some seekBytes =>
    refine (wp_orPanic_some _).mpr ((wp_bind (orThrow _) _).mpr ?_)
    cases hutf : fromUtf8 (payload.drop 8) with
    | none => trivial
    | some clientFileChoice =>
      refine (wp_orThrow_ok _).mpr ?_
      cases getFileByPath clientFileChoice everythingFile with
      | none =>
        exact wp_write_at hat rfl (Nat.zero_le _) (deliver_last (hs.refuses c _ (.inl rfl)))
          fun t₁ w₁ _ _ h₁ => .inl h₁
      | some clientSharedFile =>
        refine (wp_ite _ _ _).mpr ?_
        split
        · exact wp_write_at hat rfl (Nat.zero_le _) (deliver_last (hs.refuses c _ (.inr rfl)))
            fun t₁ w₁ _ _ h₁ => .inl h₁
        refine wp_seq (wp_ask_exchange (R := fun _ _ _ => True) (hok w.1 t _))
          (fun opened t₁ w₁ h₁ => ?_) fun _ _ _ h' => h'
        obtain ⟨rfl, hw₁, hopen⟩ := h₁
        refine wp_seq (wp_tryIo_exchange opened) (fun _ t₂ w₂ h₂ => ?_) fun _ _ _ h' => h'
        obtain ⟨rfl, rfl, rfl⟩ := h₂
        refine wp_seq (wp_ask_exchange (R := fun _ _ _ => True) (hok _ _ _))
          (fun sought t₃ w₃ h₃ => ?_) fun _ _ _ h' => h'
        obtain ⟨rfl, hw₃, hsought⟩ := h₃
        refine wp_seq (wp_tryIo_exchange sought) (fun _ t₄ w₄ h₄ => ?_) fun _ _ _ h' => h'
        obtain ⟨rfl, rfl, rfl⟩ := h₄
        have ho := hs.opens c payload seekBytes clientFileChoice _ _ _ _ hrequest hseek hutf hopen hsought
        refine wp_seq (wp_elsewhere (hs.besides c) (steady_uploadState (fun _ => trivial) _ 0).keeps ho) (fun _ t₅ w₅ h₅ => ?_)
          fun _ _ _ h' => h'
        obtain ⟨rfl, hw₅, ho₅⟩ := h₅
        have hat : At (.sending c) t₅ w₅ := hat.congr rfl ((hw₅.trans hw₃).trans hw₁)
        refine wp_seq (wp_sendFile_exchange hok hs fuel clientFileChoice clientSharedFile.fileSize fuel
          hat ho₅) (fun sent t₆ w₆ h₆ => ?_) fun _ _ _ h' => h'
        cases sent with
        | false => exact h₆
        | true =>
          refine wp_conseq (wp_elsewhere (spares_true hok) (steady_uploadState (fun _ => trivial) _ 100).keeps trivial)
            (fun _ t₇ w₇ h₇ => ?_) fun _ _ _ h' => h'
          obtain ⟨rfl, hw₇, -⟩ := h₇
          exact h₆.imp (fun h₆ => h₆.congr rfl hw₇) id

end Sources

/-- Any file may be asked for, and chunks and a last message answer. -/
def anyAnswer : Terms Unit where
  request _ := some ()
  answer _ msg _ :=
    if msg = msgFileChunk then some (some ())
    else if msg = msgFileFinished ∨ msg = msgFileInvalidFile ∨ msg = msgCannotSelectDirectory then some none
    else none
  chunks _ msg _ o h := by
    split at h
    · cases h
      simp [*]
    · split at h
      · cases h
        simp [*]
      · cases h
  answers _ := ⟨msgFileFinished, [], none, Nat.zero_le _, by decide⟩

/-- Whatever is shared. -/
theorem source_anyAnswer {W : Type} {S : Suite}
    {LE : Env (Thread SingleUploader) (UploaderCmd S) UploaderCmd.Ans W} (hok : ∀ w t c, LE.ok w t c) :
    Source anyAnswer LE fun _ _ => True where
  refuses c msg h := by
    cases c
    rcases h with rfl | rfl
    · decide
    · decide
  opens _ _ _ _ _ _ _ _ _ _ _ _ _ := trivial
  reads _ _ _ _ _ _ _ := ⟨rfl, (), rfl, trivial⟩
  besides _ := spares_true hok

/-! ## 3. From the handshake on -/

section Opening

variable {C W : Type} [Crates] {K : Terms C} {S : Suite} {mayBreak : Prop} {me : Side}
  {LE : Env (Thread SingleUploader) (UploaderCmd S) UploaderCmd.Ans W} {t : Thread SingleUploader}
  {w : W × Option (View (Phase C))} {p : Phase C}

/-- Commands that do not hand over the connection. -/
def plainly : UploaderCmd S → Prop
  | .app (.reverseConnection _) => False
  | _ => True

/-- What is not on the connection, and does not hand it over, leaves the conversation where it is. -/
def LetsOwn (E : Env (Thread SingleUploader) (Wire ⊕ UploaderCmd S) (Ans UploaderCmd.Ans)
    (W × Option (View (Phase C)))) : Prop :=
  ∀ {α : Type} (m : Up S α) (t : Thread SingleUploader) (w : W × Option (View (Phase C))),
    Steady (own plainly) id m → wp E m (fun _ t' w' => t' = t ∧ w'.2 = w.2) (fun _ _ _ => True) t w

omit [Crates] in
theorem steady_own_handshake (c : HandshakeCmd S) : Steady (own plainly) id (handshake c : Up S c.Ans) :=
  steady_issue trivial

theorem letsOwn_onWire (hok : ∀ w t c, LE.ok w t c) : LetsOwn (onWire (exchange K) me mayBreak LE) :=
  fun _ t _ hm => wp_conseq (wp_own (spares_true hok) (hm.keeps t) trivial)
    (fun _ _ _ h' => ⟨h'.1, h'.2.1⟩) fun _ _ _ _ => trivial

variable {E : Env (Thread SingleUploader) (Wire ⊕ UploaderCmd S) (Ans UploaderCmd.Ans)
  (W × Option (View (Phase C)))}

omit [Crates] in
theorem wp_getEncryptedStream_new (hE : LetsOwn E) (ts : TransmiticStream) (key : S.Key) :
    wp E (getEncryptedStream handshake ts key) (fun r t' w' => t' = t ∧ w'.2 = w.2 ∧ r.2.nonce = nonceInit)
      (fun _ _ _ => True) t w := by
  have hclone : Steady (own plainly) id (do
      orFail (orErr id (← (handshake .tryClone : Up S (Except Str Unit))))) :=
    steady_bind (steady_issue trivial) fun _ => steady_orFail _
  refine wp_bind_assoc.mp (wp_seq (hE _ t w hclone) (fun _ t₁ w₁ h₁ => ?_) fun _ _ _ h' => h')
  cases ts.matchedSharedUser with
  | some sharedUser => exact ⟨h₁.1, h₁.2, rfl⟩
  | none => trivial

omit [Crates] in
/-- What is not on the connection comes first. -/
theorem LetsOwn.seq (hE : LetsOwn E) {α β : Type} {m : Up S α} {f : α → Up S β} {N : β → Prop}
    (hm : Steady (own plainly) id m)
    (hf : ∀ a t w, wp E (f a) (fun r t' w' => t' = t ∧ w'.2 = w.2 ∧ N r) (fun _ _ _ => True) t w)
    (t : Thread SingleUploader) (w : W × Option (View (Phase C))) :
    wp E (m >>= f) (fun r t' w' => t' = t ∧ w'.2 = w.2 ∧ N r) (fun _ _ _ => True) t w := by
  refine wp_seq (hE m t w hm) (fun a t₁ w₁ h₁ => ?_) fun _ _ _ h' => h'
  obtain ⟨rfl, hw₁⟩ := h₁
  exact wp_conseq (hf a t₁ w₁) (fun _ _ _ h' => ⟨h'.1, h'.2.1.trans hw₁, h'.2.2⟩) fun _ _ _ h' => h'

omit [Crates] in
/-- **The stream of a handshake is a new one**, from either side. -/
theorem wp_connect_new (hE : LetsOwn E) (ts : TransmiticStream) :
    wp E (ts.connect handshake) (fun r t' w' => t' = t ∧ w'.2 = w.2 ∧ r.2.nonce = nonceInit)
      (fun _ _ _ => True) t w := by
  refine hE.seq (steady_sendTransmiticHeader steady_own_handshake) (fun _ => ?_) t w
  refine hE.seq (steady_receiveTransmiticHeader steady_own_handshake ts) fun _ => ?_
  refine hE.seq (steady_sendDiffieHelmanKey steady_own_handshake ts) fun _ => ?_
  refine hE.seq (steady_receiveDiffieHelmanKey steady_own_handshake ts) fun _ t w => ?_
  exact wp_getEncryptedStream_new hE _ _

omit [Crates] in
theorem wp_waitForIncoming_new (hE : LetsOwn E) (ts : TransmiticStream) :
    wp E (ts.waitForIncoming handshake) (fun r t' w' => t' = t ∧ w'.2 = w.2 ∧ r.2.nonce = nonceInit)
      (fun _ _ _ => True) t w := by
  refine hE.seq (steady_receiveTransmiticHeader steady_own_handshake ts) (fun _ => ?_) t w
  refine hE.seq (steady_sendTransmiticHeader steady_own_handshake) fun _ => ?_
  refine hE.seq (steady_receiveDiffieHelmanKey steady_own_handshake ts) fun _ => ?_
  refine hE.seq (steady_sendDiffieHelmanKey steady_own_handshake _) fun _ t w => ?_
  exact wp_getEncryptedStream_new hE _ _

/-- The conversation is about to begin, with the phase `p`. -/
def Fresh (p : Phase C) (w : W × Option (View (Phase C))) : Prop := w.2 = some ⟨p, nonceInit, none⟩

omit [Crates] in
theorem Fresh.at {es : EncryptedStream} (h : Fresh p w) (hn : es.nonce = nonceInit) :
    At p { t with encryptedStream := es } w := by
  constructor
  · show w.2 = some ⟨p, es.nonce, none⟩
    rw [hn]
    exact h
  · show es.nonce ≤ nonceMax
    rw [hn]
    exact Nat.zero_le _

/-- **A peer is waited for**: the conversation begins where it is. -/
theorem wp_openStream_incoming (hE : LetsOwn E) (ts : TransmiticStream) (h : Fresh p w) :
    wp E (openStream ts none) (fun _ => At p) (fun _ _ _ => True) t w := by
  refine wp_seq (wp_waitForIncoming_new hE ts) (fun r t₁ w₁ h₁ => ?_) fun _ _ _ h' => h'
  exact Fresh.at (h₁.2.1.trans h) h₁.2.2

/-- **A peer is connected to, and greeted.** -/
theorem wp_openStream_reverse (hok : ∀ w t c, LE.ok w t c) (ts : TransmiticStream) (user : SharedUser)
    (h : Fresh .greeting w) : wp (onWire (exchange K) .right mayBreak LE) (openStream ts (some user))
      (fun _ => At .idle) (fun _ _ _ => True) t w := by
  refine (wp_bind (reverseGreeting _) _).mpr ?_
  refine wp_seq (wp_ask_exchange (R := fun _ _ _ => True) (hok w.1 t (.reverseListContains _)))
    (fun (hasList : Bool) t₁ w₁ h₁ => ?_) fun _ _ _ h' => h'
  obtain ⟨rfl, hw₁, -⟩ := h₁
  refine wp_seq (wp_connect_new (letsOwn_onWire hok) ts) (fun r t₂ w₂ h₂ => ?_) fun _ _ _ h' => h'
  obtain ⟨rfl, hw₂, hn⟩ := h₂
  refine (wp_bind (modifyStream _) _).mpr ((wp_modifyStream _).mpr ?_)
  have hat := Fresh.at (t := t₂) ((hw₂.trans hw₁).trans h) hn
  refine wp_write_at hat rfl (Nat.zero_le _) (deliver_greeting ?_) fun t₃ w₃ _ _ h₃ => h₃
  split
  · exact .inr rfl
  · exact .inl rfl

/-- The user of the handshake is served. -/
theorem wp_serveUser_exchange (hE : LetsOwn E) {fuel : Nat}
    (hserve : ∀ everythingFile json t w, At p t w →
      wp E (serveRequests fuel everythingFile json fuel) (fun _ _ _ => True) (fun _ _ _ => True) t w)
    (h : At p t w) : wp E (serveUser fuel) (fun _ _ _ => True) (fun _ _ _ => True) t w := by
  show wp E (if (!t.encryptedStream.sharedUser.allowed) = true then _ else _) _ _
    { t with self := { t.self with nickname := t.encryptedStream.sharedUser.nickname } } w
  refine (wp_ite _ _ _).mpr ?_
  split
  · exact wp_seq (hE (command (.sleep _)) _ w (steady_issue trivial)) (fun _ _ _ _ => trivial)
      fun _ _ _ h' => h'
  refine wp_seq (hE (command .fileSystem) _ w (steady_issue trivial)) (fun fs t₁ w₁ h₁ => ?_)
    fun _ _ _ h' => h'
  obtain ⟨rfl, hw₁⟩ := h₁
  refine (wp_bind self _).mpr ?_
  show wp E (orThrow _ >>= _) _ _ _ w₁
  refine wp_seq (hE (orThrow _) _ w₁ (steady_orThrow _)) (fun everythingFile t₂ w₂ h₂ => ?_)
    fun _ _ _ h' => h'
  obtain ⟨rfl, hw₂⟩ := h₂
  refine wp_seq (hE (orThrow _) _ w₂ (steady_orThrow _)) (fun json t₃ w₃ h₃ => ?_) fun _ _ _ h' => h'
  obtain ⟨rfl, hw₃⟩ := h₃
  exact hserve everythingFile _ _ w₃ (h.congr rfl ((hw₃.trans hw₂).trans hw₁))

/-- **A connection**, from the address of the peer to the last request. -/
theorem wp_run_exchange (hE : LetsOwn E) {fuel : Nat} {reverseUser : Option SharedUser}
    {p' : Phase C} (hopen : ∀ ts t w, Fresh p w →
      wp E (openStream ts reverseUser) (fun _ => At p') (fun _ _ _ => True) t w)
    (hserve : ∀ everythingFile json t w, At p' t w →
      wp E (serveRequests fuel everythingFile json fuel) (fun _ _ _ => True) (fun _ _ _ => True) t w)
    (h : Fresh p w) :
    wp E (run fuel reverseUser) (fun _ _ _ => True) (fun _ _ _ => True) t w := by
  refine wp_seq (hE (command .peerAddr) t w (steady_issue trivial)) (fun peer t₁ w₁ h₁ => ?_)
    fun _ _ _ h' => h'
  have h : Fresh p w₁ := h₁.2.trans h
  refine wp_seq (hE (tryIo peer) t₁ w₁ (steady_orThrow _)) (fun ip t₂ w₂ h₂ => ?_) fun _ _ _ h' => h'
  have h : Fresh p w₂ := h₂.2.trans h
  refine wp_seq (hE _ t₂ w₂ (steady_candidates trivial (fun _ _ => trivial) ip reverseUser)) (fun sharedUsers t₃ w₃ h₃ => ?_)
    fun _ _ _ h' => h'
  have h : Fresh p w₃ := h₃.2.trans h
  refine (wp_bind self _).mpr ((wp_ite _ _ _).mpr ?_)
  split
  · exact wp_seq (hE (command (.sleep _)) t₃ w₃ (steady_issue trivial)) (fun _ _ _ _ => trivial)
      fun _ _ _ h' => h'
  refine wp_seq (hE (handshake .tryClone) t₃ w₃ (steady_issue trivial)) (fun cloned t₄ w₄ h₄ => ?_)
    fun _ _ _ h' => h'
  have h : Fresh p w₄ := h₄.2.trans h
  refine wp_seq (hE (tryIo cloned) t₄ w₄ (steady_orThrow _)) (fun _ t₅ w₅ h₅ => ?_) fun _ _ _ h' => h'
  have h : Fresh p w₅ := h₅.2.trans h
  refine (wp_bind self _).mpr ?_
  show wp E (orThrow _ >>= _) _ _ t₅ w₅
  refine wp_seq (hE (orThrow _) t₅ w₅ (steady_orThrow _)) (fun ts t₆ w₆ h₆ => ?_) fun _ _ _ h' => h'
  have h : Fresh p w₆ := h₆.2.trans h
  exact wp_seq (hopen ts t₆ w₆ h) (fun _ t₇ w₇ h₇ => wp_serveUser_exchange hE hserve h₇) fun _ _ _ h' => h'

/-- **The thread of a connection**: it uses the connection as `run` does. -/
theorem wp_singleThread_exchange (hE : LetsOwn E) {fuel : Nat} {reverseUser : Option SharedUser}
    {p' : Phase C} (hopen : ∀ ts t w, Fresh p w →
      wp E (openStream ts reverseUser) (fun _ => At p') (fun _ _ _ => True) t w)
    (hserve : ∀ everythingFile json t w, At p' t w →
      wp E (serveRequests fuel everythingFile json fuel) (fun _ _ _ => True) (fun _ _ _ => True) t w)
    (h : Fresh p w) :
    wp E (singleThread fuel reverseUser) (fun _ _ _ => True) (fun _ _ _ => True) t w := by
  have hafter : ∀ e, Steady (own plainly) id (afterFailure e : Up S RunLoopResult) := by
    intro e
    cases e with
    | err text =>
      exact steady_bind (steady_bind steady_get fun _ => steady_pure _) fun u =>
        steady_ite (steady_bind (steady_issue trivial) fun _ => steady_pure _) (steady_pure _)
    | panic => exact steady_pure _
    | fuel => exact steady_throw _
  have hbody : wp E (tryCatch (run fuel reverseUser) afterFailure) (fun _ _ _ => True) (fun _ _ _ => True)
      t w :=
    (wp_tryCatch _ _).mpr (wp_conseq (wp_run_exchange hE hopen hserve h) (fun _ _ _ h' => h')
      fun e t' w' _ => wp_conseq (hE _ t' w' (hafter e)) (fun _ _ _ _ => trivial) fun _ _ _ h' => h')
  refine wp_seq hbody (fun result t₁ w₁ _ => ?_) fun _ _ _ h' => h'
  cases result with
  | success =>
    exact wp_conseq (hE (command .shutdownStream) t₁ w₁ (steady_issue trivial)) (fun _ _ _ _ => trivial)
      fun _ _ _ h' => h'
  | reverseConnection => trivial

/-- **The thread of a reverse connection.** -/
theorem wp_reverseThread_exchange {LE : Env (Thread SingleUploader) (UploaderCmd S) UploaderCmd.Ans W}
    {w : W × Option (View (Phase Unit))} (hok : ∀ w t c, LE.ok w t c) {fuel : Nat} (user : SharedUser)
    (h : Fresh .greeting w) : wp (onWire (exchange anyAnswer) .right mayBreak LE) (reverseThread fuel user)
      (fun _ _ _ => True) (fun _ _ _ => True) t w := by
  have hown : LetsOwn (onWire (exchange anyAnswer) .right mayBreak LE) := letsOwn_onWire hok
  refine wp_seq (hown (command (.resolveAddress _ _)) t w (steady_issue trivial))
    (fun (resolved : Except Str (List IpAddr)) t₁ w₁ h₁ => ?_) fun _ _ _ h' => h'
  have h : Fresh .greeting w₁ := h₁.2.trans h
  refine wp_seq (hown (orPanic resolved.toOption) t₁ w₁ (steady_orPanic _)) (fun addresses t₂ w₂ h₂ => ?_)
    fun _ _ _ h' => h'
  have h : Fresh .greeting w₂ := h₂.2.trans h
  refine wp_seq (hown (command (.tcpConnect addresses)) t₂ w₂ (steady_issue trivial))
    (fun (isConnected : Bool) t₃ w₃ h₃ => ?_) fun _ _ _ h' => h'
  have h : Fresh .greeting w₃ := h₃.2.trans h
  refine (wp_ite _ _ _).mpr ?_
  split
  · exact wp_singleThread_exchange hown (fun ts _ _ => wp_openStream_reverse hok ts user)
      (fun everythingFile json t w hat => wp_serveRequests_exchange hok
        (answering_source hok (source_anyAnswer hok) fuel everythingFile) json fuel (.inl hat)) h
  · trivial

end Opening

/-! ## 4. A listener that is greeted -/

section Listening

variable {W : Type} [Crates] {S : Suite} {LE : Env (Thread SingleUploader) (UploaderCmd S) UploaderCmd.Ans W}
  {t : Thread SingleUploader} {w : W × Option (View (Phase Unit))}

/-- The surroundings of a thread that waits for a peer: it hands over the connection only when it is the
    downloader's turn, with the counter where the conversation is. -/
noncomputable def handingOver (LE : Env (Thread SingleUploader) (UploaderCmd S) UploaderCmd.Ans W) :
    Env (Thread SingleUploader) (Wire ⊕ UploaderCmd S) (Ans UploaderCmd.Ans)
      (W × Option (View (Phase Unit))) :=
  (onWire (exchange anyAnswer) .left True LE).admitting fun w t c =>
    (onWire (exchange anyAnswer) .left True LE).ok w t c ∧
      ∀ enc, c = .inr (.app (.reverseConnection enc)) →
        w.2 = some ⟨.idle, enc.nonce, none⟩ ∧ enc.nonce ≤ nonceMax

theorem wired_handingOver : Wired (exchange anyAnswer) .left True LE (handingOver LE) :=
  ⟨fun _ _ _ h => h.1, fun _ _ _ _ _ h => h⟩

/-- What does not hand over the connection may be done. -/
theorem wp_handingOver {α V : Type} {r : Thread SingleUploader → V} {m : Up S α}
    {Q : α → Thread SingleUploader → W × Option (View (Phase Unit)) → Prop}
    {R : Exc → Thread SingleUploader → W × Option (View (Phase Unit)) → Prop}
    (hm : Keeps (wireAnd plainly) r m) (h : wp (onWire (exchange anyAnswer) .left True LE) m Q R t w) :
    wp (handingOver LE) m Q R t w := by
  refine wp_admitting hm (fun w t c hok hc => ⟨hok, fun enc heq => ?_⟩) h
  subst heq
  exact hc.elim

theorem letsOwn_handingOver (hok : ∀ w t c, LE.ok w t c) : LetsOwn (handingOver LE) :=
  fun m t w hm => wp_handingOver (hm.mono (wireAnd_of_own fun _ hc => hc)).keeps (letsOwn_onWire hok m t w hm)

/-- **The greeting is the only message a listener gets from a peer that connects to it in reverse.** -/
theorem wp_runLoop_listening (hok : ∀ w t c, LE.ok w t c) (fuel : Nat) (everythingFile : SharedFile)
    (json : List UInt8) (h : At .greeting t w) :
    wp (handingOver LE) (runLoop fuel everythingFile json)
      (fun result t' w' => result = .success ∧ t'.self.shouldShutdown = true ∨
        result = .reverseConnection ∧ At .idle t' w') (fun _ _ _ => True) t w := by
  have hopen : ∃ msg payload p', payload.length ≤ maxDataSize ∧
      (Phase.greeting : Phase Unit).deliver anyAnswer msg payload = some p' :=
    ⟨msgReverse, [], .idle, Nat.zero_le _, deliver_greeting (.inl rfl)⟩
  have hread : wp (onWire (exchange anyAnswer) .left True LE) (read : Up S Unit)
      (fun _ t' w' => At .idle t' w' ∧ (t'.encryptedStream.getMessage = msgReverse ∨
        t'.encryptedStream.getMessage = msgReverseNoList)) (fun _ _ _ => True) t w := by
    refine wp_read_at h rfl hopen fun msg payload p' t₁ w₁ _ hd _ _ hholds h₁ => ?_
    rw [hholds.message]
    obtain ⟨hmsg, rfl⟩ := greeting_next hd
    exact ⟨h₁, hmsg⟩
  refine wp_seq (wp_handingOver steady_read.keeps hread) (fun _ t₁ w₁ h₁ => ?_) fun _ _ _ h' => h'
  obtain ⟨hat, hmsg⟩ := h₁
  refine wp_seq (wp_handingOver ((steady_readReceiver trivial fuel).map Prod.fst).keeps
    (wp_readReceiver_exchange (spares_true hok) fuel trivial)) (fun _ t₂ w₂ h₂ => ?_) fun _ _ _ h' => h'
  have hat := hat.congr h₂.1.stream h₂.2.1
  rw [← h₂.1.stream] at hmsg
  refine (wp_bind self _).mpr ((wp_ite _ _ _).mpr ?_)
  split
  · exact .inl ⟨rfl, ‹_›⟩
  show wp _ (if t₂.encryptedStream.getMessage = msgFileList then _
    else if t₂.encryptedStream.getMessage = msgFileSelectionContinue then _
    else if _ ∨ _ then _ else _) _ _
    { t₂ with self := { t₂.self with activeMsg := t₂.encryptedStream.getMessage } } w₂
  have hlist : t₂.encryptedStream.getMessage ≠ msgFileList := by
    rcases hmsg with hmsg | hmsg
    · rw [hmsg]
      decide
    · rw [hmsg]
      decide
  have hfile : t₂.encryptedStream.getMessage ≠ msgFileSelectionContinue := by
    rcases hmsg with hmsg | hmsg
    · rw [hmsg]
      decide
    · rw [hmsg]
      decide
  rw [if_neg hlist, if_neg hfile, if_pos hmsg]
  exact .inr ⟨rfl, hat⟩

/-- **The connection is handed over after the greeting**, or the thread is told to shut down. Over the
    passes of the loop. -/
theorem wp_serveRequests_listening (hok : ∀ w t c, LE.ok w t c) (fuel : Nat) (everythingFile : SharedFile)
    (json : List UInt8) : ∀ (n : Nat) {t : Thread SingleUploader} {w : W × Option (View (Phase Unit))},
    At .greeting t w ∨ t.self.shouldShutdown = true →
    wp (handingOver LE) (serveRequests fuel everythingFile json n) (fun _ _ _ => True)
      (fun _ _ _ => True) t w
  | 0, _, _, _ => trivial
  | n + 1, t, w, h => by
    refine wp_seq (wp_handingOver ((steady_readReceiver trivial fuel).map Prod.fst).keeps
      (wp_readReceiver_exchange (spares_true hok) fuel trivial)) (fun _ t₁ w₁ h₁ => ?_) fun _ _ _ h' => h'
    refine (wp_bind self _).mpr ((wp_ite _ _ _).mpr ?_)
    split
    · trivial
    rename_i hstop
    have hat : At .greeting t₁ w₁ := by
      rcases h with hat | hshut
      · exact hat.congr h₁.1.stream h₁.2.1
      · exact absurd (h₁.1.shutdown hshut) hstop
    refine wp_seq (wp_runLoop_listening hok fuel everythingFile json hat) (fun result t₂ w₂ h₂ => ?_)
      fun _ _ _ h' => h'
    rcases h₂ with ⟨rfl, hshut⟩ | ⟨rfl, hidle⟩
    · exact wp_serveRequests_listening hok fuel everythingFile json n (.inr hshut)
    · refine (wp_bind get _).mpr ((wp_bind (sendApp _) _).mpr ⟨⟨hok _ _ _, fun enc henc => ?_⟩,
        fun _ _ _ => trivial⟩)
      cases henc
      exact hidle

end Listening

end SingleUploader

/-! ## 5. Both sides -/

section Sides

variable [Crates] {S : Suite}

/-- The paths of a listing fit into a request. -/
def Requestable (f : SharedFile) : Prop := ∀ a ∈ nodes f, 8 + (utf8 a.path).length ≤ maxDataSize

/-- The surroundings of a downloader may answer anything; the listings of the cache have paths that fit
    into a request. -/
def anyListing : Env (Thread SingleDownloader) DownloaderCmd DownloaderCmd.Ans Unit where
  ok _ _ _ := True
  step _ _ c a _ :=
    match c, a with
    | .refreshGet _, some (some f) => Requestable f
    | _, _ => True

/-- The surroundings of an uploader may answer anything. -/
abbrev anything : Env (Thread SingleUploader) (UploaderCmd S) UploaderCmd.Ans Unit :=
  anyAnswers fun _ => True

/-- A downloader, on a connection that may break. -/
abbrev downloader : Party Frame (Nat × Nat) := party Unit True anyListing

abbrev uploader (S : Suite) : Party Frame (Nat × Nat) := party Unit True (anything (S := S))

omit [Crates] in
/-- The paths of what is listed fit into requests. -/
theorem requestable_nodes {f : SharedFile} (h : Requestable f) : ∀ a ∈ nodes f, Requestable a :=
  fun _ ha b hb => h b (nodes_trans hb ha)

omit [Crates] in
theorem ok_anyListing (w : Unit) (t : Thread SingleDownloader) (c : DownloaderCmd) : anyListing.ok w t c :=
  trivial

/-- A downloader on its turn keeps to the conversation. -/
theorem aboard_serveConnection {fuel : Nat} {root : Str} {t : Thread SingleDownloader}
    {v : Option (View (Phase Unit))} (hstop : t.self.stopDownloading = false) (hat : At .idle t ((), v)) :
    Aboard (onWire (exchange SingleUploader.anyAnswer) .left True anyListing) (fun _ => OnTurn fun _ => True)
      (fun _ _ _ => True) (serveConnection fuel root t, ()) v := by
  refine .inl ?_
  have hfile : FileParts (onWire (exchange SingleUploader.anyAnswer) .left True anyListing)
      (OnTurn fun _ => True) (fun _ _ _ => True) (fun tr => Requestable tr.sharedFile)
      (fun _ _ _ _ _ => True) fun _ => OnTurn fun _ => True := by
    refine fileParts_exchange (fun _ _ => spares_true ok_anyListing) (spares_true ok_anyListing)
      fun tr htr seek => ⟨?_, (), rfl⟩
    have hlen := htr _ (self_mem_nodes tr.sharedFile)
    rw [List.length_append, length_beBytes]
    exact hlen
  have htree : TreeParts (onWire (exchange SingleUploader.anyAnswer) .left True anyListing)
      (OnTurn fun _ => True) (fun _ _ _ => True) root fun _ => Requestable :=
    treeParts_exchange (spares_true ok_anyListing) (fun _ _ _ f _ h => requestable_nodes h)
      (fun _ f _ hf _ _ a ha => requestable_nodes hf a (mem_nodes_of_mem ha))
      (fun _ _ _ _ _ => spares_true ok_anyListing)
      fun fuel dir f name hf _ _ t w hw => hfile.downloadFile (fun _ => hf) fuel hw
  exact htree.serveConnection fuel ⟨⟨.inl hat, trivial⟩, hstop⟩

omit [Crates] in
theorem ok_anything (w : Unit) (t : Thread SingleUploader) (c : UploaderCmd S) :
    anything.ok w t c := trivial

/-- An uploader that waits for a peer to ask. -/
theorem aboard_singleThread {fuel : Nat} {t : Thread SingleUploader} :
    Aboard (onWire (exchange SingleUploader.anyAnswer) .right True (anything (S := S))) (fun _ _ _ => True)
      (fun _ _ _ => True) (SingleUploader.singleThread fuel none t, ()) (some ⟨.idle, nonceInit, none⟩) := by
  have hown : SingleUploader.LetsOwn (onWire (exchange SingleUploader.anyAnswer) .right True
    (anything (S := S))) := SingleUploader.letsOwn_onWire ok_anything
  exact .inl (SingleUploader.wp_singleThread_exchange hown
    (fun ts _ _ => SingleUploader.wp_openStream_incoming hown ts)
    (fun everythingFile json t w h => SingleUploader.wp_serveRequests_exchange ok_anything
      (SingleUploader.answering_source ok_anything (SingleUploader.source_anyAnswer ok_anything) fuel everythingFile) json fuel (.inl h)) rfl)

/-- **A downloader and an uploader take turns.** Over every connection, in whatever order the two get to
    their steps, whatever channels, disks and users do, and wherever the connection breaks: what is on the
    way goes in one direction, no value of the counter is used twice, who reads gets the frame that is
    next, and never do both wait, or both send. -/
theorem serveConnection_takesTurns (fuel fuel' : Nat) (root : Str) {d : Thread SingleDownloader}
    {u : Thread SingleUploader} {s : Link downloader (uploader S)}
    (hnonce : d.encryptedStream.nonce = nonceInit) (hstop : d.self.stopDownloading = false)
    (hr : Link.Run fits { left := (serveConnection fuel root d, ())
                          right := (SingleUploader.singleThread fuel' none u, ())
                          toLeft := [], toRight := [], log := [] } s) :
    TurnsTaken Prod.fst fits s := by
  have hat : At (.idle : Phase Unit) d ((), some ⟨.idle, nonceInit, none⟩) := by
    refine ⟨?_, ?_⟩
    · rw [hnonce]
    · rw [hnonce]
      exact Nat.zero_le _
  exact turnsTaken_run (conforms_party wired_onWire) (conforms_party wired_onWire)
    (aboard_serveConnection hstop hat) aboard_singleThread hr

/-- A file of two bytes, in the root of the file system. -/
def twoBytesFs : FileSystem where
  root := .dir true [(some "a".toList, .file [1, 2])]
  wellFormed := by
    simp only [Entry.WellFormed, entriesWellFormed]
    decide
  cwd := []

def twoBytesPath : Str := "/a".toList

/-- The listing of it. -/
def twoBytesListing : SharedFile := ⟨[], true, [⟨twoBytesPath, false, [], 2, []⟩], 2, []⟩

/-- It is shared with bob. -/
def sharingThread : Thread SingleUploader :=
  ⟨SingleUploader.new (homeConfig twoBytesPath), SingleUploader.freshUploader.encryptedStream⟩

/-- He wants it. -/
def wantingThread : Thread SingleDownloader :=
  { bobThread with self := { bobThread.self with downloadQueue := [{ path := twoBytesPath, fileSize := 2 }] } }

/-- The answers to the uploader, where bob connects, and a read returns one byte. -/
def sharingAnswers : (c : UploaderCmd openSuite) → Option c.Ans
  | .fileRead => some (.ok ⟨[1], by decide⟩ : Except Str ReadBytes)
  | c => SingleUploader.bobsAnswers twoBytesFs c

/-- An uploader that is answered so. -/
def playSharer : Player fits (uploader openSuite) :=
  playThread (fun _ c => (sharingAnswers c).map fun a => (a, ())) fun _ _ _ _ _ _ => trivial

/-- A downloader whose disk is empty, and whose listing is in the cache. -/
def playWanter : Player fits downloader :=
  playThread (fun _ c => some (onlineAnswers twoBytesListing (.inr c), ())) fun _ _ c a _ ha => by
    cases ha
    cases c with
    | refreshGet nickname =>
      show Requestable twoBytesListing
      unfold Requestable
      decide
    | _ => trivial

/-- The two of them before their first steps. -/
def beginning : Link downloader (uploader openSuite) :=
  { left := (@serveConnection openCrates 9 "/d/".toList wantingThread, ())
    right := (@SingleUploader.singleThread openSuite openCrates 9 none sharingThread, ())
    toLeft := []
    toRight := []
    log := [] }

omit [Crates] in
/-- The file is asked for, and comes in two pieces. The second one is on the way; the downloader waits for
    it, and the uploader for what is asked next. -/
theorem serveConnection_takesTurns_piece : ∃ s : Link downloader (uploader openSuite),
    s.log.map Prod.fst = [0, 1, 2, 3, 4, 5] ∧ s.toLeft.map Prod.fst = [5] ∧ s.toRight = [] ∧
      readsNext s.left = some (5, 17) ∧ readsNext s.right = some (6, 22) ∧ TurnsTaken Prod.fst fits s := by
  have hr := Link.run_play (p := playWanter) (q := playSharer) (.start : Link.Run fits beginning beginning)
    (inTurn 27)
  have hend : (beginning.play playWanter playSharer (inTurn 27)).log.map Prod.fst = [0, 1, 2, 3, 4, 5] ∧
      (beginning.play playWanter playSharer (inTurn 27)).toLeft.map Prod.fst = [5] ∧
      (beginning.play playWanter playSharer (inTurn 27)).toRight = [] ∧
      readsNext (beginning.play playWanter playSharer (inTurn 27)).left = some (5, 17) ∧
      readsNext (beginning.play playWanter playSharer (inTurn 27)).right = some (6, 22) := by
    decide +kernel
  obtain ⟨hlog, hleft, hright, hwaits, hidle⟩ := hend
  exact ⟨_, hlog, hleft, hright, hwaits, hidle, @serveConnection_takesTurns openCrates openSuite 9 9
    "/d/".toList wantingThread sharingThread _ rfl rfl hr⟩

/-! ## 6. A reverse connection -/

/-- The listener hands its stream to the app, and a downloader goes on with it. -/
def HandsOver (fuel : Nat) (root : Str) (a : (uploader S).State) (b : downloader.State) : Prop :=
  ∃ u enc k d, a.1 = .call u (.inr (.app (.reverseConnection enc))) k ∧
    d.encryptedStream = enc ∧ d.self.stopDownloading = false ∧ b.1 = serveConnection fuel root d

/-- The side that is connected to: first a thread that waits for a peer, then a downloader. -/
abbrev listener (S : Suite) (fuel : Nat) (root : Str) : Party Frame (Nat × Nat) :=
  Party.handOver (uploader S) downloader (HandsOver fuel root)

theorem conforms_listener (fuel : Nat) (root : Str) :
    Conforms (exchange SingleUploader.anyAnswer).frames fits .left (listener S fuel root)
      (Sum.elim
        (Aboard (SingleUploader.handingOver anything) (fun _ _ _ => True) fun _ _ _ => True)
        (Aboard (onWire (exchange SingleUploader.anyAnswer) .left True anyListing) (fun _ => OnTurn fun _ => True)
          fun _ _ _ => True)) := by
  refine conforms_handOver (conforms_party SingleUploader.wired_handingOver) (conforms_party wired_onWire)
    fun a b v ha hhands => ?_
  obtain ⟨u, enc, k, d, hcall, rfl, hstop, hb⟩ := hhands
  obtain ⟨p, w⟩ := b
  obtain rfl : p = serveConnection fuel root d := hb
  unfold Aboard at ha
  rw [hcall] at ha
  rcases ha with ha | ha
  · obtain ⟨hview, hmax⟩ := ha.1.2 _ rfl
    exact .inl (aboard_serveConnection hstop ⟨hview, hmax⟩)
  · cases (ha.1.2 _ rfl).1

/-- **They take turns after a reverse connection, too**: the uploader connects and greets, the other side
    reads the greeting in the thread that waits for peers, and its downloader goes on with that stream,
    where its counter is. -/
theorem reverseConnection_takesTurns (fuel fuel' fuel'' : Nat) (root : Str) (user : SharedUser)
    {u u' : Thread SingleUploader} {s : Link (listener S fuel' root) (uploader S)}
    (hr : Link.Run fits { left := Sum.inl (SingleUploader.singleThread fuel none u, ())
                          right := (SingleUploader.reverseThread fuel'' user u', ())
                          toLeft := [], toRight := [], log := [] } s) :
    TurnsTaken Prod.fst fits s := by
  have hleft : Aboard (SingleUploader.handingOver (anything (S := S))) (fun _ _ _ => True)
      (fun _ _ _ => True) (SingleUploader.singleThread fuel none u, ())
      (some ⟨.greeting, nonceInit, none⟩) := by
    have hown : SingleUploader.LetsOwn (SingleUploader.handingOver (anything (S := S))) :=
      SingleUploader.letsOwn_handingOver ok_anything
    exact .inl (SingleUploader.wp_singleThread_exchange hown
      (fun ts _ _ => SingleUploader.wp_openStream_incoming hown ts)
      (fun everythingFile json t w h => SingleUploader.wp_serveRequests_listening ok_anything fuel
        everythingFile json fuel (.inl h)) rfl)
  have hright : Aboard (onWire (exchange SingleUploader.anyAnswer) .right True (anything (S := S)))
      (fun _ _ _ => True) (fun _ _ _ => True) (SingleUploader.reverseThread fuel'' user u', ())
      (some ⟨.greeting, nonceInit, none⟩) :=
    .inl (SingleUploader.wp_reverseThread_exchange ok_anything user rfl)
  exact turnsTaken_run (a := Sum.inl (SingleUploader.singleThread fuel none u, ()))
    (conforms_listener fuel' root) (conforms_party wired_onWire) hleft hright hr

/-- The stream is handed to a downloader of the file. -/
def handToWanter (a : (uploader openSuite).State) : Option downloader.State :=
  match a.1 with
  | .call _ (.inr (.app (.reverseConnection enc))) _ =>
    some (@serveConnection openCrates 9 "/d/".toList { wantingThread with encryptedStream := enc }, ())
  | _ => none

omit [Crates] in
theorem handsOver_wanter (a : (uploader openSuite).State) (b : downloader.State) (h : handToWanter a = some b) :
    @HandsOver openCrates openSuite 9 "/d/".toList a b := by
  unfold handToWanter at h
  split at h
  · rename_i u enc k hcall
    cases h
    exact ⟨u, enc, k, { wantingThread with encryptedStream := enc }, hcall, rfl, rfl, rfl⟩
  · cases h

/-- The listener, and the downloader after it. -/
def playListener : Player fits (@listener openCrates openSuite 9 "/d/".toList) :=
  playSharer.handOver playWanter handToWanter handsOver_wanter

/-- The two sides of a reverse connection before their first steps. -/
def reverseBeginning : Link (@listener openCrates openSuite 9 "/d/".toList) (uploader openSuite) :=
  { left := Sum.inl (@SingleUploader.singleThread openSuite openCrates 9 none sharingThread, ())
    right := (@SingleUploader.reverseThread openSuite openCrates 9 SingleUploader.bob sharingThread, ())
    toLeft := []
    toRight := []
    log := [] }

/-- The read a listener is about to make, once its downloader has the connection. -/
def downloaderReads (s : (@listener openCrates openSuite 9 "/d/".toList).State) : Option (Nat × Nat) :=
  match s with
  | .inl _ => none
  | .inr s => readsNext s

omit [Crates] in
/-- The greeting has been read, the connection handed over, and the listing and the file asked for. The
    last frame of the file is on the way; both wait. -/
theorem reverseConnection_takesTurns_piece :
    ∃ s : Link (@listener openCrates openSuite 9 "/d/".toList) (uploader openSuite),
      s.log.map Prod.fst = [0, 1, 2, 3, 4, 5, 6, 7, 8, 9] ∧ s.toLeft.map Prod.fst = [9] ∧ s.toRight = [] ∧
        downloaderReads s.left = some (9, 17) ∧ readsNext s.right = some (10, 22) ∧
        TurnsTaken Prod.fst fits s := by
  have hr := Link.run_play (p := playListener) (q := playSharer)
    (.start : Link.Run fits reverseBeginning reverseBeginning) (inTurn 40)
  have hend : (reverseBeginning.play playListener playSharer (inTurn 40)).log.map Prod.fst =
        [0, 1, 2, 3, 4, 5, 6, 7, 8, 9] ∧
      (reverseBeginning.play playListener playSharer (inTurn 40)).toLeft.map Prod.fst = [9] ∧
      (reverseBeginning.play playListener playSharer (inTurn 40)).toRight = [] ∧
      downloaderReads (reverseBeginning.play playListener playSharer (inTurn 40)).left = some (9, 17) ∧
      readsNext (reverseBeginning.play playListener playSharer (inTurn 40)).right = some (10, 22) := by
    decide +kernel
  obtain ⟨hlog, hleft, hright, hwaits, hidle⟩ := hend
  exact ⟨_, hlog, hleft, hright, hwaits, hidle, @reverseConnection_takesTurns openCrates openSuite 9 9 9
    "/d/".toList SingleUploader.bob sharingThread sharingThread _ hr⟩

end Sides

end Transmitic
