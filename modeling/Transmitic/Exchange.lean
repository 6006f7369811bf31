/-
  File:      Transmitic/Exchange.lean
  Subject:   THE CONVERSATION OF A DOWNLOADER AND AN UPLOADER, as a protocol of messages.

  The uploader of a reverse connection greets; from then on the downloader asks, and the uploader answers:
  with the pieces of its listing, with the chunks of a file, or with a refusal. Nothing in the code names
  this protocol. Each side goes by the message it has read or written last.

  * `Terms` -- which files may be asked for, and what may be answered;
  * `Phase`, `exchange` -- whose turn it is, and what comes next;
  * `At` -- a thread between two messages, with its counter where the conversation is;
  * `wp_write_at`, `wp_read_at` -- a message written, a message read;
  * `wp_downloadEverythingFile_exchange` -- **a downloader that asks for the listing**;
  * `transferParts_exchange`, `fileParts_exchange`, `treeParts_exchange` -- **a downloader keeps to the
    conversation**, over its queue, the listed trees and the chunks, whatever its channels bring.
-/
import Transmitic.DownloaderSession
import Transmitic.Messages

namespace Transmitic

open Lib

/-! ## 1. The protocol -/

/-- Which requests may be made, and which messages may answer them; after the last one (`none`) it is the
    downloader's turn. A chunk is never the last one, and something may always be answered. -/
structure Terms (C : Type) where
  request : List UInt8 → Option C
  answer : C → UInt16 → List UInt8 → Option (Option C)
  chunks : ∀ c msg payload o, answer c msg payload = some o → (o.isSome ↔ msg = msgFileChunk)
  answers : ∀ c, ∃ msg payload o, payload.length ≤ maxDataSize ∧ answer c msg payload = some o

/-- How far a conversation is. -/
inductive Phase (C : Type) where
  | greeting
  | idle
  | listing
  | sending (c : C)

namespace Phase

variable {C : Type}

/-- The downloader is the left one of the two. -/
def turn : Phase C → Side
  | .idle => .left
  | _ => .right

def deliver (K : Terms C) : Phase C → UInt16 → List UInt8 → Option (Phase C)
  | .greeting, msg, payload =>
    if (msg = msgReverse ∨ msg = msgReverseNoList) ∧ payload = [] then some .idle else none
  | .idle, msg, payload =>
    if msg = msgFileList ∧ payload = [] then some .listing
    else if msg = msgFileSelectionContinue then (K.request payload).map .sending
    else none
  | .listing, msg, _ =>
    if msg = msgFileListPiece then some .listing
    else if msg = msgFileListFinal then some .idle
    else none
  | .sending c, msg, payload => (K.answer c msg payload).map fun o => o.elim .idle .sending

end Phase

open Classical in
/-- The conversation. A message has at most the size of a piece. -/
noncomputable def exchange {C : Type} (K : Terms C) : MessageProtocol (Phase C) where
  turn := Phase.turn
  opens p msg size := decide (size ≤ maxDataSize ∧
    ∃ payload p', payload.length = size ∧ p.deliver K msg payload = some p')
  deliver p := p.deliver K
  delivers _ _ _ h := (of_decide_eq_true h).2
  small _ _ _ h := (of_decide_eq_true h).1

section Threads

variable {C T L W V α : Type} {LA : L → Type} [Crates] {K : Terms C} {me : Side} {mayBreak : Prop}
  {LE : Env (Thread T) L LA W} {t : Thread T} {w : W × Option (View (Phase C))} {p p' : Phase C}

omit [Crates] in
theorem opens_of_deliver {msg : UInt16} {payload : List UInt8} (hsmall : payload.length ≤ maxDataSize)
    (hd : p.deliver K msg payload = some p') : (exchange K).opens p msg payload.length = true :=
  @decide_eq_true _ (_) ⟨hsmall, payload, p', rfl, hd⟩

omit [Crates] in
theorem deliver_greeting {msg : UInt16} (h : msg = msgReverse ∨ msg = msgReverseNoList) :
    (Phase.greeting : Phase C).deliver K msg [] = some .idle := by
  rw [Phase.deliver, if_pos ⟨h, rfl⟩]

omit [Crates] in
theorem greeting_next {msg : UInt16} {payload : List UInt8}
    (hd : (Phase.greeting : Phase C).deliver K msg payload = some p') :
    (msg = msgReverse ∨ msg = msgReverseNoList) ∧ p' = .idle := by
  rw [Phase.deliver] at hd
  split at hd
  · rename_i h
    cases hd
    exact ⟨h.1, rfl⟩
  · cases hd

omit [Crates] in
theorem deliver_list : (Phase.idle : Phase C).deliver K msgFileList [] = some .listing := by
  rw [Phase.deliver, if_pos ⟨rfl, rfl⟩]

omit [Crates] in
theorem deliver_request {payload : List UInt8} {c : C} (h : K.request payload = some c) :
    (Phase.idle : Phase C).deliver K msgFileSelectionContinue payload = some (.sending c) := by
  have hother : ¬ (msgFileSelectionContinue = msgFileList ∧ payload = []) :=
    fun h => absurd h.1 (by decide)
  rw [Phase.deliver, if_neg hother, if_pos rfl, h]
  rfl

omit [Crates] in
/-- What the downloader may ask. -/
theorem deliver_idle {msg : UInt16} {payload : List UInt8}
    (hd : (Phase.idle : Phase C).deliver K msg payload = some p') :
    msg = msgFileList ∧ payload = [] ∧ p' = .listing ∨
      msg = msgFileSelectionContinue ∧ ∃ c, K.request payload = some c ∧ p' = .sending c := by
  rw [Phase.deliver] at hd
  split at hd
  · rename_i hlist
    cases hd
    exact .inl ⟨hlist.1, hlist.2, rfl⟩
  · split at hd
    · obtain ⟨c, hc, rfl⟩ := Option.map_eq_some_iff.mp hd
      exact .inr ⟨‹_›, c, hc, rfl⟩
    · cases hd

omit [Crates] in
theorem deliver_piece (payload : List UInt8) :
    (Phase.listing : Phase C).deliver K msgFileListPiece payload = some .listing := by
  rw [Phase.deliver, if_pos rfl]

omit [Crates] in
theorem deliver_final (payload : List UInt8) :
    (Phase.listing : Phase C).deliver K msgFileListFinal payload = some .idle := by
  rw [Phase.deliver, if_neg (by decide), if_pos rfl]

/-- The thread is between two messages, and its counter is where the conversation is. -/
def At (p : Phase C) (t : Thread T) (w : W × Option (View (Phase C))) : Prop :=
  w.2 = some ⟨p, t.encryptedStream.nonce, none⟩ ∧ t.encryptedStream.nonce ≤ nonceMax

omit [Crates] in
theorem At.congr {t' : Thread T} {w' : W × Option (View (Phase C))} (h : At p t w)
    (hs : t'.encryptedStream = t.encryptedStream) (hw : w'.2 = w.2) : At p t' w' := by
  unfold At at h ⊢
  rwa [hs, hw]

/-! ## 2. Messages -/

/-- **A message is written.** -/
theorem wp_write_at {msg : UInt16} {payload : List UInt8}
    {Q : Unit → Thread T → W × Option (View (Phase C)) → Prop} (h : At p t w) (hturn : p.turn = me)
    (hsmall : payload.length ≤ maxDataSize) (hd : p.deliver K msg payload = some p')
    (hQ : ∀ t' w', t'.self = t.self → w'.1 = w.1 → At p' t' w' → Q () t' w') :
    wp (onWire (exchange K) me mayBreak LE) (write msg payload : Method T LA Unit) Q
      (fun _ _ _ => True) t w := by
  obtain ⟨w₁, w₂⟩ := w
  obtain ⟨rfl, hmax⟩ : w₂ = _ ∧ _ := h
  refine wp_write rfl hmax hturn (opens_of_deliver hsmall hd) hd (fun nonce buffer _ hle => ?_)
    fun _ _ _ _ _ => trivial
  exact hQ _ _ rfl rfl ⟨rfl, hle⟩

/-- **A message is read**: one that may come. -/
theorem wp_read_at {Q : Unit → Thread T → W × Option (View (Phase C)) → Prop} (h : At p t w)
    (hturn : p.turn = me.other)
    (hopen : ∃ msg payload p', payload.length ≤ maxDataSize ∧ p.deliver K msg payload = some p')
    (hQ : ∀ msg payload p' t' w', payload.length ≤ maxDataSize → p.deliver K msg payload = some p' →
      t'.self = t.self → w'.1 = w.1 → t'.encryptedStream.Holds msg payload → At p' t' w' → Q () t' w') :
    wp (onWire (exchange K) me mayBreak LE) (read : Method T LA Unit) Q (fun _ _ _ => True) t w := by
  obtain ⟨w₁, w₂⟩ := w
  obtain ⟨rfl, hmax⟩ : w₂ = _ ∧ _ := h
  obtain ⟨msg, payload, p', hsmall, hd⟩ := hopen
  refine wp_read rfl hmax hturn ⟨msg, _, opens_of_deliver hsmall hd⟩
    (fun msg payload p' nonce buffer hopens hd _ hle hholds => ?_) fun _ _ _ _ _ => trivial
  exact hQ msg payload p' _ _ ((exchange K).small _ _ _ hopens) hd rfl rfl hholds ⟨rfl, hle⟩

/-- A command of the thread's own. -/
theorem wp_ask_exchange {c : L} {R : Exc → Thread T → W × Option (View (Phase C)) → Prop}
    (hok : LE.ok w.1 t c) : wp (onWire (exchange K) me mayBreak LE) (ask c : Method T LA (LA c))
      (fun a t' w' => t' = t ∧ w'.2 = w.2 ∧ LE.step w.1 t c a w'.1) R t w :=
  ⟨hok, fun _ _ hs => ⟨rfl, hs.2, hs.1⟩⟩

/-- **What is not on the connection** leaves the conversation where it is. -/
theorem wp_own {P : L → Prop} {J : W → Prop} {m : Method T LA α} {Q : α → Thread T → Unit → Prop}
    {R : Exc → Thread T → Unit → Prop} (hP : LE.Spares P J) (h : wp (anyAnswers (own P)) m Q R t ())
    (hJ : J w.1) :
    wp (onWire (exchange K) me mayBreak LE) m (fun a t' w' => Q a t' () ∧ w'.2 = w.2 ∧ J w'.1)
      (fun x t' w' => R x t' () ∧ w'.2 = w.2 ∧ J w'.1) t w := by
  refine wp_of_any (I := fun w' : W × Option (View (Phase C)) => w'.2 = w.2 ∧ J w'.1) h
    (fun w' t' c hw' hc => ?_) (fun w' t' c a w'' hw' hc hs => ?_) ⟨rfl, hJ⟩
  · cases c with
    | inl c => exact hc.elim
    | inr c => exact hP.ok w'.1 t' c hw'.2 hc
  · cases c with
    | inl c => exact hc.elim
    | inr c => exact ⟨hs.2.trans hw'.1, hP.step _ _ _ _ _ hw'.2 hc hs.1⟩

/-! ## 3. The listing -/

omit [Crates] in
theorem listing_next {msg : UInt16} {payload : List UInt8}
    (hd : (Phase.listing : Phase C).deliver K msg payload = some p') :
    p' = if msg = msgFileListFinal then .idle else .listing := by
  rw [Phase.deliver] at hd
  split at hd
  · rename_i hpiece
    cases hd
    rw [hpiece, if_neg (by decide)]
  · split at hd
    · cases hd
      rw [if_pos ‹_›]
    · cases hd

/-- **The pieces of the listing are read**, up to the last one. Over the passes of the loop. -/
theorem wp_readEverythingFile_exchange : ∀ (fuel : Nat) {jsonBytes : List UInt8} {t : Thread T}
    {w : W × Option (View (Phase C))}, At .listing t w →
    wp (onWire (exchange K) .left mayBreak LE) (readEverythingFile fuel jsonBytes : Method T LA (List UInt8))
      (fun _ t' w' => t'.self = t.self ∧ w'.1 = w.1 ∧ At .idle t' w') (fun _ _ _ => True) t w
  | 0, _, _, _, _ => trivial
  | fuel + 1, jsonBytes, t, w, h => by
    have hopen : ∃ msg payload p', payload.length ≤ maxDataSize ∧
        (Phase.listing : Phase C).deliver K msg payload = some p' :=
      ⟨msgFileListPiece, [], .listing, Nat.zero_le _, deliver_piece _⟩
    refine (wp_bind read _).mpr (wp_read_at h rfl hopen fun msg payload p' t₁ w₁ _ hd hself hw hholds hat => ?_)
    refine (wp_bind getMessage _).mpr ?_
    show wp _ (getPayload >>= _) _ _ t₁ w₁
    refine (wp_bind getPayload _).mpr (wp_getPayload_of hholds.payload ?_)
    refine (wp_bind get _).mpr ?_
    show wp _ (throwIf _ _ >>= _) _ _ t₁ w₁
    refine (wp_bind (throwIf _ _) _).mpr ((wp_throwIf _ _).mpr ?_)
    split
    · trivial
    rw [hholds.message]
    rw [listing_next hd] at hat
    split
    · rename_i hfinal
      rw [if_pos hfinal] at hat
      exact ⟨hself, hw, hat⟩
    · rename_i hfinal
      rw [if_neg hfinal] at hat
      refine wp_conseq (wp_readEverythingFile_exchange fuel hat) (fun _ t' w' h' => ?_) fun _ _ _ h' => h'
      exact ⟨h'.1.trans hself, h'.2.1.trans hw, h'.2.2⟩

/-- **The listing is asked for, and received.** -/
theorem wp_downloadEverythingFile_exchange (fuel : Nat) (h : At .idle t w) :
    wp (onWire (exchange K) .left mayBreak LE) (downloadEverythingFile fuel : Method T LA SharedFile)
      (fun _ t' w' => t'.self = t.self ∧ w'.1 = w.1 ∧ At .idle t' w') (fun _ _ _ => True) t w := by
  refine (wp_bind (write _ _) _).mpr (wp_write_at h rfl (Nat.zero_le _) deliver_list
    fun t₁ w₁ hself hw hat => ?_)
  refine wp_seq (wp_readEverythingFile_exchange fuel hat) (fun jsonBytes t₂ w₂ h₂ => ?_) fun _ _ _ h₂ => h₂
  obtain ⟨hself₂, hw₂, hat₂⟩ := h₂
  have hend : t₂.self = t.self ∧ w₂.1 = w.1 ∧ At .idle t₂ w₂ :=
    ⟨hself₂.trans hself, hw₂.trans hw, hat₂⟩
  refine (wp_bind (orThrow _) _).mpr ?_
  cases hutf : fromUtf8 jsonBytes with
  | none => trivial
  | some filesStr =>
    refine (wp_orThrow_ok filesStr).mpr ?_
    refine (wp_bind (orThrow _) _).mpr ?_
    cases Crates.listingFromJson filesStr with
    | error e => trivial
    | ok everythingFile => exact hend

end Threads

/-! ## 4. A downloader -/

/-- What ends the download of a queue item: it is reported as completed, from `path` on the remote side to
    `destinationPath`. -/
def completing (path destinationPath : Str) (c : DownloaderCmd) : Prop :=
  hushed c ∨ ∃ m, c = .app (.completed m) ∧ m.path = path ∧ m.pathLocalDisk = destinationPath

/-- What happens besides the messages in a transfer. -/
def transferring (tr : Transfer) (c : DownloaderCmd) : Prop :=
  completing tr.queueDownload.path tr.destinationPath c ∨ onTransfer tr c

theorem keeps_completeQueueItem (path destinationPath : Str) :
    Keeps (own (completing path destinationPath)) controlled (completeQueueItem path destinationPath) := by
  refine keeps_bind (keeps_setActiveDownloadFinished.mono
    (own_mono fun _ hc => .inl (hushed_of_onQueueFile hc))) fun _ => ?_
  refine keeps_bind (still_self.keeps.map controlled) fun d => ?_
  have hreport : Still (completing path destinationPath)
      (appUpdateCompleted path destinationPath d.activeDownloadTotalSize) :=
    still_bind still_self fun d => still_command (.inr ⟨_, rfl, rfl, rfl⟩)
  exact hreport.keeps.map controlled

theorem keeps_finishTransfer (tr : Transfer) :
    Keeps (own (completing tr.queueDownload.path tr.destinationPath)) controlled (finishTransfer tr) :=
  keeps_ite (fun _ => keeps_completeQueueItem _ _) fun _ => keeps_pure _

section Downloader

variable {C W : Type} [Crates] {K : Terms C} {mayBreak : Prop}
  {LE : Env (Thread SingleDownloader) DownloaderCmd DownloaderCmd.Ans W} {t : Thread SingleDownloader}
  {w : W × Option (View (Phase C))} {J : W → Prop}

/-- It is the downloader's turn, or the downloader has been told to stop; and `J` holds. -/
def OnTurn (J : W → Prop) (t : Thread SingleDownloader) (w : W × Option (View (Phase C))) : Prop :=
  (At .idle t w ∨ t.self.stopDownloading = true) ∧ J w.1

/-- The phase after a message that answers a request: it is the uploader's turn still, exactly if it is a
    chunk. -/
def Answered (msg : UInt16) (t : Thread SingleDownloader) (w : W × Option (View (Phase C))) : Prop :=
  if msg = msgFileChunk then ∃ c, At (.sending c) t w else At .idle t w

omit [Crates] in
theorem answered_of_deliver {c : C} {msg : UInt16} {payload : List UInt8} {p' : Phase C}
    (hd : (Phase.sending c).deliver K msg payload = some p') (h : At p' t w) : Answered msg t w := by
  obtain ⟨o, ho, rfl⟩ := Option.map_eq_some_iff.mp hd
  have hchunk := K.chunks c msg payload o ho
  unfold Answered
  cases o with
  | none =>
    rw [if_neg fun hmsg => by cases hchunk.mpr hmsg]
    exact h
  | some c' =>
    rw [if_pos (hchunk.mp rfl)]
    exact ⟨c', h⟩

omit [Crates] in
theorem Answered.idle {msg : UInt16} (h : Answered msg t w) (hmsg : msg ≠ msgFileChunk) : At .idle t w := by
  unfold Answered at h
  rwa [if_neg hmsg] at h

omit [Crates] in
theorem Answered.congr {msg : UInt16} {t' : Thread SingleDownloader} {w' : W × Option (View (Phase C))}
    (h : Answered msg t w) (hs : t'.encryptedStream = t.encryptedStream) (hw : w'.2 = w.2) :
    Answered msg t' w' := by
  unfold Answered at h ⊢
  split at h
  · rw [if_pos ‹_›]
    obtain ⟨c, hc⟩ := h
    exact ⟨c, hc.congr hs hw⟩
  · rw [if_neg ‹_›]
    exact h.congr hs hw

/-- **A method that leaves the stream alone** leaves the conversation where it is. -/
theorem wp_besides_exchange {α : Type} {P : DownloaderCmd → Prop} {m : Dl α} (hP : LE.Spares P J)
    (hm : Aside P m) (hJ : J w.1) : wp (onWire (exchange K) .left mayBreak LE) m
      (fun _ t' w' => t'.encryptedStream = t.encryptedStream ∧ w'.2 = w.2 ∧ J w'.1) (fun _ _ _ => True)
      t w :=
  wp_conseq (wp_own hP (hm t) hJ) (fun _ _ _ h' => h') fun _ _ _ _ => trivial

/-- **An answer is read.** -/
theorem wp_readAnswer {c : C} {Q : Unit → Thread SingleDownloader → W × Option (View (Phase C)) → Prop}
    (h : At (.sending c) t w)
    (hQ : ∀ msg payload p' t' w', (Phase.sending c).deliver K msg payload = some p' →
      t'.self = t.self → w'.1 = w.1 → t'.encryptedStream.Holds msg payload → At p' t' w' → Q () t' w') :
    wp (onWire (exchange K) .left mayBreak LE) (read : Dl Unit) Q (fun _ _ _ => True) t w := by
  obtain ⟨msg, payload, o, hsmall, ho⟩ := K.answers c
  have hopen : ∃ msg payload p', payload.length ≤ maxDataSize ∧
      (Phase.sending c).deliver K msg payload = some p' :=
    ⟨msg, payload, _, hsmall, Option.map_eq_some_iff.mpr ⟨o, ho, rfl⟩⟩
  exact wp_read_at h rfl hopen fun msg payload p' t' w' _ hd => hQ msg payload p' t' w' hd

/-- **The listing is got**, where the cache is of no use. -/
theorem wp_setEverythingFile_exchange (hP : LE.Spares hushed J) (fuel : Nat) (forceDownload : Bool)
    (h : At .idle t w) (hJ : J w.1) :
    wp (onWire (exchange K) .left mayBreak LE) (setEverythingFile fuel forceDownload)
      (fun _ t' w' => t'.self = t.self ∧ At .idle t' w' ∧ J w'.1) (fun _ _ _ => True) t w := by
  have hcache : LE.Spares onCache J := hP.mono fun _ => hushed_of_onCache
  have hshould : Still onCache (shouldDownloadEverythingFile forceDownload) := by
    refine steady_bind steady_get fun _ => steady_ite (steady_pure _) ?_
    refine steady_bind (steady_issue trivial) fun data => ?_
    cases data with
    | none => exact steady_throw _
    | some data => exact steady_pure _
  refine wp_seq (wp_own hcache (hshould.keeps t) hJ) (fun should t₁ w₁ h₁ => ?_) fun _ _ _ _ => trivial
  obtain ⟨rfl, hw₁, hJ₁⟩ := h₁
  have h₁ : At .idle t₁ w₁ := h.congr rfl hw₁
  refine (wp_ite _ _ _).mpr ?_
  split
  · refine wp_seq (wp_downloadEverythingFile_exchange fuel h₁) (fun everythingFile t₂ w₂ h₂ => ?_)
      fun _ _ _ h' => h'
    obtain ⟨hself, hw₂, hat⟩ := h₂
    rw [← hw₂] at hJ₁
    refine (wp_bind self _).mpr (wp_self.mpr ?_)
    have hinsert : Still onCache (command (.refreshInsert t₂.self.sharedUser.nickname everythingFile)) :=
      still_command trivial
    refine wp_conseq (wp_own hcache (hinsert.keeps t₂) hJ₁) (fun _ t₃ w₃ h₃ => ?_) fun _ _ _ _ => trivial
    obtain ⟨rfl, hw₃, hJ₃⟩ := h₃
    exact ⟨hself, hat.congr rfl hw₃, hJ₃⟩
  · exact ⟨rfl, h₁, hJ₁⟩

/-- Where the two sides disagree, the transfer fails. -/
theorem wp_failTransfer_exchange {tr : Transfer} {isLocalFinished isRemoteFinished : Bool}
    (hP : LE.Spares hushed J) (hJ : J w.1) : wp (onWire (exchange K) .left mayBreak LE)
      (failTransfer tr isLocalFinished isRemoteFinished) (fun _ _ _ => False) (fun _ _ _ => True) t w := by
  have hfinished : Aside hushed (if tr.isQueueFileDownloading = true then setActiveDownloadFinished
      else pure ()) :=
    aside_ite ((keeps_setActiveDownloadFinished.map fun v => v.2).mono
      (own_mono fun _ => hushed_of_onQueueFile)) (aside_pure _)
  refine wp_seq (wp_besides_exchange hP hfinished hJ) (fun _ t₁ w₁ h₁ => ?_) fun _ _ _ h' => h'
  have hinvalid : ∀ path message, Aside hushed (appUpdateInvalidFile path message) := fun path message =>
    (still_appUpdateInvalidFile path message).changesProgress.aside.mono fun _ => hushed_of_reporting
  exact wp_seq (wp_besides_exchange hP (hinvalid _ _) h₁.2.2) (fun _ _ _ _ => trivial) fun _ _ _ h' => h'

/-- The answer is there after a method that leaves the stream alone. -/
theorem wp_besides_answered {α : Type} {P : DownloaderCmd → Prop} {m : Dl α} {msg : UInt16}
    (hP : LE.Spares P J) (hm : Aside P m) (h : Answered msg t w ∧ J w.1) :
    wp (onWire (exchange K) .left mayBreak LE) m (fun _ t' w' => Answered msg t' w' ∧ J w'.1)
      (fun _ _ _ => True) t w :=
  wp_conseq (wp_besides_exchange hP hm h.2) (fun _ _ _ h' => ⟨h.1.congr h'.1 h'.2.1, h'.2.2⟩)
    fun _ _ _ h' => h'

/-- **A transfer**: it ends with the file, or with the downloader told to stop. -/
theorem transferParts_exchange {tr : Transfer} {fileLength : UInt64} {c : C}
    (hP : LE.Spares (transferring tr) J)
    (hsmall : (beBytes 8 fileLength.toNat ++ utf8 tr.sharedFile.path).length ≤ maxDataSize)
    (hrequest : K.request (beBytes 8 fileLength.toNat ++ utf8 tr.sharedFile.path) = some c) :
    TransferParts (onWire (exchange K) .left mayBreak LE) tr fileLength
      (fun t w => At .idle t w ∧ J w.1) (fun msg t w => Answered msg t w ∧ J w.1)
      (fun msg _ t w => Answered msg t w ∧ J w.1) (fun msg _ t w => Answered msg t w ∧ J w.1)
      (OnTurn J) (fun _ _ _ => True) where
  asks t w h := by
    refine (wp_bind (write _ _) _).mpr (wp_write_at h.1 rfl hsmall (deliver_request hrequest)
      fun t₁ w₁ _ hw₁ h₁ => ?_)
    refine wp_readAnswer h₁ fun msg payload p' t₂ w₂ hd _ hw₂ hholds h₂ => ?_
    rw [hholds.message, hw₂, hw₁]
    exact ⟨answered_of_deliver hd h₂, h.2⟩
  refused fuel t w h := by
    have hhushed : LE.Spares hushed J := hP.mono fun _ hc => .inl (.inl hc)
    exact wp_conseq (wp_setEverythingFile_exchange hhushed fuel true (h.1.idle (by decide)) h.2)
      (fun _ _ _ _ _ => trivial) fun _ _ _ h' => h'
  opens msg t w _ h :=
    wp_besides_answered hP ((still_openDestination tr).changesProgress.aside.mono fun _ => .inr) h
  stores msg n payload t w h _ := by
    have hwrite : Aside (transferring tr) (command (.fileWrite tr.destinationPath payload)) :=
      aside_command (.inr (.inr (.inl rfl)))
    have hprogress : Aside (transferring tr) updateProgress :=
      still_updateProgress.changesProgress.aside.mono fun _ hc => .inl (.inl (hushed_of_reporting hc))
    exact wp_besides_answered hP (aside_bind (aside_modifySelf _) fun _ => aside_bind hwrite fun a =>
      aside_bind (aside_tryIo a) fun _ => hprogress) h
  finishes t w h := by
    have hidle := h.1.idle (by decide)
    have hcompleting : LE.Spares (completing tr.queueDownload.path tr.destinationPath) J :=
      hP.mono fun _ => .inl
    refine wp_conseq (wp_own hcompleting (keeps_finishTransfer tr t) h.2) (fun _ t' w' h' => ?_)
      fun _ _ _ _ => trivial
    exact ⟨.inl (hidle.congr (congrArg Prod.snd h'.1) h'.2.1), h'.2.2⟩
  disagrees msg n isLocalFinished isRemoteFinished t w h := by
    have hhushed : LE.Spares hushed J := hP.mono fun _ hc => .inl (.inl hc)
    exact wp_conseq (wp_failTransfer_exchange hhushed h.2) (fun _ _ _ h' => h'.elim) fun _ _ _ h' => h'
  reads n t w h := by
    obtain ⟨c, hc⟩ : ∃ c, At (.sending c) t w := by simpa [Answered] using h.1
    refine wp_readAnswer hc fun msg payload p' t₁ w₁ hd _ hw₁ hholds h₁ => ?_
    rw [hholds.message, hw₁]
    exact ⟨answered_of_deliver hd h₁, h.2⟩
  receiver fuel msg n t w h := by
    have hhushed : LE.Spares hushed J := hP.mono fun _ hc => .inl (.inl hc)
    refine wp_conseq (wp_own hhushed (wp_readReceiver fuel t) h.2) (fun _ t' w' h' => ?_)
      fun _ _ _ _ => trivial
    split
    · exact ⟨.inr ‹_›, h'.2.2⟩
    · exact ⟨h.1.congr h'.1.encryptedStream h'.2.1, h'.2.2⟩
  asked _ _ _ _ _ := trivial
  fetched _ _ _ _ _ _ := trivial

/-- What leaves the stream and the stop alone. -/
theorem maintains_onTurn {α : Type} {P : DownloaderCmd → Prop} {m : Dl α} (hP : LE.Spares P J)
    (hm : Keeps (own P) (fun t => (t.self.stopDownloading, t.encryptedStream)) m) :
    Maintains (onWire (exchange K) .left mayBreak LE) (OnTurn J) m := by
  have hkeep : ∀ {t t' : Thread SingleDownloader} {w w' : W × Option (View (Phase C))}, OnTurn J t w →
      (t'.self.stopDownloading, t'.encryptedStream) = (t.self.stopDownloading, t.encryptedStream) ∧
        w'.2 = w.2 ∧ J w'.1 → OnTurn J t' w' := by
    intro t t' w w' h h'
    obtain ⟨hpair, hw, hJ⟩ := h'
    obtain ⟨hstop, hstream⟩ := Prod.mk.inj hpair
    exact ⟨h.1.imp (fun hat => hat.congr hstream hw) hstop.trans, hJ⟩
  intro t w h
  exact wp_conseq (wp_own hP (hm t) h.2) (fun _ _ _ h' => hkeep h h') fun _ _ _ h' => hkeep h h'

omit [Crates] in
theorem working_onTurn (h : Working (OnTurn J) t w) : At .idle t w := by
  rcases h.1.1 with hat | hstop
  · exact hat
  · rw [h.2] at hstop
    cases hstop

/-- The queue item is taken off the queue, and reported as completed. -/
theorem maintains_completeQueueItem {path destinationPath : Str}
    (hP : LE.Spares (completing path destinationPath) J) :
    Maintains (onWire (exchange K) .left mayBreak LE) (OnTurn J) (completeQueueItem path destinationPath) :=
  maintains_onTurn hP ((keeps_completeQueueItem _ _).map fun v => (v.1.stopDownloading, v.2))

theorem maintains_invalidateQueueItem (hP : LE.Spares hushed J) (path message : Str) :
    Maintains (onWire (exchange K) .left mayBreak LE) (OnTurn J) (invalidateQueueItem path message) := by
  have hkeeps : Keeps (own hushed) controlled (invalidateQueueItem path message) :=
    keeps_bind (keeps_setActiveDownloadFinished.mono (own_mono fun _ => hushed_of_onQueueFile)) fun _ =>
      ((still_appUpdateInvalidFile path message).mono fun _ => hushed_of_reporting).keeps.map controlled
  exact maintains_onTurn hP (hkeeps.map fun v => (v.1.stopDownloading, v.2))

/-- A report. -/
theorem maintains_report {m : Dl Unit} (hP : LE.Spares hushed J) (hm : Still reporting m) :
    Maintains (onWire (exchange K) .left mayBreak LE) (OnTurn J) m :=
  maintains_onTurn hP ((hm.mono fun _ => hushed_of_reporting).keeps.map
    fun t => (t.self.stopDownloading, t.encryptedStream))

/-- **The queue and the listed trees**, up to the download of a file: whatever its channels and the app do, a
    downloader keeps to the conversation. -/
theorem treeParts_exchange {root : Str} {P : Str → SharedFile → Prop} (hP : LE.Spares hushed J)
    (hlisting : ∀ w t nickname f w', LE.step w t (.refreshGet nickname) (some (some f)) w' →
      ∀ a ∈ nodes f, P root a)
    (hinner : ∀ dir f name, P dir f → f.isDirectory = true → getSanitizedDiskFileName f = .ok name →
      ∀ a ∈ f.files, P (dir ++ name ++ ['/']) a)
    (hfinish : ∀ f name, P root f → f.isDirectory = true → getSanitizedDiskFileName f = .ok name →
      LE.Spares (completing f.path (root ++ name)) J)
    (hfile : ∀ fuel dir f name, P dir f → f.isDirectory = false → getSanitizedDiskFileName f = .ok name →
      ∀ t w, Working (OnTurn J) t w → wp (onWire (exchange K) .left mayBreak LE)
        (downloadFile fuel dir (dir ++ name) f) (fun _ => OnTurn J) (fun _ _ _ => True) t w) :
    TreeParts (onWire (exchange K) .left mayBreak LE) (OnTurn J) (fun _ _ _ => True) root P where
  fails _ _ _ _ := trivial
  inner := hinner
  starts root item f t w hw _ := by
    have hm : Local reporting (do
        let destinationPath ← startItem root item f
        appUpdateInProgress
        return destinationPath) :=
      local_bind (local_startItem _ _ _) fun _ =>
        local_bind still_appUpdateInProgress.changesProgress fun _ => local_pure _
    have hkeeps := (hm.keeps.map fun v => (v.2.1.stopDownloading, v.2.2)).mono
      (own_mono fun _ => hushed_of_reporting)
    exact wp_conseq (maintains_working (maintains_onTurn hP hkeeps) (hkeeps.map Prod.fst) t w hw)
      (fun _ _ _ h' => h') fun _ _ _ _ => trivial
  file := hfile
  progress := maintains_report hP still_appUpdateInProgress
  invalidate := maintains_invalidateQueueItem hP
  finish item f name hf hpath hdir hname := by
    rw [← hpath]
    exact maintains_completeQueueItem (hfinish f name hf hdir hname)
  receiver fuel t w h := by
    have hkeep : ∀ {t' : Thread SingleDownloader} {w' : W × Option (View (Phase C))},
        Polled t t' ∧ w'.2 = w.2 ∧ J w'.1 → OnTurn J t' w' := by
      intro t' w' h'
      exact ⟨h.1.imp (fun hat => hat.congr h'.1.encryptedStream h'.2.1) h'.1.stop, h'.2.2⟩
    exact wp_conseq (wp_own hP (wp_readReceiver fuel t) h.2) (fun _ _ _ h' => hkeep h')
      fun _ _ _ h' => hkeep h'
  everything fuel t w hw := by
    refine wp_conseq (wp_setEverythingFile_exchange hP fuel false (working_onTurn hw) hw.1.2)
      (fun _ t' w' h' => ⟨⟨.inl h'.2.1, h'.2.2⟩, ?_⟩) fun _ _ _ h' => h'
    rw [h'.1]
    exact hw.2
  listing nickname t w hw := by
    have hquiet : hushed (.refreshGet nickname) := hushed_of_onCache trivial
    refine ⟨hP.ok w.1 t _ hw.1.2 hquiet, fun data w' hs => ⟨⟨⟨.inl ?_, ?_⟩, hw.2⟩, fun f hf => ?_⟩⟩
    · exact (working_onTurn hw).congr rfl hs.2
    · exact hP.step _ _ _ _ _ hw.1.2 hquiet hs.1
    · rw [hf] at hs
      exact hlisting _ _ _ _ _ hs.1

/-- **A file** that may be asked for, on any disk. -/
theorem fileParts_exchange {P : Transfer → Prop} (hP : ∀ tr, P tr → LE.Spares (transferring tr) J)
    (hhushed : LE.Spares hushed J)
    (hrequest : ∀ tr, P tr → ∀ seek : UInt64,
      (beBytes 8 seek.toNat ++ utf8 tr.sharedFile.path).length ≤ maxDataSize ∧
      ∃ c, K.request (beBytes 8 seek.toNat ++ utf8 tr.sharedFile.path) = some c) :
    FileParts (onWire (exchange K) .left mayBreak LE) (OnTurn J) (fun _ _ _ => True) P
      (fun _ _ _ _ _ => True) fun _ => OnTurn J where
  fails _ _ _ _ := trivial
  looks path t w hw := by
    have hlook : Firm hushed (lookAt path) := (firm_lookAt path).mono fun _ hc =>
      hushed_of_reporting (reporting_of_looking hc)
    exact wp_conseq (maintains_working (maintains_onTurn hhushed
      (hlook.keeps.map fun v => (v.1.stopDownloading, v.2))) hlook.stop t w hw)
      (fun _ _ _ h' => ⟨h', trivial⟩) fun _ _ _ _ => trivial
  invalid path message := maintains_report hhushed (still_appUpdateInvalidFile path message)
  invalidate := maintains_invalidateQueueItem hhushed
  settles t doesFileExist s w ht hd _ := by
    have hcreate : Keeps (own (transferring t)) id (createEmptyFile t doesFileExist) :=
      ((still_createEmptyFile t doesFileExist).mono fun _ => .inr).keeps
    exact wp_conseq (maintains_onTurn (hP t ht) (hcreate.map fun t =>
      (t.self.stopDownloading, t.encryptedStream)) s w hd.1) (fun _ _ _ h' => h') fun _ _ _ _ => trivial
  settled _ _ _ hi := hi
  completes t s w ht hi := by
    have hspares : LE.Spares (completing t.queueDownload.path t.destinationPath) J :=
      (hP t ht).mono fun _ => .inl
    exact wp_conseq (maintains_completeQueueItem hspares s w hi) (fun _ _ _ h' => h') fun _ _ _ _ => trivial
  ask fuel t _ fileLength s w ht hd _ _ _ := by
    obtain ⟨hsmall, c, hc⟩ := hrequest t ht fileLength
    exact (transferParts_exchange (hP t ht) hsmall hc).transferFile fuel
      ⟨working_onTurn (hd.working s w), hd.1.2⟩

end Downloader

end Transmitic
