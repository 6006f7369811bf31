/-
  File:      Transmitic/FileList.lean
  Subject:   THE FILE LIST ARRIVES UNCHANGED. The uploader cuts the listing into pieces by a running
             offset and what remains; the downloader puts the pieces together until the last one.

  * `pieces` -- the messages a listing comes to, `ListMessages` -- what is true of them;
  * `asking`, `answering` -- the exchange: the one leaves open what the uploader sends, the other has the
    uploader send given messages;
  * `wp_sendList`, `wp_readEverythingFile` -- **the specifications of the two loops**;
  * `fileList_unchanged` -- what is sent and what is made of it.
-/
import Transmitic.Messages
import Transmitic.SingleUploader

namespace Transmitic

open Lib

/-! ## 1. The pieces of a listing -/

/-- The messages of a listing, with their types. -/
def pieces (bytes : List UInt8) : List (UInt16 × List UInt8) :=
  if bytes.length ≤ maxDataSize then [(msgFileListFinal, bytes)]
  else (msgFileListPiece, bytes.take maxDataSize) :: pieces (bytes.drop maxDataSize)
termination_by bytes.length
decreasing_by
  have hpos : 0 < maxDataSize := by decide
  rw [List.length_drop]
  omega

/-- Messages that make up a listing. -/
structure ListMessages (bytes : List UInt8) (messages : List (UInt16 × List UInt8)) : Prop where
  small : ∀ m ∈ messages, m.2.length ≤ maxDataSize
  /-- There is one final message, the last one. -/
  final : ∃ front last, messages = front ++ [(msgFileListFinal, last)] ∧
    ∀ m ∈ front, m.1 = msgFileListPiece
  assembled : messages.flatMap Prod.snd = bytes

section Pieces

variable {bytes : List UInt8}

theorem pieces_of_le (h : bytes.length ≤ maxDataSize) : pieces bytes = [(msgFileListFinal, bytes)] := by
  rw [pieces, if_pos h]

theorem pieces_of_lt (h : maxDataSize < bytes.length) : pieces bytes =
    (msgFileListPiece, bytes.take maxDataSize) :: pieces (bytes.drop maxDataSize) := by
  rw [pieces, if_neg (Nat.not_le.mpr h)]

/-- Over the length of what remains. -/
theorem listMessages_pieces (bytes : List UInt8) : ListMessages bytes (pieces bytes) := by
  induction bytes using pieces.induct with
  | case1 bytes h =>
    rw [pieces_of_le h]
    refine ⟨fun m hm => ?_, ⟨[], bytes, rfl, fun m hm => absurd hm List.not_mem_nil⟩, by simp⟩
    rw [List.mem_singleton] at hm
    rw [hm]
    exact h
  | case2 bytes h ih =>
    rw [pieces_of_lt (Nat.lt_of_not_le h)]
    obtain ⟨front, last, hpieces, hfront⟩ := ih.final
    refine ⟨fun m hm => ?_, ⟨(msgFileListPiece, bytes.take maxDataSize) :: front, last, ?_, fun m hm => ?_⟩, ?_⟩
    · rcases List.mem_cons.mp hm with rfl | hm
      · exact List.length_take_le _ _
      · exact ih.small m hm
    · rw [hpieces, List.cons_append]
    · rcases List.mem_cons.mp hm with rfl | hm
      · rfl
      · exact hfront m hm
    · rw [List.flatMap_cons, ih.assembled, List.take_append_drop]

theorem length_pieces_pos : 0 < (pieces bytes).length := by
  rcases Nat.lt_or_ge maxDataSize bytes.length with h | h
  · rw [pieces_of_lt h]
    exact Nat.succ_pos _
  · rw [pieces_of_le h]
    exact Nat.one_pos

end Pieces

/-! ## 2. The exchange -/

/-- The downloader asks for the list; the uploader may answer with any messages. The state is what was
    sent so far. -/
def asking : MessageProtocol (Option (List (UInt16 × List UInt8))) where
  turn
    | none => .left
    | some _ => .right
  opens
    | none, msg, size => msg = msgFileList && size = 0
    | some _, _, size => size ≤ maxDataSize
  deliver
    | none, _, _ => some (some [])
    | some sent, msg, payload => some (some (sent ++ [(msg, payload)]))
  delivers s msg size _ := by
    cases s with
    | none => exact ⟨List.replicate size 0, _, List.length_replicate, rfl⟩
    | some sent => exact ⟨List.replicate size 0, _, List.length_replicate, rfl⟩
  small s msg size h := by
    cases s with
    | none =>
      simp only [Bool.and_eq_true, decide_eq_true_eq] at h
      rw [h.2]
      exact Nat.zero_le _
    | some sent => exact of_decide_eq_true h

/-- The downloader asks for the list; the uploader answers with these messages. The state is what is
    still to come. -/
def answering (messages : List (UInt16 × List UInt8)) :
    MessageProtocol (Option (List (UInt16 × List UInt8))) where
  turn
    | none => .left
    | some _ => .right
  opens
    | none, msg, size => msg = msgFileList && size = 0
    | some (m :: _), msg, size => m.1 = msg && m.2.length = size && size ≤ maxDataSize
    | some [], _, _ => false
  deliver
    | none, _, _ => some (some messages)
    | some (m :: rest), msg, payload => if m = (msg, payload) then some (some rest) else none
    | some [], _, _ => none
  delivers s msg size h := by
    match s with
    | none => exact ⟨List.replicate size 0, _, List.length_replicate, rfl⟩
    | some [] => cases h
    | some ((msg', payload) :: rest) =>
      simp only [Bool.and_eq_true, decide_eq_true_eq] at h
      obtain ⟨⟨rfl, hsize⟩, -⟩ := h
      exact ⟨payload, some rest, hsize, if_pos rfl⟩
  small s msg size h := by
    match s with
    | none =>
      simp only [Bool.and_eq_true, decide_eq_true_eq] at h
      rw [h.2]
      exact Nat.zero_le _
    | some [] => cases h
    | some (m :: rest) =>
      simp only [Bool.and_eq_true, decide_eq_true_eq] at h
      exact h.2

/-! ## 3. The uploader -/

namespace SingleUploader

variable {K : Suite}

/-- Any messages may come over the channel of the uploader, `w` of them at most. -/
def controls : Env (Thread SingleUploader) (UploaderCmd K) (@UploaderCmd.Ans K) Nat where
  ok _ _ _ := True
  step w _ c a w' :=
    match c, a with
    | .tryRecv, .value _ => w = w' + 1
    | _, _ => w' = w

/-- The next piece, at the running offset. -/
theorem listPiece_last {bytes : List UInt8} {sent remaining : Nat} (h : sent + remaining = bytes.length)
    (hle : remaining ≤ maxDataSize) :
    listPiece bytes sent remaining = (some (bytes.drop sent), msgFileListFinal) := by
  unfold listPiece slice
  rw [if_pos hle, if_pos ⟨by omega, by omega⟩, Nat.add_sub_cancel]
  have hlen : (bytes.drop sent).length = remaining := by rw [List.length_drop]; omega
  rw [← hlen, List.take_length]

theorem listPiece_piece {bytes : List UInt8} {sent remaining : Nat} (h : sent + remaining = bytes.length)
    (hlt : maxDataSize < remaining) : listPiece bytes sent remaining =
      (some ((bytes.drop sent).take maxDataSize), msgFileListPiece) := by
  unfold listPiece slice
  rw [if_neg (Nat.not_le.mpr hlt), if_pos ⟨by omega, by omega⟩, Nat.add_sub_cancel]

section Sender

variable [Crates] {mayBreak : Prop} {t : Thread SingleUploader} {w : Nat}

theorem wp_readReceiver {σ : Type} {Γ : MessageProtocol σ} {me : Side} {v : Option (View σ)} :
    ∀ (fuel : Nat) {t : Thread SingleUploader} {w : Nat}, w < fuel →
    wp (onWire Γ me mayBreak controls) (readReceiver fuel : Up K Unit) (fun _ t' w' =>
      t'.encryptedStream = t.encryptedStream ∧ w'.1 ≤ w ∧ w'.2 = v) (fun _ _ _ => False) t (w, v)
  | 0, _, _, h => absurd h (Nat.not_lt_zero _)
  | fuel + 1, t, w, h => by
    refine (wp_bind _ _).mpr ⟨trivial, fun a w' hs => ?_⟩
    obtain ⟨w₁, v₁⟩ := w'
    obtain ⟨hs, hv⟩ := hs
    obtain rfl : v₁ = v := hv
    cases a with
    | value m =>
      obtain rfl : w = w₁ + 1 := hs
      have hle : w₁ < fuel := Nat.lt_of_succ_lt_succ h
      cases m with
      | shutdownConn =>
        refine wp_conseq (m := readReceiver fuel) (wp_readReceiver (v := v₁) fuel
          (t := { t with self := { t.self with shouldShutdown := true } }) hle) ?_ fun _ _ _ h' => h'
        exact fun _ t' w' h' => ⟨h'.1, h'.2.1.trans (Nat.le_succ _), h'.2.2⟩
      | doNothing =>
        refine wp_conseq (m := readReceiver fuel) (wp_readReceiver (v := v₁) fuel (t := t) hle) ?_
          fun _ _ _ h' => h'
        exact fun _ t' w' h' => ⟨h'.1, h'.2.1.trans (Nat.le_succ _), h'.2.2⟩
    | empty =>
      obtain rfl : w₁ = w := hs
      exact ⟨rfl, Nat.le_refl _, rfl⟩
    | disconnected =>
      obtain rfl : w₁ = w := hs
      exact ⟨rfl, Nat.le_refl _, rfl⟩

/-- What an interrupted list has sent of the messages. -/
def SentSome (before messages : List (UInt16 × List UInt8)) (t : Thread SingleUploader)
    (v : Option (View (Option (List (UInt16 × List UInt8))))) : Prop :=
  ∃ nonce sent, v = some ⟨some (before ++ sent), nonce, none⟩ ∧
    (sent = messages ∨ t.self.shouldShutdown = true ∧ sent <+: messages)

/-- **The loop over the pieces** sends the messages of what remains of the listing, unless the uploader is
    shut down. -/
theorem wp_sendList {bytes : List UInt8} {receiverFuel : Nat} : ∀ (fuel sent remaining : Nat)
    {t : Thread SingleUploader} {w n : Nat} {before : List (UInt16 × List UInt8)},
    sent + remaining = bytes.length → (pieces (bytes.drop sent)).length ≤ fuel → w < receiverFuel →
    t.encryptedStream.nonce = n → n ≤ nonceMax →
    wp (onWire asking .right mayBreak controls) (sendList receiverFuel bytes fuel sent remaining : Up K Unit)
      (fun _ t' w' => SentSome before (pieces (bytes.drop sent)) t' w'.2)
      (fun _ _ _ => mayBreak ∨ nonceMax < n + 2 * (pieces (bytes.drop sent)).length) t
      (w, some ⟨some before, n, none⟩)
  | 0, sent, remaining, _, _, _, _, _, hfuel, _, _, _ =>
    absurd length_pieces_pos (Nat.not_lt.mpr hfuel)
  | fuel + 1, sent, remaining, t, w, n, before, hbytes, hfuel, hw, hn, hmax => by
    have hlen : (bytes.drop sent).length = remaining := by rw [List.length_drop]; omega
    -- one message, then a look at the channel
    have hwrite : ∀ (payload : List UInt8) (msg : UInt16) {f : Up K Unit}
        {Q : Unit → Thread SingleUploader → Nat × Option (View (Option (List (UInt16 × List UInt8)))) → Prop}
        {bound : Nat}, payload.length ≤ maxDataSize → 2 ≤ bound →
        (∀ t' w' n', w' < receiverFuel → t'.encryptedStream.nonce = n' → n' ≤ nonceMax → n' ≤ n + 2 →
          wp (onWire asking .right mayBreak controls) f Q (fun _ _ _ => mayBreak ∨ nonceMax < n + bound) t'
            (w', some ⟨some (before ++ [(msg, payload)]), n', none⟩)) →
        wp (onWire asking .right mayBreak controls) (do
          write msg payload
          readReceiver receiverFuel
          f) Q (fun _ _ _ => mayBreak ∨ nonceMax < n + bound) t (w, some ⟨some before, n, none⟩) := by
      intro payload msg f Q bound hsmall hbound hf
      have hcount := frameCount_le payload
      refine (wp_bind _ _).mpr (wp_write hn hmax rfl (decide_eq_true hsmall) rfl
        (fun nonce buffer hnonce hle => ?_) fun e t' v _ hb => hb.imp_right fun h => by omega)
      refine wp_seq (wp_readReceiver receiverFuel hw) (fun _ t' w' h' => ?_) fun _ _ _ h' => h'.elim
      obtain ⟨w₁, v₁⟩ := w'
      obtain ⟨hstream, hless, hv⟩ := h'
      obtain rfl : v₁ = _ := hv
      exact hf t' w₁ nonce (Nat.lt_of_le_of_lt hless hw) (by rw [hstream]) hle (by omega)
    show wp _ (orPanic (listPiece bytes sent remaining).1 >>= fun payload =>
      write (listPiece bytes sent remaining).2 payload >>= fun _ =>
      readReceiver receiverFuel >>= fun _ => self >>= fun u => if u.shouldShutdown = true then pure ()
        else if (listPiece bytes sent remaining).2 = msgFileListFinal then
          self >>= fun u => command (.reverseListPush u.nickname)
        else sendList receiverFuel bytes fuel (sent + maxDataSize) (remaining - maxDataSize)) _ _ t _
    rcases Nat.lt_or_ge maxDataSize remaining with hlt | hle
    · rw [listPiece_piece hbytes hlt]
      have hpieces : pieces (bytes.drop sent) = _ := pieces_of_lt (by omega)
      rw [List.drop_drop] at hpieces
      rw [hpieces] at hfuel ⊢
      rw [List.length_cons] at hfuel ⊢
      refine hwrite ((bytes.drop sent).take maxDataSize) msgFileListPiece (List.length_take_le _ _)
        (by omega) fun t' w' n' hw' hn' hmax' hle' => ?_
      show wp _ (if t'.self.shouldShutdown = true then pure ()
        else if msgFileListPiece = msgFileListFinal then self >>= fun u => command (.reverseListPush u.nickname)
        else sendList receiverFuel bytes fuel (sent + maxDataSize) (remaining - maxDataSize)) _ _ t' _
      rw [wp_ite]
      split
      · rename_i hstop
        exact ⟨n', [_], rfl, .inr ⟨hstop, by simp⟩⟩
      rw [if_neg (by decide)]
      refine wp_conseq (wp_sendList fuel (sent + maxDataSize) (remaining - maxDataSize) (by omega)
        (Nat.le_of_succ_le_succ hfuel) hw' hn' hmax') (fun _ t'' w'' h'' => ?_)
        fun _ _ _ h'' => h''.imp_right fun h => by omega
      obtain ⟨nonce, more, hview, hmore⟩ := h''
      refine ⟨nonce, _ :: more, ?_, hmore.imp (fun h => by rw [h]) fun h => ⟨h.1, ?_⟩⟩
      · rw [hview, List.append_assoc]
        rfl
      · exact List.cons_prefix_cons.mpr ⟨rfl, h.2⟩
    · rw [listPiece_last hbytes hle]
      have hpieces : pieces (bytes.drop sent) = _ := pieces_of_le (by omega)
      rw [hpieces] at hfuel ⊢
      refine hwrite (bytes.drop sent) msgFileListFinal (by omega) (Nat.le_refl _)
        fun t' w' n' hw' hn' hmax' hle' => ?_
      show wp _ (if t'.self.shouldShutdown = true then pure ()
        else if msgFileListFinal = msgFileListFinal then self >>= fun u => command (.reverseListPush u.nickname)
        else sendList receiverFuel bytes fuel (sent + maxDataSize) (remaining - maxDataSize)) _ _ t' _
      rw [wp_ite]
      split
      · exact ⟨n', [_], rfl, .inl rfl⟩
      rw [if_pos rfl]
      refine ⟨trivial, fun _ w'' hs => ?_⟩
      obtain ⟨w₁, v₁⟩ := w''
      obtain ⟨-, hv⟩ := hs
      obtain rfl : v₁ = _ := hv
      exact ⟨n', [_], rfl, .inl rfl⟩

/-- **A request for the list** is answered with the messages of the listing. -/
theorem wp_runLoop_list {bytes : List UInt8} {everythingFile : SharedFile} {fuel n : Nat}
    (hfuel : (pieces bytes).length ≤ fuel) (hw : w < fuel) (hn : t.encryptedStream.nonce = n)
    (hmax : n ≤ nonceMax) :
    wp (onWire asking .right mayBreak controls) (runLoop fuel everythingFile bytes : Up K RunLoopResult)
      (fun result t' w' => result = .success ∧ SentSome [] (pieces bytes) t' w'.2)
      (fun _ _ _ => mayBreak ∨ nonceMax < n + 2 * ((pieces bytes).length + 1)) t
      (w, some ⟨none, n, none⟩) := by
  refine (wp_bind _ _).mpr (wp_read hn hmax rfl ⟨msgFileList, 0, rfl⟩
    (fun msg payload s' nonce buffer hopen hs hnonce hle hholds => ?_) fun e t' v _ hb => ?_)
  rotate_left
  · refine hb.imp_right fun hexhausted => ?_
    obtain ⟨msg, payload, -, -, -, hlt⟩ := hexhausted
    have hcount := frameCount_le payload
    omega
  obtain rfl : some [] = s' := Option.some.inj hs
  have hmsg : msg = msgFileList := by
    have hopen : (msg = msgFileList && payload.length = 0) = true := hopen
    simp only [Bool.and_eq_true, decide_eq_true_eq] at hopen
    exact hopen.1
  subst hmsg
  have hcount := frameCount_le payload
  refine wp_seq (wp_readReceiver fuel hw) (fun _ t' w' h' => ?_) fun _ _ _ h' => h'.elim
  obtain ⟨w₁, v₁⟩ := w'
  obtain ⟨hstream, hless, hv⟩ := h'
  obtain rfl : v₁ = _ := hv
  show wp _ (if t'.self.shouldShutdown = true then pure RunLoopResult.success else _) _ _ t' _
  rw [wp_ite]
  split
  · rename_i hstop
    exact ⟨rfl, nonce, [], rfl, .inr ⟨hstop, List.nil_prefix⟩⟩
  show wp _ (if t'.encryptedStream.getMessage = msgFileList then
    sendList fuel bytes fuel 0 bytes.length >>= fun _ => pure RunLoopResult.success else _) _ _ _ _
  rw [hstream, hholds.message, if_pos rfl]
  have hsend : wp (onWire asking .right mayBreak controls) (sendList fuel bytes fuel 0 bytes.length : Up K Unit)
      (fun _ t'' w'' => SentSome [] (pieces bytes) t'' w''.2)
      (fun _ _ _ => mayBreak ∨ nonceMax < nonce + 2 * (pieces bytes).length)
      { t' with self := { t'.self with activeMsg := msgFileList } } (w₁, some ⟨some [], nonce, none⟩) :=
    wp_sendList fuel 0 bytes.length (by omega) hfuel (Nat.lt_of_le_of_lt hless hw) (by rw [hstream]) hle
  refine wp_seq hsend (fun _ t'' w'' h'' => ⟨rfl, h''⟩) fun _ _ _ h'' => h''.imp_right fun h => ?_
  omega

end Sender

end SingleUploader

/-! ## 4. The downloader -/

section Receiver

variable [Crates] {T L W : Type} {LA : L → Type} {mayBreak : Prop} {LE : Env (Thread T) L LA W}

/-- What the downloader makes of the bytes of a listing. -/
def parseListing (jsonBytes : List UInt8) : Except Exc SharedFile := do
  let filesStr ← match fromUtf8 jsonBytes with
    | some filesStr => .ok filesStr
    | none => .error (.err "invalid utf-8 sequence".toList)
  let everythingFile ← orErr id (Crates.listingFromJson filesStr)
  return resetFileSizeString (removeInvalidFiles everythingFile)

def errFileListTooLarge (nickname : Str) : Exc :=
  .err ("File list is too large. ".toList ++ nickname ++ " needs to share fewer files with you.".toList)

/-- **The loop of the downloader** puts the pieces together, and gives up a listing that is too large. -/
theorem wp_readEverythingFile {messages : List (UInt16 × List UInt8)} : ∀ (fuel : Nat)
    {jsonBytes rest : List UInt8} {t : Thread T} {w : W} {n : Nat}, (pieces rest).length ≤ fuel →
    t.encryptedStream.nonce = n → n ≤ nonceMax →
    wp (onWire (answering messages) .left mayBreak LE) (readEverythingFile fuel jsonBytes)
      (fun assembled _ w' => assembled = jsonBytes ++ rest ∧
        (jsonBytes ++ rest).length ≤ maxEverythingFileSize ∧
        w'.1 = w ∧ ∃ nonce, w'.2 = some ⟨some [], nonce, none⟩)
      (fun e _ _ => mayBreak ∨ nonceMax < n + 2 * (pieces rest).length ∨
        maxEverythingFileSize < (jsonBytes ++ rest).length ∧
          e = errFileListTooLarge t.encryptedStream.sharedUser.nickname) t
      (w, some ⟨some (pieces rest), n, none⟩)
  | 0, _, _, _, _, _, hfuel, _, _ => absurd length_pieces_pos (Nat.not_lt.mpr hfuel)
  | fuel + 1, jsonBytes, rest, t, w, n, hfuel, hn, hmax => by
    have hpos : 0 < (pieces rest).length := length_pieces_pos
    obtain ⟨msg, payload, more, hpieces⟩ : ∃ msg payload more, pieces rest = (msg, payload) :: more := by
      cases h : pieces rest with
      | nil => exact (Nat.lt_irrefl 0 (by rw [h] at hpos; exact hpos)).elim
      | cons m more => exact ⟨m.1, m.2, more, rfl⟩
    have hsmall : payload.length ≤ maxDataSize :=
      (listMessages_pieces rest).small (msg, payload) (by rw [hpieces]; exact List.mem_cons_self)
    rw [hpieces] at hfuel ⊢
    have hopens : (answering messages).opens (some ((msg, payload) :: more)) msg payload.length = true := by
      simp [answering, hsmall]
    refine (wp_bind _ _).mpr (wp_read hn hmax rfl ⟨msg, payload.length, hopens⟩
      (fun msg' payload' s' nonce buffer hopen hs hnonce hle hholds => ?_) fun e t' v _ hb => ?_)
    rotate_left
    · refine hb.imp_right fun hexhausted => .inl ?_
      obtain ⟨msg, payload, -, -, -, hlt⟩ := hexhausted
      have hcount := frameCount_le payload
      rw [List.length_cons]
      omega
    obtain ⟨hm, rfl⟩ : (msg, payload) = (msg', payload') ∧ s' = some more := by
      have hs : (if (msg, payload) = (msg', payload') then some (some more) else none) = some s' := hs
      split at hs
      · exact ⟨‹_›, (Option.some.inj hs).symm⟩
      · cases hs
    obtain ⟨rfl, rfl⟩ := Prod.mk.inj hm
    have hcount := frameCount_le payload
    generalize hes : ({ t.encryptedStream with nonce, buffer } : EncryptedStream) = es at hholds
    have huser : es.sharedUser = t.encryptedStream.sharedUser := by rw [← hes]
    have hnonce' : es.nonce = nonce := by rw [← hes]
    show wp _ (orThrow es.getPayload >>= fun payload => get >>= fun t : Thread T =>
      throwIf (maxEverythingFileSize < (jsonBytes ++ payload).length)
        (errFileListTooLarge t.encryptedStream.sharedUser.nickname) >>= fun _ =>
      if es.getMessage = msgFileListFinal then pure (jsonBytes ++ payload)
      else readEverythingFile fuel (jsonBytes ++ payload)) _ _ ({ t with encryptedStream := es } : Thread T) _
    rw [hholds.payload, hholds.message]
    show wp _ (throwIf (maxEverythingFileSize < (jsonBytes ++ payload).length)
        (errFileListTooLarge es.sharedUser.nickname) >>= fun _ => _) _ _ _ _
    rw [huser]
    refine (wp_bind _ _).mpr ((wp_throwIf _ _).mpr ?_)
    rcases Nat.lt_or_ge maxDataSize rest.length with hlt | hle'
    · rw [pieces_of_lt hlt] at hpieces
      obtain ⟨hm, hmore⟩ := List.cons.inj hpieces
      obtain ⟨rfl, rfl⟩ := Prod.mk.inj hm
      subst hmore
      have hassembled : jsonBytes ++ rest.take maxDataSize ++ rest.drop maxDataSize = jsonBytes ++ rest := by
        rw [List.append_assoc, List.take_append_drop]
      split
      · rename_i hlarge
        refine .inr (.inr ⟨?_, rfl⟩)
        rw [← hassembled, List.length_append]
        exact Nat.lt_of_lt_of_le hlarge (Nat.le_add_right _ _)
      rw [wp_ite, if_neg (by decide)]
      refine wp_conseq (wp_readEverythingFile fuel (Nat.le_of_succ_le_succ hfuel) hnonce' hle)
        (fun _ _ _ h' => ?_) fun e _ _ h' => ?_
      · rw [hassembled] at h'
        exact h'
      · rw [hassembled, huser] at h'
        rw [List.length_cons]
        refine h'.imp_right fun h' => h'.imp_left fun h => ?_
        omega
    · rw [pieces_of_le hle'] at hpieces
      obtain ⟨hm, hmore⟩ := List.cons.inj hpieces
      obtain ⟨rfl, rfl⟩ := Prod.mk.inj hm
      subst hmore
      split
      · rename_i hlarge
        exact .inr (.inr ⟨hlarge, rfl⟩)
      · rename_i hfits
        rw [wp_ite, if_pos rfl]
        exact ⟨rfl, Nat.le_of_not_lt hfits, rfl, nonce, rfl⟩

/-- **The listing of the messages** is what the downloader makes of the bytes, all of them. -/
theorem wp_downloadEverythingFile {bytes : List UInt8} {fuel : Nat} {t : Thread T} {w : W} {n : Nat}
    (hfuel : (pieces bytes).length ≤ fuel) (hn : t.encryptedStream.nonce = n) (hmax : n ≤ nonceMax) :
    wp (onWire (answering (pieces bytes)) .left mayBreak LE) (downloadEverythingFile fuel)
      (fun everythingFile _ w' => parseListing bytes = .ok everythingFile ∧
        bytes.length ≤ maxEverythingFileSize ∧ w'.1 = w ∧ ∃ nonce, w'.2 = some ⟨some [], nonce, none⟩)
      (fun e _ _ => mayBreak ∨ nonceMax < n + 2 * ((pieces bytes).length + 1) ∨
        bytes.length ≤ maxEverythingFileSize ∧ parseListing bytes = .error e ∨
        maxEverythingFileSize < bytes.length ∧ e = errFileListTooLarge t.encryptedStream.sharedUser.nickname)
      t (w, some ⟨none, n, none⟩) := by
  refine (wp_bind _ _).mpr (wp_write hn hmax rfl rfl rfl (fun nonce buffer hnonce hle => ?_)
    fun e t' v _ hb => hb.imp_right fun h => .inl ?_)
  rotate_left
  · have hcount := frameCount_le []
    omega
  have hcount := frameCount_le []
  refine wp_seq (wp_readEverythingFile fuel hfuel rfl hle) (fun jsonBytes t' w' h' => ?_)
    fun e _ _ h' => h'.imp_right fun h' => ?_
  · obtain ⟨rfl, hsize, hw, hview⟩ := h'
    have hsize : jsonBytes.length ≤ maxEverythingFileSize := hsize
    have hfail : ∀ {e : Exc}, parseListing jsonBytes = .error e → mayBreak ∨
        nonceMax < n + 2 * ((pieces jsonBytes).length + 1) ∨
        jsonBytes.length ≤ maxEverythingFileSize ∧ parseListing jsonBytes = .error e ∨
        maxEverythingFileSize < jsonBytes.length ∧
          e = errFileListTooLarge t.encryptedStream.sharedUser.nickname :=
      fun he => .inr (.inr (.inl ⟨hsize, he⟩))
    refine (wp_bind _ _).mpr ?_
    cases hutf : fromUtf8 jsonBytes with
    | none => exact hfail (by unfold parseListing; rw [hutf]; rfl)
    | some filesStr =>
      have hparse : parseListing jsonBytes = (orErr id (Crates.listingFromJson filesStr) >>= fun f =>
          .ok (resetFileSizeString (removeInvalidFiles f))) := by
        unfold parseListing
        rw [hutf]
        rfl
      refine (wp_bind _ _).mpr ?_
      cases hjson : (Crates.listingFromJson filesStr : Except Str SharedFile) with
      | error e => exact hfail (by rw [hparse, hjson]; rfl)
      | ok everythingFile =>
        exact ⟨by rw [hparse, hjson]; rfl, hsize, hw, hview⟩
  · rcases h' with h' | h'
    · exact .inl (by omega)
    · exact .inr (.inr h')

end Receiver

/-! ## 5. Both loops -/

/-- **The file list arrives unchanged.** For every listing there are messages, of at most `maxDataSize`
    bytes each, the last one and no other a final one, and together the bytes of the listing, such that

    * an uploader asked for the list comes to an end and has sent these, or at least the first ones of them
      where it was shut down;
    * a downloader that asks and is sent these takes all of them and makes of the listing what its bytes
      say, or says that it is too large just where it is.

    Only a lost connection or a counter at its end makes either of them fail otherwise. -/
theorem fileList_unchanged [Crates] {K : Suite} {T L W : Type} {LA : L → Type}
    (LE : Env (Thread T) L LA W) (mayBreak : Prop) (bytes : List UInt8) :
    ∃ messages, ListMessages bytes messages ∧
      (∀ (everythingFile : SharedFile) (fuel w n : Nat) (t : Thread SingleUploader),
        messages.length ≤ fuel → w < fuel → t.encryptedStream.nonce = n → n ≤ nonceMax →
        wp (onWire asking .right mayBreak SingleUploader.controls)
          (SingleUploader.runLoop fuel everythingFile bytes : Up K RunLoopResult)
          (fun result t' w' => result = .success ∧ SingleUploader.SentSome [] messages t' w'.2)
          (fun _ _ _ => mayBreak ∨ nonceMax < n + 2 * (messages.length + 1)) t (w, some ⟨none, n, none⟩)) ∧
      ∀ (fuel n : Nat) (t : Thread T) (w : W),
        messages.length ≤ fuel → t.encryptedStream.nonce = n → n ≤ nonceMax →
        wp (onWire (answering messages) .left mayBreak LE) (downloadEverythingFile fuel)
          (fun everythingFile _ w' => parseListing bytes = .ok everythingFile ∧
            bytes.length ≤ maxEverythingFileSize ∧ w'.1 = w ∧ ∃ nonce, w'.2 = some ⟨some [], nonce, none⟩)
          (fun e _ _ => mayBreak ∨ nonceMax < n + 2 * (messages.length + 1) ∨
            bytes.length ≤ maxEverythingFileSize ∧ parseListing bytes = .error e ∨
            maxEverythingFileSize < bytes.length ∧
              e = errFileListTooLarge t.encryptedStream.sharedUser.nickname)
          t (w, some ⟨none, n, none⟩) :=
  ⟨pieces bytes, listMessages_pieces bytes,
    fun _ _ _ _ _ hfuel hw hn hmax => SingleUploader.wp_runLoop_list hfuel hw hn hmax,
    fun _ _ _ _ hfuel hn hmax => wp_downloadEverythingFile hfuel hn hmax⟩

end Transmitic
