/-
  File:      Transmitic/RequestHandler.lean
  Subject:   CAN A REQUEST MAKE THE UPLOADER PANIC?

  `run_loop` takes the first eight bytes of a request for a file as the position, without a look at how
  long the payload is. Everything else it computes with is in bounds: the listing is cut where it is long
  enough, and the counter of the sent bytes is a position in a file. A debug build checks the sums and
  differences of machine words, and panics where one does not fit.

  * `addWord`, `addSize`, `subSize` -- arithmetic of a build that may check it;
  * `runLoopIn` -- `run_loop` in such a build, and `runLoopIn_false`, where it does not check;
  * `ShortRequest` -- a request for a file whose payload is shorter than a position;
  * `runLoopIn_returns_iff` -- **the answer to a request ends with `Ok` or `Err`, exactly if it is not
    short**;
  * `runLoopIn_panics` -- an empty one.
-/
import Transmitic.FileList
import Transmitic.SendLoop

namespace Transmitic

open Lib

namespace SingleUploader

variable {K : Suite}

/-! ## 1. Arithmetic of a build -/

/-- The sum of two words. -/
def addWord (checked : Bool) (a b : UInt64) : Up K UInt64 :=
  match checked with
  | true => do
    throwIf (2 ^ 64 ≤ a.toNat + b.toNat) .panic
    return a + b
  | false => pure (a + b)

/-- The sum of two sizes. -/
def addSize (checked : Bool) (a b : Nat) : Up K Nat :=
  match checked with
  | true => do
    throwIf (2 ^ 64 ≤ a + b) .panic
    return a + b
  | false => pure (a + b)

/-- The difference of two sizes. -/
def subSize (checked : Bool) (a b : Nat) : Up K Nat :=
  match checked with
  | true => do
    throwIf (a < b) .panic
    return a - b
  | false => pure (a - b)

section Arithmetic

variable {W : Type} {E : Env (Thread SingleUploader) (Wire ⊕ UploaderCmd K) (Ans (@UploaderCmd.Ans K)) W}
  {R : Exc → Thread SingleUploader → W → Prop} {t : Thread SingleUploader} {w : W} {checked : Bool}

theorem wp_addWord {a b : UInt64} {Q : UInt64 → Thread SingleUploader → W → Prop}
    (h : a.toNat + b.toNat < 2 ^ 64) (hQ : Q (a + b) t w) :
    wp E (addWord checked a b : Up K UInt64) Q R t w := by
  cases checked with
  | true =>
    refine (wp_bind _ _).mpr ((wp_throwIf _ _).mpr ?_)
    rw [if_neg (Nat.not_le.mpr h)]
    exact hQ
  | false => exact hQ

theorem wp_addSize {a b : Nat} {Q : Nat → Thread SingleUploader → W → Prop} (h : a + b < 2 ^ 64)
    (hQ : Q (a + b) t w) : wp E (addSize checked a b : Up K Nat) Q R t w := by
  cases checked with
  | true =>
    refine (wp_bind _ _).mpr ((wp_throwIf _ _).mpr ?_)
    rw [if_neg (Nat.not_le.mpr h)]
    exact hQ
  | false => exact hQ

theorem wp_subSize {a b : Nat} {Q : Nat → Thread SingleUploader → W → Prop} (h : b ≤ a)
    (hQ : Q (a - b) t w) : wp E (subSize checked a b : Up K Nat) Q R t w := by
  cases checked with
  | true =>
    refine (wp_bind _ _).mpr ((wp_throwIf _ _).mpr ?_)
    rw [if_neg (Nat.not_lt.mpr h)]
    exact hQ
  | false => exact hQ

end Arithmetic

/-! ## 2. The handler in a build -/

section Handler

variable [Crates] (checked : Bool)

/-- `sendList`; where the slice ends is a sum, too. -/
def sendListIn (receiverFuel : Nat) (everythingFileJsonBytes : List UInt8) : Nat → Nat → Nat → Up K Unit
  | 0, _, _ => throw .fuel
  | fuel + 1, sentBytes, remainingBytes => do
    let _ ← addSize checked (min remainingBytes maxDataSize) sentBytes
    let (slice, msg) := listPiece everythingFileJsonBytes sentBytes remainingBytes
    let payload ← orPanic slice
    write msg payload
    readReceiver receiverFuel
    if (← self).shouldShutdown then pure ()
    else if msg = msgFileListFinal then command (.reverseListPush (← self).nickname)
    else
      let sentBytes ← addSize checked sentBytes maxDataSize
      let remainingBytes ← subSize checked remainingBytes maxDataSize
      sendListIn receiverFuel everythingFileJsonBytes fuel sentBytes remainingBytes

def sendFileIn (receiverFuel : Nat) (path : Str) (fileSize : UInt64) : Nat → UInt64 → Up K Bool
  | 0, _ => throw .fuel
  | fuel + 1, currentSentBytes => do
    let readBuffer ← tryIo (← command .fileRead)
    let currentSentBytes ← addWord checked currentSentBytes (UInt64.ofNat readBuffer.1.length)
    let writeMessage :=
      if fileSize ≤ currentSentBytes ∨ readBuffer.1.length = 0 then msgFileFinished else msgFileChunk
    write writeMessage readBuffer.1
    if writeMessage = msgFileFinished then pure true
    else
      updateProgress path currentSentBytes fileSize
      readReceiver receiverFuel
      if (← self).shouldShutdown then pure false
      else sendFileIn receiverFuel path fileSize fuel currentSentBytes

def serveFileIn (fuel : Nat) (everythingFile : SharedFile) : Up K Unit := do
  let payloadBytes ← getPayload
  let seekBytes ← orPanic (slice payloadBytes 0 8)
  let fileSeekPoint := UInt64.ofNat (ofBe seekBytes)
  let clientFileChoice ← orThrow (match fromUtf8 (payloadBytes.drop 8) with
    | some clientFileChoice => .ok clientFileChoice
    | none => .error (.err "invalid utf-8 sequence".toList))
  match getFileByPath clientFileChoice everythingFile with
  | none => write msgFileInvalidFile []
  | some clientSharedFile =>
    if clientSharedFile.isDirectory then write msgCannotSelectDirectory []
    else
      tryIo (← command (.fileOpen clientFileChoice))
      tryIo (← command (.fileSeek fileSeekPoint))
      uploadState clientFileChoice 0
      let sent : Bool ← sendFileIn checked fuel clientFileChoice clientSharedFile.fileSize fuel
        fileSeekPoint
      if sent then uploadState clientFileChoice 100

/-- **`run_loop` in a build that checks sums and differences**, or does not. -/
def runLoopIn (fuel : Nat) (everythingFile : SharedFile) (everythingFileJsonBytes : List UInt8) :
    Up K RunLoopResult := do
  read
  readReceiver fuel
  if (← self).shouldShutdown then return .success
  else
    let clientMessage ← getMessage
    modifySelf fun u => { u with activeMsg := clientMessage }
    if clientMessage = msgFileList then
      sendListIn checked fuel everythingFileJsonBytes fuel 0 everythingFileJsonBytes.length
      return .success
    else if clientMessage = msgFileSelectionContinue then
      serveFileIn checked fuel everythingFile
      return .success
    else if clientMessage = msgReverse ∨ clientMessage = msgReverseNoList then
      modifyStream fun es => { es with reverseMessage := clientMessage }
      return .reverseConnection
    else
      throw (.err ('\'' :: (← self).nickname ++ "' Invalid client selection '".toList ++
        natText clientMessage.toNat ++ ['\'']))

theorem sendListIn_false (receiverFuel : Nat) (bytes : List UInt8) : ∀ fuel sent remaining,
    (sendListIn false receiverFuel bytes fuel sent remaining : Up K Unit) =
      sendList receiverFuel bytes fuel sent remaining
  | 0, _, _ => rfl
  | fuel + 1, sent, remaining => by
    have hrest := funext fun sent => funext fun remaining =>
      sendListIn_false receiverFuel bytes fuel sent remaining
    rw [sendListIn, sendList, hrest]
    rfl

theorem sendFileIn_false (receiverFuel : Nat) (path : Str) (fileSize : UInt64) : ∀ fuel current,
    (sendFileIn false receiverFuel path fileSize fuel current : Up K Bool) =
      sendFile receiverFuel path fileSize fuel current
  | 0, _ => rfl
  | fuel + 1, current => by
    have hrest := funext fun current => sendFileIn_false receiverFuel path fileSize fuel current
    rw [sendFileIn, sendFile, hrest]
    rfl

/-- **In a build that does not check it is `run_loop`.** -/
theorem runLoopIn_false (fuel : Nat) (everythingFile : SharedFile) (json : List UInt8) :
    (runLoopIn false fuel everythingFile json : Up K RunLoopResult) = runLoop fuel everythingFile json := by
  have hserve : (serveFileIn false fuel everythingFile : Up K Unit) = serveFile fuel everythingFile := by
    have hsend : (sendFileIn false : Nat → Str → UInt64 → Nat → UInt64 → Up K Bool) = sendFile := by
      funext receiverFuel path fileSize fuel current
      exact sendFileIn_false receiverFuel path fileSize fuel current
    unfold serveFileIn serveFile
    exact hsend ▸ rfl
  unfold runLoopIn runLoop
  rw [hserve, sendListIn_false]

end Handler

/-! ## 3. The answers in bounds -/

section Bounds

variable [Crates] {checked : Bool} {mayFail mayStop : Prop} {t : Thread SingleUploader} {w : Serving}

/-- Whatever is read ends where offsets go. -/
def WithinOffsets (position : Nat) (bytes : List UInt8) : Prop :=
  bytes ≠ [] → position + bytes.length < maxPosition

/-- The result is an error the method returns. -/
def Returned (e : Exc) : Prop := ∃ text, e = .err text

/-- The loop over the pieces: the running offset and what remains add up to the length. -/
theorem wp_sendListIn {bytes : List UInt8} {receiverFuel : Nat} (hbytes : bytes.length < maxPosition) :
    ∀ (fuel sent remaining : Nat) {t : Thread SingleUploader} {w : Serving},
    sent + remaining = bytes.length → remaining < fuel → w.pending < receiverFuel →
    wp (serving WithinOffsets mayFail mayStop)
      (sendListIn checked receiverFuel bytes fuel sent remaining : Up K Unit)
      (fun _ _ _ => True) (fun e _ _ => Returned e) t w
  | 0, _, remaining, _, _, _, hfuel, _ => absurd hfuel (Nat.not_lt_zero _)
  | fuel + 1, sent, remaining, t, w, hsum, hfuel, hpending => by
    have hmax : maxDataSize = 100000 := rfl
    have hpos : maxPosition = 2 ^ 63 := rfl
    refine (wp_bind _ _).mpr (wp_addSize (by omega) ?_)
    have hpiece : ∃ payload msg, listPiece bytes sent remaining = (some payload, msg) ∧
        payload.length ≤ maxDataSize ∧ (msg = msgFileListFinal ∨ maxDataSize < remaining) := by
      rcases Nat.lt_or_ge maxDataSize remaining with hlt | hle
      · exact ⟨_, _, listPiece_piece hsum hlt, List.length_take_le _ _, .inr hlt⟩
      · refine ⟨_, _, listPiece_last hsum hle, ?_, .inl rfl⟩
        rw [List.length_drop]
        omega
    obtain ⟨payload, msg, hpiece, hsmall, hfinal⟩ := hpiece
    show wp _ (orPanic (listPiece bytes sent remaining).1 >>= fun payload =>
      write (listPiece bytes sent remaining).2 payload >>= fun _ =>
      readReceiver receiverFuel >>= fun _ => self >>= fun u => if u.shouldShutdown = true then pure ()
        else if (listPiece bytes sent remaining).2 = msgFileListFinal then
          self >>= fun u => command (.reverseListPush u.nickname)
        else addSize checked sent maxDataSize >>= fun sent =>
          subSize checked remaining maxDataSize >>= fun remaining =>
            sendListIn checked receiverFuel bytes fuel sent remaining) _ _ t _
    rw [hpiece]
    refine (wp_bind (orPanic (some payload)) _).mpr ?_
    refine (wp_bind (write msg payload) _).mpr (wp_write_serving hsmall (fun t' _ => ?_)
      fun e _ _ _ _ => ⟨e, rfl⟩)
    refine (wp_bind _ _).mpr (wp_readReceiver_serving receiverFuel hpending
      fun stop pending hle _ _ => ?_)
    show wp _ (if stop = true then pure () else if msg = msgFileListFinal then _ else _) _ _ _ _
    rw [wp_ite]
    split
    · trivial
    rw [wp_ite]
    split
    · exact ⟨trivial, fun _ _ _ => trivial⟩
    · have hlt := hfinal.resolve_left ‹_›
      refine (wp_bind _ _).mpr (wp_addSize (by omega) ?_)
      refine (wp_bind _ _).mpr (wp_subSize (by omega) ?_)
      exact wp_sendListIn hbytes fuel _ _ (by omega) (by omega) (Nat.lt_of_le_of_lt hle hpending)

/-- The loop over the chunks: the counter is the position in the file, and below the listed size until
    the last pass. -/
theorem wp_sendFileIn {receiverFuel : Nat} {path : Str} {fileSize : UInt64} :
    ∀ (fuel : Nat) (current : UInt64) {t : Thread SingleUploader} {w : Serving},
    w.position = current.toNat → current.toNat < maxPosition →
    fileSize.toNat - current.toNat < fuel → w.pending < receiverFuel →
    wp (serving WithinOffsets mayFail mayStop)
      (sendFileIn checked receiverFuel path fileSize fuel current : Up K Bool)
      (fun _ _ _ => True) (fun e _ _ => Returned e) t w
  | 0, _, _, _, _, _, hfuel, _ => absurd hfuel (Nat.not_lt_zero _)
  | fuel + 1, current, t, w, hposition, hcurrent, hfuel, hpending => by
    refine (wp_bind (command .fileRead) _).mpr ⟨trivial, fun a w₁ hs => ?_⟩
    cases a with
    | error e => exact ⟨e, rfl⟩
    | ok bytes =>
      obtain ⟨bytes, hsmall⟩ := bytes
      obtain ⟨hreads, rfl⟩ := hs
      have hmax : maxDataSize = 100000 := rfl
      have hpos : maxPosition = 2 ^ 63 := rfl
      have hlen : (UInt64.ofNat bytes.length).toNat = bytes.length := by
        rw [UInt64.toNat_ofNat']
        omega
      have hnat : (current + UInt64.ofNat bytes.length).toNat = current.toNat + bytes.length := by
        rw [UInt64.toNat_add, hlen]
        omega
      show wp _ (addWord checked current (UInt64.ofNat bytes.length) >>= fun current =>
        write (if fileSize ≤ current ∨ bytes.length = 0 then msgFileFinished else msgFileChunk) bytes >>=
          fun _ =>
        if (if fileSize ≤ current ∨ bytes.length = 0 then msgFileFinished else msgFileChunk) =
          msgFileFinished then pure true
        else updateProgress path current fileSize >>= fun _ =>
          readReceiver receiverFuel >>= fun _ => self >>= fun u =>
          if u.shouldShutdown = true then pure false
          else sendFileIn checked receiverFuel path fileSize fuel current) _ _ t _
      refine (wp_bind _ _).mpr (wp_addWord (by rw [hlen]; omega) ?_)
      refine (wp_bind _ _).mpr (wp_write_serving hsmall (fun t' _ => ?_) fun e _ _ _ _ => ⟨e, rfl⟩)
      by_cases hend : fileSize ≤ current + UInt64.ofNat bytes.length ∨ bytes.length = 0
      · rw [if_pos hend, if_pos rfl]
        trivial
      · rw [if_neg hend, if_neg (show msgFileChunk ≠ msgFileFinished by decide)]
        rw [UInt64.le_iff_toNat_le, hnat] at hend
        have hbound : current.toNat + bytes.length < maxPosition := by
          rw [← hposition]
          refine hreads fun hnil => hend (.inr ?_)
          exact congrArg List.length hnil
        refine (wp_bind _ _).mpr (wp_updateProgress_serving ?_)
        refine (wp_bind _ _).mpr (wp_readReceiver_serving receiverFuel hpending
          fun stop pending hle _ _ => ?_)
        show wp _ (if stop = true then pure false else _) _ _ _ _
        rw [wp_ite]
        split
        · trivial
        · refine wp_sendFileIn fuel _ ?_ ?_ ?_ (Nat.lt_of_le_of_lt hle hpending)
          · rw [hnat, ← hposition]
            rfl
          · rw [hnat]
            exact hbound
          · rw [hnat]
            omega

/-- A request for a file whose payload is long enough. -/
theorem wp_serveFileIn {fuel : Nat} {everythingFile : SharedFile}
    (hpayload : (∃ text, t.encryptedStream.getPayload = .error (.err text)) ∨
      ∃ payload, t.encryptedStream.getPayload = .ok payload ∧ 8 ≤ payload.length)
    (hfuel : 2 ^ 64 ≤ fuel) (hpending : w.pending < fuel) :
    wp (serving WithinOffsets mayFail mayStop) (serveFileIn checked fuel everythingFile : Up K Unit)
      (fun _ _ _ => True) (fun e _ _ => Returned e) t w := by
  have hempty : ∀ {msg : UInt16} {t : Thread SingleUploader} {w : Serving},
      wp (serving WithinOffsets mayFail mayStop) (write msg [] : Up K Unit)
        (fun _ _ _ => True) (fun e _ _ => Returned e) t w := by
    intro msg t w
    exact wp_write_serving (Nat.zero_le _) (fun _ _ => trivial) fun e _ _ _ _ => ⟨e, rfl⟩
  rcases hpayload with ⟨text, herror⟩ | ⟨payload, hpayload, hlong⟩
  · refine (wp_bind getPayload _).mpr ?_
    show wp _ (orThrow t.encryptedStream.getPayload) _ _ t w
    rw [herror]
    exact ⟨text, rfl⟩
  obtain ⟨seekBytes, hseek⟩ := slice_some payload (Nat.zero_le 8) hlong
  refine (wp_bind _ _).mpr (wp_getPayload_of hpayload ?_)
  refine (wp_bind (orPanic (slice payload 0 8)) _).mpr ?_
  refine wp_orPanic_of hseek ?_
  dsimp only
  generalize UInt64.ofNat (ofBe seekBytes) = seek
  cases fromUtf8 (payload.drop 8) with
  | none => exact ⟨_, rfl⟩
  | some path =>
    refine (wp_bind (orThrow (.ok path)) _).mpr ((wp_orThrow_ok path).mpr ?_)
    cases getFileByPath path everythingFile with
    | none => exact hempty
    | some chosen =>
      cases hdirectory : chosen.isDirectory with
      | true =>
        simp only [hdirectory, if_true]
        exact hempty
      | false =>
        simp only [hdirectory, Bool.false_eq_true, if_false]
        refine (wp_bind (command (.fileOpen path)) _).mpr ⟨trivial, fun a w₁ hs => ?_⟩
        cases a with
        | error e => exact ⟨e, rfl⟩
        | ok _ =>
          obtain rfl : w₁ = { w with position := 0 } := hs
          refine (wp_bind (command (.fileSeek seek)) _).mpr ⟨trivial, fun a w₂ hs => ?_⟩
          cases a with
          | error e => exact ⟨e, rfl⟩
          | ok _ =>
            obtain ⟨hposition, rfl⟩ := hs
            have hlt := chosen.fileSize.toNat_lt
            refine (wp_bind (uploadState path 0) _).mpr (wp_uploadState_serving ?_)
            refine wp_seq (wp_sendFileIn fuel seek rfl hposition (by omega) hpending)
              (fun sent t' w' _ => ?_) fun _ _ _ h' => h'
            rw [wp_ite]
            split
            · exact wp_uploadState_serving trivial
            · trivial

end Bounds

/-! ## 4. A request -/

/-- The uploader reads a request for a file whose payload is shorter than a position. -/
structure ShortRequest [Crates] (t : Thread SingleUploader) (msg : UInt16) (payload sum : List UInt8) :
    Prop where
  running : t.self.shouldShutdown = false
  message : msg = msgFileSelectionContinue
  short : payload.length < 8
  right : RightSum msg payload sum
  /-- The counter is not at its end before the message is read. -/
  room : t.encryptedStream.nonce + frameCount payload ≤ nonceMax

section Request

variable [Crates] {checked : Bool} {mayFail mayStop : Prop} {t : Thread SingleUploader} {w : Serving}
  {msg : UInt16} {payload sum json : List UInt8} {everythingFile : SharedFile} {fuel : Nat}

theorem wp_runLoopIn_returns (hcoming : w.coming = requestFrames msg payload sum)
    (hsmall : payload.length ≤ maxDataSize) (hsum : sum.length = crcSize)
    (hjson : json.length < maxPosition) (hfuel : 2 ^ 64 ≤ fuel) (hpending : w.pending < fuel)
    (hlong : ¬ ShortRequest t msg payload sum) :
    wp (serving WithinOffsets mayFail mayStop)
      (runLoopIn checked fuel everythingFile json : Up K RunLoopResult)
      (fun _ _ _ => True) (fun e _ _ => Returned e) t w := by
  have hpos : maxPosition = 2 ^ 63 := rfl
  refine (wp_bind read _).mpr (wp_read_serving hcoming hsmall hsum (fun t' ht' hroom harrived => ?_)
    fun e _ _ _ => ⟨e, rfl⟩)
  refine (wp_bind (readReceiver fuel) _).mpr (wp_readReceiver_serving fuel hpending
    fun stop pending hle hstays _ => ?_)
  show wp _ (if stop = true then pure RunLoopResult.success else _) _ _ _ _
  rw [wp_ite]
  split
  · trivial
  rename_i hstop
  show wp _ (if t'.encryptedStream.getMessage = msgFileList then _ else _) _ _
    { t' with self := { t'.self with
      shouldShutdown := stop, activeMsg := t'.encryptedStream.getMessage } } _
  rw [harrived.message, wp_ite]
  split
  · exact wp_seq (wp_sendListIn hjson fuel 0 json.length (Nat.zero_add _) (by omega)
      (Nat.lt_of_le_of_lt hle hpending)) (fun _ _ _ _ => trivial) fun _ _ _ h' => h'
  rw [wp_ite]
  split
  · rename_i hmsg
    refine wp_seq (wp_serveFileIn ?_ hfuel (Nat.lt_of_le_of_lt hle hpending))
      (fun _ _ _ _ => trivial) fun _ _ _ h' => h'
    by_cases hright : RightSum msg payload sum
    · refine .inr ⟨payload, harrived.taken hright, ?_⟩
      by_contra hshort
      refine hlong ⟨?_, hmsg, Nat.not_le.mp hshort, hright, hroom⟩
      rw [← ht']
      exact Bool.not_eq_true _ ▸ fun h => hstop (hstays h)
    · exact .inl (harrived.mismatch hright)
  rw [wp_ite]
  split
  · trivial
  · exact ⟨_, rfl⟩

theorem wp_runLoopIn_panics (hcoming : w.coming = requestFrames msg payload sum)
    (hsum : sum.length = crcSize) (hpending : w.pending < fuel)
    (hshort : ShortRequest t msg payload sum) :
    wp (serving WithinOffsets False False)
      (runLoopIn checked fuel everythingFile json : Up K RunLoopResult)
      (fun _ _ _ => False) (fun e _ _ => e = .panic) t w := by
  have hsmall : payload.length ≤ maxDataSize := by
    have hlt := hshort.short
    have hmax : maxDataSize = 100000 := rfl
    omega
  refine (wp_bind read _).mpr (wp_read_serving hcoming hsmall hsum (fun t' ht' _ harrived => ?_)
    fun e _ _ hcause => ?_)
  rotate_left
  · have hroom := hshort.room
    rcases hcause with h | h
    · exact h.elim
    · omega
  refine (wp_bind (readReceiver fuel) _).mpr (wp_readReceiver_serving fuel hpending
    fun stop pending hle _ hcause => ?_)
  have hstop : stop = false := by
    rw [ht', hshort.running] at hcause
    simpa using hcause
  subst hstop
  show wp _ (if t'.encryptedStream.getMessage = msgFileList then _ else _) _ _
    { t' with self := { t'.self with
      shouldShutdown := false, activeMsg := t'.encryptedStream.getMessage } } _
  rw [harrived.message, hshort.message, if_neg (by decide), if_pos rfl]
  refine (wp_bind _ _).mpr ((wp_bind _ _).mpr (wp_getPayload_of (harrived.taken hshort.right) ?_))
  have hnone : slice payload 0 8 = none :=
    if_neg fun h => absurd h.2 (Nat.not_le.mpr hshort.short)
  rw [hnone]
  exact rfl

/-- **The answer to a message of the peer ends with `Ok` or `Err`, exactly if the message is no short
    request**: whatever the listing and the file are, in every run. -/
theorem runLoopIn_returns_iff (checked : Bool) (mayFail mayStop : Prop) (everythingFile : SharedFile)
    (hcoming : w.coming = requestFrames msg payload sum) (hsmall : payload.length ≤ maxDataSize)
    (hsum : sum.length = crcSize) (hjson : json.length < maxPosition) (hfuel : 2 ^ 64 ≤ fuel)
    (hpending : w.pending < fuel) :
    (∀ e t' w', Reach (serving WithinOffsets mayFail mayStop)
      ((runLoopIn checked fuel everythingFile json : Up K RunLoopResult) t, w) (.fail e t', w') →
        Returned e) ↔ ¬ ShortRequest t msg payload sum := by
  constructor
  · intro h hshort
    obtain ⟨p, w', hrun, hend⟩ := reach_some_end
      (serving_total fun position => ⟨⟨[], Nat.zero_le _⟩, fun hne => absurd rfl hne⟩)
      (@wp_runLoopIn_panics K _ checked t w msg payload sum json everythingFile fuel hcoming hsum
        hpending hshort)
    rcases hend with ⟨a, t', -, hfalse⟩ | ⟨e, t', rfl, rfl⟩
    · exact hfalse
    · obtain ⟨text, htext⟩ := h .panic t' w' (Reach.map (g := id) serving_calm hrun)
      cases htext
  · intro hlong e t' w' hrun
    have hwp := @wp_runLoopIn_returns K _ checked mayFail mayStop t w msg payload sum json everythingFile
      fuel hcoming hsmall hsum hjson hfuel hpending hlong
    exact holds_reach (c := (_, w)) hwp hrun

end Request

/-- A request for a file with no payload. -/
def emptyRequest : Serving :=
  { position := 0, sent := [], coming := requestFrames msgFileSelectionContinue [] [0, 0, 0, 0]
    pending := 0 }

/-- A request for what is behind the first byte of a file, with its checksum: whatever fails, and whenever
    the uploader is told to stop. -/
theorem runLoopIn_returns_iff_file :
    ¬ @ShortRequest idleCrates freshUploader msgFileSelectionContinue (requestPayload 1 ['a'])
        (beBytes crcSize 0) ∧
    ∀ e t' w', Reach (serving WithinOffsets True True)
      ((@runLoopIn (symbolic id) idleCrates true (2 ^ 64) threeBytesListing []) freshUploader, threeBytesRequest)
        (.fail e t', w') → Returned e := by
  have hlong : ¬ @ShortRequest idleCrates freshUploader msgFileSelectionContinue (requestPayload 1 ['a'])
      (beBytes crcSize 0) :=
    fun h => absurd (@ShortRequest.short idleCrates _ _ _ _ h) (by decide)
  have hcoming : threeBytesRequest.coming =
      requestFrames msgFileSelectionContinue (requestPayload 1 ['a']) (beBytes crcSize 0) :=
    @messageFrames_eq idleCrates _ _
  exact ⟨hlong, (@runLoopIn_returns_iff (symbolic id) idleCrates freshUploader threeBytesRequest
    msgFileSelectionContinue (requestPayload 1 ['a']) (beBytes crcSize 0) [] (2 ^ 64) true True True
    threeBytesListing hcoming (by decide) (length_beBytes _ _) (by decide) (Nat.le_refl _)
    (by decide)).mpr hlong⟩

/-- **The uploader panics**: it takes eight bytes of a payload without any. -/
theorem runLoopIn_panics : ∃ t' w', Reach (serving WithinOffsets False False)
    ((@runLoop (symbolic id) idleCrates (2 ^ 64) threeBytesListing []) freshUploader, emptyRequest)
      (.fail .panic t', w') := by
  let _ : Crates := idleCrates
  have hshort : ShortRequest freshUploader msgFileSelectionContinue [] [0, 0, 0, 0] :=
    { running := rfl
      message := rfl
      short := by decide
      right := fun _ hne => absurd rfl hne
      room := by decide }
  rw [← @runLoopIn_false (symbolic id) idleCrates]
  obtain ⟨p, w', hrun, hend⟩ := reach_some_end
    (serving_total fun position => ⟨⟨[], Nat.zero_le _⟩, fun hne => absurd rfl hne⟩)
    (@wp_runLoopIn_panics (symbolic id) idleCrates false freshUploader emptyRequest
      msgFileSelectionContinue [] [0, 0, 0, 0] [] threeBytesListing (2 ^ 64) rfl rfl (by decide) hshort)
  rcases hend with ⟨a, t', -, hfalse⟩ | ⟨e, t', rfl, rfl⟩
  · exact hfalse.elim
  · exact ⟨t', w', hrun⟩

end SingleUploader

end Transmitic
