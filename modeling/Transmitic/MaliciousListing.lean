/-
  File:      Transmitic/MaliciousListing.lean
  Subject:   CAN A LISTING MAKE THE DOWNLOADER PANIC?

  A peer may send any tree. The downloader takes the last component of every path it comes to and unwraps
  it, it copies the path of a file into the buffer of its request, and it unwraps its active download for
  every file below a directory, also after one of them has finished it.

  * `Harmless` -- the listings that do none of this: every path has a name, every request has its place
    in the buffer, and a file below a directory has the path of the directory only if it is the last one;
  * `acceptedFrames` -- the surroundings of a downloader whose peers send listings with `sent`, in frames
    that `read` accepts;
  * `run_noPanic` -- **`run` does not panic, where the listings are harmless**;
  * `run_panics` -- a listing with a file whose path is the root directory.
-/
import Transmitic.DownloaderSession
import Transmitic.FrameReader
import Transmitic.LocalPaths

namespace Transmitic

open Lib

/-! ## 1. Listings -/

/-- The payload of a request for a file: a position, and the path. -/
def requestLength (f : SharedFile) : Nat := 8 + (utf8 f.path).length

/-- A listing that cannot make the downloader panic. -/
structure Harmless (listing : SharedFile) : Prop where
  /-- Every path has a last component. -/
  named : ∀ f ∈ nodes listing, getSanitizedDiskFileName f ≠ .error .panic
  /-- The request for a file that is not empty has its place in the buffer, with its checksum. -/
  short : ∀ path found, getFileByPath path listing = some found → ∀ f ∈ leaves found,
    f.fileSize ≠ 0 → requestLength f + crcSize ≤ totalBufferSize
  /-- No file but the last one below a directory finishes the download of the directory. -/
  last : ∀ path found, getFileByPath path listing = some found → ∀ f ∈ (leaves found).dropLast,
    f.path ≠ found.path

/-! ## 2. The surroundings -/

/-- A frame is read, the first one of a message or the second one: what is announced has its place among
    the encrypted bytes, and what comes has its place in the plain buffer. -/
def FrameAccepted (pending : Bool) (size : Nat) (pending' : Bool) : Unsealed → Prop
  | .plain bytes => bytes.length + cryptoExtensionSize = size ∧
    if pending then payloadOffset + bytes.length ≤ totalBufferSize ∧ pending' = false
    else announced bytes + cryptoExtensionSize ≤ totalCryptoBufferSize ∧
      pending' = decide (sizeOf' bytes ≠ 0)
  | _ => pending' = false

/-- What the cache has for the user is a listing of a peer, after the cleaning. -/
def ListingOf (sent : SharedFile → Prop) (data : Option (Option SharedFile)) : Prop :=
  ∀ listing, data = some (some listing) → ∃ f, sent f ∧ listing = received f

/-- The surroundings of a downloader whose peers send listings with `sent`, in frames that `read`
    accepts. The state says whether the next frame is the second one of a message. Only what came from a
    peer, after the cleaning, is put into the cache. The handshake fails by an error only. -/
def acceptedFrames (sent : SharedFile → Prop) : DlEnv Bool where
  ok _ _ c := match c with
    | .inr (.refreshInsert _ listing) => ∃ f, listing = received f
    | _ => True
  step pending _ c a pending' :=
    match c, a with
    | .inl (.unseal _ size), a => FrameAccepted pending size pending' a
    | .inr (.refreshGet _), a => pending' = false ∧ ListingOf sent a
    | .inr (.connect _ _), a => pending' = false ∧ a ≠ Except.error Exc.panic
    | _, _ => pending' = false

/-- No frame of a message is read halfway. -/
def atRest (_ : Thread SingleDownloader) (pending : Bool) : Prop := pending = false

section NoPanic

variable {sent : SharedFile → Prop} {α β : Type} {t : Thread SingleDownloader}

/-- The text fails by an error only, not by a panic. -/
abbrev NoPanic (sent : SharedFile → Prop) (m : Dl α) : Prop :=
  EndsIn (acceptedFrames sent) atRest (fun x => x ≠ .panic) m

theorem calm_self : NoPanic sent self := endsIn_bind endsIn_get fun _ => endsIn_pure _

theorem calm_modifySelf (f : SingleDownloader → SingleDownloader) : NoPanic sent (modifySelf f) :=
  fun _ _ h => h

theorem calm_modifyStream (f : EncryptedStream → EncryptedStream) :
    NoPanic sent (modifyStream f : Dl Unit) := fun _ _ h => h

theorem calm_command {c : DownloaderCmd} (hok : ∀ s w, (acceptedFrames sent).ok w s (.inr c)) :
    NoPanic sent (command c) := by
  refine fun s w hw => ⟨hok s w, fun a w' hs => ?_⟩
  cases c
  case refreshGet nickname => exact hs.1
  case connect sharedUser privateIdBytes => exact hs.1
  all_goals exact hs

theorem calm_orThrow {x : Except Exc α} (h : x ≠ .error .panic) : NoPanic sent (orThrow x : Dl α) := by
  cases x with
  | ok a => exact endsIn_pure a
  | error e => exact endsIn_throw fun he => h (by rw [he])

theorem calm_tryIo (x : Except Str α) : NoPanic sent (tryIo x) := by
  refine calm_orThrow ?_
  cases x with
  | ok a => exact nofun
  | error e => exact nofun

theorem calm_throwIf (b : Prop) [Decidable b] (e : Str) : NoPanic sent (throwIf b (.err e) : Dl Unit) :=
  endsIn_ite (fun _ => endsIn_throw nofun) fun _ => endsIn_pure _

/-! ## 3. Reports and the disk -/

theorem calm_sendApp (m : AppAggMessage) : NoPanic sent (sendApp m) := calm_command fun _ _ => trivial

theorem calm_appUpdateOffline : NoPanic sent appUpdateOffline :=
  endsIn_bind calm_self fun _ => calm_sendApp _

theorem calm_appUpdateInProgress : NoPanic sent appUpdateInProgress :=
  endsIn_bind calm_self fun _ => calm_sendApp _

theorem calm_appUpdateInvalidFile (path message : Str) : NoPanic sent (appUpdateInvalidFile path message) :=
  endsIn_bind calm_self fun _ => calm_sendApp _

theorem calm_writeQueueFile : NoPanic sent writeQueueFile :=
  endsIn_bind calm_self fun _ => endsIn_bind (calm_command fun _ _ => trivial) fun a => calm_tryIo a

theorem calm_writeQueue : NoPanic sent writeQueue := by
  refine endsIn_bind calm_self fun d => endsIn_ite (fun _ => ?_) fun _ => calm_writeQueueFile
  refine endsIn_bind (calm_command fun _ _ => trivial) fun a => ?_
  cases a with
  | done => exact endsIn_pure _
  | notFound => exact endsIn_pure _
  | failed e => exact calm_writeQueueFile

theorem calm_setActiveDownloadFinished : NoPanic sent setActiveDownloadFinished :=
  endsIn_bind (calm_modifySelf _) fun _ => endsIn_bind calm_writeQueue fun _ => calm_modifySelf _

theorem calm_completeQueueItem (path destinationPath : Str) :
    NoPanic sent (completeQueueItem path destinationPath) :=
  endsIn_bind calm_setActiveDownloadFinished fun _ => endsIn_bind calm_self fun _ =>
    endsIn_bind calm_self fun _ => calm_sendApp _

theorem calm_invalidateQueueItem (path message : Str) : NoPanic sent (invalidateQueueItem path message) :=
  endsIn_bind calm_setActiveDownloadFinished fun _ => calm_appUpdateInvalidFile _ _

theorem calm_createEmptyFile (T : Transfer) (doesFileExist : Bool) :
    NoPanic sent (createEmptyFile T doesFileExist) := by
  refine endsIn_ite (fun _ => ?_) fun _ => endsIn_pure _
  refine endsIn_bind (calm_command fun _ _ => trivial) fun a => endsIn_bind (calm_tryIo a) fun _ => ?_
  exact endsIn_bind (calm_command fun _ _ => trivial) fun a => calm_tryIo a

theorem calm_openDestination (T : Transfer) : NoPanic sent (openDestination T) := by
  refine endsIn_bind (calm_command fun _ _ => trivial) fun a => endsIn_bind (calm_tryIo a) fun _ => ?_
  refine endsIn_bind (calm_command fun _ _ => trivial) fun _ => endsIn_ite (fun _ => ?_) fun _ => ?_
  · exact endsIn_bind (calm_command fun _ _ => trivial) fun a => calm_tryIo a
  · exact endsIn_bind (calm_command fun _ _ => trivial) fun a => calm_tryIo a

theorem calm_localFileLength (path : Str) (doesFileExist : Bool) :
    NoPanic sent (localFileLength path doesFileExist) :=
  endsIn_ite (fun _ => endsIn_bind (calm_command fun _ _ => trivial) fun a => calm_tryIo a)
    fun _ => endsIn_pure _

theorem calm_updateProgress : NoPanic sent updateProgress :=
  endsIn_bind (calm_command fun _ _ => trivial) fun _ =>
    endsIn_ite (fun _ => calm_appUpdateInProgress) fun _ => endsIn_pure _

/-- It ends with an error. -/
theorem calm_failTransfer (T : Transfer) (isLocalFinished isRemoteFinished : Bool) :
    wp (acceptedFrames sent) (failTransfer T isLocalFinished isRemoteFinished) (fun _ _ _ => False)
      (fun x _ _ => x ≠ .panic) t false := by
  have hfinish : NoPanic sent (if T.isQueueFileDownloading then setActiveDownloadFinished else pure ()) :=
    endsIn_ite (fun _ => calm_setActiveDownloadFinished) fun _ => endsIn_pure _
  refine wp_seq (hfinish t false rfl) (fun _ t w hw => ?_) fun _ _ _ h => h
  exact wp_seq (calm_appUpdateInvalidFile _ _ t w hw) (fun _ _ _ _ => nofun) fun _ _ _ h => h

theorem calm_receive (m : MessageSingleDownloader) : NoPanic sent (receive m) := by
  cases m with
  | newDownload s => exact endsIn_bind (calm_modifySelf _) fun _ => calm_writeQueue
  | cancelAllDownloads =>
    exact endsIn_bind (calm_modifySelf _) fun _ => endsIn_bind calm_writeQueue fun _ =>
      calm_appUpdateInProgress
  | cancelDownload s =>
    exact endsIn_bind (calm_modifySelf _) fun _ => endsIn_bind calm_writeQueue fun _ =>
      calm_appUpdateInProgress
  | removeUser => exact endsIn_bind (calm_modifySelf _) fun _ => calm_writeQueue
  | newConfig config => exact calm_modifySelf fun d => { d with stopDownloading := true, config }
  | newSharedUser s =>
    exact calm_modifySelf fun d => { d with stopDownloading := true, sharedUser := s }
  | pauseDownloads =>
    exact calm_modifySelf fun d => { d with stopDownloading := true, isDownloadingPaused := true }
  | resumeDownloads => exact calm_modifySelf fun d => { d with isDownloadingPaused := false }
  | restartConnection => exact calm_modifySelf fun d => { d with stopDownloading := true }

theorem calm_readReceiver : ∀ fuel, NoPanic sent (readReceiver fuel)
  | 0 => endsIn_throw nofun
  | fuel + 1 => by
    refine endsIn_bind (endsIn_bind (calm_command fun _ _ => trivial) fun a => ?_) fun _ =>
      endsIn_bind (calm_command fun _ _ => trivial) fun a => ?_
    · cases a with
      | value enc => exact calm_modifySelf _
      | empty => exact endsIn_pure _
      | disconnected => exact endsIn_throw nofun
    · cases a with
      | value m => exact endsIn_bind (calm_receive m) fun _ => calm_readReceiver fuel
      | empty => exact endsIn_pure _
      | disconnected => exact endsIn_throw nofun

/-! ## 4. Messages -/

/-- What is in the buffer can be taken. -/
def Loaded [Crates] (t : Thread SingleDownloader) : Prop :=
  t.encryptedStream.getPayload ≠ .error .panic

variable [Crates]

theorem calm_getPayload (h : Loaded t) : wp (acceptedFrames sent) (getPayload : Dl (List UInt8))
    (fun _ t' w => w = false ∧ t' = t) (fun x _ _ => x ≠ .panic) t false := by
  show wp _ (orThrow t.encryptedStream.getPayload) _ _ t false
  unfold Loaded at h
  cases hp : t.encryptedStream.getPayload with
  | ok payload => exact ⟨rfl, rfl⟩
  | error e =>
    intro he
    rw [hp, he] at h
    exact h rfl

/-- **A message that is accepted leaves its payload in the buffer.** -/
theorem calm_readMessage : wp (acceptedFrames sent) (read : Dl Unit)
    (fun _ t' w => w = false ∧ t'.self = t.self ∧ Loaded t') (fun x _ _ => x ≠ .panic) t false := by
  refine wp_read_of (J := fun front w => announced front + cryptoExtensionSize ≤ totalCryptoBufferSize ∧
      w = decide (sizeOf' front ≠ 0)) (fun n => ⟨trivial, fun a w' hs => ⟨fun front ha => ?_, fun _ e => nofun⟩⟩)
    (fun _ _ _ _ _ _ => nofun) (fun front rest t' w' ht hlen hb hJ hz => ?_)
    (fun front _ _ _ hJ hlong => absurd hJ.1 (Nat.not_le.mpr hlong))
    fun front t' n w' ht hlen hJ hz => ⟨trivial, fun a w'' hs => ⟨fun bytes ha => ?_, fun _ e _ _ => nofun⟩⟩
  · subst ha
    obtain ⟨hsize, hannounced⟩ := hs
    exact ⟨Nat.add_right_cancel hsize, hannounced⟩
  · refine ⟨by simp [hJ.2, hz], ht, getPayload_noPanic ?_⟩
    rw [payloadSize_front hb hlen, hz, if_neg (by simp)]
    decide
  · subst ha
    obtain ⟨-, rfl⟩ := hJ
    rw [decide_eq_true hz] at hs
    obtain ⟨hbytes, hroom, rfl⟩ := hs
    have hbytes : bytes.length = announced front := Nat.add_right_cancel hbytes
    refine ⟨fun t'' rest ht'' hb => ⟨rfl, ht'', getPayload_noPanic ?_⟩, fun _ _ _ => nofun,
      fun hover => absurd hroom (Nat.not_le.mpr hover)⟩
    rw [payloadSize_front hb hlen, getMessage_front hb hlen]
    rw [hbytes, announced] at hroom
    split
    · rename_i hcrc
      rw [if_pos hcrc.1] at hroom
      omega
    · omega

/-- A message that fits is written, or is an error. -/
theorem calm_write {msg : UInt16} {payload : List UInt8}
    (h : payload.length + crcSize ≤ totalBufferSize) : NoPanic sent (write msg payload : Dl Unit) := by
  intro t w hw
  refine wp_write_sealed (J := fun w => w = false) h (fun t' n _ => ⟨trivial, fun a w' hs => ?_⟩)
    (fun _ t' w' _ hw => hw) (fun _ t' n w' _ _ => ⟨trivial, fun a w'' hs => ?_⟩)
    fun e t' w' _ _ _ => nofun
  · exact ⟨fun _ => hs, fun _ e _ _ => nofun⟩
  · exact ⟨fun _ => ⟨fun _ _ => hs, fun e _ _ _ => nofun⟩, fun _ e _ _ => nofun⟩

/-! ## 5. The listing -/

theorem calm_readEverythingFile : ∀ (fuel : Nat) (jsonBytes : List UInt8),
    NoPanic sent (readEverythingFile fuel jsonBytes : Dl (List UInt8))
  | 0, _ => endsIn_throw nofun
  | fuel + 1, jsonBytes => by
    rintro t w rfl
    refine wp_seq calm_readMessage (fun _ t₁ w₁ h₁ => ?_) fun _ _ _ h => h
    obtain ⟨rfl, -, hloaded⟩ := h₁
    refine (wp_bind getMessage _).mpr ?_
    show wp _ (getPayload >>= _) _ _ t₁ false
    refine wp_seq (calm_getPayload hloaded) (fun payload t₂ w₂ h₂ => ?_) fun _ _ _ h => h
    obtain ⟨rfl, rfl⟩ := h₂
    refine endsIn_bind endsIn_get (fun _ => endsIn_bind (calm_throwIf _ _) fun _ => ?_) t₂ false rfl
    exact endsIn_ite (fun _ => endsIn_pure _) fun _ => calm_readEverythingFile fuel _

/-- What comes out of it went through the cleaning. -/
theorem calm_downloadEverythingFile (fuel : Nat) :
    wp (acceptedFrames sent) (downloadEverythingFile fuel : Dl SharedFile)
      (fun listing _ w => w = false ∧ ∃ f, listing = received f) (fun x _ _ => x ≠ .panic) t false := by
  refine wp_seq (calm_write (by decide) t false rfl) (fun _ t w hw => ?_) fun _ _ _ h => h
  refine wp_seq (calm_readEverythingFile fuel [] t w hw) (fun jsonBytes t w hw => ?_) fun _ _ _ h => h
  refine wp_seq (calm_orThrow ?_ t w hw) (fun filesStr t w hw => ?_) fun _ _ _ h => h
  · cases fromUtf8 jsonBytes with
    | none => simp
    | some filesStr => simp
  have hparsed : NoPanic sent (orThrow (orErr id (Crates.listingFromJson filesStr)) : Dl SharedFile) := by
    refine calm_orThrow ?_
    cases Crates.listingFromJson filesStr with
    | ok f => simp [orErr]
    | error e => simp [orErr]
  exact wp_seq (hparsed t w hw) (fun f _ _ hw => ⟨hw, f, rfl⟩) fun _ _ _ h => h

theorem calm_setEverythingFile (fuel : Nat) (forceDownload : Bool) :
    NoPanic sent (setEverythingFile fuel forceDownload) := by
  have hneeded : NoPanic sent (shouldDownloadEverythingFile forceDownload) := by
    refine endsIn_bind endsIn_get fun t => endsIn_ite (fun _ => endsIn_pure _) fun _ => ?_
    refine endsIn_bind (calm_command fun _ _ => trivial) fun a => ?_
    cases a with
    | none => exact endsIn_throw nofun
    | some data => exact endsIn_pure _
  refine endsIn_bind hneeded fun needed => endsIn_ite (fun _ => ?_) fun _ => endsIn_pure _
  rintro t w rfl
  refine wp_seq (calm_downloadEverythingFile fuel) (fun listing t w h => ?_) fun _ _ _ h => h
  obtain ⟨hw, f, rfl⟩ := h
  have hok : ∀ nickname s w, (acceptedFrames sent).ok w s (.inr (.refreshInsert nickname (received f))) :=
    fun _ _ _ => ⟨f, rfl⟩
  exact endsIn_bind calm_self (fun d => calm_command (hok d.sharedUser.nickname)) t w hw

/-! ## 6. One file -/

/-- The item is the active download of a downloader that has not been told to stop. -/
def AtWorkOn (q : DownloadQueueItem) (t : Thread SingleDownloader) : Prop :=
  t.self.stopDownloading = false ∧ t.self.activeDownloadPath = some q

/-- After a file: it was the file of the item, the downloader has been told to stop, or the item is still
    the active one. -/
def Left (isQueueFile : Prop) (q : DownloadQueueItem) (t : Thread SingleDownloader) : Prop :=
  isQueueFile ∨ t.self.stopDownloading = true ∨ t.self.activeDownloadPath = some q

omit [Crates] in
/-- A method that leaves everything but the counted bytes alone. -/
theorem calm_firm {P : DownloaderCmd → Prop} {m : Dl α} (hm : NoPanic sent m) (hf : Firm P m) :
    wp (acceptedFrames sent) m (fun _ t' w => w = false ∧ uncounted t' = uncounted t)
      (fun x _ _ => x ≠ .panic) t false :=
  wp_conseq (wp_keeps hf.keeps (hm t false rfl)) (fun _ _ _ h => h) fun _ _ _ h => h.1

omit [Crates] in
theorem atWorkOn_of_uncounted {q : DownloadQueueItem} {t t' : Thread SingleDownloader}
    (h : uncounted t' = uncounted t) (hr : AtWorkOn q t) : AtWorkOn q t' := by
  have hself := congrArg Prod.fst h
  exact ⟨(congrArg SingleDownloader.stopDownloading hself).trans hr.1,
    (congrArg SingleDownloader.activeDownloadPath hself).trans hr.2⟩

theorem loaded_of_stream {t t' : Thread SingleDownloader} (h : t'.encryptedStream = t.encryptedStream)
    (hl : Loaded t) : Loaded t' := by
  unfold Loaded
  rw [h]
  exact hl

omit [Crates] in
theorem calm_polled (fuel : Nat) (t : Thread SingleDownloader) :
    wp (acceptedFrames sent) (readReceiver fuel) (fun _ t' w => w = false ∧ Polled t t')
      (fun x _ _ => x ≠ .panic) t false :=
  wp_conseq (wp_also (wp_readReceiver fuel t) (calm_readReceiver fuel t false rfl))
    (fun _ _ _ h => h) fun _ _ _ h => h.1

omit [Crates] in
/-- A downloader that goes on after it has read its channels goes on with the same item. -/
theorem atWorkOn_of_polled {q : DownloadQueueItem} {t t' : Thread SingleDownloader} (h : Polled t t')
    (hgo : t'.self.stopDownloading = false) (hr : t.self.stopDownloading = false → AtWorkOn q t) :
    AtWorkOn q t' := by
  have hstop : t.self.stopDownloading = false := by
    by_contra hne
    rw [h.stop (by simpa using hne)] at hgo
    cases hgo
  obtain ⟨items, paused, hself⟩ := h.going hgo
  refine ⟨hgo, ?_⟩
  rw [hself]
  exact (hr hstop).2

/-- **The loop over the chunks of a file.** -/
theorem calm_transferLoop (T : Transfer) : ∀ (fuel : Nat) (remoteMessage : UInt16) (current : UInt64)
    {t : Thread SingleDownloader}, Loaded t → AtWorkOn T.queueDownload t →
    wp (acceptedFrames sent) (transferLoop T fuel remoteMessage current)
      (fun _ t' w => w = false ∧ Left (T.isQueueFileDownloading = true) T.queueDownload t')
      (fun x _ _ => x ≠ .panic) t false
  | 0, _, _, _, _, _ => nofun
  | fuel + 1, remoteMessage, current, t, hloaded, hready => by
    refine wp_seq (calm_getPayload hloaded) (fun payload t₁ w h => ?_) fun _ _ _ h => h
    obtain ⟨rfl, rfl⟩ := h
    refine (wp_bind _ _).mpr ((wp_modifySelf _).mpr ?_)
    generalize ht : (⟨_, t₁.encryptedStream⟩ : Thread SingleDownloader) = t
    have hready : AtWorkOn T.queueDownload t := by
      rw [← ht]
      exact hready
    refine wp_seq (calm_firm (calm_command fun _ _ => trivial)
      (still_command (P := fun _ => True) trivial).firm) (fun a t₂ w h => ?_) fun _ _ _ h => h
    obtain ⟨rfl, h₂⟩ := h
    refine wp_seq (calm_firm (calm_tryIo a) (still_tryIo (P := fun _ => True) a).firm)
      (fun _ t₃ w h => ?_) fun _ _ _ h => h
    obtain ⟨rfl, h₃⟩ := h
    refine wp_seq (calm_firm calm_updateProgress still_updateProgress.firm) (fun _ t₄ w h => ?_)
      fun _ _ _ h => h
    obtain ⟨rfl, h₄⟩ := h
    have hready := atWorkOn_of_uncounted (h₄.trans (h₃.trans h₂)) hready
    refine (wp_ite _ _ _).mpr ?_
    split
    · refine (wp_ite _ _ _).mpr ?_
      split
      · rename_i hfile
        exact wp_conseq (calm_completeQueueItem _ _ t₄ false rfl) (fun _ _ _ h => ⟨h, .inl hfile⟩)
          fun _ _ _ h => h
      · exact ⟨rfl, .inr (.inr hready.2)⟩
    refine (wp_ite _ _ _).mpr ?_
    split
    · exact wp_conseq (calm_failTransfer T _ _) (fun _ _ _ h => h.elim) fun _ _ _ h => h
    refine wp_seq calm_readMessage (fun _ t₅ w h => ?_) fun _ _ _ h => h
    obtain ⟨rfl, hself, hloaded⟩ := h
    have hready : AtWorkOn T.queueDownload t₅ := by
      rw [AtWorkOn, hself]
      exact hready
    refine (wp_bind getMessage _).mpr ?_
    refine (wp_bind self _).mpr ?_
    show wp _ (throwIf _ _ >>= _) _ _ t₅ false
    refine (wp_bind _ _).mpr ((wp_throwIf _ _).mpr ?_)
    split
    · intro h
      cases h
    refine wp_seq (calm_polled fuel t₅) (fun _ t₆ w h => ?_) fun _ _ _ h => h
    obtain ⟨rfl, hpolled⟩ := h
    show wp _ (if t₆.self.stopDownloading = true then pure () else _) _ _ t₆ false
    split
    · rename_i hstop
      exact ⟨rfl, .inr (.inl hstop)⟩
    · rename_i hstop
      exact calm_transferLoop T fuel _ _ (loaded_of_stream hpolled.encryptedStream hloaded)
        (atWorkOn_of_polled hpolled (by simpa using hstop) fun _ => hready)

/-- **A request for a file, and the file.** -/
theorem calm_transferFile {T : Transfer} (hshort : requestLength T.sharedFile + crcSize ≤ totalBufferSize)
    (fuel : Nat) (fileLength : UInt64) (hready : AtWorkOn T.queueDownload t) :
    wp (acceptedFrames sent) (transferFile fuel T fileLength)
      (fun _ t' w => w = false ∧ Left (T.isQueueFileDownloading = true) T.queueDownload t')
      (fun x _ _ => x ≠ .panic) t false := by
  have hwrite : wp (acceptedFrames sent) (write msgFileSelectionContinue
      (beBytes 8 fileLength.toNat ++ utf8 T.sharedFile.path) : Dl Unit)
      (fun _ t' w => w = false ∧ t'.self = t.self) (fun x _ _ => x ≠ .panic) t false := by
    refine wp_conseq (wp_keeps (keeps_write (P := fun _ => True) _ _) (calm_write ?_ t false rfl))
      (fun _ _ _ h => h) fun _ _ _ h => h.1
    rw [List.length_append, length_beBytes]
    exact hshort
  refine wp_seq hwrite (fun _ t₁ w h => ?_) fun _ _ _ h => h
  obtain ⟨rfl, h₁⟩ := h
  refine wp_seq calm_readMessage (fun _ t₂ w h => ?_) fun _ _ _ h => h
  obtain ⟨rfl, h₂, hloaded⟩ := h
  have hready : AtWorkOn T.queueDownload t₂ := by
    rw [AtWorkOn, h₂, h₁]
    exact hready
  refine (wp_bind getMessage _).mpr ?_
  refine (wp_ite _ _ _).mpr ?_
  split
  · refine wp_seq (calm_setEverythingFile fuel true t₂ false rfl) (fun _ t w _ => ?_) fun _ _ _ h => h
    intro h
    cases h
  · refine (wp_bind self _).mpr ?_
    show wp _ (throwIf _ _ >>= _) _ _ t₂ false
    refine (wp_bind _ _).mpr ((wp_throwIf _ _).mpr ?_)
    split
    · intro h
      cases h
    refine wp_seq (calm_firm (calm_openDestination T) (still_openDestination T).firm)
      (fun _ t₃ w h => ?_) fun _ _ _ h => h
    obtain ⟨rfl, h₃⟩ := h
    exact calm_transferLoop T fuel _ _ (loaded_of_stream (congrArg Prod.snd h₃) hloaded)
      (atWorkOn_of_uncounted h₃ hready)

omit [Crates] in
/-- A file that is longer than the local one is not empty. -/
theorem nonempty_of_lt {fileLength fileSize : UInt64} (h : fileLength < fileSize) : fileSize ≠ 0 := by
  rintro rfl
  exact absurd (UInt64.lt_iff_toNat_lt.mp h) (Nat.not_lt_zero _)

omit [Crates] in
/-- The checks on the file of the item: where it has to be transferred, nothing has changed. -/
theorem calm_checkQueueFile (T : Transfer) (doesFileExist : Bool) (fileLength : UInt64)
    (hready : AtWorkOn T.queueDownload t) :
    wp (acceptedFrames sent) (checkQueueFile T doesFileExist fileLength)
      (fun needed t' w => w = false ∧
        (needed = true → AtWorkOn T.queueDownload t' ∧ T.sharedFile.fileSize ≠ 0))
      (fun x _ _ => x ≠ .panic) t false := by
  have hended : ∀ {m : Dl Unit}, NoPanic sent m → ∀ {t},
      wp (acceptedFrames sent) (m >>= fun _ => pure false)
        (fun needed t' w => w = false ∧
        (needed = true → AtWorkOn T.queueDownload t' ∧ T.sharedFile.fileSize ≠ 0))
        (fun x _ _ => x ≠ .panic) t false := by
    intro m hm t
    exact wp_seq (hm t false rfl) (fun _ _ _ h => ⟨h, nofun⟩) fun _ _ _ h => h
  unfold checkQueueFile
  split
  · exact hended (calm_invalidateQueueItem _ _)
  rename_i hsize
  split
  · rename_i hless
    rw [not_not.mp hsize] at hless
    exact ⟨rfl, fun _ => ⟨hready, nonempty_of_lt hless⟩⟩
  split
  · refine wp_seq (calm_createEmptyFile T doesFileExist t false rfl) (fun _ t w hw => ?_)
      fun _ _ _ h => h
    obtain rfl : w = false := hw
    exact hended (calm_completeQueueItem _ _)
  · exact hended (calm_invalidateQueueItem _ _)

omit [Crates] in
/-- The checks on a file below a directory leave the item the active one. -/
theorem calm_checkSubfile (T : Transfer) (doesFileExist : Bool) (fileLength : UInt64)
    (hready : AtWorkOn T.queueDownload t) :
    wp (acceptedFrames sent) (checkSubfile T doesFileExist fileLength)
      (fun needed t' w => w = false ∧ AtWorkOn T.queueDownload t' ∧
        (needed = true → T.sharedFile.fileSize ≠ 0)) (fun x _ _ => x ≠ .panic) t false := by
  show wp _ (if T.queueDownload.fileSize < t.self.activeDownloadedCurrentBytes then _ else _) _ _ t false
  split
  · exact wp_seq (calm_invalidateQueueItem _ _ t false rfl) (fun _ _ _ _ => nofun) fun _ _ _ h => h
  split
  · rename_i hless
    exact ⟨rfl, hready, fun _ => nonempty_of_lt hless⟩
  split
  · refine wp_seq (calm_firm (calm_createEmptyFile T doesFileExist)
      (still_createEmptyFile T doesFileExist).firm) (fun _ t₁ w h => ?_) fun _ _ _ h => h
    exact ⟨h.1, atWorkOn_of_uncounted h.2 hready, nofun⟩
  · refine wp_seq (calm_firm (calm_appUpdateInvalidFile _ _) (still_appUpdateInvalidFile _ _).firm)
      (fun _ t₁ w h => ?_) fun _ _ _ h => h
    exact ⟨h.1, atWorkOn_of_uncounted h.2 hready, nofun⟩

/-- **One file of the active download.** -/
theorem calm_downloadFile {f : SharedFile} {q : DownloadQueueItem} (dir destinationPath : Str)
    (hshort : f.fileSize ≠ 0 → requestLength f + crcSize ≤ totalBufferSize) (fuel : Nat)
    (hready : AtWorkOn q t) :
    wp (acceptedFrames sent) (downloadFile fuel dir destinationPath f)
      (fun _ t' w => w = false ∧ Left (f.path = q.path) q t') (fun x _ _ => x ≠ .panic) t false := by
  refine wp_seq (calm_firm (calm_command fun _ _ => trivial)
    (still_command (P := fun _ => True) (c := .pathExists destinationPath) trivial).firm)
    (fun doesFileExist t₁ w h => ?_) fun _ _ _ h => h
  obtain ⟨rfl, h₁⟩ := h
  refine wp_seq (calm_firm (calm_localFileLength destinationPath doesFileExist)
    (still_localFileLength _ _).firm) (fun fileLength t₂ w h => ?_) fun _ _ _ h => h
  obtain ⟨rfl, h₂⟩ := h
  refine wp_seq (calm_firm (calm_modifySelf _) (firm_count (P := fun _ => True) fileLength))
    (fun _ t₃ w h => ?_) fun _ _ _ h => h
  obtain ⟨rfl, h₃⟩ := h
  have hready := atWorkOn_of_uncounted (h₃.trans (h₂.trans h₁)) hready
  show wp _ (orPanic t₃.self.activeDownloadPath >>= _) _ _ t₃ false
  rw [hready.2]
  let T : Transfer := ⟨dir, destinationPath, f, q⟩
  have hfile : T.isQueueFileDownloading = true ↔ f.path = q.path := decide_eq_true_iff
  show wp _ ((if T.isQueueFileDownloading = true then checkQueueFile T doesFileExist fileLength
    else checkSubfile T doesFileExist fileLength) >>= fun needed =>
      if needed = true then transferFile fuel T fileLength else pure ()) _ _ t₃ false
  have htransfer : ∀ {t}, AtWorkOn q t → f.fileSize ≠ 0 →
      wp (acceptedFrames sent) (transferFile fuel T fileLength)
        (fun _ t' w => w = false ∧ Left (f.path = q.path) q t') (fun x _ _ => x ≠ .panic) t false := by
    intro t hr hsize
    refine wp_conseq (calm_transferFile (T := T) (hshort hsize) fuel fileLength hr) (fun _ _ _ h => ?_)
      fun _ _ _ h => h
    rw [hfile] at h
    exact h
  by_cases hq : T.isQueueFileDownloading = true
  · rw [if_pos hq]
    refine wp_seq (calm_checkQueueFile T doesFileExist fileLength hready) (fun needed t w h => ?_)
      fun _ _ _ h => h
    obtain ⟨rfl, hr⟩ := h
    cases needed with
    | false => exact ⟨rfl, .inl (hfile.mp hq)⟩
    | true => exact htransfer (hr rfl).1 (hr rfl).2
  · rw [if_neg hq]
    refine wp_seq (calm_checkSubfile T doesFileExist fileLength hready) (fun needed t w h => ?_)
      fun _ _ _ h => h
    obtain ⟨rfl, hr, hsize⟩ := h
    cases needed with
    | false => exact ⟨rfl, .inr (.inr hr.2)⟩
    | true => exact htransfer hr (hsize rfl)

/-! ## 7. A listed file or directory -/

/-- Where files are to come, the item is the active one. -/
def Ahead (q : DownloadQueueItem) (files : List SharedFile) (t : Thread SingleDownloader) : Prop :=
  t.self.stopDownloading = false → files = [] ∨ AtWorkOn q t

omit [Crates] in
theorem ahead_of_polled {q : DownloadQueueItem} {files : List SharedFile}
    {t t' : Thread SingleDownloader} (h : Polled t t') (ha : Ahead q files t) : Ahead q files t' := by
  intro hgo
  by_cases hfiles : files = []
  · exact .inl hfiles
  · exact .inr (atWorkOn_of_polled h hgo fun hstop => (ha hstop).resolve_left hfiles)

omit [Crates] in
/-- A file that has the path of the item is the last one. -/
theorem last_of_dropLast {q : DownloadQueueItem} {f : SharedFile} {files : List SharedFile}
    (h : ∀ g ∈ (f :: files).dropLast, g.path ≠ q.path) (hf : f.path = q.path) : files = [] := by
  cases files with
  | nil => rfl
  | cons g files => exact absurd hf (h f (by simp))

mutual

/-- **A listed file or directory**, with `rest` as the files that are to come. -/
theorem calm_downloadSharedFile (fuel : Nat) (q : DownloadQueueItem) : ∀ (f : SharedFile) (dir : Str)
    (rest : List SharedFile) {t : Thread SingleDownloader},
    (∀ g ∈ nodes f, getSanitizedDiskFileName g ≠ .error .panic) →
    (∀ g ∈ leaves f, g.fileSize ≠ 0 → requestLength g + crcSize ≤ totalBufferSize) →
    (∀ g ∈ (leaves f ++ rest).dropLast, g.path ≠ q.path) →
    t.self.stopDownloading = false → Ahead q (leaves f ++ rest) t →
    wp (acceptedFrames sent) (downloadSharedFile fuel dir f) (fun _ t' w => w = false ∧ Ahead q rest t')
      (fun x _ _ => x ≠ .panic) t false
  | ⟨path, isDirectory, files, fileSize, sizeString⟩, dir, rest, t, hnamed, hshort, hlast, hgo, hahead => by
    rw [downloadSharedFile]
    have hname := hnamed _ (self_mem_nodes _)
    cases hn : getSanitizedDiskFileName ⟨path, isDirectory, files, fileSize, sizeString⟩ with
    | error e =>
      intro he
      rw [hn, he] at hname
      exact hname rfl
    | ok name =>
      show wp _ (if isDirectory then downloadFiles fuel (dir ++ name ++ ['/']) files
        else downloadFile fuel dir (dir ++ name) _) _ _ t false
      rw [leaves] at hshort hlast hahead
      cases isDirectory with
      | true =>
        rw [if_pos rfl] at hshort hlast hahead ⊢
        exact calm_downloadFiles fuel q files _ rest (fun g hg => hnamed g (List.mem_cons_of_mem _ hg))
          hshort hlast hgo hahead
      | false =>
        rw [if_neg (by decide)] at hshort hlast hahead ⊢
        have hready := (hahead hgo).resolve_left (List.cons_ne_nil _ _)
        refine wp_conseq (calm_downloadFile dir _ (hshort _ List.mem_cons_self) fuel hready)
          (fun _ t' w h => ⟨h.1, fun hgo' => ?_⟩) fun _ _ _ h => h
        rcases h.2 with hq | hstop | hactive
        · exact .inl (last_of_dropLast hlast hq)
        · rw [hstop] at hgo'
          cases hgo'
        · exact .inr ⟨hgo', hactive⟩

theorem calm_downloadFiles (fuel : Nat) (q : DownloadQueueItem) : ∀ (files : List SharedFile) (dir : Str)
    (rest : List SharedFile) {t : Thread SingleDownloader},
    (∀ g ∈ nodesIn files, getSanitizedDiskFileName g ≠ .error .panic) →
    (∀ g ∈ leavesIn files, g.fileSize ≠ 0 → requestLength g + crcSize ≤ totalBufferSize) →
    (∀ g ∈ (leavesIn files ++ rest).dropLast, g.path ≠ q.path) →
    t.self.stopDownloading = false → Ahead q (leavesIn files ++ rest) t →
    wp (acceptedFrames sent) (downloadFiles fuel dir files) (fun _ t' w => w = false ∧ Ahead q rest t')
      (fun x _ _ => x ≠ .panic) t false
  | [], _, _, _, _, _, _, _, hahead => by
    rw [downloadFiles]
    exact ⟨rfl, hahead⟩
  | f :: files, dir, rest, t, hnamed, hshort, hlast, hgo, hahead => by
    rw [downloadFiles]
    rw [nodesIn] at hnamed
    rw [leavesIn] at hshort
    rw [leavesIn, List.append_assoc] at hlast hahead
    refine wp_seq (calm_downloadSharedFile fuel q f dir _ (fun g hg => hnamed g (List.mem_append_left _ hg))
      (fun g hg => hshort g (List.mem_append_left _ hg)) hlast hgo hahead) (fun _ t₁ w h => ?_)
      fun _ _ _ h => h
    obtain ⟨rfl, h₁⟩ := h
    refine wp_seq (calm_polled fuel t₁) (fun _ t₂ w h => ?_) fun _ _ _ h => h
    obtain ⟨rfl, hpolled⟩ := h
    have h₂ := ahead_of_polled hpolled h₁
    show wp _ (if t₂.self.stopDownloading = true then pure () else _) _ _ t₂ false
    split
    · rename_i hstop
      exact ⟨rfl, fun hgo => by rw [hstop] at hgo; cases hgo⟩
    · rename_i hstop
      refine calm_downloadFiles fuel q files dir rest (fun g hg => hnamed g (List.mem_append_right _ hg))
        (fun g hg => hshort g (List.mem_append_right _ hg)) (fun g hg => ?_) (by simpa using hstop) h₂
      refine hlast g ?_
      by_cases hrest : leavesIn files ++ rest = []
      · rw [hrest] at hg
        cases hg
      · rw [List.dropLast_append_of_ne_nil hrest]
        exact List.mem_append_right _ hg

end

/-! ## 8. The queue -/

omit [Crates] in
/-- The item becomes the active one. -/
theorem calm_startItem {f : SharedFile} (root : Str) (item : DownloadQueueItem)
    (hname : getSanitizedDiskFileName f ≠ .error .panic) (hgo : t.self.stopDownloading = false) :
    wp (acceptedFrames sent) (startItem root item f) (fun _ t' w => w = false ∧ AtWorkOn item t')
      (fun x _ _ => x ≠ .panic) t false := by
  refine (wp_bind _ _).mpr ((wp_modifySelf _).mpr ?_)
  cases hn : getSanitizedDiskFileName f with
  | error e =>
    intro he
    rw [hn, he] at hname
    exact hname rfl
  | ok name => exact ⟨rfl, hgo, rfl⟩

/-- **An item of the queue and what it names in a harmless listing.** -/
theorem calm_downloadItem {listing f : SharedFile} {item : DownloadQueueItem} (h : Harmless listing)
    (hf : getFileByPath item.path listing = some f) (fuel : Nat) (root : Str)
    (hgo : t.self.stopDownloading = false) :
    wp (acceptedFrames sent) (downloadItem fuel root item f) (fun _ _ w => w = false)
      (fun x _ _ => x ≠ .panic) t false := by
  obtain ⟨hmem, hpath⟩ := getFileByPath_some hf
  refine wp_seq (calm_startItem root item (h.named f hmem) hgo) (fun destinationPath t₁ w h₁ => ?_)
    fun _ _ _ h => h
  obtain ⟨rfl, hready⟩ := h₁
  refine wp_seq (calm_firm calm_appUpdateInProgress still_appUpdateInProgress.firm) (fun _ t₂ w h₂ => ?_)
    fun _ _ _ h => h
  obtain ⟨rfl, h₂⟩ := h₂
  have hready := atWorkOn_of_uncounted h₂ hready
  have hlast : ∀ g ∈ (leaves f ++ []).dropLast, g.path ≠ item.path := by
    rw [List.append_nil, ← hpath]
    exact h.last item.path f hf
  refine wp_seq (calm_downloadSharedFile fuel item f root [] (fun g hg => h.named g (nodes_trans hg hmem))
    (h.short item.path f hf) hlast hready.1 fun _ => .inr hready) (fun _ t₃ w h₃ => ?_) fun _ _ _ h => h
  have hrest : NoPanic sent (do
      finishDirectory item f destinationPath
      appUpdateInProgress) :=
    endsIn_bind (endsIn_bind calm_self fun d => endsIn_ite (fun _ => calm_completeQueueItem _ _)
      fun _ => endsIn_pure _) fun _ => calm_appUpdateInProgress
  exact hrest t₃ w h₃.1

/-- **The queue, over a harmless listing.** -/
theorem calm_queueLoop {listing : SharedFile} (h : Harmless listing) (root : Str) :
    ∀ (fuel : Nat) {t : Thread SingleDownloader}, t.self.stopDownloading = false →
    wp (acceptedFrames sent) (queueLoop root listing fuel) (fun _ _ w => w = false)
      (fun x _ _ => x ≠ .panic) t false
  | 0, _, _ => fun h => by cases h
  | fuel + 1, t, hgo => by
    rw [queueLoop]
    refine (wp_bind self _).mpr (wp_self.mpr ?_)
    cases t.self.downloadQueue with
    | nil => rfl
    | cons item items =>
      dsimp only
      cases hf : getFileByPath item.path listing with
      | none =>
        refine wp_seq (wp_keeps (keeps_invalidateQueueItem _ _) (calm_invalidateQueueItem _ _ t false rfl))
          (fun _ t₁ w h₁ => ?_) fun _ _ _ h => h.1
        obtain ⟨hw, hstop⟩ := h₁
        obtain rfl : w = false := hw
        exact calm_queueLoop h root fuel (hstop.trans hgo)
      | some f =>
        refine wp_seq (calm_downloadItem h hf fuel root hgo) (fun _ t₁ w hw => ?_) fun _ _ _ h => h
        obtain rfl : w = false := hw
        refine wp_seq (calm_polled fuel t₁) (fun _ t₂ w h₂ => ?_) fun _ _ _ h => h
        obtain ⟨rfl, -⟩ := h₂
        show wp _ (if t₂.self.stopDownloading = true then pure () else _) _ _ t₂ false
        split
        · rfl
        · rename_i hstop
          exact calm_queueLoop h root fuel (by simpa using hstop)

/-- **A connection**, over the listing in the cache. -/
theorem calm_serveConnection (hsent : ∀ f, sent f → Harmless (received f)) (fuel : Nat) (root : Str)
    (hgo : t.self.stopDownloading = false) :
    wp (acceptedFrames sent) (serveConnection fuel root) (fun _ _ w => w = false)
      (fun x _ _ => x ≠ .panic) t false := by
  refine wp_seq (wp_keeps (keeps_setEverythingFile fuel false) (calm_setEverythingFile fuel false t false rfl))
    (fun _ t₁ w h₁ => ?_) fun _ _ _ h => h.1
  obtain ⟨hw, hself⟩ := h₁
  obtain rfl : w = false := hw
  refine (wp_bind self _).mpr ?_
  refine (wp_bind (command _) _).mpr ⟨trivial, fun data w hs => ?_⟩
  obtain ⟨rfl, hlisting⟩ := hs
  cases data with
  | none => rfl
  | some everythingFile =>
    cases everythingFile with
    | none => rfl
    | some listing =>
      obtain ⟨f, hf, rfl⟩ := hlisting listing rfl
      exact calm_queueLoop (hsent f hf) root fuel ((congrArg SingleDownloader.stopDownloading hself).trans hgo)

/-! ## 9. The thread -/

omit [Crates] in
theorem calm_takeStream : NoPanic sent takeStream := by
  refine endsIn_bind calm_self fun d => ?_
  cases d.reverseConnection with
  | some enc =>
    exact endsIn_bind (calm_modifySelf _) fun _ => endsIn_bind (calm_modifyStream _) fun _ => endsIn_pure _
  | none =>
    refine endsIn_bind calm_self fun d => endsIn_bind (calm_command fun _ _ => trivial) fun a =>
      endsIn_bind (calm_tryIo a) fun address => endsIn_bind (calm_command fun _ _ => trivial)
      fun connected => endsIn_ite (fun _ => ?_) fun _ => endsIn_pure _
    -- the handshake fails by an error only
    refine fun t w hw => (wp_bind (command _) _).mpr ⟨trivial, fun r w' hs => ?_⟩
    exact endsIn_bind (calm_orThrow hs.2) (fun enc => endsIn_bind (calm_modifyStream _) fun _ => endsIn_pure _)
      t w' hs.1

omit [Crates] in
theorem calm_getPathDownloadsDirUser (user : Str) (config : Config) :
    NoPanic sent (getPathDownloadsDirUser user config) := by
  refine endsIn_bind (endsIn_ite (fun _ => ?_) fun _ => endsIn_pure _) fun _ => endsIn_pure _
  exact endsIn_bind (calm_command fun _ _ => trivial) fun a => endsIn_bind (calm_tryIo a) fun _ =>
    endsIn_pure _

theorem calm_runLoop (hsent : ∀ f, sent f → Harmless (received f)) :
    ∀ fuel sleepSecs, NoPanic sent (runLoop fuel sleepSecs)
  | 0, _ => endsIn_throw nofun
  | fuel + 1, sleepSecs => by
    refine endsIn_bind (calm_readReceiver fuel) fun _ => endsIn_bind calm_self fun d =>
      endsIn_ite (fun _ => calm_appUpdateInProgress) fun _ => ?_
    rintro t w rfl
    refine (wp_bind (modifySelf _) _).mpr ((wp_modifySelf _).mpr ?_)
    generalize ht : (⟨{ t.self with stopDownloading := false }, t.encryptedStream⟩ :
      Thread SingleDownloader) = t'
    have hgo : t'.self.stopDownloading = false := by rw [← ht]
    have hwait : ∀ millis sleepSecs, NoPanic sent (do command (.sleep millis); runLoop fuel sleepSecs) :=
      fun millis sleepSecs => endsIn_bind (calm_command fun _ _ => trivial) fun _ =>
        calm_runLoop hsent fuel sleepSecs
    refine (wp_bind self _).mpr ?_
    refine (wp_ite _ _ _).mpr ?_
    split
    · exact hwait 1000 sleepSecs t' false rfl
    refine (wp_ite _ _ _).mpr ?_
    split
    · exact hwait 500 sleepSecs t' false rfl
    refine wp_seq (wp_keeps (still_getPathDownloadsDirUser _ _).keeps
      (calm_getPathDownloadsDirUser _ _ t' false rfl)) (fun root t₁ w h₁ => ?_) fun _ _ _ h => h.1
    obtain ⟨hw, rfl⟩ := h₁
    refine wp_seq (wp_keeps keeps_takeStream (calm_takeStream t₁ w hw)) (fun taken t₂ w h₂ => ?_)
      fun _ _ _ h => h.1
    obtain ⟨hw, hself⟩ := h₂
    obtain rfl : w = false := hw
    have hgo : t₂.self.stopDownloading = false :=
      (congrArg (fun d : SingleDownloader => d.stopDownloading) hself).trans hgo
    refine (wp_ite _ _ _).mpr ?_
    split
    · refine wp_seq (calm_serveConnection hsent fuel _ hgo) (fun _ t₃ w hw => ?_) fun _ _ _ h => h
      exact calm_runLoop hsent fuel 5 t₃ w hw
    · exact endsIn_bind calm_appUpdateOffline (fun _ => hwait _ _) t₂ false rfl

omit [Crates] in
theorem calm_pushQueueLines : ∀ lines : List Str, NoPanic sent (pushQueueLines lines)
  | [] => endsIn_pure _
  | line :: lines => by
    refine endsIn_bind calm_self fun d => endsIn_bind (calm_orThrow ?_) fun items =>
      endsIn_bind (calm_modifySelf _) fun _ => calm_pushQueueLines lines
    unfold parseQueueLine
    dsimp only
    split
    · exact nofun
    split
    · split
      · exact nofun
      · exact nofun
    · exact nofun

theorem calm_run (hsent : ∀ f, sent f → Harmless (received f)) (fuel : Nat) : NoPanic sent (run fuel) := by
  refine endsIn_bind ?_ fun _ => endsIn_bind calm_appUpdateOffline fun _ => calm_runLoop hsent fuel 5
  refine endsIn_bind (calm_modifySelf _) fun _ => endsIn_bind calm_self fun d =>
    endsIn_bind (calm_command fun _ _ => trivial) fun contents => ?_
  cases contents.bind fromUtf8 with
  | none => exact endsIn_pure _
  | some contents => exact calm_pushQueueLines _

/-- **`run` does not panic where the listings the peers send are harmless after the cleaning**: whatever
    is in the queue, on the disk and in the channels, and whatever the peers send in frames that are
    accepted. -/
theorem run_noPanic (hsent : ∀ f, sent f → Harmless (received f)) (fuel : Nat)
    (t t' : Thread SingleDownloader) (pending : Bool) :
    ¬ Reach (acceptedFrames sent) (run fuel t, false) (.fail .panic t', pending) := fun hr =>
  holds_reach (c := (run fuel t, false)) (calm_run hsent fuel t false rfl) hr rfl

end NoPanic

/-- A file, and a directory with a file in it. -/
def plainListing : SharedFile :=
  SharedFile.new "everything/".toList true
    [SharedFile.new "/a".toList false [] 5,
      SharedFile.new "/d".toList true [SharedFile.new "/d/b".toList false [] 7] 7] 12

theorem plainListing_harmless : Harmless (received plainListing) where
  named := by decide
  short path found h := by
    have hall : ∀ m ∈ nodes (received plainListing), ∀ f ∈ leaves m,
        f.fileSize ≠ 0 → requestLength f + crcSize ≤ totalBufferSize := by decide
    exact hall found (getFileByPath_some h).1
  last path found h := by
    have hall : ∀ m ∈ nodes (received plainListing), ∀ f ∈ (leaves m).dropLast,
        f.path ≠ m.path := by decide
    exact hall found (getFileByPath_some h).1

theorem run_noPanic_plain :
    ¬ Reach (acceptedFrames fun f => f = plainListing) (@run idleCrates 3 (idleThread "q".toList []), false)
      (.fail .panic (idleThread "q".toList []), false) :=
  @run_noPanic (fun f => f = plainListing) idleCrates (fun _ hf => hf ▸ plainListing_harmless) 3 _ _ _

/-- A listing with a file whose path is the root directory. -/
def rootListing : SharedFile :=
  SharedFile.new "everything/".toList true [SharedFile.new "/".toList false [] 0] 0

/-- The peer is there, its listing is in the cache, and its file is in the queue. -/
def rootAnswers : (c : Wire ⊕ DownloaderCmd) → Ans DownloaderCmd.Ans c
  | .inr (.queueRead _) => some (utf8 "0:/".toList)
  | c => onlineAnswers (received rootListing) c

theorem accepted_rootAnswers (t : Thread SingleDownloader) (c : Wire ⊕ DownloaderCmd) :
    (acceptedFrames fun f => f = rootListing).step false t c (rootAnswers c) false := by
  cases c with
  | inl c => cases c <;> exact rfl
  | inr c =>
    cases c
    case refreshGet => exact ⟨rfl, fun _ h => ⟨rootListing, rfl, (Option.some.inj (Option.some.inj h)).symm⟩⟩
    case connect => exact ⟨rfl, nofun⟩
    all_goals exact rfl

/-- **A peer makes `run` panic**: the file has no name. -/
theorem run_panics : ∃ t', Reach (acceptedFrames fun f => f = rootListing)
    (@run idleCrates 3 (idleThread "q".toList []), false) (.fail .panic t', false) := by
  have hplay : ∃ t', (@run idleCrates 3 (idleThread "q".toList [])).play
      (List.replicate 10 rootAnswers) = .fail .panic t' := ⟨_, rfl⟩
  obtain ⟨t', ht⟩ := hplay
  refine ⟨t', ?_⟩
  rw [← ht]
  exact reach_play_of _ _ fun answer ha t c => by
    rw [List.eq_of_mem_replicate ha]
    exact accepted_rootAnswers t c

end Transmitic
