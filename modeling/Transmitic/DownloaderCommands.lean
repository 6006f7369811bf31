/-
  File:      Transmitic/DownloaderCommands.lean
  Subject:   WHAT THE METHODS OF A DOWNLOADER ASK FOR.

  Between two messages on the stream the downloader polls its channels, keeps its queue file and
  reports to the app. None of that touches the stream.

  * `DownloaderCmd.file`, `DownloaderCmd.dir` -- the local file a command creates, opens or writes,
    and the directory it creates;
  * `Local` -- methods that change nothing but what the thread reports of its progress;
  * `Aside` -- methods that leave the stream alone;
  * `Firm` -- methods that change nothing but the bytes that are counted;
  * `still_openDestination`, `aside_readReceiver`, ... -- the methods that do, with the commands they
    issue.
-/
import Transmitic.OutgoingDownloader
import Transmitic.Lib.Invariant

namespace Transmitic

open Lib

/-! ## 1. Kinds of commands -/

/-- The local file a command creates, opens or writes. -/
def DownloaderCmd.file : DownloaderCmd → Option Str
  | .fileCreate path => some path
  | .fileOpenEnd path => some path
  | .fileWrite path _ => some path
  | _ => none

/-- The directory a command creates. -/
def DownloaderCmd.dir : DownloaderCmd → Option Str
  | .createDirAll path => some path
  | _ => none

/-- Reports to the app, and looks at the clock and the disk. -/
def plain : DownloaderCmd → Prop
  | .app _ => True
  | .progressElapsed => True
  | .pathExists _ => True
  | .metadataLen _ => True
  | _ => False

/-- Looks at the clock and the disk. -/
def looking : DownloaderCmd → Prop
  | .progressElapsed => True
  | .pathExists _ => True
  | .metadataLen _ => True
  | _ => False

/-- Plain commands that report no download as completed. -/
def reporting (c : DownloaderCmd) : Prop := plain c ∧ ∀ m, c ≠ .app (.completed m)

/-- Nothing is touched on the disk but the queue file. -/
def quiet (c : DownloaderCmd) : Prop := c.file = none ∧ c.dir = none

/-- Nothing is touched on the disk but the queue file, and no download is reported as completed. -/
def hushed (c : DownloaderCmd) : Prop := quiet c ∧ ∀ m, c ≠ .app (.completed m)

/-- A plain command, or one on the file of the transfer or its directory. -/
def ofTransfer (t : Transfer) (c : DownloaderCmd) : Prop :=
  plain c ∨ c.file = some t.destinationPath ∨ c = .createDirAll t.downloadDir

/-- A look, or a command on the file of the transfer or its directory. -/
def onTransfer (t : Transfer) (c : DownloaderCmd) : Prop :=
  looking c ∨ c.file = some t.destinationPath ∨ c = .createDirAll t.downloadDir

/-- Only the file of the transfer is touched, and only its directory is created. -/
def inTransfer (t : Transfer) (c : DownloaderCmd) : Prop :=
  (∀ p, c.file = some p → p = t.destinationPath) ∧ ∀ p, c.dir = some p → p = t.downloadDir

/-- Only the file `path` is touched, if any. -/
def touchesOnly (path : Str) (c : DownloaderCmd) : Prop := ∀ p, c.file = some p → p = path

/-- No file is touched. -/
def touchesNone (c : DownloaderCmd) : Prop := c.file = none

theorem touchesOnly_of_none {path : Str} {c : DownloaderCmd} (h : touchesNone c) :
    touchesOnly path c := by
  intro p hp
  rw [show c.file = none from h] at hp
  cases hp

theorem touchesOnly_of_inTransfer {t : Transfer} {c : DownloaderCmd} (h : inTransfer t c) :
    touchesOnly t.destinationPath c := h.1

theorem plain_of_looking {c : DownloaderCmd} (h : looking c) : plain c := by
  cases c <;> first | exact False.elim h | exact trivial

theorem reporting_of_looking {c : DownloaderCmd} (h : looking c) : reporting c := by
  refine ⟨plain_of_looking h, fun m hm => ?_⟩
  rw [hm] at h
  exact h

theorem ofTransfer_of_onTransfer {t : Transfer} {c : DownloaderCmd} (h : onTransfer t c) :
    ofTransfer t c := h.imp_left plain_of_looking

theorem quiet_of_plain {c : DownloaderCmd} (h : plain c) : quiet c := by
  cases c <;> first | exact False.elim h | exact ⟨rfl, rfl⟩

theorem hushed_of_reporting {c : DownloaderCmd} (h : reporting c) : hushed c :=
  ⟨quiet_of_plain h.1, h.2⟩

theorem inTransfer_of_quiet {t : Transfer} {c : DownloaderCmd} (h : quiet c) : inTransfer t c := by
  refine ⟨fun p hp => ?_, fun p hp => ?_⟩
  · rw [h.1] at hp
    cases hp
  · rw [h.2] at hp
    cases hp

theorem inTransfer_of_ofTransfer {t : Transfer} {c : DownloaderCmd} (h : ofTransfer t c) :
    inTransfer t c := by
  rcases h with h | h | rfl
  · exact inTransfer_of_quiet (quiet_of_plain h)
  · refine ⟨fun p hp => ?_, fun p hp => ?_⟩
    · rw [h] at hp
      exact (Option.some.inj hp).symm
    · cases c with
      | createDirAll path => cases h
      | _ => cases hp
  · exact ⟨fun _ hp => (nomatch hp), fun _ hp => (Option.some.inj hp).symm⟩

/-! ## 2. Kinds of methods -/

/-- The downloader without its queue and without what it reports of its progress. -/
def SingleDownloader.control (d : SingleDownloader) : SingleDownloader :=
  { d with
    downloadQueue := []
    activeDownloadPath := none
    activeDownloadSize := 0
    activeDownloadedCurrentBytes := 0
    activeDownloadLocalPath := none
    activeDownloadTotalSize := [] }

/-- What only messages, and the end of a download, change. -/
def kept (t : Thread SingleDownloader) :
    List DownloadQueueItem × SingleDownloader × EncryptedStream :=
  (t.self.downloadQueue, t.self.control, t.encryptedStream)

/-- The method leaves the thread alone, and issues commands with `P` only. -/
def Still {α : Type} (P : DownloaderCmd → Prop) (m : Dl α) : Prop := Steady (own P) (fun t => t) m

/-- The method changes nothing but what is reported of the progress, and issues commands with `P`
    only. -/
def Local {α : Type} (P : DownloaderCmd → Prop) (m : Dl α) : Prop := Steady (own P) kept m

/-- The thread, but for the bytes it has counted. -/
def uncounted (t : Thread SingleDownloader) : SingleDownloader × EncryptedStream :=
  ({ t.self with activeDownloadedCurrentBytes := 0 }, t.encryptedStream)

/-- The method changes nothing but the bytes that are counted, and issues commands with `P` only. -/
def Firm {α : Type} (P : DownloaderCmd → Prop) (m : Dl α) : Prop := Steady (own P) uncounted m

/-- The method leaves the stream alone, and issues commands with `P` only. -/
def Aside {α : Type} (P : DownloaderCmd → Prop) (m : Dl α) : Prop :=
  Keeps (own P) Thread.encryptedStream m

section Parts

variable {α β : Type} {P P' : DownloaderCmd → Prop}

theorem Still.mono {m : Dl α} (h : Still P m) (hP : ∀ c, P c → P' c) : Still P' m :=
  Steady.mono h (own_mono hP)

theorem Still.changesProgress {m : Dl α} (h : Still P m) : Local P m := h.map kept

theorem Still.firm {m : Dl α} (h : Still P m) : Firm P m := h.map uncounted

theorem Firm.mono {m : Dl α} (h : Firm P m) (hP : ∀ c, P c → P' c) : Firm P' m :=
  Steady.mono h (own_mono hP)

theorem Firm.changesProgress {m : Dl α} (h : Firm P m) : Local P m :=
  h.map fun v => (v.1.downloadQueue, v.1.control, v.2)

theorem still_pure (a : α) : Still P (pure a) := steady_pure a

theorem still_self : Still P self := steady_bind steady_get fun _ => steady_pure _

theorem still_bind {m : Dl α} {f : α → Dl β} (hm : Still P m) (hf : ∀ a, Still P (f a)) :
    Still P (m >>= f) := steady_bind hm hf

theorem still_ite {b : Prop} [Decidable b] {m n : Dl α} (hm : Still P m) (hn : Still P n) :
    Still P (if b then m else n) := steady_ite hm hn

theorem still_command {c : DownloaderCmd} (h : P c) : Still P (command c) := steady_issue h

theorem still_tryIo : ∀ a : Except Str α, Still P (tryIo a)
  | .ok a => steady_pure a
  | .error e => steady_throw (Exc.err e)

theorem Local.mono {m : Dl α} (h : Local P m) (hP : ∀ c, P c → P' c) : Local P' m :=
  Steady.mono h (own_mono hP)

theorem Local.aside {m : Dl α} (h : Local P m) : Aside P m :=
  h.keeps.map fun v => v.2.2

theorem Aside.mono {m : Dl α} (h : Aside P m) (hP : ∀ c, P c → P' c) : Aside P' m :=
  Keeps.mono h (own_mono hP)

theorem local_pure (a : α) : Local P (pure a) := steady_pure a

theorem local_self : Local P self := still_self.changesProgress

theorem local_bind {m : Dl α} {f : α → Dl β} (hm : Local P m) (hf : ∀ a, Local P (f a)) :
    Local P (m >>= f) := steady_bind hm hf

theorem local_command {c : DownloaderCmd} (h : P c) : Local P (command c) := steady_issue h

theorem local_orThrow : ∀ a, Local P (orThrow a : Dl α)
  | .ok a => steady_pure a
  | .error e => steady_throw e

/-- A change of what is reported of the progress. -/
theorem local_modifySelf {f : SingleDownloader → SingleDownloader}
    (hq : ∀ d, (f d).downloadQueue = d.downloadQueue) (hc : ∀ d, (f d).control = d.control) :
    Local P (modifySelf f) :=
  steady_modify fun t => by rw [kept, hq, hc, kept]

theorem aside_pure (a : α) : Aside P (pure a) := keeps_pure a

theorem aside_throw (e : Exc) : Aside P (throw e : Dl α) := keeps_throw e

theorem aside_self : Aside P self := local_self.aside

theorem aside_bind {m : Dl α} {f : α → Dl β} (hm : Aside P m) (hf : ∀ a, Aside P (f a)) :
    Aside P (m >>= f) := keeps_bind hm hf

theorem aside_ite {b : Prop} [Decidable b] {m n : Dl α} (hm : Aside P m) (hn : Aside P n) :
    Aside P (if b then m else n) := keeps_ite (fun _ => hm) fun _ => hn

theorem aside_modifySelf (f : SingleDownloader → SingleDownloader) : Aside P (modifySelf f) :=
  keeps_modifySelf f

theorem aside_command {c : DownloaderCmd} (h : P c) : Aside P (command c) := keeps_ask h

/-- A command that touches nothing. -/
theorem aside_quiet {c : DownloaderCmd} (hf : c.file = none) (hd : c.dir = none) :
    Aside quiet (command c) := aside_command ⟨hf, hd⟩

theorem aside_tryIo (a : Except Str α) : Aside P (tryIo a) := keeps_orThrow _

/-- A method that reports and looks only. -/
theorem Local.quietly {m : Dl α} (h : Local plain m) : Aside quiet m :=
  h.aside.mono fun _ => quiet_of_plain

end Parts

/-! ## 3. Messages to the app and the queue file -/

theorem still_appUpdateOffline : Still reporting appUpdateOffline :=
  still_bind still_self fun _ => still_command ⟨trivial, fun _ => by nofun⟩

theorem still_appUpdateInProgress : Still reporting appUpdateInProgress :=
  still_bind still_self fun _ => still_command ⟨trivial, fun _ => by nofun⟩

theorem still_appUpdateInvalidFile (path message : Str) :
    Still reporting (appUpdateInvalidFile path message) :=
  still_bind still_self fun _ => still_command ⟨trivial, fun _ => by nofun⟩

/-- A method that reports, but not that a download is completed. -/
theorem Still.plainly {α : Type} {m : Dl α} (h : Still reporting m) : Local plain m :=
  h.changesProgress.mono fun _ hc => hc.1

theorem local_appUpdateOffline : Local plain appUpdateOffline := still_appUpdateOffline.plainly

theorem local_appUpdateInProgress : Local plain appUpdateInProgress :=
  still_appUpdateInProgress.plainly

theorem local_appUpdateCompleted (path pathLocalDisk size : Str) :
    Local plain (appUpdateCompleted path pathLocalDisk size) :=
  local_bind local_self fun _ => local_command trivial

theorem local_appUpdateInvalidFile (path message : Str) :
    Local plain (appUpdateInvalidFile path message) :=
  (still_appUpdateInvalidFile path message).plainly

/-- The commands on the queue file. -/
def onQueueFile : DownloaderCmd → Prop
  | .queueRemove _ => True
  | .queueWrite _ _ => True
  | _ => False

theorem quiet_of_onQueueFile {c : DownloaderCmd} (h : onQueueFile c) : quiet c := by
  cases c <;> first | exact False.elim h | exact ⟨rfl, rfl⟩

/-- What goes on around a transfer: reports, looks, the queue file and the channels. -/
def routine (c : DownloaderCmd) : Prop :=
  plain c ∨ onQueueFile c ∨ c = .revTryRecv ∨ c = .tryRecv

theorem quiet_of_routine {c : DownloaderCmd} (h : routine c) : quiet c := by
  rcases h with h | h | rfl | rfl
  · exact quiet_of_plain h
  · exact quiet_of_onQueueFile h
  · exact ⟨rfl, rfl⟩
  · exact ⟨rfl, rfl⟩

theorem Aside.quietly {α : Type} {m : Dl α} (h : Aside routine m) : Aside quiet m :=
  h.mono fun _ => quiet_of_routine

theorem Local.routinely {α : Type} {m : Dl α} (h : Local plain m) : Aside routine m :=
  h.aside.mono fun _ => .inl

theorem still_writeQueueFile : Still onQueueFile writeQueueFile :=
  still_bind still_self fun _ => still_bind (still_command trivial) fun _ => still_tryIo _

theorem still_writeQueue : Still onQueueFile writeQueue := by
  refine still_bind still_self fun d => still_ite ?_ still_writeQueueFile
  refine still_bind (still_command trivial) fun a => ?_
  cases a with
  | done => exact still_pure ()
  | notFound => exact still_pure ()
  | failed e => exact still_writeQueueFile

theorem local_writeQueue : Local onQueueFile writeQueue := still_writeQueue.changesProgress

/-- What only messages, connections and the loops around them change. -/
def controlled (t : Thread SingleDownloader) : SingleDownloader × EncryptedStream :=
  (t.self.control, t.encryptedStream)

theorem steady_setActiveDownloadFinished :
    Steady (own onQueueFile) controlled setActiveDownloadFinished :=
  steady_bind (steady_modify fun _ => rfl) fun _ =>
    steady_bind (local_writeQueue.map fun v => v.2) fun _ => steady_modify fun _ => rfl

theorem keeps_setActiveDownloadFinished :
    Keeps (own onQueueFile) controlled setActiveDownloadFinished :=
  steady_setActiveDownloadFinished.keeps

theorem aside_setActiveDownloadFinished : Aside routine setActiveDownloadFinished :=
  (keeps_setActiveDownloadFinished.map fun v => v.2).mono (own_mono fun _ hc => .inr (.inl hc))

theorem aside_completeQueueItem (path destinationPath : Str) :
    Aside routine (completeQueueItem path destinationPath) :=
  aside_bind aside_setActiveDownloadFinished fun _ => aside_bind aside_self fun _ =>
    (local_appUpdateCompleted _ _ _).routinely

theorem aside_invalidateQueueItem (path message : Str) :
    Aside routine (invalidateQueueItem path message) :=
  aside_bind aside_setActiveDownloadFinished fun _ => (local_appUpdateInvalidFile _ _).routinely

/-! ## 4. The channels -/

/-- What a message does to the state of the thread. -/
def MessageSingleDownloader.effect (m : MessageSingleDownloader) (d : SingleDownloader) :
    SingleDownloader :=
  match m with
  | .newDownload s => { d with downloadQueue := d.downloadQueue ++ [s] }
  | .cancelDownload s =>
    { d with
      stopDownloading := true
      downloadQueue := d.downloadQueue.filter fun f => f.path ≠ s
      activeDownloadPath := d.activeDownloadPath.filter fun p => p.path ≠ s }
  | .pauseDownloads => { d with stopDownloading := true, isDownloadingPaused := true }
  | .resumeDownloads => { d with isDownloadingPaused := false }
  | .cancelAllDownloads =>
    { d with stopDownloading := true, downloadQueue := [], activeDownloadPath := none }
  | .removeUser =>
    { d with
      shutdown := true, stopDownloading := true, downloadQueue := [], activeDownloadPath := none }
  | .newSharedUser s => { d with stopDownloading := true, sharedUser := s }
  | .restartConnection => { d with stopDownloading := true }
  | .newConfig config => { d with stopDownloading := true, config }

/-- What the thread does after the change of its state. -/
def MessageSingleDownloader.follow : MessageSingleDownloader → Dl Unit
  | .newDownload _ => writeQueue
  | .cancelDownload _ => do writeQueue; appUpdateInProgress
  | .cancelAllDownloads => do writeQueue; appUpdateInProgress
  | .removeUser => writeQueue
  | _ => pure ()

/-- **A message changes the state; then the queue file follows.** -/
theorem receive_eq (m : MessageSingleDownloader) :
    receive m = modifySelf m.effect >>= fun _ => m.follow := by
  cases m <;> rfl

/-- Commands on the queue file, and reports other than of a completed download. -/
def queueOrReport (c : DownloaderCmd) : Prop := onQueueFile c ∨ reporting c

theorem still_follow (m : MessageSingleDownloader) : Still queueOrReport m.follow := by
  have hqueue : Still queueOrReport writeQueue := still_writeQueue.mono fun _ => .inl
  have hreport : Still queueOrReport appUpdateInProgress :=
    still_appUpdateInProgress.mono fun _ => .inr
  cases m with
  | newDownload s => exact hqueue
  | cancelDownload s => exact still_bind hqueue fun _ => hreport
  | cancelAllDownloads => exact still_bind hqueue fun _ => hreport
  | removeUser => exact hqueue
  | pauseDownloads => exact still_pure ()
  | resumeDownloads => exact still_pure ()
  | newSharedUser s => exact still_pure ()
  | restartConnection => exact still_pure ()
  | newConfig c => exact still_pure ()

theorem local_follow (m : MessageSingleDownloader) : Local queueOrReport m.follow :=
  (still_follow m).changesProgress

theorem hushed_of_onQueueFile {c : DownloaderCmd} (h : onQueueFile c) : hushed c := by
  refine ⟨quiet_of_onQueueFile h, fun m hm => ?_⟩
  rw [hm] at h
  exact h

theorem hushed_of_queueOrReport {c : DownloaderCmd} (h : queueOrReport c) : hushed c :=
  h.elim hushed_of_onQueueFile hushed_of_reporting

theorem aside_receive (m : MessageSingleDownloader) : Aside routine (receive m) := by
  rw [receive_eq]
  refine aside_bind (aside_modifySelf _) fun _ => (local_follow m).aside.mono fun c hc => ?_
  rcases hc with hc | hc
  · exact .inr (.inl hc)
  · exact .inl hc.1

theorem aside_receiveReverse : Aside routine receiveReverse := by
  refine aside_bind (aside_command (.inr (.inr (.inl rfl)))) fun a => ?_
  cases a with
  | value enc => exact aside_modifySelf _
  | empty => exact aside_pure ()
  | disconnected => exact aside_throw _

theorem aside_readReceiver : ∀ fuel, Aside routine (readReceiver fuel)
  | 0 => aside_throw _
  | fuel + 1 => by
    refine aside_bind aside_receiveReverse fun _ =>
      aside_bind (aside_command (.inr (.inr (.inr rfl)))) fun a => ?_
    cases a with
    | value m => exact aside_bind (aside_receive m) fun _ => aside_readReceiver fuel
    | empty => exact aside_pure ()
    | disconnected => exact aside_throw _

/-- What reading the channels leaves of a thread: it is not told to go on where it was told to stop,
    and where it goes on there are new downloads at most, and it may no longer be paused. -/
structure Polled (t t' : Thread SingleDownloader) : Prop where
  encryptedStream : t'.encryptedStream = t.encryptedStream
  stop : t.self.stopDownloading = true → t'.self.stopDownloading = true
  active : t'.self.activeDownloadPath = t.self.activeDownloadPath ∨
    t'.self.activeDownloadPath = none
  going : t'.self.stopDownloading = false → ∃ items isDownloadingPaused, t'.self =
    { t.self with downloadQueue := t.self.downloadQueue ++ items, isDownloadingPaused }

theorem Polled.refl (t : Thread SingleDownloader) : Polled t t where
  encryptedStream := rfl
  stop h := h
  active := .inl rfl
  going _ := ⟨[], t.self.isDownloadingPaused, by rw [List.append_nil]⟩

theorem Polled.trans {t t' t'' : Thread SingleDownloader} (h : Polled t t') (h' : Polled t' t'') :
    Polled t t'' where
  encryptedStream := h'.encryptedStream.trans h.encryptedStream
  stop hs := h'.stop (h.stop hs)
  active := by
    rcases h'.active with ha | ha
    · rw [ha]
      exact h.active
    · exact .inr ha
  going hs := by
    have hstop : t'.self.stopDownloading = false := by
      by_contra hne
      rw [h'.stop (by simpa using hne)] at hs
      cases hs
    obtain ⟨items, paused, ht⟩ := h.going hstop
    obtain ⟨items', paused', ht'⟩ := h'.going hs
    refine ⟨items ++ items', paused', ?_⟩
    rw [ht', ht]
    simp [List.append_assoc]

theorem polled_reverse (t : Thread SingleDownloader) (enc : EncryptedStream) :
    Polled t { t with self := { t.self with stopDownloading := true, reverseConnection := some enc } }
    where
  encryptedStream := rfl
  stop _ := rfl
  active := .inl rfl
  going hs := by cases hs

/-- **A message tells the thread to stop, or it changes the queue or the pause only.** -/
theorem polled_effect (t : Thread SingleDownloader) (m : MessageSingleDownloader) :
    Polled t { t with self := m.effect t.self } := by
  cases m with
  | newDownload s => exact ⟨rfl, id, .inl rfl, fun _ => ⟨[s], _, rfl⟩⟩
  | resumeDownloads =>
    refine ⟨rfl, id, .inl rfl, fun _ => ⟨[], false, ?_⟩⟩
    rw [List.append_nil]
    rfl
  | cancelDownload s =>
    refine ⟨rfl, fun _ => rfl, ?_, fun hs => by cases hs⟩
    show t.self.activeDownloadPath.filter _ = _ ∨ t.self.activeDownloadPath.filter _ = none
    cases t.self.activeDownloadPath with
    | none => exact .inl rfl
    | some p =>
      rw [Option.filter_some]
      split
      · exact .inl rfl
      · exact .inr rfl
  | cancelAllDownloads => exact ⟨rfl, fun _ => rfl, .inr rfl, fun hs => by cases hs⟩
  | removeUser => exact ⟨rfl, fun _ => rfl, .inr rfl, fun hs => by cases hs⟩
  | pauseDownloads => exact ⟨rfl, fun _ => rfl, .inl rfl, fun hs => by cases hs⟩
  | newSharedUser s => exact ⟨rfl, fun _ => rfl, .inl rfl, fun hs => by cases hs⟩
  | restartConnection => exact ⟨rfl, fun _ => rfl, .inl rfl, fun hs => by cases hs⟩
  | newConfig c => exact ⟨rfl, fun _ => rfl, .inl rfl, fun hs => by cases hs⟩

/-- The surroundings of a downloader that does nothing but what is `hushed`, and may be answered
    anything. -/
abbrev hushedAnswers : Env (Thread SingleDownloader) (Wire ⊕ DownloaderCmd)
    (Transmitic.Ans DownloaderCmd.Ans) Unit := anyAnswers (own hushed)

@[simp] theorem wp_self {W : Type} {E : Env (Thread SingleDownloader) (Wire ⊕ DownloaderCmd)
    (Transmitic.Ans DownloaderCmd.Ans) W} {Q : SingleDownloader → Thread SingleDownloader → W → Prop}
    {R : Exc → Thread SingleDownloader → W → Prop} {t : Thread SingleDownloader} {w : W} :
    wp E self Q R t w ↔ Q t.self t w := Iff.rfl

theorem wp_receive (m : MessageSingleDownloader) (t : Thread SingleDownloader) :
    wp hushedAnswers (receive m) (fun _ t' _ => Polled t t') (fun _ t' _ => Polled t t') t () := by
  rw [receive_eq]
  refine (wp_bind _ _).mpr ((wp_modifySelf _).mpr ?_)
  have hfollow := ((still_follow m).mono fun _ => hushed_of_queueOrReport).keeps
    { t with self := m.effect t.self }
  refine wp_conseq hfollow (fun _ t' _ h => ?_) fun _ t' _ h => ?_
  · rw [h]
    exact polled_effect t m
  · rw [h]
    exact polled_effect t m

/-- **Reading the channels.** -/
theorem wp_readReceiver : ∀ (fuel : Nat) (t : Thread SingleDownloader),
    wp hushedAnswers (readReceiver fuel) (fun _ t' _ => Polled t t') (fun _ t' _ => Polled t t') t ()
  | 0, t => Polled.refl t
  | fuel + 1, t => by
    have hreverse : wp hushedAnswers receiveReverse (fun _ t₁ _ => Polled t t₁)
        (fun _ t₁ _ => Polled t t₁) t () := by
      refine (wp_bind _ _).mpr ⟨⟨⟨rfl, rfl⟩, by intro _ h; cases h⟩, fun a _ _ => ?_⟩
      cases a with
      | value enc => exact polled_reverse t enc
      | empty => exact Polled.refl t
      | disconnected => exact Polled.refl t
    refine wp_seq hreverse (fun _ t₁ _ h₁ => ?_) fun _ _ _ h₁ => h₁
    refine (wp_bind _ _).mpr ⟨⟨⟨rfl, rfl⟩, by intro _ h; cases h⟩, fun a _ _ => ?_⟩
    cases a with
    | value m =>
      show wp hushedAnswers (receive m >>= fun _ => readReceiver fuel) _ _ t₁ ()
      refine wp_seq (wp_receive m t₁) (fun _ t₂ _ h₂ => ?_) fun _ t₂ _ h₂ => h₁.trans h₂
      refine wp_conseq (wp_readReceiver fuel t₂) (fun _ t₃ _ h₃ => ?_) fun _ t₃ _ h₃ => ?_
      · exact h₁.trans (h₂.trans h₃)
      · exact h₁.trans (h₂.trans h₃)
    | empty => exact h₁
    | disconnected => exact h₁

/-! ## 5. The parts of a download -/

/-- The commands on the cache of listings. -/
def onCache : DownloaderCmd → Prop
  | .refreshGet _ => True
  | .refreshInsert _ _ => True
  | _ => False

theorem quiet_of_onCache {c : DownloaderCmd} (h : onCache c) : quiet c := by
  cases c <;> first | exact False.elim h | exact ⟨rfl, rfl⟩

theorem hushed_of_onCache {c : DownloaderCmd} (h : onCache c) : hushed c := by
  refine ⟨quiet_of_onCache h, fun m hm => ?_⟩
  rw [hm] at h
  exact h

theorem aside_shouldDownloadEverythingFile (forceDownload : Bool) :
    Aside quiet (shouldDownloadEverythingFile forceDownload) := by
  refine keeps_bind keeps_get fun t => aside_ite (aside_pure _) ?_
  refine aside_bind (aside_quiet rfl rfl) fun a => ?_
  cases a with
  | none => exact aside_throw _
  | some data => exact aside_pure _

theorem still_localFileLength (path : Str) (doesFileExist : Bool) :
    Still looking (localFileLength path doesFileExist) :=
  still_ite (still_bind (still_command trivial) fun _ => still_tryIo _) (still_pure _)

theorem local_localFileLength (path : Str) (doesFileExist : Bool) :
    Local plain (localFileLength path doesFileExist) :=
  (still_localFileLength path doesFileExist).changesProgress.mono fun _ => plain_of_looking

theorem still_updateProgress : Still reporting updateProgress :=
  still_bind (still_command ⟨trivial, fun _ => by nofun⟩) fun _ =>
    still_ite still_appUpdateInProgress (still_pure _)

theorem local_updateProgress : Local plain updateProgress := still_updateProgress.plainly

theorem aside_finishTransfer (t : Transfer) : Aside routine (finishTransfer t) :=
  aside_ite (aside_completeQueueItem _ _) (aside_pure ())

theorem aside_failTransfer (t : Transfer) (isLocalFinished isRemoteFinished : Bool) :
    Aside routine (failTransfer t isLocalFinished isRemoteFinished) :=
  aside_bind (aside_ite aside_setActiveDownloadFinished (aside_pure _)) fun _ =>
    aside_bind (local_appUpdateInvalidFile _ _).routinely fun _ => aside_throw _

theorem local_startItem {P : DownloaderCmd → Prop} (rootDownloadDir : Str) (item : DownloadQueueItem)
    (sharedFile : SharedFile) : Local P (startItem rootDownloadDir item sharedFile) :=
  local_bind (local_modifySelf (fun _ => rfl) fun _ => rfl) fun _ => local_bind (local_orThrow _)
    fun _ => local_bind (local_modifySelf (fun _ => rfl) fun _ => rfl) fun _ => local_pure _

theorem aside_finishDirectory (item : DownloadQueueItem) (sharedFile : SharedFile)
    (destinationPath : Str) : Aside routine (finishDirectory item sharedFile destinationPath) :=
  aside_bind aside_self fun _ => aside_ite (aside_completeQueueItem _ _) (aside_pure _)

section Everything

variable [Crates] {T L : Type} {LA : L → Type} {P : L → Prop}

theorem steady_readEverythingFile : ∀ (fuel : Nat) (jsonBytes : List UInt8),
    Steady (wireAnd P) Thread.self (readEverythingFile fuel jsonBytes : Method T LA (List UInt8))
  | 0, _ => steady_throw _
  | fuel + 1, _ =>
    steady_bind steady_read fun _ => steady_bind steady_getMessage fun _ =>
      steady_bind steady_getPayload fun _ => steady_bind steady_get fun _ =>
        steady_bind (steady_throwIf _ _) fun _ => steady_ite (steady_pure _)
          (steady_readEverythingFile fuel _)

theorem steady_downloadEverythingFile (fuel : Nat) :
    Steady (wireAnd P) Thread.self (downloadEverythingFile fuel : Method T LA SharedFile) :=
  steady_bind (steady_write _ _) fun _ => steady_bind (steady_readEverythingFile fuel []) fun _ =>
    steady_bind (steady_orThrow _) fun _ => steady_bind (steady_orThrow _) fun _ => steady_pure _

/-- Getting the listing changes the cache and the stream only. -/
theorem steady_setEverythingFile (fuel : Nat) (forceDownload : Bool) :
    Steady (wireAnd onCache) Thread.self (setEverythingFile fuel forceDownload) := by
  refine steady_bind (steady_bind steady_get fun t => steady_ite (steady_pure _) ?_)
    fun should => steady_ite ?_ (steady_pure _)
  · refine steady_bind (steady_issue trivial) fun data => ?_
    cases data with
    | none => exact steady_throw _
    | some data => exact steady_pure _
  · refine steady_bind (steady_downloadEverythingFile fuel) fun everythingFile => ?_
    exact steady_bind (steady_bind steady_get fun _ => steady_pure _) fun d => steady_issue trivial

theorem keeps_setEverythingFile (fuel : Nat) (forceDownload : Bool) :
    Keeps (wireAnd onCache) Thread.self (setEverythingFile fuel forceDownload) :=
  (steady_setEverythingFile fuel forceDownload).keeps

end Everything

/-! ## 6. The parts of the thread -/

/-- What the loops around a connection ask for. -/
def outer : DownloaderCmd → Prop
  | .sleep _ => True
  | .downloadsBase => True
  | c => Transmitic.plain c

theorem outer_of_plain {c : DownloaderCmd} (h : plain c) : outer c := by
  cases c <;> first | exact h | exact trivial

theorem steady_pushQueueLines {P : Wire ⊕ DownloaderCmd → Prop} : ∀ lines : List Str,
    Steady P controlled (pushQueueLines lines)
  | [] => steady_pure _
  | _ :: lines =>
    steady_bind (steady_bind steady_get fun _ => steady_pure _) fun _ =>
      steady_bind (steady_orThrow _) fun _ => steady_bind (steady_modify fun _ => rfl)
        fun _ => steady_pushQueueLines lines

theorem steady_initializeDownloadQueue :
    Steady (own fun c => ∃ path, c = .queueRead path) controlled initializeDownloadQueue := by
  refine steady_bind (steady_modify fun _ => rfl) fun _ => steady_bind ?_ fun d => ?_
  · exact steady_bind steady_get fun _ => steady_pure _
  · refine steady_bind (steady_issue ⟨_, rfl⟩) fun contents => ?_
    cases Option.bind contents fromUtf8 with
    | none => exact steady_pure _
    | some text => exact steady_pushQueueLines _

theorem keeps_initializeDownloadQueue :
    Keeps (own fun c => ∃ path, c = .queueRead path) controlled initializeDownloadQueue :=
  steady_initializeDownloadQueue.keeps

/-- The commands that make a connection. -/
def connecting : DownloaderCmd → Prop
  | .resolveAddress _ _ => True
  | .tcpConnect _ => True
  | .connect _ _ => True
  | _ => False

theorem quiet_of_connecting {c : DownloaderCmd} (h : connecting c) : quiet c := by
  cases c <;> first | exact False.elim h | exact ⟨rfl, rfl⟩

/-- Taking a stream changes the stream, and the reverse connection of the thread. -/
theorem steady_takeStream :
    Steady (own connecting) (fun t => { t.self with reverseConnection := none }) takeStream := by
  refine steady_bind (steady_bind steady_get fun _ => steady_pure _) fun d => ?_
  cases d.reverseConnection with
  | some enc =>
    exact steady_bind (steady_modify fun _ => rfl) fun _ =>
      steady_bind (steady_modify fun _ => rfl) fun _ => steady_pure _
  | none =>
    refine steady_bind (steady_bind steady_get fun _ => steady_pure _) fun d =>
      steady_bind (steady_issue trivial) fun a => steady_bind (steady_orThrow _) fun address =>
        steady_bind (steady_issue trivial) fun connected => steady_ite ?_ (steady_pure _)
    exact steady_bind (steady_issue trivial) fun r => steady_bind (steady_orThrow _) fun enc =>
      steady_bind (steady_modify fun _ => rfl) fun _ => steady_pure _

theorem keeps_takeStream :
    Keeps (own connecting) (fun t => { t.self with reverseConnection := none }) takeStream :=
  steady_takeStream.keeps

/-- The directory of all downloads, where `base` is the answer to `downloadsBase`. -/
def downloadsDir (config : Config) (base : Str) : Str :=
  if config.configFile.pathDownloads = [] then
    endInSeparator (stripFront "\\\\?\\".toList (join base "Transmitic Downloads".toList))
  else endInSeparator config.configFile.pathDownloads

theorem still_getPathDownloadsDirUser (user : Str) (config : Config) :
    Still (fun c => c = .downloadsBase) (getPathDownloadsDirUser user config) := by
  refine still_bind (still_ite ?_ (still_pure _)) fun _ => still_pure _
  exact still_bind (still_command rfl) fun _ => still_bind (still_tryIo _) fun _ => still_pure _

theorem local_getPathDownloadsDirUser (user : Str) (config : Config) :
    Local outer (getPathDownloadsDirUser user config) := by
  refine (still_getPathDownloadsDirUser user config).changesProgress.mono fun c hc => ?_
  rw [hc]
  exact trivial

/-! ## 7. The local file of a transfer -/

section Destination

variable (t : Transfer)

theorem still_createEmptyFile (doesFileExist : Bool) :
    Still (onTransfer t) (createEmptyFile t doesFileExist) := by
  refine still_ite ?_ (still_pure _)
  exact still_bind (still_command (.inr (.inr rfl))) fun _ => still_bind (still_tryIo _)
    fun _ => still_bind (still_command (.inr (.inl rfl))) fun _ => still_tryIo _

theorem still_openDestination : Still (onTransfer t) (openDestination t) := by
  refine still_bind (still_command (.inr (.inr rfl))) fun _ => still_bind (still_tryIo _)
    fun _ => still_bind (still_command (.inl trivial)) fun a => still_ite ?_ ?_
  · exact still_bind (still_command (.inr (.inl rfl))) fun _ => still_tryIo _
  · exact still_bind (still_command (.inr (.inl rfl))) fun _ => still_tryIo _

/-- The routine of a transfer, and what it does to its file. -/
def working (c : DownloaderCmd) : Prop := routine c ∨ onTransfer t c

variable {t}

theorem inTransfer_of_working {c : DownloaderCmd} (h : working t c) : inTransfer t c :=
  h.elim (fun hc => inTransfer_of_quiet (quiet_of_routine hc)) fun hc =>
    inTransfer_of_ofTransfer (ofTransfer_of_onTransfer hc)

theorem Aside.during {α : Type} {m : Dl α} (h : Aside routine m) : Aside (working t) m :=
  h.mono fun _ => .inl

variable (t)

theorem aside_createEmptyFile (doesFileExist : Bool) :
    Aside (working t) (createEmptyFile t doesFileExist) :=
  (still_createEmptyFile t doesFileExist).changesProgress.aside.mono fun _ => .inr

theorem aside_openDestination : Aside (working t) (openDestination t) :=
  (still_openDestination t).changesProgress.aside.mono fun _ => .inr

theorem aside_checkQueueFile (doesFileExist : Bool) (fileLength : UInt64) :
    Aside (working t) (checkQueueFile t doesFileExist fileLength) := by
  have hinvalid : ∀ path message, Aside (working t) (invalidateQueueItem path message) :=
    fun path message => (aside_invalidateQueueItem path message).during
  refine aside_ite (aside_bind (hinvalid _ _) fun _ => aside_pure _) ?_
  refine aside_ite (aside_pure _) (aside_ite ?_ (aside_bind (hinvalid _ _) fun _ => aside_pure _))
  exact aside_bind (aside_createEmptyFile t doesFileExist) fun _ =>
    aside_bind (aside_completeQueueItem _ _).during fun _ => aside_pure _

theorem aside_checkSubfile (doesFileExist : Bool) (fileLength : UInt64) :
    Aside (working t) (checkSubfile t doesFileExist fileLength) := by
  have hinvalid : ∀ path message, Aside (working t) (invalidateQueueItem path message) :=
    fun path message => (aside_invalidateQueueItem path message).during
  refine aside_bind aside_self fun d => aside_ite (aside_bind (hinvalid _ _) fun _ =>
    aside_throw _) (aside_ite (aside_pure _) (aside_ite ?_ ?_))
  · exact aside_bind (aside_createEmptyFile t doesFileExist) fun _ => aside_pure _
  · exact aside_bind (local_appUpdateInvalidFile _ _).routinely.during fun _ => aside_pure _

/-- The method reads from the stream, and does its routine and what a transfer does to its file. -/
def Receives {α : Type} (m : Dl α) : Prop := Keeps (readAnd (working t)) (fun _ => ()) m

variable {t}

theorem Aside.receives {α : Type} {m : Dl α} (h : Aside (working t) m) : Receives t m :=
  (h.map fun _ => ()).mono (readAnd_of_own fun _ hc => hc)

theorem receives_read : Receives t read :=
  (steady_read_of fun _ _ => trivial).keeps.map fun _ => ()

/-- **The loop over the chunks of a file** writes nothing to the stream. -/
theorem receives_transferLoop [Crates] : ∀ (fuel : Nat) (remoteMessage : UInt16)
    (currentDownloadedBytes : UInt64),
    Receives t (transferLoop t fuel remoteMessage currentDownloadedBytes)
  | 0, _, _ => keeps_throw _
  | fuel + 1, remoteMessage, currentDownloadedBytes => by
    have hself : Receives t self := aside_self.receives
    refine keeps_bind steady_getPayload.keeps fun payloadBytes => ?_
    refine keeps_bind (keeps_modify fun _ => rfl) fun _ => ?_
    refine keeps_bind (aside_command (.inr (.inr (.inl rfl)))).receives fun a => ?_
    refine keeps_bind (aside_tryIo a).receives fun _ => ?_
    refine keeps_bind local_updateProgress.routinely.during.receives fun _ => ?_
    refine keeps_ite (fun _ => (aside_finishTransfer t).during.receives) fun _ => ?_
    refine keeps_ite (fun _ => (aside_failTransfer t _ _).during.receives) fun _ => ?_
    refine keeps_bind receives_read fun _ => keeps_bind steady_getMessage.keeps fun _ => ?_
    refine keeps_bind hself fun _ => keeps_bind (steady_throwIf _ _).keeps fun _ => ?_
    refine keeps_bind (aside_readReceiver fuel).during.receives fun _ => ?_
    refine keeps_bind hself fun _ => keeps_ite (fun _ => keeps_pure _) fun _ => ?_
    exact receives_transferLoop fuel _ _

end Destination

/-! ## 8. A downloader at rest -/

/-- A downloader of a user that waits with the queue `downloadQueue`. -/
def idleThread (pathQueueFile : Str) (downloadQueue : List DownloadQueueItem) :
    Thread SingleDownloader :=
  let sharedUser : SharedUser :=
    { nickname := [], publicId := [], ip := [], port := [], allowed := true }
  let configFile : ConfigFile :=
    { myPrivateId := [], sharedUsers := [sharedUser], sharedFiles := [], sharingPort := []
      ignoreIncoming := false, reverseConnection := false, pathDownloads := [] }
  let config : Config :=
    { firstStart := false, configFile, localPrivateKeyBytes := [], pathDirConfig := []
      password := none, nonce := nonceInit, iterations := pbkdf2Iterations, configVersion }
  { self := { SingleDownloader.new sharedUser pathQueueFile false none config with downloadQueue }
    encryptedStream := EncryptedStream.new sharedUser [] }

/-- A downloader of the user `bob`, with the downloads in `/d`. -/
def bobThread : Thread SingleDownloader :=
  let t := idleThread [] []
  let configFile := { t.self.config.configFile with pathDownloads := "/d".toList }
  { t with
    self := { t.self with
      sharedUser := { t.self.sharedUser with nickname := "bob".toList }
      config := { t.self.config with configFile } } }

/-- The answers where nothing is sent, the disk is empty and every change of it succeeds. -/
def restAnswers : (c : Wire ⊕ DownloaderCmd) → Ans DownloaderCmd.Ans c
  | .inl (.seal _ _) => Sealed.done
  | .inl (.unseal _ _) => Unsealed.io []
  | .inr .revTryRecv => TryRecv.empty
  | .inr .tryRecv => TryRecv.empty
  | .inr (.app _) => ()
  | .inr (.sleep _) => ()
  | .inr .progressElapsed => false
  | .inr (.queueRead _) => none
  | .inr (.queueRemove _) => Removed.notFound
  | .inr (.queueWrite _ _) => Except.ok ()
  | .inr (.pathExists _) => false
  | .inr (.metadataLen _) => Except.error []
  | .inr (.createDirAll _) => Except.ok ()
  | .inr (.fileCreate _) => Except.ok ()
  | .inr (.fileOpenEnd _) => Except.ok ()
  | .inr (.fileWrite _ _) => Except.ok ()
  | .inr .downloadsBase => Except.ok []
  | .inr (.refreshGet _) => none
  | .inr (.refreshInsert _ _) => ()
  | .inr (.resolveAddress _ _) => Except.ok []
  | .inr (.tcpConnect _) => false
  | .inr (.connect _ _) => Except.error (.err [])

/-- The same, but the peer is there, and its listing is in the cache. -/
def onlineAnswers (listing : SharedFile) :
    (c : Wire ⊕ DownloaderCmd) → Ans DownloaderCmd.Ans c
  | .inr (.refreshGet _) => some (some listing)
  | .inr (.tcpConnect _) => true
  | .inr (.connect sharedUser privateIdBytes) =>
    Except.ok (EncryptedStream.new sharedUser privateIdBytes)
  | c => restAnswers c

/-- The same as at rest, but there is a message in the channel. -/
def messageAnswers (m : MessageSingleDownloader) :
    (c : Wire ⊕ DownloaderCmd) → Ans DownloaderCmd.Ans c
  | .inr .tryRecv => TryRecv.value m
  | c => restAnswers c

/-- Other packages, for runs that do not depend on them. -/
@[reducible] def idleCrates : Crates where
  toLowercase s := s
  configToJson _ := .error []
  configFromJson _ := .error []
  encryptedToJson _ := .error []
  encryptedFromJson _ := .error []
  listingToJson _ := .error []
  listingFromJson _ := .error []
  ed25519FromPkcs8 _ := .error []
  pbkdf2 _ _ _ := []
  aesEncrypt _ _ _ := .error []
  aesDecrypt _ _ _ := .error []
  crc32 _ := 0

/-- The command of its own a downloader issues next. -/
def asked {α : Type} (q : Prog (Thread SingleDownloader) (Wire ⊕ DownloaderCmd)
    (Ans DownloaderCmd.Ans) Exc α) : Option DownloaderCmd :=
  q.issued.bind Sum.getRight?

theorem issued_of_asked {α : Type} {q : Prog (Thread SingleDownloader) (Wire ⊕ DownloaderCmd)
    (Ans DownloaderCmd.Ans) Exc α} {c : DownloaderCmd} (h : asked q = some c) :
    q.issued = some (.inr c) := by
  obtain ⟨d, hd, hc⟩ := Option.bind_eq_some_iff.mp h
  rw [hd]
  cases d with
  | inl w => cases hc
  | inr d =>
    cases hc
    rfl

end Transmitic
