/-
  File:      Transmitic/DownloaderSession.lean
  Subject:   WHAT HOLDS ALL THE TIME WHILE A CONNECTION IS SERVED, and in the life of the thread.

  `serveConnection` goes through the queue, the listed trees and the chunks of a file in nested loops,
  and after every step of any of them it reads its channels and stops if it is told to. An invariant
  has to be shown for the parts only these loops are made of.

  * `TreeParts` -- the parts of `serveConnection` keep an invariant, a listed file being one of them;
  * `TreeParts.serveConnection` -- **then serving a connection keeps it**;
  * `TransferParts` -- the messages of a transfer, with what holds before and after each of them;
  * `FileParts` -- the checks of a file: it is asked for only while the downloader has not been told to
    stop, and for its active download (`During`);
  * `QueueParts` -- the same, where every message of a transfer keeps one invariant;
  * `LoopParts`, `LifeParts`, `LifeParts.runThread` -- the same for the loops around it;
  * `SessionParts`, `ThreadParts` -- invariants that do not look at what is reported.
-/
import Transmitic.DownloaderCommands

namespace Transmitic

open Lib

/-- The surroundings of a downloader. -/
abbrev DlEnv (W : Type) := Env (Thread SingleDownloader) (Wire ⊕ DownloaderCmd)
  (Ans DownloaderCmd.Ans) W

section Invariants

variable {W : Type} {E : DlEnv W} {I K : Thread SingleDownloader → W → Prop} {D : Str → Prop}
  {F : Exc → Thread SingleDownloader → W → Prop}

/-- `I`, and the downloader has not been told to stop. -/
def Working (I : Thread SingleDownloader → W → Prop) (t : Thread SingleDownloader) (w : W) : Prop :=
  I t w ∧ t.self.stopDownloading = false

/-- A transfer of a listed file into a directory with `D`. -/
def BelongsTo (D : Str → Prop) (t : Transfer) : Prop :=
  D t.downloadDir ∧ ∃ name, getSanitizedDiskFileName t.sharedFile = .ok name ∧
    t.destinationPath = t.downloadDir ++ name

/-- `I`, with `q` as the active download of a downloader that has not been told to stop. -/
def During (I : Thread SingleDownloader → W → Prop) (q : DownloadQueueItem)
    (t : Thread SingleDownloader) (w : W) : Prop :=
  I t w ∧ t.self.stopDownloading = false ∧ t.self.activeDownloadPath = some q

theorem working_inv (t : Thread SingleDownloader) (w : W) (h : Working I t w) : I t w := h.1

theorem During.working {q : DownloadQueueItem} (t : Thread SingleDownloader) (w : W)
    (h : During I q t w) : Working I t w := ⟨h.1, h.2.1⟩

theorem during_inv {q : DownloadQueueItem} (t : Thread SingleDownloader) (w : W)
    (h : During I q t w) : I t w := h.1

theorem leads_during {α : Type} {q : DownloadQueueItem} {m : Dl α} (hm : Maintains E (During I q) m)
    (t : Thread SingleDownloader) (w : W) (h : During I q t w) :
    wp E m (fun _ => During I q) (fun _ => I) t w :=
  wp_conseq (hm t w h) (fun _ _ _ h' => h') fun _ => during_inv

theorem maintains_working {α : Type} {P : Wire ⊕ DownloaderCmd → Prop} {m : Dl α}
    (h : Maintains E I m) (hk : Keeps P (fun t => t.self.stopDownloading) m) :
    Maintains E (Working I) m :=
  h.and hk fun b => b = false

/-- The part of the thread that says whether it goes on, and with which download. -/
def activity (t : Thread SingleDownloader) : Bool × Option DownloadQueueItem :=
  (t.self.stopDownloading, t.self.activeDownloadPath)

theorem maintains_during {α : Type} {P : Wire ⊕ DownloaderCmd → Prop} {m : Dl α}
    {q : DownloadQueueItem} (h : Maintains E I m) (hk : Keeps P activity m) :
    Maintains E (During I q) m :=
  h.and hk fun v => v.1 = false ∧ v.2 = some q

theorem Firm.activity {α : Type} {P : DownloaderCmd → Prop} {m : Dl α} (h : Firm P m) :
    Keeps (own P) activity m :=
  h.keeps.map fun v => (v.1.stopDownloading, v.1.activeDownloadPath)

theorem Firm.stop {α : Type} {P : DownloaderCmd → Prop} {m : Dl α} (h : Firm P m) :
    Keeps (own P) (fun t => t.self.stopDownloading) m :=
  h.keeps.map fun v => v.1.stopDownloading

theorem firm_count {P : DownloaderCmd → Prop} (n : UInt64) : Firm P (modifySelf fun d =>
    { d with activeDownloadedCurrentBytes := d.activeDownloadedCurrentBytes + n }) :=
  steady_modify fun _ => rfl

/-- The rest of a loop after the downloader has read its channels. -/
theorem wp_unlessStopped {m : Dl Unit} {t : Thread SingleDownloader} {w : W}
    (h : Working I t w → wp E m (fun _ => I) F t w) (hi : I t w) :
    wp E (do if (← self).stopDownloading then pure () else m) (fun _ => I) F t w := by
  show wp E (if t.self.stopDownloading = true then pure () else m) (fun _ => I) F t w
  split
  · exact hi
  · rename_i hstop
    exact h ⟨hi, by simpa using hstop⟩

theorem keeps_invalidateQueueItem (path message : Str) :
    Keeps (own hushed) (fun t => t.self.stopDownloading) (invalidateQueueItem path message) := by
  refine keeps_bind ?_ fun _ => ?_
  · exact (keeps_setActiveDownloadFinished.mono (own_mono fun _ => hushed_of_onQueueFile)).map
      fun v => v.1.stopDownloading
  · exact ((still_appUpdateInvalidFile path message).mono fun _ => hushed_of_reporting).firm.stop

variable [Crates]

/-! ## 1. The queue and the listed trees -/

/-- A directory of the listing has its place below `root`. -/
def DirectoryPlace (root : Str) (f : SharedFile) (destinationPath : Str) : Prop :=
  f.isDirectory = true → ∃ name, getSanitizedDiskFileName f = .ok name ∧ destinationPath = root ++ name

omit [Crates] in
theorem wp_started (root : Str) (item : DownloadQueueItem) (f : SharedFile) (t : Thread SingleDownloader) :
    wp (anyAnswers fun _ => True)
      (do let destinationPath ← startItem root item f; appUpdateInProgress; return destinationPath)
      (fun destinationPath _ _ => DirectoryPlace root f destinationPath) (fun _ _ _ => True) t () := by
  refine (wp_bind (startItem root item f) _).mpr ((wp_bind (modifySelf _) _).mpr ((wp_modifySelf _).mpr ?_))
  show wp _ (orThrow (getSanitizedDiskFileName f) >>= _) _ _ _ ()
  cases hname : getSanitizedDiskFileName f with
  | error e => exact trivial
  | ok name => exact ⟨trivial, fun _ _ _ hdir => ⟨name, hname, if_pos hdir⟩⟩

omit [Crates] in
theorem local_started (root : Str) (item : DownloadQueueItem) (f : SharedFile) : Local plain (do
    let destinationPath ← startItem root item f
    appUpdateInProgress
    return destinationPath) :=
  local_bind (local_startItem _ _ _) fun _ => local_bind local_appUpdateInProgress fun _ => local_pure _

/-- The parts of `serveConnection` keep `I`, up to the download of one listed file; `P dir f` says that `f`
    may be downloaded into `dir`. Where anything fails, `F` is left. -/
structure TreeParts (E : DlEnv W) (I : Thread SingleDownloader → W → Prop)
    (F : Exc → Thread SingleDownloader → W → Prop) (root : Str) (P : Str → SharedFile → Prop) : Prop where
  fails : ∀ x t w, I t w → F x t w
  inner : ∀ dir f name, P dir f → f.isDirectory = true → getSanitizedDiskFileName f = .ok name →
    ∀ a ∈ f.files, P (dir ++ name ++ ['/']) a
  /-- The item at the front of the queue becomes the active one, and is reported. -/
  starts : ∀ root item f t w, Working I t w → t.self.downloadQueue.head? = some item →
    wp E (do let destinationPath ← startItem root item f; appUpdateInProgress; return destinationPath)
      (fun _ => Working I) F t w
  file : ∀ fuel dir f name, P dir f → f.isDirectory = false → getSanitizedDiskFileName f = .ok name →
    ∀ t w, Working I t w → wp E (downloadFile fuel dir (dir ++ name) f) (fun _ => I) F t w
  progress : Maintains E I appUpdateInProgress
  invalidate : ∀ path message, Maintains E I (invalidateQueueItem path message)
  /-- A directory of the listing has been gone through. -/
  finish : ∀ (item : DownloadQueueItem) f name, P root f → f.path = item.path → f.isDirectory = true →
    getSanitizedDiskFileName f = .ok name → Maintains E I (completeQueueItem item.path (root ++ name))
  receiver : ∀ fuel, Maintains E I (readReceiver fuel)
  everything : ∀ fuel t w, Working I t w →
    wp E (setEverythingFile fuel false) (fun _ => Working I) F t w
  listing : ∀ nickname t w, Working I t w → wp E (command (.refreshGet nickname))
    (fun data t' w' => Working I t' w' ∧ ∀ f, data = some (some f) → ∀ a ∈ nodes f, P root a) F t w

namespace TreeParts

variable {root : Str} {P : Str → SharedFile → Prop} (h : TreeParts E I F root P)

include h

mutual

/-- A listed file or directory. Over its tree. -/
theorem downloadSharedFile (fuel : Nat) {dir : Str} : ∀ f : SharedFile, P dir f →
    ∀ s w, Working I s w → wp E (downloadSharedFile fuel dir f) (fun _ => I) F s w
  | ⟨path, isDirectory, files, fileSize, sizeString⟩, hf, s, w, hs => by
    rw [Transmitic.downloadSharedFile]
    cases hname : getSanitizedDiskFileName ⟨path, isDirectory, files, fileSize, sizeString⟩ with
    | error e => exact h.fails e s w hs.1
    | ok name =>
      show wp _ (if isDirectory then
        Transmitic.downloadFiles fuel (dir ++ name ++ ['/']) files
        else Transmitic.downloadFile fuel dir (dir ++ name) _) _ _ s w
      split
      · rename_i hdir
        exact downloadFiles fuel files (h.inner dir _ name hf hdir hname) s w hs
      · rename_i hdir
        exact h.file fuel dir _ name hf (by simpa using hdir) hname s w hs

theorem downloadFiles (fuel : Nat) {dir : Str} : ∀ files : List SharedFile,
    (∀ a ∈ files, P dir a) → ∀ s w, Working I s w →
    wp E (downloadFiles fuel dir files) (fun _ => I) F s w
  | [], _, s, w, hs => by
    rw [Transmitic.downloadFiles]
    exact hs.1
  | a :: files, hf, s, w, hs => by
    rw [Transmitic.downloadFiles]
    have ha : P dir a := hf a List.mem_cons_self
    have hfiles : ∀ b ∈ files, P dir b := fun b hb => hf b (List.mem_cons_of_mem _ hb)
    refine wp_seq (downloadSharedFile fuel a ha s w hs) (fun _ s w hi => ?_) fun _ _ _ h' => h'
    refine wp_seq (h.receiver fuel s w hi) (fun _ s w hi => ?_) h.fails
    exact wp_unlessStopped (fun hs => downloadFiles fuel files hfiles s w hs) hi

end

theorem finishDirectory {item : DownloadQueueItem} {f : SharedFile} (hf : P root f)
    (hpath : f.path = item.path) {destinationPath : Str} (hplace : DirectoryPlace root f destinationPath) :
    Maintains E I (finishDirectory item f destinationPath) := by
  intro s w hi
  show wp E (if (!s.self.stopDownloading && f.isDirectory) = true then
    completeQueueItem item.path destinationPath else pure ()) _ _ s w
  split
  · rename_i hend
    rw [Bool.and_eq_true] at hend
    obtain ⟨name, hname, rfl⟩ := hplace hend.2
    exact h.finish item f name hf hpath hend.2 hname s w hi
  · exact hi

theorem downloadItem (fuel : Nat) (item : DownloadQueueItem) {f : SharedFile} (hf : P root f)
    (hpath : f.path = item.path) {s : Thread SingleDownloader} {w : W} (hs : Working I s w)
    (hhead : s.self.downloadQueue.head? = some item) :
    wp E (downloadItem fuel root item f) (fun _ => I) F s w := by
  have hstart := wp_conseq (wp_also (wp_started root item f s) (h.starts root item f s w hs hhead))
    (fun _ _ _ h' => h') fun _ _ _ h' => h'.1
  refine wp_rest hstart fun destinationPath s' w' h' => wp_rest h' fun _ s' w' h' => ?_
  obtain ⟨hs', hplace⟩ := h'
  refine wp_seq (h.downloadSharedFile fuel f hf s' w' hs') (fun _ s' w' h' => ?_) fun _ _ _ h' => h'
  have hrest := maintains_bind (h.finishDirectory hf hpath hplace) fun _ => h.progress
  exact wp_conseq (hrest s' w' h') (fun _ _ _ h' => h') h.fails

/-- **The queue**: what the listing does not have is invalid, the rest is downloaded. -/
theorem queueLoop {listing : SharedFile} (hl : ∀ a ∈ nodes listing, P root a) :
    ∀ (fuel : Nat) {s w}, Working I s w → wp E (queueLoop root listing fuel) (fun _ => I) F s w
  | 0, s, w, hs => h.fails _ s w hs.1
  | fuel + 1, s, w, hs => by
    rw [Transmitic.queueLoop]
    refine (wp_bind self _).mpr (wp_self.mpr ?_)
    cases hqueue : s.self.downloadQueue with
    | nil => exact hs.1
    | cons item items =>
      dsimp only
      cases hfound : getFileByPath item.path listing with
      | none =>
        have hnext : Maintains E (Working I) (Transmitic.invalidateQueueItem item.path
            "No longer shared with you".toList) :=
          maintains_working (h.invalidate _ _) (keeps_invalidateQueueItem _ _)
        exact wp_seq (hnext s w hs) (fun _ s' w' h' => queueLoop hl fuel h')
          fun _ s' w' h' => h.fails _ s' w' h'.1
      | some f =>
        obtain ⟨hmem, hpath⟩ := getFileByPath_some hfound
        refine wp_seq (h.downloadItem fuel item (hl f hmem) hpath hs (by rw [hqueue]; rfl))
          (fun _ s' w' h' => ?_) fun _ _ _ h' => h'
        refine wp_seq (h.receiver fuel s' w' h') (fun _ s' w' h' => ?_) h.fails
        exact wp_unlessStopped (fun hs' => queueLoop hl fuel hs') h'

/-- **Serving a connection keeps the invariant.** -/
theorem serveConnection (fuel : Nat) {s : Thread SingleDownloader} {w : W} (hs : Working I s w) :
    wp E (serveConnection fuel root) (fun _ => I) F s w := by
  refine wp_seq (h.everything fuel s w hs) (fun _ s w hs => ?_) fun _ _ _ h' => h'
  refine (wp_bind _ _).mpr ?_
  show wp E (command (.refreshGet s.self.sharedUser.nickname) >>= _) _ _ s w
  refine wp_seq (h.listing _ s w hs) (fun data s w h' => ?_) fun _ _ _ h' => h'
  obtain ⟨hs, hdata⟩ := h'
  cases data with
  | none => exact hs.1
  | some everything =>
    cases everything with
    | none => exact hs.1
    | some listing => exact h.queueLoop (hdata listing rfl) fuel hs

end TreeParts

/-! ## 2. A transfer -/

/-- The parts of a transfer from `fileLength` on. `Asked msg` holds once `msg` has been read as the first
    answer, `Fetched msg n` while the payload of the message `msg` is still to be written and `n` bytes were
    there before, `Stored msg n` once it is written and `n` bytes are there. In the end `Q` is left, or `F`. -/
structure TransferParts (E : DlEnv W) (tr : Transfer) (fileLength : UInt64)
    (Begun : Thread SingleDownloader → W → Prop) (Asked : UInt16 → Thread SingleDownloader → W → Prop)
    (Fetched Stored : UInt16 → UInt64 → Thread SingleDownloader → W → Prop)
    (Q : Thread SingleDownloader → W → Prop) (F : Exc → Thread SingleDownloader → W → Prop) : Prop where
  asks : ∀ t w, Begun t w → wp E
    (do write msgFileSelectionContinue (beBytes 8 fileLength.toNat ++ utf8 tr.sharedFile.path); read)
    (fun _ t' w' => Asked t'.encryptedStream.getMessage t' w') F t w
  refused : ∀ fuel t w, Asked msgFileInvalidFile t w →
    wp E (setEverythingFile fuel true) (fun _ t' w' => ∀ x, F x t' w') F t w
  opens : ∀ msg t w, ¬ isUnexpected msg → Asked msg t w →
    wp E (openDestination tr) (fun _ => Fetched msg fileLength) F t w
  stores : ∀ msg n payload t w, Fetched msg n t w → t.encryptedStream.getPayload = .ok payload → wp E
    (do
      modifySelf fun d : SingleDownloader => { d with
        activeDownloadedCurrentBytes := d.activeDownloadedCurrentBytes + UInt64.ofNat payload.length }
      tryIo (← command (.fileWrite tr.destinationPath payload))
      updateProgress) (fun _ => Stored msg (n + UInt64.ofNat payload.length)) F t w
  finishes : ∀ t w, Stored msgFileFinished tr.expectedSize t w →
    wp E (finishTransfer tr) (fun _ => Q) F t w
  disagrees : ∀ msg n isLocalFinished isRemoteFinished t w, Stored msg n t w →
    wp E (failTransfer tr isLocalFinished isRemoteFinished) (fun _ => Q) F t w
  reads : ∀ n t w, Stored msgFileChunk n t w →
    wp E read (fun _ t' w' => Fetched t'.encryptedStream.getMessage n t' w') F t w
  receiver : ∀ fuel msg n t w, Fetched msg n t w → wp E (readReceiver fuel)
    (fun _ t' w' => if t'.self.stopDownloading = true then Q t' w' else Fetched msg n t' w') F t w
  asked : ∀ msg x t w, Asked msg t w → F x t w
  fetched : ∀ msg n x t w, Fetched msg n t w → F x t w

namespace TransferParts

variable {tr : Transfer} {fileLength : UInt64} {Begun Q : Thread SingleDownloader → W → Prop}
  {Asked : UInt16 → Thread SingleDownloader → W → Prop}
  {Fetched Stored : UInt16 → UInt64 → Thread SingleDownloader → W → Prop}
  (h : TransferParts E tr fileLength Begun Asked Fetched Stored Q F)

include h

/-- **The chunks of a file.** Over the passes of the loop. -/
theorem transferLoop : ∀ (fuel : Nat) {msg : UInt16} {n : UInt64} {t : Thread SingleDownloader} {w : W},
    ¬ isUnexpected msg → Fetched msg n t w →
    wp E (transferLoop tr fuel msg n) (fun _ => Q) F t w
  | 0, msg, n, t, w, _, hf => h.fetched msg n _ t w hf
  | fuel + 1, msg, n, t, w, hmsg, hf => by
    refine (wp_bind getPayload _).mpr ?_
    show wp E (orThrow t.encryptedStream.getPayload) _ _ t w
    cases hpayload : t.encryptedStream.getPayload with
    | error e => exact h.fetched msg n e t w hf
    | ok payload =>
      refine wp_rest (h.stores msg n payload t w hf hpayload) fun _ t₁ w₁ h₁ => ?_
      refine wp_rest h₁ fun a t₂ w₂ h₂ => wp_rest h₂ fun _ t₃ w₃ h₃ => ?_
      refine wp_seq h₃ (fun _ t₄ w₄ h₄ => ?_) fun _ _ _ h' => h'
      by_cases hremote : msg = msgFileFinished
      · rw [hremote] at h₄ ⊢
        by_cases hlocal : n + UInt64.ofNat payload.length = tr.expectedSize
        · rw [hlocal] at h₄ ⊢
          simp only [decide_true, Bool.and_self, if_true]
          exact h.finishes t₄ w₄ h₄
        · simp only [decide_true, hlocal, decide_false, Bool.and_false, Bool.false_eq_true, if_false]
          exact h.disagrees _ _ _ _ t₄ w₄ h₄
      have hchunk : msg = msgFileChunk := by
        by_contra hne
        exact hmsg ⟨hne, hremote⟩
      rw [hchunk] at h₄
      by_cases hlocal : n + UInt64.ofNat payload.length = tr.expectedSize
      · simp only [hremote, hlocal, decide_true, decide_false, Bool.false_and, Bool.false_eq_true, if_false]
        exact h.disagrees _ _ _ _ t₄ w₄ h₄
      simp only [hremote, hlocal, decide_false, Bool.and_self, Bool.false_eq_true, if_false, bne_self_eq_false]
      refine wp_seq (h.reads _ t₄ w₄ h₄) (fun _ t₅ w₅ h₅ => ?_) fun _ _ _ h' => h'
      refine (wp_bind getMessage _).mpr ?_
      show wp _ (self >>= _) _ _ t₅ w₅
      refine (wp_bind self _).mpr (wp_self.mpr ((wp_bind (throwIf _ _) _).mpr ((wp_throwIf _ _).mpr ?_)))
      split
      · exact h.fetched _ _ _ t₅ w₅ h₅
      rename_i hexpected
      refine wp_seq (h.receiver fuel _ _ t₅ w₅ h₅) (fun _ t₆ w₆ h₆ => ?_) fun _ _ _ h' => h'
      refine (wp_bind self _).mpr (wp_self.mpr ((wp_ite _ _ _).mpr ?_))
      split
      · rename_i hstop
        rwa [if_pos hstop] at h₆
      · rename_i hstop
        rw [if_neg hstop] at h₆
        exact transferLoop fuel hexpected h₆

/-- **A transfer**, from the request on. -/
theorem transferFile (fuel : Nat) {t : Thread SingleDownloader} {w : W} (hb : Begun t w) :
    wp E (transferFile fuel tr fileLength) (fun _ => Q) F t w := by
  refine wp_rest (h.asks t w hb) fun _ t₁ w₁ h₁ => ?_
  refine wp_seq h₁ (fun _ t₂ w₂ h₂ => ?_) fun _ _ _ h' => h'
  refine (wp_bind getMessage _).mpr ?_
  show wp _ (if t₂.encryptedStream.getMessage = msgFileInvalidFile then _ else _) _ _ t₂ w₂
  split
  · rename_i hinvalid
    rw [hinvalid] at h₂
    exact wp_seq (h.refused fuel t₂ w₂ h₂) (fun _ _ _ h' => h' _) fun _ _ _ h' => h'
  refine (wp_bind self _).mpr (wp_self.mpr ((wp_bind (throwIf _ _) _).mpr ((wp_throwIf _ _).mpr ?_)))
  split
  · exact h.asked _ _ t₂ w₂ h₂
  rename_i hexpected
  refine wp_seq (h.opens _ t₂ w₂ hexpected h₂) (fun _ t₃ w₃ h₃ => ?_) fun _ _ _ h' => h'
  exact h.transferLoop fuel hexpected h₃

end TransferParts

/-! ## 3. A file -/

/-- What `downloadFile` begins with: the first look at the local file. -/
def lookAt (path : Str) : Dl (Bool × UInt64) := do
  let doesFileExist ← pathExists path
  let fileLength ← localFileLength path doesFileExist
  modifySelf fun d =>
    { d with activeDownloadedCurrentBytes := d.activeDownloadedCurrentBytes + fileLength }
  return (doesFileExist, fileLength)

omit [Crates] in
theorem firm_lookAt (path : Str) : Firm looking (lookAt path) := by
  refine steady_bind (still_command trivial).firm fun doesFileExist => ?_
  refine steady_bind (still_localFileLength path doesFileExist).firm fun fileLength => ?_
  exact steady_bind (firm_count fileLength) fun _ => steady_pure _

/-- The parts of the download of a file with `P`. `Known path doesFileExist fileLength` holds once the local
    file has been looked at, and `Settled path` where it has the listed length. A file is asked for only while
    the downloader has not been told to stop, and for its active download. -/
structure FileParts (E : DlEnv W) (I : Thread SingleDownloader → W → Prop)
    (F : Exc → Thread SingleDownloader → W → Prop) (P : Transfer → Prop)
    (Known : Str → Bool → UInt64 → Thread SingleDownloader → W → Prop)
    (Settled : Str → Thread SingleDownloader → W → Prop) : Prop where
  fails : ∀ x t w, I t w → F x t w
  looks : ∀ path t w, Working I t w → wp E (lookAt path)
    (fun r t' w' => Working I t' w' ∧ Known path r.1 r.2 t' w') F t w
  invalid : ∀ path message, Maintains E I (appUpdateInvalidFile path message)
  invalidate : ∀ path message, Maintains E I (invalidateQueueItem path message)
  settles : ∀ t doesFileExist s w, P t → During I t.queueDownload s w →
    Known t.destinationPath doesFileExist t.sharedFile.fileSize s w →
    wp E (createEmptyFile t doesFileExist) (fun _ => Settled t.destinationPath) F s w
  settled : ∀ path t w, Settled path t w → I t w
  completes : ∀ t s w, P t → Settled t.destinationPath s w →
    wp E (completeQueueItem t.queueDownload.path t.destinationPath) (fun _ => I) F s w
  ask : ∀ fuel t doesFileExist fileLength s w, P t → During I t.queueDownload s w →
    Known t.destinationPath doesFileExist fileLength s w → fileLength < t.sharedFile.fileSize →
    t.expectedSize = t.sharedFile.fileSize →
    wp E (transferFile fuel t fileLength) (fun _ => I) F s w

namespace FileParts

variable {P : Transfer → Prop} {Known : Str → Bool → UInt64 → Thread SingleDownloader → W → Prop}
  {Settled : Str → Thread SingleDownloader → W → Prop} (h : FileParts E I F P Known Settled)

include h

theorem ended {m : Dl Unit} (hm : Maintains E I m) {J : Thread SingleDownloader → W → Prop}
    {s : Thread SingleDownloader} {w : W} (hi : I s w) : wp E (m >>= fun _ => pure false)
      (fun needed s' w' => I s' w' ∧ (needed = true → J s' w')) F s w :=
  wp_seq (hm s w hi) (fun _ _ _ h' => ⟨h', nofun⟩) h.fails

omit h in
/-- The checks have found that the file is to be transferred. -/
def Needed (I : Thread SingleDownloader → W → Prop)
    (Known : Str → Bool → UInt64 → Thread SingleDownloader → W → Prop) (t : Transfer) (doesFileExist : Bool)
    (fileLength : UInt64) (s : Thread SingleDownloader) (w : W) : Prop :=
  During I t.queueDownload s w ∧ Known t.destinationPath doesFileExist fileLength s w ∧
    fileLength < t.sharedFile.fileSize ∧ t.expectedSize = t.sharedFile.fileSize

/-- The checks before a transfer: where it is needed, the download is still the active one. -/
theorem checkQueueFile {t : Transfer} (ht : P t) {doesFileExist : Bool} {fileLength : UInt64}
    {s : Thread SingleDownloader} {w : W} (hd : During I t.queueDownload s w)
    (hk : Known t.destinationPath doesFileExist fileLength s w) :
    wp E (checkQueueFile t doesFileExist fileLength) (fun needed s' w' => I s' w' ∧
      (needed = true → Needed I Known t doesFileExist fileLength s' w')) F s w := by
  unfold Transmitic.checkQueueFile
  split
  · exact h.ended (h.invalidate _ _) hd.1
  rename_i hsize
  have hexpected : t.expectedSize = t.sharedFile.fileSize := by
    unfold Transfer.expectedSize
    split
    · exact not_not.mp hsize
    · rfl
  rw [not_not.mp hsize]
  split
  · exact ⟨hd.1, fun _ => ⟨hd, hk, ‹_›, hexpected⟩⟩
  split
  · rename_i hlength
    rw [hlength] at hk
    refine wp_seq (h.settles t doesFileExist s w ht hd hk) (fun _ s₁ w₁ h₁ => ?_) fun _ _ _ h' => h'
    exact wp_seq (h.completes t s₁ w₁ ht h₁) (fun _ _ _ h' => ⟨h', nofun⟩) fun _ _ _ h' => h'
  · exact h.ended (h.invalidate _ _) hd.1

theorem checkSubfile {t : Transfer} (ht : P t) (hsub : ¬ t.isQueueFileDownloading = true)
    {doesFileExist : Bool} {fileLength : UInt64} {s : Thread SingleDownloader} {w : W}
    (hd : During I t.queueDownload s w) (hk : Known t.destinationPath doesFileExist fileLength s w) :
    wp E (checkSubfile t doesFileExist fileLength) (fun needed s' w' => I s' w' ∧
      (needed = true → Needed I Known t doesFileExist fileLength s' w')) F s w := by
  show wp E (if t.queueDownload.fileSize < s.self.activeDownloadedCurrentBytes then _ else _) _ _ s w
  split
  · exact wp_seq (h.invalidate _ _ s w hd.1) (fun _ _ _ h' => h.fails _ _ _ h') h.fails
  split
  · exact ⟨hd.1, fun _ => ⟨hd, hk, ‹_›, if_neg hsub⟩⟩
  split
  · rename_i hlength
    rw [hlength] at hk
    exact wp_seq (h.settles t doesFileExist s w ht hd hk)
      (fun _ s₁ w₁ h₁ => ⟨h.settled _ s₁ w₁ h₁, nofun⟩) fun _ _ _ h' => h'
  · exact h.ended (h.invalid _ _) hd.1

/-- **A file**: the active download is what its transfer belongs to. -/
theorem downloadFile {dir destinationPath : Str} {f : SharedFile}
    (hP : ∀ q, P ⟨dir, destinationPath, f, q⟩) (fuel : Nat) {s : Thread SingleDownloader} {w : W}
    (hs : Working I s w) : wp E (downloadFile fuel dir destinationPath f) (fun _ => I) F s w := by
  refine wp_rest (h.looks destinationPath s w hs) fun doesFileExist s₁ w₁ h₁ => ?_
  refine wp_rest h₁ fun fileLength s₂ w₂ h₂ => wp_rest h₂ fun _ s₃ w₃ h₃ => ?_
  obtain ⟨hs₃, hk⟩ := h₃
  refine (wp_bind self _).mpr ?_
  show wp E (orPanic s₃.self.activeDownloadPath >>= _) _ _ s₃ w₃
  cases hactive : s₃.self.activeDownloadPath with
  | none => exact h.fails _ s₃ w₃ hs₃.1
  | some q =>
    let t : Transfer := ⟨dir, destinationPath, f, q⟩
    have hduring : During I t.queueDownload s₃ w₃ := ⟨hs₃.1, hs₃.2, hactive⟩
    show wp E ((if t.isQueueFileDownloading = true then
      Transmitic.checkQueueFile t doesFileExist fileLength
      else Transmitic.checkSubfile t doesFileExist fileLength) >>= fun needed =>
        if needed = true then Transmitic.transferFile fuel t fileLength else pure ()) _ _ s₃ w₃
    have hcheck : wp E (if t.isQueueFileDownloading = true then
        Transmitic.checkQueueFile t doesFileExist fileLength
        else Transmitic.checkSubfile t doesFileExist fileLength)
        (fun needed s' w' => I s' w' ∧
          (needed = true → Needed I Known t doesFileExist fileLength s' w')) F s₃ w₃ := by
      split
      · exact h.checkQueueFile (hP q) hduring hk
      · exact h.checkSubfile (hP q) ‹_› hduring hk
    refine wp_seq hcheck (fun needed s' w' h' => ?_) fun _ _ _ h' => h'
    cases needed with
    | false => exact h'.1
    | true =>
      obtain ⟨hd, hk, hless, hexpected⟩ := h'.2 rfl
      exact h.ask fuel t doesFileExist fileLength s' w' (hP q) hd hk hless hexpected

end FileParts

/-! ## 4. A connection -/

/-- The parts of `serveConnection` keep `I`; downloads go into directories with `D`. Where an item
    cannot be started, `F` is left. -/
structure QueueParts (E : DlEnv W) (I : Thread SingleDownloader → W → Prop)
    (F : Exc → Thread SingleDownloader → W → Prop) (D : Str → Prop) : Prop where
  fails : ∀ x t w, I t w → F x t w
  look : ∀ (α : Type) (m : Dl α), Firm looking m → Maintains E I m
  transfer : ∀ (t : Transfer) (α : Type) (m : Dl α), BelongsTo D t → Firm (onTransfer t) m →
    Maintains E (During I t.queueDownload) m
  inner : ∀ dir f name, D dir → getSanitizedDiskFileName f = .ok name → D (dir ++ name ++ ['/'])
  progress : Maintains E I appUpdateInProgress
  invalid : ∀ path message, Maintains E I (appUpdateInvalidFile path message)
  complete : ∀ path destinationPath, Maintains E I (completeQueueItem path destinationPath)
  invalidate : ∀ path message, Maintains E I (invalidateQueueItem path message)
  /-- The item at the front of the queue becomes the active one, and is reported. -/
  starts : ∀ root item f t w, Working I t w → t.self.downloadQueue.head? = some item →
    wp E (do let destinationPath ← startItem root item f; appUpdateInProgress; return destinationPath)
      (fun _ => Working I) F t w
  receiver : ∀ fuel, Maintains E I (readReceiver fuel)
  read : Maintains E I read
  request : ∀ q payload, Maintains E (During I q) (write msgFileSelectionContinue payload)
  everything : ∀ fuel forceDownload, Maintains E (Working I) (setEverythingFile fuel forceDownload)
  listing : ∀ nickname, Maintains E I (command (.refreshGet nickname))

namespace QueueParts

variable (h : QueueParts E I F D)

include h

theorem lookWorking {α : Type} {m : Dl α} (hm : Firm looking m) : Maintains E (Working I) m :=
  maintains_working (h.look _ m hm) hm.stop

theorem lookDuring {α : Type} {m : Dl α} {q : DownloadQueueItem} (hm : Firm looking m) :
    Maintains E (During I q) m :=
  maintains_during (h.look _ m hm) hm.activity

theorem readDuring {q : DownloadQueueItem} : Maintains E (During I q) Transmitic.read :=
  maintains_during h.read ((keeps_read (P := fun _ => True)).map fun d : SingleDownloader =>
    (d.stopDownloading, d.activeDownloadPath))

theorem updateProgress {q : DownloadQueueItem} : Maintains E (During I q) updateProgress := by
  have hlook : Firm looking (command .progressElapsed) := (still_command trivial).firm
  refine maintains_bind (h.lookDuring hlook) fun _ => ?_
  refine maintains_ite (fun _ => ?_) fun _ => maintains_pure _
  exact maintains_during h.progress still_appUpdateInProgress.firm.activity

theorem finishTransfer (t : Transfer) : Maintains E I (finishTransfer t) :=
  maintains_ite (fun _ => h.complete _ _) fun _ => maintains_pure ()

theorem failTransfer (t : Transfer) (isLocalFinished isRemoteFinished : Bool) :
    Maintains E I (failTransfer t isLocalFinished isRemoteFinished) := by
  unfold Transmitic.failTransfer
  dsimp only
  intro s w hi
  by_cases hq : t.isQueueFileDownloading = true
  · rw [if_pos hq, ← wp_bind_assoc]
    exact maintains_bind (h.invalidate _ _) (fun _ => maintains_throw _) s w hi
  · rw [if_neg hq]
    exact maintains_bind (h.invalid _ _) (fun _ => maintains_throw _) s w hi

/-- A transfer has the download as the active one, up to its end. -/
theorem transferParts {t : Transfer} (ht : BelongsTo D t) (fileLength : UInt64) :
    TransferParts E t fileLength (During I t.queueDownload) (fun _ => During I t.queueDownload)
      (fun _ _ => During I t.queueDownload) (fun _ _ => During I t.queueDownload) I (fun _ => I) where
  asks := leads_during (maintains_bind (h.request _ _) fun _ => h.readDuring)
  refused fuel s w hd :=
    wp_conseq (h.everything fuel true s w (During.working s w hd)) (fun _ _ _ h' _ => h'.1)
      fun _ => working_inv
  opens _ s w _ hd := leads_during (h.transfer t _ _ ht (still_openDestination t).firm) s w hd
  stores _ _ payload s w hd _ := by
    have hwrite : Maintains E (During I t.queueDownload) (command (.fileWrite t.destinationPath payload)) :=
      h.transfer t _ _ ht (still_command (.inr (.inl rfl))).firm
    exact leads_during (maintains_bind (h.lookDuring (firm_count _)) fun _ => maintains_bind hwrite fun a =>
      maintains_bind (h.lookDuring (still_tryIo a).firm) fun _ => h.updateProgress) s w hd
  finishes s w hd := h.finishTransfer t s w hd.1
  disagrees _ _ _ _ s w hd := h.failTransfer t _ _ s w hd.1
  reads _ := leads_during h.readDuring
  receiver fuel _ _ s w hd := by
    refine wp_conseq (wp_also (wp_readReceiver fuel s) (h.receiver fuel s w hd.1)) (fun _ s' w' h' => ?_)
      fun _ _ _ h' => h'.1
    obtain ⟨hi, hpolled⟩ := h'
    split
    · exact hi
    · rename_i hstop
      have hgo : s'.self.stopDownloading = false := by simpa using hstop
      obtain ⟨items, isPaused, hself⟩ := hpolled.going hgo
      refine ⟨hi, hgo, ?_⟩
      rw [hself]
      exact hd.2.2
  asked _ _ := during_inv
  fetched _ _ _ := during_inv

theorem transferFile {t : Transfer} (ht : BelongsTo D t) (fuel : Nat) (fileLength : UInt64) :
    Leads E (During I t.queueDownload) I (transferFile fuel t fileLength) :=
  fun _ _ hd => (h.transferParts ht fileLength).transferFile fuel hd

/-- The download of a file that belongs to a directory with `D`. -/
theorem fileParts : FileParts E I F (BelongsTo D) (fun _ _ _ _ _ => True) fun _ => I where
  fails := h.fails
  looks path t w hw := by
    have hlook : Maintains E (Working I) (lookAt path) := h.lookWorking (firm_lookAt path)
    exact wp_conseq (hlook t w hw) (fun _ _ _ h' => ⟨h', trivial⟩) fun x t' w' h' => h.fails x t' w' h'.1
  invalid := h.invalid
  invalidate := h.invalidate
  settles t doesFileExist s w ht hd _ :=
    wp_conseq (h.transfer t _ _ ht (still_createEmptyFile t doesFileExist).firm s w hd)
      (fun _ => during_inv) fun x s' w' h' => h.fails x s' w' h'.1
  settled _ _ _ hi := hi
  completes t s w _ hi := wp_conseq (h.complete _ _ s w hi) (fun _ _ _ h' => h') h.fails
  ask fuel t _ fileLength s w ht hd _ _ _ :=
    wp_conseq (h.transferFile ht fuel fileLength s w hd) (fun _ _ _ h' => h') h.fails

theorem treeParts {root : Str} (hd : D root) : TreeParts E I F root fun dir _ => D dir where
  fails := h.fails
  inner dir f name hp _ hname _ _ := h.inner dir f name hp hname
  starts := h.starts
  file fuel dir f name hp _ hname _ _ hs := h.fileParts.downloadFile (fun _ => ⟨hp, name, hname, rfl⟩) fuel hs
  progress := h.progress
  invalidate := h.invalidate
  finish item _ name _ _ _ _ := h.complete item.path (root ++ name)
  receiver := h.receiver
  everything fuel t w hw := wp_conseq (h.everything fuel false t w hw) (fun _ _ _ h' => h')
    fun x t' w' h' => h.fails x t' w' h'.1
  listing nickname t w hw := by
    have hkeeps : Maintains E (Working I) (command (.refreshGet nickname)) :=
      maintains_working (h.listing nickname) (keeps_issue (P := fun _ => True) trivial)
    exact wp_conseq (hkeeps t w hw) (fun _ _ _ h' => ⟨h', fun _ _ _ _ => hd⟩)
      fun x t' w' h' => h.fails x t' w' h'.1

/-- **Serving a connection keeps the invariant.** -/
theorem serveConnection {root : Str} (hd : D root) (fuel : Nat) {s : Thread SingleDownloader} {w : W}
    (hs : Working I s w) : wp E (serveConnection fuel root) (fun _ => I) F s w :=
  (h.treeParts hd).serveConnection fuel hs

end QueueParts

/-! ## 5. The thread -/

omit [Crates] in
/-- The directory of the downloads of a user. -/
theorem wp_getPathDownloadsDirUser (user : Str) (config : Config) {t : Thread SingleDownloader}
    {w : W} (h : Maintains E K (getPathDownloadsDirUser user config)) (hk : K t w) :
    wp E (getPathDownloadsDirUser user config) (fun dir t' w' => K t' w' ∧ kept t' = kept t ∧
      ∃ base, dir = downloadsDir config base ++ user) (fun _ => K) t w := by
  have hi := h t w hk
  unfold getPathDownloadsDirUser getPathDownloadsDir at hi ⊢
  by_cases hp : config.configFile.pathDownloads = []
  · rw [if_pos hp] at hi ⊢
    obtain ⟨hok, hstep⟩ := hi
    refine ⟨hok, fun a w' hs => ?_⟩
    have ha := hstep a w' hs
    cases a with
    | error e => exact ha
    | ok base =>
      refine ⟨ha, rfl, base, ?_⟩
      rw [downloadsDir, if_pos hp]
  · rw [if_neg hp] at hi ⊢
    refine ⟨hi, rfl, [], ?_⟩
    rw [downloadsDir, if_neg hp]

/-- The parts of the loops around a connection keep `I` between two connections, and a connection starts
    in `S`, with a directory with `D`; `Polled` holds from the moment the thread has read its channels to the
    moment it waits or takes a stream, `R` where `run` is called, and `F` where it has failed. -/
structure LoopParts (E : DlEnv W) (R I Polled S : Thread SingleDownloader → W → Prop)
    (F : Exc → Thread SingleDownloader → W → Prop) (D : Str → Thread SingleDownloader → W → Prop) :
    Prop where
  serve : ∀ fuel root t w, D root t w → Working S t w →
    wp E (serveConnection fuel root) (fun _ => I) F t w
  polled : ∀ t w, Polled t w → I t w
  fails : ∀ x t w, I t w → F x t w
  again : ∀ x t w, F x t w → R t w
  start : ∀ t w, R t w → wp E (do initializeDownloadQueue; appUpdateOffline) (fun _ => I) F t w
  poll : ∀ fuel t w, I t w → wp E (readReceiver fuel) (fun _ => Polled) (fun _ => I) t w
  resume : ∀ t w, Polled t w → Polled { t with self := { t.self with stopDownloading := false } } w
  /-- The directory of the downloads is the one of the thread's config. -/
  base : ∀ t w, Working Polled t w →
    wp E (getPathDownloadsDirUser t.self.sharedUser.nickname t.self.config)
      (fun dir t' w' => Working Polled t' w' ∧ kept t' = kept t ∧ D (dir ++ ['/']) t' w') (fun _ => Polled) t w
  pause : ∀ millis, Leads E Polled I (command (.sleep millis))
  unreachable : ∀ millis, Maintains E I (do appUpdateOffline; command (.sleep millis))
  leave : Leads E Polled I appUpdateInProgress
  mismatch : ∀ e, errRemoteIdMismatch.isPrefixOf e = true → Leads E (F (.err e)) R reportMismatch
  take : ∀ root t w, D root t w → Working Polled t w → t.self.shutdown = false →
    t.self.isDownloadingPaused = false → wp E takeStream
      (fun taken t' w' => if taken then D root t' w' ∧ Working S t' w' else I t' w') (fun _ => I) t w

namespace LoopParts

variable {R Polled S : Thread SingleDownloader → W → Prop}
  {D : Str → Thread SingleDownloader → W → Prop} (h : LoopParts E R I Polled S F D)

include h

theorem runLoop : ∀ (fuel sleepSecs : Nat) {t w}, I t w →
    wp E (runLoop fuel sleepSecs) (fun _ => I) F t w
  | 0, _, t, w, hi => h.fails _ t w hi
  | fuel + 1, sleepSecs, t, w, hi => by
    refine wp_seq (h.poll fuel t w hi) (fun _ t w hp => ?_) h.fails
    show wp E (if t.self.shutdown = true then appUpdateInProgress else _) _ _ t w
    split
    · exact wp_conseq (h.leave t w hp) (fun _ _ _ h' => h') h.fails
    rename_i hshutdown
    have hgo : Working Polled { t with self := { t.self with stopDownloading := false } } w :=
      ⟨h.resume t w hp, rfl⟩
    refine (wp_bind _ _).mpr ((wp_modifySelf _).mpr ?_)
    have hstay : ({ t with self := { t.self with stopDownloading := false } } :
        Thread SingleDownloader).self.shutdown = false := by simpa using hshutdown
    generalize { t with self := { t.self with stopDownloading := false } } = t at hgo hstay
    have hwait : ∀ millis, wp E (command (.sleep millis) >>= fun _ =>
        Transmitic.runLoop fuel sleepSecs) (fun _ => I) F t w := fun millis =>
      wp_seq (h.pause millis t w hgo.1) (fun _ s' w' h' => runLoop fuel sleepSecs h') h.fails
    show wp E (if t.self.isDownloadingPaused = true then _ else _) _ _ t w
    split
    · exact hwait _
    rename_i hpaused
    have hunpaused : t.self.isDownloadingPaused = false := by simpa using hpaused
    refine (wp_ite _ _ _).mpr ?_
    split
    · exact hwait _
    refine wp_seq (h.base t w hgo) (fun dir t' w' hdir => ?_) fun _ t' w' h' =>
      h.fails _ t' w' (h.polled t' w' h')
    obtain ⟨hwork, hkept, hroot⟩ := hdir
    have hcontrol : t'.self.control = t.self.control := congrArg (fun v => v.2.1) hkept
    have hon : t'.self.shutdown = false :=
      (congrArg (fun d => d.shutdown) hcontrol).trans hstay
    have hrunning : t'.self.isDownloadingPaused = false :=
      (congrArg (fun d => d.isDownloadingPaused) hcontrol).trans hunpaused
    refine wp_seq (h.take _ t' w' hroot hwork hon hrunning) (fun taken t w ht => ?_) h.fails
    refine (wp_ite _ _ _).mpr ?_
    split
    · rename_i htaken
      rw [if_pos htaken] at ht
      refine wp_seq (h.serve fuel _ t w ht.1 ht.2) (fun _ t w hi => ?_) fun _ _ _ h' => h'
      exact runLoop fuel 5 hi
    · rename_i htaken
      rw [if_neg htaken] at ht
      have hnext : wp E ((do appUpdateOffline; command (.sleep (1000 * sleepSecs))) >>= fun _ =>
          Transmitic.runLoop fuel (min (sleepSecs + 5) maxRetrySleep)) (fun _ => I) F t w :=
        wp_seq (h.unreachable _ t w ht) (fun _ t w hi => runLoop fuel _ hi) h.fails
      exact wp_bind_assoc.mp hnext

theorem run (fuel : Nat) {t : Thread SingleDownloader} {w : W} (hr : R t w) :
    wp E (run fuel) (fun _ => I) F t w := by
  have hnext : wp E ((do initializeDownloadQueue; appUpdateOffline) >>= fun _ =>
      Transmitic.runLoop fuel 5) (fun _ => I) F t w :=
    wp_seq (h.start t w hr) (fun _ t w hi => h.runLoop fuel 5 hi) fun _ _ _ h' => h'
  exact wp_bind_assoc.mp hnext

theorem afterFailure (x : Exc) {t : Thread SingleDownloader} {w : W} (hf : F x t w) :
    wp E (afterFailure x) (fun _ => R) (fun _ => R) t w := by
  cases x with
  | err e =>
    have hreport : wp E (if errRemoteIdMismatch.isPrefixOf e = true then reportMismatch else pure ())
        (fun _ => R) (fun _ => R) t w := by
      split
      · exact h.mismatch e ‹_› t w hf
      · exact h.again _ t w hf
    exact wp_seq hreport (fun _ _ _ h' => h') fun _ _ _ h' => h'
  | panic => exact h.again _ t w hf
  | fuel => exact h.again _ t w hf

/-- **The thread keeps the invariant**, however often `run` fails and is called again. -/
theorem runThread (fuel : Nat) : ∀ n : Nat, Maintains E R (runThread fuel n)
  | 0 => maintains_throw _
  | n + 1 => by
    intro t w hr
    have hrun : wp E (do Transmitic.run fuel; return false) (fun _ => R) F t w :=
      wp_seq (h.run fuel hr) (fun _ t w hi => h.again .panic t w (h.fails _ t w hi))
        fun _ _ _ h' => h'
    have hcaught : wp E (tryCatch (do Transmitic.run fuel; return false) Transmitic.afterFailure)
        (fun _ => R) (fun _ => R) t w :=
      (wp_tryCatch _ _).mpr (wp_conseq hrun (fun _ _ _ h' => h') fun x _ _ hf => h.afterFailure x hf)
    refine wp_seq hcaught (fun again t w hr => ?_) fun _ _ _ h' => h'
    exact maintains_ite (fun _ => runThread fuel n) (fun _ => maintains_pure _) t w hr

end LoopParts

/-- The parts of the thread keep `I` between two connections and `S` during one; `Polled` holds from
    the moment the thread has read its channels to the moment it waits or takes a stream, `R` where
    `run` is called, and `F` where it has failed. -/
structure LifeParts (E : DlEnv W) (R I Polled S : Thread SingleDownloader → W → Prop)
    (F : Exc → Thread SingleDownloader → W → Prop) (D : Str → Prop) : Prop where
  session : QueueParts E S F D
  ended : ∀ t w, S t w → I t w
  polled : ∀ t w, Polled t w → I t w
  fails : ∀ x t w, I t w → F x t w
  again : ∀ x t w, F x t w → R t w
  start : ∀ t w, R t w → wp E (do initializeDownloadQueue; appUpdateOffline) (fun _ => I) F t w
  poll : ∀ fuel t w, I t w → wp E (readReceiver fuel) (fun _ => Polled) (fun _ => I) t w
  resume : ∀ t w, Polled t w → Polled { t with self := { t.self with stopDownloading := false } } w
  base : ∀ user config, Maintains E Polled (getPathDownloadsDirUser user config)
  pause : ∀ millis, Leads E Polled I (command (.sleep millis))
  unreachable : ∀ millis, Maintains E I (do appUpdateOffline; command (.sleep millis))
  leave : Leads E Polled I appUpdateInProgress
  mismatch : ∀ e, errRemoteIdMismatch.isPrefixOf e = true → Leads E (F (.err e)) R reportMismatch
  take : ∀ t w, Working Polled t w → t.self.shutdown = false → t.self.isDownloadingPaused = false →
    wp E takeStream (fun taken t' w' => if taken then Working S t' w' else I t' w') (fun _ => I) t w
  root : ∀ t w base, Polled t w →
    D (downloadsDir t.self.config base ++ t.self.sharedUser.nickname ++ ['/'])

namespace LifeParts

variable {R Polled S : Thread SingleDownloader → W → Prop} (h : LifeParts E R I Polled S F D)

include h

theorem loopParts : LoopParts E R I Polled S F fun root _ _ => D root where
  serve fuel root t w hd hs := by
    refine wp_conseq (h.session.serveConnection hd fuel hs) (fun _ => h.ended) fun _ _ _ h' => h'
  polled := h.polled
  fails := h.fails
  again := h.again
  start := h.start
  poll := h.poll
  resume := h.resume
  base t w hgo := by
    have hdir := wp_getPathDownloadsDirUser t.self.sharedUser.nickname t.self.config
      (maintains_working (h.base _ _) (still_getPathDownloadsDirUser _ _).firm.stop) hgo
    refine wp_conseq hdir (fun dir t' w' h' => ?_) fun _ _ _ h' => h'.1
    obtain ⟨hwork, hkept, base, rfl⟩ := h'
    have hcontrol : t'.self.control = t.self.control := congrArg (fun v => v.2.1) hkept
    have hroot := h.root t' w' base hwork.1
    rw [show t'.self.config = t.self.config from congrArg (fun d => d.config) hcontrol,
      show t'.self.sharedUser = t.self.sharedUser from congrArg (fun d => d.sharedUser) hcontrol]
      at hroot
    exact ⟨hwork, hkept, hroot⟩
  pause := h.pause
  unreachable := h.unreachable
  leave := h.leave
  mismatch := h.mismatch
  take root t w hd hw hon hrunning := by
    refine wp_conseq (h.take t w hw hon hrunning) (fun taken t' w' h' => ?_) fun _ _ _ h' => h'
    cases taken with
    | true => exact ⟨hd, h'⟩
    | false => exact h'

/-- **The thread keeps the invariant** that its connections keep. -/
theorem runThread (fuel n : Nat) : Maintains E R (runThread fuel n) :=
  h.loopParts.runThread fuel n

end LifeParts

/-! ## 6. Invariants that every report keeps -/

/-- Reports, looks at the disk, and the end of a download keep `K`. -/
structure Bookkeeping (E : DlEnv W) (K : Thread SingleDownloader → W → Prop) : Prop where
  plain : ∀ (α : Type) (m : Dl α), Local plain m → Maintains E K m
  finished : Maintains E K setActiveDownloadFinished

namespace Bookkeeping

variable (h : Bookkeeping E K)

include h

omit [Crates] in
theorem completeQueueItem (path destinationPath : Str) :
    Maintains E K (completeQueueItem path destinationPath) :=
  maintains_bind h.finished fun _ => maintains_bind (h.plain _ _ local_self) fun _ =>
    h.plain _ _ (local_appUpdateCompleted _ _ _)

omit [Crates] in
theorem invalidateQueueItem (path message : Str) :
    Maintains E K (invalidateQueueItem path message) :=
  maintains_bind h.finished fun _ => h.plain _ _ (local_appUpdateInvalidFile _ _)

end Bookkeeping

/-- The parts of `serveConnection` keep `I`; downloads go into directories with `D`. -/
structure SessionParts [Crates] (E : DlEnv W) (I : Thread SingleDownloader → W → Prop)
    (D : Str → Prop) : Prop where
  transfer : ∀ (t : Transfer) (α : Type) (m : Dl α), BelongsTo D t → Local (ofTransfer t) m →
    Maintains E I m
  inner : ∀ dir f name, D dir → getSanitizedDiskFileName f = .ok name → D (dir ++ name ++ ['/'])
  bookkeeping : Bookkeeping E I
  receiver : ∀ fuel, Maintains E I (readReceiver fuel)
  read : Maintains E I read
  request : ∀ payload, Maintains E (Working I) (write msgFileSelectionContinue payload)
  everything : ∀ fuel forceDownload, Maintains E (Working I) (setEverythingFile fuel forceDownload)
  listing : ∀ nickname, Maintains E I (command (.refreshGet nickname))

/-- An invariant that every report keeps needs no look at what is reported. -/
theorem SessionParts.queueParts (h : SessionParts E I D) : QueueParts E I (fun _ => I) D where
  fails _ _ _ hi := hi
  look _ m hm := h.bookkeeping.plain _ m (hm.changesProgress.mono fun _ => plain_of_looking)
  transfer t _ m ht hm := by
    have hlocal : Local (ofTransfer t) m := hm.changesProgress.mono fun _ => ofTransfer_of_onTransfer
    exact maintains_during (h.transfer t _ m ht hlocal) hm.activity
  inner := h.inner
  progress := h.bookkeeping.plain _ _ local_appUpdateInProgress
  invalid _ _ := h.bookkeeping.plain _ _ (local_appUpdateInvalidFile _ _)
  complete := h.bookkeeping.completeQueueItem
  invalidate := h.bookkeeping.invalidateQueueItem
  starts root item f t w hw _ := by
    have hm := local_started root item f
    exact wp_conseq (maintains_working (h.bookkeeping.plain _ _ hm)
      (hm.keeps.map fun v => v.2.1.stopDownloading) t w hw) (fun _ _ _ h' => h')
      fun _ => working_inv
  receiver := h.receiver
  read := h.read
  request q payload := by
    intro t w hd
    have hkeeps : Keeps (wireAnd fun _ => True) (fun t => t.self.activeDownloadPath)
        (write msgFileSelectionContinue payload : Dl Unit) :=
      (keeps_write _ _).map fun d : SingleDownloader => d.activeDownloadPath
    refine wp_conseq (wp_keeps hkeeps (h.request payload t w (During.working t w hd)))
      (fun _ t' w' h' => ⟨h'.1.1, h'.1.2, h'.2.trans hd.2.2⟩)
      fun _ t' w' h' => ⟨h'.1.1, h'.1.2, h'.2.trans hd.2.2⟩
  everything := h.everything
  listing := h.listing

/-- The parts of the thread keep `I` between two connections and `S` during one; `Polled` holds from
    the moment the thread has read its channels to the moment it takes a stream. -/
structure ThreadParts (E : DlEnv W) (I Polled S : Thread SingleDownloader → W → Prop)
    (D : Str → Prop) : Prop where
  session : SessionParts E S D
  ended : ∀ t w, S t w → I t w
  polled : ∀ t w, Polled t w → I t w
  poll : ∀ fuel t w, I t w → wp E (readReceiver fuel) (fun _ => Polled) (fun _ => I) t w
  resume : ∀ t w, Polled t w → Polled { t with self := { t.self with stopDownloading := false } } w
  outside : ∀ (α : Type) (m : Dl α), Local outer m → Maintains E I m
  waiting : ∀ (α : Type) (m : Dl α), Local outer m → Maintains E Polled m
  start : Maintains E I initializeDownloadQueue
  take : ∀ t w, Working Polled t w → wp E takeStream
    (fun taken t' w' => if taken then Working S t' w' else I t' w') (fun _ => I) t w
  root : ∀ t w base, Polled t w →
    D (downloadsDir t.self.config base ++ t.self.sharedUser.nickname ++ ['/'])

namespace ThreadParts

variable {Polled S : Thread SingleDownloader → W → Prop} (h : ThreadParts E I Polled S D)

include h

theorem reports {α : Type} {m : Dl α} (hm : Local plain m) : Maintains E I m :=
  h.outside _ m (hm.mono fun _ => outer_of_plain)

theorem pause (millis : Nat) : Maintains E I (command (.sleep millis)) :=
  h.outside _ _ (local_command trivial)

theorem lifeParts : LifeParts E I I Polled S (fun _ => I) D where
  session := { h.session.queueParts with
    fails := fun _ => h.ended
    starts := fun root item f t w hw hhead => wp_conseq
      (h.session.queueParts.starts root item f t w hw hhead) (fun _ _ _ h' => h') fun _ => h.ended }
  ended := h.ended
  polled := h.polled
  fails _ _ _ hi := hi
  again _ _ _ hi := hi
  start := maintains_bind h.start fun _ => h.reports local_appUpdateOffline
  poll := h.poll
  resume := h.resume
  base user config := h.waiting _ _ (local_getPathDownloadsDirUser user config)
  pause millis := (h.pause millis).weaken h.polled
  unreachable millis := maintains_bind (h.reports local_appUpdateOffline) fun _ => h.pause millis
  leave := (h.reports local_appUpdateInProgress).weaken h.polled
  mismatch _ _ := maintains_bind (h.reports local_self) fun _ =>
    maintains_bind (h.reports (local_command trivial)) fun _ => h.pause 30000
  take t w hw _ _ := h.take t w hw
  root := h.root

/-- **The thread keeps the invariant**, however often `run` fails and is called again. -/
theorem runThread (fuel n : Nat) : Maintains E I (runThread fuel n) :=
  h.lifeParts.runThread fuel n

end ThreadParts

end Invariants

end Transmitic
