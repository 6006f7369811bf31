/-
  File:      Transmitic/DisplayedDownloads.lean
  Subject:   THE DOWNLOADS THE USER SEES ARE THE DOWNLOADER'S, WHERE NO REPORT IS OUTSTANDING.

  A downloader reports its active path and its queue without it, but not after everything that changes
  them: a new download is queued in silence, and `Offline` carries the whole queue and no active path.

  * `DisplayWatch` -- the state of the app, next to what the downloader has reported: `stale` says that
    its downloads have changed since, or that its last `Offline` said less than needed;
  * `ShowsDownloads` -- the path and the queue shown are the downloader's;
  * `lifeParts_displayed` -- every step of the thread keeps `InStep`: what is not stale is mirrored;
  * `download_state_mirrors` -- **whenever the thread waits or sends a request**;
  * `paused_download_hidden` -- a paused downloader that waits with a download the user does not see.
-/
import Transmitic.DownloadState
import Transmitic.DownloaderSession

namespace Transmitic

open Lib

/-! ## 1. What is recorded -/

/-- The app's state, the active path of the downloader's last report, and whether a report is
    outstanding. -/
structure DisplayWatch where
  downloadState : DownloadState
  told : Option Str
  stale : Bool

def SingleDownloader.activePath (d : SingleDownloader) : Option Str :=
  d.activeDownloadPath.map DownloadQueueItem.path

namespace DisplayWatch

/-- Before the first report. -/
def start (l : DownloadState) (nickname : Str) : DisplayWatch :=
  { downloadState := l, told := l.shownPath nickname, stale := true }

/-- `Offline` tells nothing of the active path: it misleads where that is not the one reported last,
    and where it is in the queue that is sent. -/
def offlineMisleads (w : DisplayWatch) (d : SingleDownloader) : Bool :=
  decide (w.told ≠ d.activePath ∨ ∃ item ∈ d.downloadQueue, some item.path = d.activePath)

/-- After a report of the downloader, as the app has taken it. -/
def reported (w : DisplayWatch) (d : SingleDownloader) (m : AppAggMessage) : DisplayWatch :=
  let w := { w with downloadState := appLoop w.downloadState m }
  match m with
  | .invalidFile f => { w with told := f.activePath, stale := false }
  | .inProgress f => { w with told := f.path, stale := false }
  | .completed _ => { w with told := none, stale := false }
  | .offline _ => { w with stale := w.offlineMisleads d }
  | .offlineError _ => w

/-- After a message to the downloader: one that changes its queue and is followed by no report. -/
def received (w : DisplayWatch) (d : SingleDownloader) : TryRecv MessageSingleDownloader → DisplayWatch
  | .value (.newDownload s) => { w with stale := w.stale || decide (d.activePath ≠ some s.path) }
  | .value .removeUser => { w with stale := true }
  | _ => w

/-- After a command of the downloader. -/
def after (w : DisplayWatch) (t : Thread SingleDownloader) :
    (c : Wire ⊕ DownloaderCmd) → Ans DownloaderCmd.Ans c → DisplayWatch
  | .inr (.app m), _ => w.reported t.self m
  | .inr .tryRecv, a => w.received t.self a
  -- `run` begins: the queue is read from its file
  | .inr (.queueRead _), _ => { w with stale := true }
  | _, _ => w

end DisplayWatch

/-- Messages that replace the user keep the nickname, and the queue file can be written. -/
def keepsUser (nickname : Str) : (c : Wire ⊕ DownloaderCmd) → Ans DownloaderCmd.Ans c → Prop
  | .inr .tryRecv, .value (.newSharedUser s) => s.nickname = nickname
  | .inr (.queueWrite _ _), a => a = .ok ()
  | _, _ => True

/-- The surroundings of the downloader of a nickname: anything may be answered, and between two
    commands the app takes messages of others. -/
def displayed (nickname : Str) : DlEnv DisplayWatch where
  ok _ _ _ := True
  step w t c a w' := keepsUser nickname c a ∧ ∃ l,
    OtherSteps nickname (w.after t c a).downloadState l ∧
      w' = { w.after t c a with downloadState := l }

/-- The thread waits, or sends a frame. -/
def waitsOrSends : Wire ⊕ DownloaderCmd → Prop
  | .inl (.seal _ _) => True
  | .inr (.sleep _) => True
  | _ => False

/-- The active path shown is the downloader's, and the queue shown its queue without it. -/
def ShowsDownloads (l : DownloadState) (d : SingleDownloader) : Prop :=
  l.shown d.sharedUser.nickname =
    some { activeDownloadPath := d.activePath, downloadQueue := getQueueWithoutActive d }

/-- The surroundings that admit no waiting and no request while something else is shown. -/
def displayedTruly (nickname : Str) : DlEnv DisplayWatch :=
  (displayed nickname).admitting fun w t c =>
    waitsOrSends c → w.stale = false → ShowsDownloads w.downloadState t.self

/-! ## 2. The invariant -/

section Display

variable {nickname : Str} {t t' : Thread SingleDownloader} {w w' : DisplayWatch} {l : DownloadState}

/-- The path reported last is the one shown. -/
structure Told (nickname : Str) (t : Thread SingleDownloader) (w : DisplayWatch) : Prop where
  named : t.self.sharedUser.nickname = nickname
  told : w.told = w.downloadState.shownPath nickname

/-- What is not stale is mirrored. -/
structure InStep (nickname : Str) (t : Thread SingleDownloader) (w : DisplayWatch) : Prop extends
    Told nickname t w where
  mirrors : w.stale = false → ShowsDownloads w.downloadState t.self

/-- Where `run` has failed: in step, unless an item could not be started. -/
def RunFailed (nickname : Str) (x : Exc) (t : Thread SingleDownloader) (w : DisplayWatch) : Prop :=
  Told nickname t w ∧ ∀ e, x = .err e → errRemoteIdMismatch.isPrefixOf e = true →
    InStep nickname t w

/-- The part of the thread that is shown. -/
def displayPart (t : Thread SingleDownloader) :
    Str × Option DownloadQueueItem × List DownloadQueueItem :=
  (t.self.sharedUser.nickname, t.self.activeDownloadPath, t.self.downloadQueue)

theorem showsDownloads_congr {d d' : SingleDownloader} (hn : d'.sharedUser.nickname = d.sharedUser.nickname)
    (ha : d'.activeDownloadPath = d.activeDownloadPath)
    (hq : getQueueWithoutActive d' = getQueueWithoutActive d) (h : ShowsDownloads l d) : ShowsDownloads l d' := by
  unfold ShowsDownloads SingleDownloader.activePath at h ⊢
  rw [hn, ha, hq]
  exact h

theorem InStep.congr (h : InStep nickname t w) (hp : displayPart t' = displayPart t) :
    InStep nickname t' w := by
  have hn : t'.self.sharedUser.nickname = t.self.sharedUser.nickname := congrArg (fun v => v.1) hp
  have ha : t'.self.activeDownloadPath = t.self.activeDownloadPath := congrArg (fun v => v.2.1) hp
  have hq : t'.self.downloadQueue = t.self.downloadQueue := congrArg (fun v => v.2.2) hp
  refine ⟨⟨hn.trans h.named, h.told⟩, fun hw => showsDownloads_congr hn ha ?_ (h.mirrors hw)⟩
  unfold getQueueWithoutActive
  rw [ha, hq]

theorem Told.others (h : Told nickname t w) (ho : OtherSteps nickname w.downloadState l) :
    Told nickname t { w with downloadState := l } where
  named := h.named
  told := by
    show w.told = l.shownPath nickname
    rw [DownloadState.shownPath, ho.shown]
    exact h.told

theorem InStep.others (h : InStep nickname t w) (ho : OtherSteps nickname w.downloadState l) :
    InStep nickname t { w with downloadState := l } where
  toTold := h.toTold.others ho
  mirrors hw := by
    show l.shown t.self.sharedUser.nickname = _
    rw [h.named, ho.shown, ← h.named]
    exact h.mirrors hw

/-! ## 3. Commands that report nothing -/

/-- The thread neither reports nor waits, and learns nothing of its downloads. -/
def calm : DownloaderCmd → Prop
  | .app _ => False
  | .tryRecv => False
  | .queueRead _ => False
  | .sleep _ => False
  | _ => True

theorem calm_of_looking {c : DownloaderCmd} (h : looking c) : calm c := by
  cases c <;> first | exact False.elim h | exact trivial

theorem calm_of_onTransfer {x : Transfer} {c : DownloaderCmd} (h : onTransfer x c) : calm c := by
  rcases h with h | h | rfl
  · exact calm_of_looking h
  · cases c <;> first | exact trivial | cases h
  · exact trivial

theorem calm_of_onCache {c : DownloaderCmd} (h : onCache c) : calm c := by
  cases c <;> first | exact False.elim h | exact trivial

theorem calm_of_connecting {c : DownloaderCmd} (h : connecting c) : calm c := by
  cases c <;> first | exact False.elim h | exact trivial

/-- What the app shows is changed by others only. -/
theorem after_calm {c : Wire ⊕ DownloaderCmd} (h : wireAnd calm c) (a : Ans DownloaderCmd.Ans c) :
    w.after t c a = w := by
  cases c with
  | inl c => rfl
  | inr c => cases c <;> first | exact False.elim h | rfl

theorem step_calm {c : Wire ⊕ DownloaderCmd} {a : Ans DownloaderCmd.Ans c} (h : wireAnd calm c)
    (hs : (displayedTruly nickname).step w t c a w') :
    ∃ l, OtherSteps nickname w.downloadState l ∧ w' = { w with downloadState := l } := by
  obtain ⟨-, l, ho, hw⟩ := hs
  rw [after_calm h] at ho hw
  exact ⟨l, ho, hw⟩

theorem maintains_calm {α : Type} {P : Wire ⊕ DownloaderCmd → Prop} {m : Dl α}
    (h : Steady P displayPart m) (hP : ∀ c, P c → wireAnd calm c) :
    Maintains (displayedTruly nickname) (InStep nickname) m := by
  refine maintains_of_steady h (fun s s' w hs hi => hi.congr hs) (fun s w c hi _ _ => hi.mirrors)
    fun s w c a w' hi hc hs => ?_
  obtain ⟨l, ho, rfl⟩ := step_calm (hP c hc) hs
  exact hi.others ho

theorem maintains_firm {α : Type} {P : DownloaderCmd → Prop} {m : Dl α} (h : Firm P m)
    (hP : ∀ c, P c → calm c) : Maintains (displayedTruly nickname) (InStep nickname) m := by
  have hpart : Steady (own P) displayPart m :=
    h.map fun v => (v.1.sharedUser.nickname, v.1.activeDownloadPath, v.1.downloadQueue)
  exact maintains_calm hpart (wireAnd_of_own hP)

theorem maintains_self {α : Type} {P : DownloaderCmd → Prop} {m : Dl α}
    (h : Steady (wireAnd P) Thread.self m) (hP : ∀ c, P c → calm c) :
    Maintains (displayedTruly nickname) (InStep nickname) m := by
  have hpart : Steady (wireAnd P) displayPart m :=
    h.map fun d => (d.sharedUser.nickname, d.activeDownloadPath, d.downloadQueue)
  refine maintains_calm hpart fun c hc => ?_
  cases c with
  | inl c => exact trivial
  | inr c => exact hP c hc

theorem maintains_sleep (millis : Nat) :
    Maintains (displayedTruly nickname) (InStep nickname) (command (.sleep millis)) := by
  refine maintains_issue (fun s w hi _ => hi.mirrors) fun s w a w' hi hs => ?_
  obtain ⟨-, l, ho, rfl⟩ := hs
  exact hi.others ho

/-- The queue file is written, and the others go on. -/
theorem writeQueue_done {K : DisplayWatch → Prop}
    (hK : ∀ w l, K w → OtherSteps nickname w.downloadState l → K { w with downloadState := l })
    (hw : K w) : wp (displayedTruly nickname) writeQueue (fun _ t' w' => t' = t ∧ K w')
      (fun _ _ _ => False) t w := by
  have hfile : ∀ w, K w → wp (displayedTruly nickname) writeQueueFile
      (fun _ t' w' => t' = t ∧ K w') (fun _ _ _ => False) t w := by
    intro w hw
    refine ⟨fun hc => hc.elim, fun a w' hs => ?_⟩
    obtain rfl : a = .ok () := hs.1
    obtain ⟨l, ho, rfl⟩ := step_calm (c := .inr (.queueWrite _ _)) trivial hs
    exact ⟨rfl, hK w l hw ho⟩
  show wp _ (if t.self.downloadQueue = [] then _ else writeQueueFile) _ _ t w
  split
  · refine (wp_bind _ _).mpr ⟨fun hc => hc.elim, fun a w' hs => ?_⟩
    obtain ⟨l, ho, rfl⟩ := step_calm (c := .inr (.queueRemove _)) trivial hs
    cases a with
    | done => exact ⟨rfl, hK w l hw ho⟩
    | notFound => exact ⟨rfl, hK w l hw ho⟩
    | failed e => exact hfile _ (hK w l hw ho)
  · exact hfile w hw

/-! ## 4. Reports -/

/-- A report keeps what is told in step with what is shown. -/
theorem told_reported (h : Told nickname t w) {m : AppAggMessage} (hm : m.nickname = nickname) :
    Told nickname t (w.reported t.self m) where
  named := h.named
  told := by
    have hold : w.told = (w.downloadState.shown nickname).bind Displayed.activeDownloadPath := h.told
    have hshown : (appLoop w.downloadState m).shown nickname =
        some (m.shows (w.downloadState.shown nickname)) := hm ▸ shown_appLoop w.downloadState m
    cases m with
    | invalidFile f => simp [DisplayWatch.reported, DownloadState.shownPath, hshown]; rfl
    | inProgress f => simp [DisplayWatch.reported, DownloadState.shownPath, hshown]; rfl
    | completed f => simp [DisplayWatch.reported, DownloadState.shownPath, hshown]; rfl
    | offline f =>
      simp only [DisplayWatch.reported, DownloadState.shownPath, hshown]
      exact hold
    | offlineError f =>
      simp only [DisplayWatch.reported, DownloadState.shownPath, hshown]
      rw [hold]
      cases w.downloadState.shown nickname <;> rfl

/-- **A report that shows the downloads as they are**, where it clears what was stale. -/
theorem sendApp_inStep (h : Told nickname t w) {m : AppAggMessage} (hm : m.nickname = nickname)
    (hshow : (w.reported t.self m).stale = false → m.shows (w.downloadState.shown nickname) =
      { activeDownloadPath := t.self.activePath, downloadQueue := getQueueWithoutActive t.self }) :
    wp (displayedTruly nickname) (sendApp m) (fun _ t' w' => t' = t ∧ InStep nickname t' w')
      (fun _ _ _ => False) t w := by
  refine ⟨fun hc => hc.elim, fun a w' hs => ?_⟩
  obtain ⟨-, l, ho, rfl⟩ := hs
  have hstep : InStep nickname t (w.reported t.self m) := by
    refine ⟨told_reported h hm, fun hfresh => ?_⟩
    show (w.reported t.self m).downloadState.shown t.self.sharedUser.nickname = _
    have hstate : (w.reported t.self m).downloadState = appLoop w.downloadState m := by
      cases m <;> rfl
    rw [hstate, h.named, ← hm, shown_appLoop, hm, hshow hfresh]
  exact ⟨rfl, hstep.others ho⟩

theorem appUpdateInProgress_inStep (h : Told nickname t w) :
    wp (displayedTruly nickname) appUpdateInProgress (fun _ t' w' => t' = t ∧ InStep nickname t' w')
      (fun _ _ _ => False) t w :=
  sendApp_inStep h h.named fun _ => rfl

theorem appUpdateInvalidFile_inStep (h : Told nickname t w) (path message : Str) :
    wp (displayedTruly nickname) (appUpdateInvalidFile path message)
      (fun _ t' w' => t' = t ∧ InStep nickname t' w') (fun _ _ _ => False) t w :=
  sendApp_inStep h h.named fun _ => rfl

theorem appUpdateCompleted_inStep (h : Told nickname t w) (ha : t.self.activeDownloadPath = none)
    (path pathLocalDisk size : Str) :
    wp (displayedTruly nickname) (appUpdateCompleted path pathLocalDisk size)
      (fun _ t' w' => t' = t ∧ InStep nickname t' w') (fun _ _ _ => False) t w :=
  sendApp_inStep h h.named fun _ => by
    rw [SingleDownloader.activePath, ha]
    rfl

theorem queueWithoutActive_of_absent {d : SingleDownloader}
    (h : ∀ item ∈ d.downloadQueue, some item.path ≠ d.activePath) :
    getQueueWithoutActive d = d.downloadQueue.map DownloadQueueItem.path := by
  unfold getQueueWithoutActive
  cases hq : d.activeDownloadPath with
  | none => rfl
  | some q =>
    refine congrArg _ (List.filter_eq_self.mpr fun item hitem => ?_)
    have hne := h item hitem
    simpa [SingleDownloader.activePath, hq] using hne

/-- `Offline` shows the downloads as they are, unless it misleads. -/
theorem appUpdateOffline_inStep (h : Told nickname t w) :
    wp (displayedTruly nickname) appUpdateOffline (fun _ t' w' => t' = t ∧ InStep nickname t' w')
      (fun _ _ _ => False) t w := by
  refine sendApp_inStep h h.named fun hfresh => ?_
  have htrue : ¬ (w.told ≠ t.self.activePath ∨
      ∃ item ∈ t.self.downloadQueue, some item.path = t.self.activePath) := of_decide_eq_false hfresh
  obtain ⟨htold, habsent⟩ := not_or.mp htrue
  have hpath : w.downloadState.shownPath nickname = t.self.activePath :=
    h.told.symm.trans (not_not.mp htold)
  rw [queueWithoutActive_of_absent fun item hitem heq => habsent ⟨item, hitem, heq⟩, ← hpath]
  rfl

/-! ## 5. Messages to the downloader -/

theorem setActiveDownloadFinished_told (h : Told nickname t w) :
    wp (displayedTruly nickname) setActiveDownloadFinished (fun _ t' w' => Told nickname t' w' ∧
      t'.self.activeDownloadPath = none) (fun _ _ _ => False) t w := by
  have hpopped : Told nickname { t with self := { t.self with
      downloadQueue := t.self.downloadQueue.tail } } w := ⟨h.named, h.told⟩
  refine (wp_bind _ _).mpr ((wp_modifySelf _).mpr ?_)
  refine wp_seq (writeQueue_done (fun _ _ => Told.others) hpopped) (fun _ t' w' h' => ?_)
    fun _ _ _ h' => h'
  obtain ⟨rfl, htold⟩ := h'
  exact ⟨⟨htold.named, htold.told⟩, rfl⟩

theorem completeQueueItem_inStep (path destinationPath : Str) :
    Maintains (displayedTruly nickname) (InStep nickname)
      (completeQueueItem path destinationPath) := by
  intro t w hi
  refine wp_seq (setActiveDownloadFinished_told hi.toTold) (fun _ t' w' h' => ?_)
    fun _ _ _ h' => h'.elim
  exact wp_conseq (appUpdateCompleted_inStep h'.1 h'.2 _ _ _) (fun _ _ _ h'' => h''.2)
    fun _ _ _ h'' => h''.elim

theorem invalidateQueueItem_inStep (path message : Str) :
    Maintains (displayedTruly nickname) (InStep nickname) (invalidateQueueItem path message) := by
  intro t w hi
  refine wp_seq (setActiveDownloadFinished_told hi.toTold) (fun _ t' w' h' => ?_)
    fun _ _ _ h' => h'.elim
  exact wp_conseq (appUpdateInvalidFile_inStep h'.1 _ _) (fun _ _ _ h'' => h''.2)
    fun _ _ _ h'' => h''.elim

/-- A new download of the active path is not shown twice. -/
theorem queueWithoutActive_append {d : SingleDownloader} {s : DownloadQueueItem}
    (h : d.activePath = some s.path) :
    getQueueWithoutActive { d with downloadQueue := d.downloadQueue ++ [s] } =
      getQueueWithoutActive d := by
  obtain ⟨q, hq, hpath⟩ := Option.map_eq_some_iff.mp h
  unfold getQueueWithoutActive
  simp [hq, hpath]

/-- The report after a message that ends downloads. -/
theorem writeQueue_reported (h : Told nickname t w) :
    wp (displayedTruly nickname) (do writeQueue; appUpdateInProgress) (fun _ => InStep nickname)
      (fun _ => InStep nickname) t w := by
  refine wp_seq (writeQueue_done (fun _ _ => Told.others) h) (fun _ t' w' h' => ?_)
    fun _ _ _ h' => h'.elim
  obtain ⟨rfl, htold⟩ := h'
  exact wp_conseq (appUpdateInProgress_inStep htold) (fun _ _ _ h'' => h''.2)
    fun _ _ _ h'' => h''.elim

theorem writeQueue_inStep : Maintains (displayedTruly nickname) (InStep nickname) writeQueue := by
  intro t w hi
  refine wp_conseq (writeQueue_done (fun _ _ => InStep.others) hi) (fun _ t' w' h' => ?_)
    fun _ _ _ h' => h'.elim
  obtain ⟨rfl, hstep⟩ := h'
  exact hstep

/-- **One message**: it is followed by a report, changes nothing that is shown, or leaves what is
    shown stale. -/
theorem receive_inStep (hi : InStep nickname t w) {m : MessageSingleDownloader}
    (hs : (displayedTruly nickname).step w t (.inr .tryRecv) (.value m) w') :
    wp (displayedTruly nickname) (receive m) (fun _ => InStep nickname) (fun _ => InStep nickname)
      t w' := by
  obtain ⟨huser, l, ho, rfl⟩ := hs
  rw [receive_eq]
  refine (wp_bind _ _).mpr ((wp_modifySelf _).mpr ?_)
  cases m with
  | newDownload s =>
    refine writeQueue_inStep _ _ (InStep.others ⟨⟨hi.named, hi.told⟩, fun hfresh => ?_⟩ ho)
    have hsame : w.stale = false ∧ t.self.activePath = some s.path := by
      simpa [DisplayWatch.after, DisplayWatch.received] using hfresh
    exact showsDownloads_congr (d := t.self) rfl rfl (queueWithoutActive_append hsame.2)
      (hi.mirrors hsame.1)
  | cancelDownload s => exact writeQueue_reported (Told.others ⟨hi.named, hi.told⟩ ho)
  | cancelAllDownloads => exact writeQueue_reported (Told.others ⟨hi.named, hi.told⟩ ho)
  | removeUser =>
    exact writeQueue_inStep _ _ (InStep.others ⟨⟨hi.named, hi.told⟩, fun hfresh => by cases hfresh⟩ ho)
  | newSharedUser s =>
    have hnick : s.nickname = nickname := huser
    exact InStep.congr (hi.others ho) (by simp [displayPart, MessageSingleDownloader.effect, hnick,
      hi.named])
  | pauseDownloads => exact InStep.congr (hi.others ho) rfl
  | resumeDownloads => exact InStep.congr (hi.others ho) rfl
  | restartConnection => exact InStep.congr (hi.others ho) rfl
  | newConfig c => exact InStep.congr (hi.others ho) rfl

theorem readReceiver_inStep : ∀ fuel : Nat,
    Maintains (displayedTruly nickname) (InStep nickname) (readReceiver fuel)
  | 0 => maintains_throw _
  | fuel + 1 => by
    refine maintains_bind (maintains_bind ?_ fun a => ?_) fun _ => ?_
    · have hcalm : Still calm (command .revTryRecv) := still_command trivial
      exact maintains_firm hcalm.firm fun _ hc => hc
    · cases a with
      | value enc => exact maintains_modify fun _ _ hi => hi.congr rfl
      | empty => exact maintains_pure ()
      | disconnected => exact maintains_throw _
    · intro t w hi
      refine (wp_bind _ _).mpr ⟨fun hc => hc.elim, fun a w' hs => ?_⟩
      cases a with
      | value m =>
        exact wp_seq (receive_inStep hi hs) (fun _ t' w' h' => readReceiver_inStep fuel t' w' h')
          fun _ _ _ h' => h'
      | empty =>
        obtain ⟨-, l, ho, rfl⟩ := hs
        exact hi.others ho
      | disconnected =>
        obtain ⟨-, l, ho, rfl⟩ := hs
        exact hi.others ho

/-! ## 6. The life of the thread -/

/-- A name that cannot be sanitized is no rejected public ID. -/
theorem sanitizedName_failure {f : SharedFile} {e : Str}
    (h : getSanitizedDiskFileName f = .error (.err e)) : errRemoteIdMismatch.isPrefixOf e = false := by
  have hloop : ∀ (path : Str) (counter : Nat) (s : Str),
      sanitizeLoop path counter s = .error (.err e) → errRemoteIdMismatch.isPrefixOf e = false := by
    intro path counter
    induction counter with
    | zero =>
      intro s hs
      cases hs
      rfl
    | succ counter ih =>
      intro s hs
      unfold sanitizeLoop at hs
      split at hs
      · exact ih _ hs
      · split at hs
        · exact ih _ hs
        · cases hs
  unfold getSanitizedDiskFileName at h
  cases hp : sanitizeDiskPath f.path with
  | error x =>
    rw [hp] at h
    cases h
    exact hloop _ _ _ hp
  | ok path =>
    rw [hp] at h
    cases hname : fileName path with
    | none => simp [hname, bind, Except.bind] at h
    | some name => simp [hname, bind, Except.bind] at h

theorem InStep.fails (x : Exc) (t : Thread SingleDownloader) (w : DisplayWatch)
    (h : InStep nickname t w) : RunFailed nickname x t w := ⟨h.toTold, fun _ _ _ => h⟩

variable [Crates]

/-- What is shown stays in step while a connection is served. -/
theorem queueParts_displayed : QueueParts (displayedTruly nickname) (InStep nickname)
    (RunFailed nickname) fun _ => True where
  fails := InStep.fails
  look _ _ hm := maintains_firm hm fun _ => calm_of_looking
  transfer _ _ _ _ hm := maintains_during (maintains_firm hm fun _ => calm_of_onTransfer) hm.activity
  inner _ _ _ _ _ := trivial
  progress _ _ hi := wp_conseq (appUpdateInProgress_inStep hi.toTold) (fun _ _ _ h' => h'.2)
    fun _ _ _ h' => h'.elim
  invalid path message _ _ hi := wp_conseq (appUpdateInvalidFile_inStep hi.toTold path message)
    (fun _ _ _ h' => h'.2) fun _ _ _ h' => h'.elim
  complete := completeQueueItem_inStep
  invalidate := invalidateQueueItem_inStep
  starts root item f t w hw _ := by
    have htold : Told nickname { t with self := { t.self with
        activeDownloadPath := some item
        activeDownloadSize := f.fileSize
        activeDownloadedCurrentBytes := 0
        activeDownloadTotalSize := f.sizeString } } w := ⟨hw.1.named, hw.1.told⟩
    unfold startItem
    refine (wp_bind _ _).mpr ((wp_bind _ _).mpr ((wp_modifySelf _).mpr ?_))
    cases hname : getSanitizedDiskFileName f with
    | error x =>
      refine ⟨htold, fun e hx he => ?_⟩
      rw [sanitizedName_failure (hx ▸ hname)] at he
      cases he
    | ok name =>
      refine wp_seq (m := appUpdateInProgress) (appUpdateInProgress_inStep ⟨htold.named, htold.told⟩)
        (fun _ t' w' h' => ?_) fun _ _ _ h' => h'.elim
      obtain ⟨rfl, hstep⟩ := h'
      exact ⟨hstep, hw.2⟩
  receiver := readReceiver_inStep
  read := maintains_self (P := fun _ => False) steady_read fun _ hc => hc.elim
  request q payload := by
    have hwrite : Steady (wireAnd fun _ => False) Thread.self
        (write msgFileSelectionContinue payload : Dl Unit) := steady_write _ _
    exact maintains_during (maintains_self hwrite fun _ hc => hc.elim)
      (hwrite.keeps.map fun d : SingleDownloader => (d.stopDownloading, d.activeDownloadPath))
  everything fuel forceDownload := maintains_working
    (maintains_self (steady_setEverythingFile fuel forceDownload) fun _ => calm_of_onCache)
    ((keeps_setEverythingFile fuel forceDownload).map fun d => d.stopDownloading)
  listing user := by
    have hcalm : Still calm (command (.refreshGet user)) := still_command trivial
    exact maintains_firm hcalm.firm fun _ hc => hc

omit [Crates] in
theorem initialize_told {t : Thread SingleDownloader} {w : DisplayWatch} (h : Told nickname t w) :
    wp (displayedTruly nickname) initializeDownloadQueue (fun _ => Told nickname)
      (fun _ => InStep nickname) t w := by
  let t' : Thread SingleDownloader := { t with self := { t.self with downloadQueue := [] } }
  refine (wp_bind _ _).mpr ((wp_modifySelf _).mpr ?_)
  refine (wp_bind self _).mpr (wp_self.mpr ?_)
  refine (wp_bind (command (.queueRead t'.self.pathQueueFile)) _).mpr ((wp_ask _).mpr
    ⟨fun hc => hc.elim, fun contents w' hs => ?_⟩)
  have hstale : Told nickname t' w' ∧ w'.stale = true := by
    obtain ⟨-, l, ho, rfl⟩ := hs
    exact ⟨Told.others ⟨h.named, h.told⟩ ho, rfl⟩
  cases Option.bind contents fromUtf8 with
  | none => exact hstale.1
  | some text =>
    -- the lines issue no command; where one cannot be read, what is shown stays stale
    have hlines : Maintains (displayedTruly nickname)
        (fun t w => Told nickname t w ∧ w.stale = true) (pushQueueLines (lines text)) := by
      refine maintains_of_steady (P := fun _ => False) (steady_pushQueueLines _)
        (fun s s' w hs hi => ?_) (fun _ _ _ _ hc => hc.elim) fun _ _ _ _ _ _ hc => hc.elim
      have hnick : s'.self.sharedUser.nickname = s.self.sharedUser.nickname :=
        congrArg (fun v => v.1.sharedUser.nickname) hs
      exact ⟨⟨hnick.trans hi.1.named, hi.1.told⟩, hi.2⟩
    refine wp_conseq (hlines t' w' hstale) (fun _ _ _ h' => h'.1) fun _ t' w' h' => ?_
    refine ⟨h'.1, fun hfresh => ?_⟩
    rw [h'.2] at hfresh
    cases hfresh

/-- **Every step of the thread keeps what is shown in step**, and where `run` has failed it is put in
    step again before the thread waits. -/
theorem lifeParts_displayed : LifeParts (displayedTruly nickname) (Told nickname) (InStep nickname)
    (InStep nickname) (InStep nickname) (RunFailed nickname) fun _ => True where
  session := queueParts_displayed
  ended _ _ h := h
  polled _ _ h := h
  fails := InStep.fails
  again _ _ _ h := h.1
  start t w h := by
    refine wp_seq (initialize_told h) (fun _ t' w' h' => ?_) InStep.fails
    exact wp_conseq (appUpdateOffline_inStep h') (fun _ _ _ h'' => h''.2) fun _ _ _ h'' => h''.elim
  poll fuel := readReceiver_inStep fuel
  resume _ _ h := h.congr rfl
  base user config := by
    refine maintains_firm (still_getPathDownloadsDirUser user config).firm fun c hc => ?_
    rw [hc]
    exact trivial
  pause millis := maintains_sleep millis
  unreachable millis t w h := by
    refine wp_seq (appUpdateOffline_inStep h.toTold) (fun _ t' w' h' => ?_) fun _ _ _ h' => h'.elim
    exact maintains_sleep millis t' w' h'.2
  leave _ _ h := wp_conseq (appUpdateInProgress_inStep h.toTold) (fun _ _ _ h' => h'.2)
    fun _ _ _ h' => h'.elim
  mismatch e he t w h := by
    have hi : InStep nickname t w := h.2 e rfl he
    have hreport : wp (displayedTruly nickname) (sendApp (.offlineError
        { nickname := t.self.sharedUser.nickname, error := errRemoteIdMismatch }))
        (fun _ t' w' => t' = t ∧ InStep nickname t' w') (fun _ _ _ => False) t w := by
      refine sendApp_inStep hi.toTold hi.named fun hfresh => ?_
      have hshown := hi.mirrors hfresh
      rw [ShowsDownloads, hi.named] at hshown
      rw [hshown]
      rfl
    refine (wp_bind _ _).mpr ?_
    refine wp_seq (m := sendApp _) hreport (fun _ t' w' h' => ?_) fun _ _ _ h' => h'.elim
    exact wp_conseq (maintains_sleep 30000 t' w' h'.2) (fun _ _ _ h'' => h''.toTold)
      fun _ _ _ h'' => h''.toTold
  take t w hw _ _ := by
    have htake : Steady (own connecting) displayPart takeStream :=
      steady_takeStream.map fun d => (d.sharedUser.nickname, d.activeDownloadPath, d.downloadQueue)
    have hstop : Keeps (own connecting) (fun t => t.self.stopDownloading) takeStream :=
      keeps_takeStream.map fun d => d.stopDownloading
    refine wp_conseq (maintains_working (maintains_calm htake (wireAnd_of_own fun _ =>
      calm_of_connecting)) hstop t w hw) (fun taken t' w' h' => ?_) fun _ _ _ h' => h'.1
    split
    · exact h'
    · exact h'.1
  root _ _ _ _ := trivial

end Display

/-! ## 7. What the user sees -/

theorem activePath_notQueued (d : SingleDownloader) {p : Str} (h : p ∈ getQueueWithoutActive d) :
    d.activePath ≠ some p := by
  intro hp
  obtain ⟨q, hq, rfl⟩ := Option.map_eq_some_iff.mp hp
  unfold getQueueWithoutActive at h
  simp only [hq, List.mem_map, List.mem_filter] at h
  obtain ⟨item, ⟨-, hne⟩, heq⟩ := h
  simp [heq] at hne

theorem queued_or_active (d : SingleDownloader) {item : DownloadQueueItem}
    (h : item ∈ d.downloadQueue) :
    item.path ∈ getQueueWithoutActive d ∨ d.activePath = some item.path := by
  unfold getQueueWithoutActive SingleDownloader.activePath
  cases hq : d.activeDownloadPath with
  | none => exact .inl (List.mem_map_of_mem h)
  | some q =>
    by_cases hp : item.path = q.path
    · exact .inr (congrArg some hp.symm)
    · exact .inl (List.mem_map_of_mem (List.mem_filter.mpr ⟨h, by simpa using hp⟩))

/-- **The user sees the downloads of the downloader**, at every point of its life where it waits or
    sends a request while no report is outstanding: the active path, and the queue without it. No path
    is shown twice, and none is missing. -/
theorem download_state_mirrors [Crates] {t₀ t : Thread SingleDownloader} {l : DownloadState}
    {fuel n : Nat} {w : DisplayWatch} {c : Wire ⊕ DownloaderCmd}
    {k : Ans DownloaderCmd.Ans c → Prog (Thread SingleDownloader) (Wire ⊕ DownloaderCmd)
      (Ans DownloaderCmd.Ans) Exc Unit}
    (hr : Reach (displayed t₀.self.sharedUser.nickname)
      (runThread fuel n t₀, .start l t₀.self.sharedUser.nickname) (.call t c k, w))
    (hc : waitsOrSends c) (hfresh : w.stale = false) :
    ∃ s, w.downloadState t.self.sharedUser.nickname = some s ∧
      s.activeDownloadPath = t.self.activePath ∧ s.downloadQueue = getQueueWithoutActive t.self ∧
      (∀ p ∈ s.downloadQueue, s.activeDownloadPath ≠ some p) ∧
      ∀ item ∈ t.self.downloadQueue,
        item.path ∈ s.downloadQueue ∨ s.activeDownloadPath = some item.path := by
  have hmirrors : ShowsDownloads w.downloadState t.self :=
    maintains_reach (lifeParts_displayed.runThread fuel n) ⟨rfl, rfl⟩ hr.admitting hc hfresh
  obtain ⟨s, hs, hshown⟩ := Option.map_eq_some_iff.mp hmirrors
  have hactive : s.activeDownloadPath = t.self.activePath := congrArg (fun v => v.1) hshown
  have hqueue : s.downloadQueue = getQueueWithoutActive t.self := congrArg (fun v => v.2) hshown
  refine ⟨s, hs, hactive, hqueue, fun p hp => ?_, fun item hitem => ?_⟩
  · rw [hactive]
    exact activePath_notQueued t.self (hqueue ▸ hp)
  · rw [hactive, hqueue]
    exact queued_or_active t.self hitem

/-- A message of the app is taken at once. -/
theorem displayed_step {nickname : Str} {w : DisplayWatch} {t : Thread SingleDownloader}
    {c : Wire ⊕ DownloaderCmd} {a : Ans DownloaderCmd.Ans c} (h : keepsUser nickname c a) :
    (displayed nickname).step w t c a (w.after t c a) :=
  ⟨h, _, Relation.ReflTransGen.refl, rfl⟩

/-- The answers of a run whose user is replaced by nobody. -/
theorem keepsUser_rest (nickname : Str) (c : Wire ⊕ DownloaderCmd) :
    keepsUser nickname c (restAnswers c) := by
  rcases c with c | c
  · exact trivial
  · cases c <;> first | exact trivial | rfl

theorem keepsUser_newDownload (nickname : Str) (s : DownloadQueueItem) (c : Wire ⊕ DownloaderCmd) :
    keepsUser nickname c (messageAnswers (.newDownload s) c) := by
  rcases c with c | c
  · exact trivial
  · cases c <;> first | exact trivial | rfl

theorem keepsUser_online (nickname : Str) (listing : SharedFile) (c : Wire ⊕ DownloaderCmd) :
    keepsUser nickname c (onlineAnswers listing c) := by
  rcases c with c | c
  · exact trivial
  · cases c <;> first | exact trivial | rfl

/-- Two downloads, and the listing with them. -/
def firstItem : DownloadQueueItem := { path := "/a".toList, fileSize := 1 }

def secondItem : DownloadQueueItem := { path := "/b".toList, fileSize := 2 }

def twoItems : SharedFile :=
  let file (item : DownloadQueueItem) := SharedFile.new item.path false [] item.fileSize
  SharedFile.new [] true [file firstItem, file secondItem] 3

/-- The downloader of `bob` is sent both, and finds the peer. -/
def bobAnswers : List (∀ c, Ans DownloaderCmd.Ans c) :=
  List.replicate 3 restAnswers ++ [messageAnswers (.newDownload firstItem)] ++
    List.replicate 2 restAnswers ++ [messageAnswers (.newDownload secondItem)] ++
    List.replicate 3 restAnswers ++ List.replicate 7 (onlineAnswers twoItems)

/-- Up to the request of the first. -/
def bobRun : Prog (Thread SingleDownloader) (Wire ⊕ DownloaderCmd) (Ans DownloaderCmd.Ans) Exc Unit ×
    DisplayWatch :=
  (@runThread idleCrates 5 1 bobThread).record DisplayWatch.after bobAnswers
    (.start (fun _ => none) "bob".toList)

theorem bobRun_reach : Reach (displayed "bob".toList)
    (@runThread idleCrates 5 1 bobThread, .start (fun _ => none) "bob".toList) bobRun := by
  refine reach_record _ _ _ fun answer ha w t c => displayed_step ?_
  simp only [bobAnswers, List.mem_append, List.mem_replicate, List.mem_singleton] at ha
  rcases ha with ((((⟨-, rfl⟩ | rfl) | ⟨-, rfl⟩) | rfl) | ⟨-, rfl⟩) | ⟨-, rfl⟩
  · exact keepsUser_rest _ c
  · exact keepsUser_newDownload _ _ c
  · exact keepsUser_rest _ c
  · exact keepsUser_newDownload _ _ c
  · exact keepsUser_rest _ c
  · exact keepsUser_online _ _ c

/-- A frame is to be sent. -/
def sends (c : Wire ⊕ DownloaderCmd) : Bool :=
  match c with
  | .inl (.seal _ _) => true
  | _ => false

theorem waitsOrSends_of_sends {c : Wire ⊕ DownloaderCmd} (h : sends c = true) : waitsOrSends c := by
  unfold sends at h
  split at h
  · exact trivial
  · cases h

/-- The first download is shown as active, the second as queued. -/
theorem download_state_mirrors_bob : ∃ t c k s, bobRun.1 = .call t c k ∧ sends c = true ∧
    bobRun.2.downloadState "bob".toList = some s ∧ s.activeDownloadPath = some "/a".toList ∧
      s.downloadQueue = ["/b".toList] := by
  have hissued : bobRun.1.issued.any sends = true := by decide +kernel
  have hfresh : bobRun.2.stale = false := by decide +kernel
  have hpath : bobRun.1.state.self.activePath = some "/a".toList := by decide +kernel
  have hrest : getQueueWithoutActive bobRun.1.state.self = ["/b".toList] := by decide +kernel
  have hnamed : bobRun.1.state.self.sharedUser.nickname = "bob".toList := by decide +kernel
  obtain ⟨c, hc, hsends⟩ := (Option.any_eq_true _ _).mp hissued
  obtain ⟨t, k, hcall⟩ := Prog.issued_eq_some.mp hc
  have hrun : bobRun = (.call t c k, bobRun.2) := Prod.ext hcall rfl
  have hstate : bobRun.1.state = t := by rw [hcall]; rfl
  obtain ⟨s, hs, hactive, hqueue, -⟩ := @download_state_mirrors idleCrates bobThread t (fun _ => none) 5 1
    bobRun.2 c k (hrun ▸ bobRun_reach) (waitsOrSends_of_sends hsends) hfresh
  rw [← hstate] at hs hactive hqueue
  rw [hnamed] at hs
  exact ⟨t, c, k, s, hcall, hsends, hs, hactive.trans hpath, hqueue.trans hrest⟩

/-- A downloader that is paused. -/
def pausedThread : Thread SingleDownloader :=
  { idleThread [] [] with self := { (idleThread [] []).self with isDownloadingPaused := true } }

def pausedItem : DownloadQueueItem := { path := "a".toList, fileSize := 1 }

/-- It is sent a new download. -/
def pausedRun : Prog (Thread SingleDownloader) (Wire ⊕ DownloaderCmd) (Ans DownloaderCmd.Ans) Exc
    Unit × DisplayWatch :=
  (@runThread idleCrates 5 1 pausedThread).record DisplayWatch.after
    (List.replicate 3 restAnswers ++ [messageAnswers (.newDownload pausedItem)] ++
      List.replicate 3 restAnswers) (.start (fun _ => none) [])

/-- **A paused downloader waits with a download the user does not see**: a new download is queued, and
    nothing is reported. -/
theorem paused_download_hidden : ∃ t k w,
    Reach (displayed []) (@runThread idleCrates 5 1 pausedThread, .start (fun _ => none) [])
      (.call t (.inr (.sleep 1000)) k, w) ∧
    getQueueWithoutActive t.self = ["a".toList] ∧
    (w.downloadState []).map SingleDownloadState.downloadQueue = some [] := by
  have hissued : pausedRun.1.issued = some (.inr (.sleep 1000)) := rfl
  obtain ⟨t, k, hcall⟩ := Prog.issued_eq_some.mp hissued
  have hrun : pausedRun = (.call t (.inr (.sleep 1000)) k, pausedRun.2) := Prod.ext hcall rfl
  have hstate : pausedRun.1.state = t := by rw [hcall]; rfl
  have hreach : Reach (displayed [])
      (@runThread idleCrates 5 1 pausedThread, .start (fun _ => none) []) pausedRun := by
    refine reach_record _ _ _ fun answer ha w t c => displayed_step ?_
    simp only [List.mem_append, List.mem_replicate, List.mem_singleton] at ha
    rcases ha with (⟨-, rfl⟩ | rfl) | ⟨-, rfl⟩
    · exact keepsUser_rest [] c
    · exact keepsUser_newDownload [] _ c
    · exact keepsUser_rest [] c
  refine ⟨t, k, pausedRun.2, hrun ▸ hreach, ?_, rfl⟩
  rw [← hstate]
  rfl

end Transmitic
