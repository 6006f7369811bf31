/-
  File:      Transmitic/DownloadState.lean
  Subject:   THE DOWNLOADS THE USER SEES (app_aggregator.rs, `app_loop`; transmitic_core.rs).

  The app keeps one `SingleDownloadState` for each nickname. The messages of the downloaders change it,
  each a part of it only, and so do the two operations that empty its lists.

  Left out: messages to the log, and the messages that do not concern downloads.

  * `appLoop` -- one message;
  * `Displayed`, `shown_appLoop` -- the active path and the queue shown, and what a message does to them;
  * `OtherSteps`, `OtherSteps.shown` -- **what the messages of other downloaders, and the user, do not change**.
-/
import Transmitic.OutgoingDownloader

namespace Transmitic

open Lib

/-! ## 1. The state -/

structure InvalidResult where
  path : Str
  message : Str

structure SingleDownloadState where
  activeDownloadPath : Option Str
  activeDownloadPercent : UInt64
  activeDownloadLocalPath : Option Str
  activeDownloadSize : Str
  downloadQueue : List Str
  invalidDownloads : List InvalidResult
  completedDownloads : List CompletedMessage
  isOnline : Bool
  error : Option Str

/-- `SingleDownloadState::default`. -/
def SingleDownloadState.default : SingleDownloadState :=
  { activeDownloadPath := none
    activeDownloadPercent := 0
    activeDownloadLocalPath := none
    activeDownloadSize := []
    downloadQueue := []
    invalidDownloads := []
    completedDownloads := []
    isOnline := true
    error := none }

/-- The states by nickname. -/
abbrev DownloadState : Type := Str → Option SingleDownloadState

namespace DownloadState

def insert (l : DownloadState) (nickname : Str) (s : SingleDownloadState) : DownloadState :=
  Function.update l nickname (some s)

/-- `downloads_clear_finished`. -/
def clearFinished (l : DownloadState) : DownloadState := fun nickname =>
  (l nickname).map fun v => { v with completedDownloads := [] }

/-- `downloads_clear_invalid`. -/
def clearInvalid (l : DownloadState) : DownloadState := fun nickname =>
  (l nickname).map fun v => { v with invalidDownloads := [] }

end DownloadState

/-! ## 2. The messages -/

def AppAggMessage.nickname : AppAggMessage → Str
  | .invalidFile f => f.nickname
  | .inProgress f => f.nickname
  | .completed f => f.nickname
  | .offline f => f.nickname
  | .offlineError f => f.nickname

/-- One message of a downloader, as `app_loop` takes it. -/
def appLoop (l : DownloadState) : AppAggMessage → DownloadState
  | .invalidFile f =>
    let invalidResult : InvalidResult := { path := f.invalidPath, message := f.message }
    match l f.nickname with
    | some h => l.insert f.nickname
        { h with
          activeDownloadPath := f.activePath
          invalidDownloads := h.invalidDownloads ++ [invalidResult]
          downloadQueue := f.downloadQueue
          isOnline := true }
    | none => l.insert f.nickname
        { SingleDownloadState.default with
          activeDownloadPath := f.activePath
          invalidDownloads := [invalidResult]
          downloadQueue := f.downloadQueue }
  | .inProgress f =>
    match l f.nickname with
    | some h => l.insert f.nickname
        { h with
          activeDownloadPath := f.path
          activeDownloadPercent := f.percent
          activeDownloadLocalPath := f.pathLocalDisk
          downloadQueue := f.downloadQueue
          isOnline := true
          activeDownloadSize := f.sizeString }
    | none => l.insert f.nickname
        { SingleDownloadState.default with
          activeDownloadPath := f.path
          activeDownloadLocalPath := f.pathLocalDisk
          activeDownloadPercent := f.percent
          downloadQueue := f.downloadQueue
          activeDownloadSize := f.sizeString }
  | .completed f =>
    match l f.nickname with
    | some h => l.insert f.nickname
        { h with
          completedDownloads := h.completedDownloads ++ [f]
          downloadQueue := f.downloadQueue
          activeDownloadPath := none
          activeDownloadLocalPath := some f.pathLocalDisk
          isOnline := true }
    | none => l.insert f.nickname
        { SingleDownloadState.default with
          completedDownloads := [f]
          downloadQueue := f.downloadQueue
          activeDownloadPath := none }
  | .offline f =>
    match l f.nickname with
    | some h => l.insert f.nickname
        { h with isOnline := false, downloadQueue := f.downloadQueue, error := none }
    | none => l.insert f.nickname
        { SingleDownloadState.default with
          isOnline := false, downloadQueue := f.downloadQueue, error := none }
  | .offlineError f =>
    match l f.nickname with
    | some h => l.insert f.nickname { h with isOnline := false, error := some f.error }
    | none => l.insert f.nickname
        { SingleDownloadState.default with isOnline := false, error := some f.error }

/-! ## 3. What is shown of a downloader -/

/-- The active path and the queue the user sees. -/
structure Displayed where
  activeDownloadPath : Option Str
  downloadQueue : List Str
  deriving DecidableEq, Repr

def SingleDownloadState.shown (s : SingleDownloadState) : Displayed :=
  { activeDownloadPath := s.activeDownloadPath, downloadQueue := s.downloadQueue }

/-- What is shown of a nickname; nothing before its first message. -/
def DownloadState.shown (l : DownloadState) (nickname : Str) : Option Displayed :=
  (l nickname).map SingleDownloadState.shown

/-- The active path that is shown. -/
def DownloadState.shownPath (l : DownloadState) (nickname : Str) : Option Str :=
  (l.shown nickname).bind Displayed.activeDownloadPath

/-- What a message shows in place of `old`. -/
def AppAggMessage.shows (old : Option Displayed) : AppAggMessage → Displayed
  | .invalidFile f => { activeDownloadPath := f.activePath, downloadQueue := f.downloadQueue }
  | .inProgress f => { activeDownloadPath := f.path, downloadQueue := f.downloadQueue }
  | .completed f => { activeDownloadPath := none, downloadQueue := f.downloadQueue }
  -- the full queue, next to an active path that stays
  | .offline f =>
    { activeDownloadPath := old.bind Displayed.activeDownloadPath, downloadQueue := f.downloadQueue }
  | .offlineError _ => old.getD { activeDownloadPath := none, downloadQueue := [] }

@[simp] theorem shown_insert_self (l : DownloadState) (nickname : Str) (s : SingleDownloadState) :
    (l.insert nickname s).shown nickname = some s.shown := by
  simp [DownloadState.shown, DownloadState.insert]

theorem shown_insert_of_ne {l : DownloadState} {nickname n : Str} {s : SingleDownloadState}
    (h : n ≠ nickname) : (l.insert nickname s).shown n = l.shown n := by
  simp [DownloadState.shown, DownloadState.insert, h]

/-- **What a message shows** of the downloader it comes from. -/
theorem shown_appLoop (l : DownloadState) (m : AppAggMessage) :
    (appLoop l m).shown m.nickname = some (m.shows (l.shown m.nickname)) := by
  have hold : ∀ n, l.shown n = (l n).map SingleDownloadState.shown := fun _ => rfl
  cases m with
  | invalidFile f => cases h : l f.nickname <;> simp [appLoop, AppAggMessage.nickname, h] <;> rfl
  | inProgress f => cases h : l f.nickname <;> simp [appLoop, AppAggMessage.nickname, h] <;> rfl
  | completed f => cases h : l f.nickname <;> simp [appLoop, AppAggMessage.nickname, h] <;> rfl
  | offline f =>
    cases h : l f.nickname <;> simp [appLoop, AppAggMessage.nickname, h, hold] <;> rfl
  | offlineError f =>
    cases h : l f.nickname <;> simp [appLoop, AppAggMessage.nickname, h, hold] <;> rfl

/-- A message is about the nickname it carries. -/
theorem shown_appLoop_of_ne {l : DownloadState} {m : AppAggMessage} {n : Str}
    (h : m.nickname ≠ n) : (appLoop l m).shown n = l.shown n := by
  have hne : ∀ s, (l.insert m.nickname s).shown n = l.shown n := fun _ => shown_insert_of_ne h.symm
  cases m with
  | invalidFile f => cases hl : l f.nickname <;> simp only [appLoop, hl] <;> exact hne _
  | inProgress f => cases hl : l f.nickname <;> simp only [appLoop, hl] <;> exact hne _
  | completed f => cases hl : l f.nickname <;> simp only [appLoop, hl] <;> exact hne _
  | offline f => cases hl : l f.nickname <;> simp only [appLoop, hl] <;> exact hne _
  | offlineError f => cases hl : l f.nickname <;> simp only [appLoop, hl] <;> exact hne _

/-! ## 4. The others -/

/-- What the downloaders of other users, and the user, do to the state. -/
inductive OtherStep (nickname : Str) (l : DownloadState) : DownloadState → Prop where
  | message (m : AppAggMessage) (h : m.nickname ≠ nickname) : OtherStep nickname l (appLoop l m)
  | clearFinished : OtherStep nickname l l.clearFinished
  | clearInvalid : OtherStep nickname l l.clearInvalid

/-- Any number of these steps. -/
def OtherSteps (nickname : Str) : DownloadState → DownloadState → Prop :=
  Relation.ReflTransGen (OtherStep nickname)

theorem OtherStep.shown {nickname : Str} {l l' : DownloadState} (h : OtherStep nickname l l') :
    l'.shown nickname = l.shown nickname := by
  cases h with
  | message m hm => exact shown_appLoop_of_ne hm
  | clearFinished => cases hl : l nickname <;> simp [DownloadState.shown,
      DownloadState.clearFinished, SingleDownloadState.shown, hl]
  | clearInvalid => cases hl : l nickname <;> simp [DownloadState.shown,
      DownloadState.clearInvalid, SingleDownloadState.shown, hl]

/-- **The others leave alone what is shown of a nickname.** -/
theorem OtherSteps.shown {nickname : Str} {l l' : DownloadState} (h : OtherSteps nickname l l') :
    l'.shown nickname = l.shown nickname := by
  induction h with
  | refl => rfl
  | tail _ hs ih => exact hs.shown.trans ih

end Transmitic
