/-
  File:      Transmitic/FirstMessage.lean
  Subject:   THE FIRST MESSAGE OF A NICKNAME (app_aggregator.rs, `app_loop`).

  Each kind of message is written out twice: for a nickname that has an entry, and for one that has none,
  where the fields are set on a default entry.

  * `AppAggMessage.onto`, `AppAggMessage.first` -- the two branches;
  * `first_eq_onto_iff` -- they are in step but for `Completed`, whose second branch leaves out the local path;
  * `firstMessage_agrees_iff` -- **when a default entry in front makes no difference**, to one message and
    to any number of them.
-/
import Transmitic.DownloadState

namespace Transmitic

open Lib

/-! ## 1. The two branches -/

/-- What a message makes of the entry there is. -/
def AppAggMessage.onto (m : AppAggMessage) (h : SingleDownloadState) : SingleDownloadState :=
  match m with
  | .invalidFile f =>
    { h with
      activeDownloadPath := f.activePath
      invalidDownloads := h.invalidDownloads ++ [{ path := f.invalidPath, message := f.message }]
      downloadQueue := f.downloadQueue
      isOnline := true }
  | .inProgress f =>
    { h with
      activeDownloadPath := f.path
      activeDownloadPercent := f.percent
      activeDownloadLocalPath := f.pathLocalDisk
      downloadQueue := f.downloadQueue
      isOnline := true
      activeDownloadSize := f.sizeString }
  | .completed f =>
    { h with
      completedDownloads := h.completedDownloads ++ [f]
      downloadQueue := f.downloadQueue
      activeDownloadPath := none
      activeDownloadLocalPath := some f.pathLocalDisk
      isOnline := true }
  | .offline f => { h with isOnline := false, downloadQueue := f.downloadQueue, error := none }
  | .offlineError f => { h with isOnline := false, error := some f.error }

/-- The entry a message makes where there is none. -/
def AppAggMessage.first (m : AppAggMessage) : SingleDownloadState :=
  match m with
  | .invalidFile f =>
    { SingleDownloadState.default with
      activeDownloadPath := f.activePath
      invalidDownloads := [{ path := f.invalidPath, message := f.message }]
      downloadQueue := f.downloadQueue }
  | .inProgress f =>
    { SingleDownloadState.default with
      activeDownloadPath := f.path
      activeDownloadLocalPath := f.pathLocalDisk
      activeDownloadPercent := f.percent
      downloadQueue := f.downloadQueue
      activeDownloadSize := f.sizeString }
  | .completed f =>
    { SingleDownloadState.default with
      completedDownloads := [f]
      downloadQueue := f.downloadQueue
      activeDownloadPath := none }
  | .offline f =>
    { SingleDownloadState.default with isOnline := false, downloadQueue := f.downloadQueue, error := none }
  | .offlineError f => { SingleDownloadState.default with isOnline := false, error := some f.error }

def AppAggMessage.isCompleted : AppAggMessage → Bool
  | .completed _ => true
  | _ => false

/-- Does the message say where the download goes on the local disk? -/
def AppAggMessage.setsLocalPath : AppAggMessage → Bool
  | .inProgress _ => true
  | .completed _ => true
  | _ => false

theorem appLoop_eq (l : DownloadState) (m : AppAggMessage) :
    appLoop l m = l.insert m.nickname (((l m.nickname).map m.onto).getD m.first) := by
  cases m with
  | invalidFile f => cases h : l f.nickname <;> simp [appLoop, AppAggMessage.nickname, h] <;> rfl
  | inProgress f => cases h : l f.nickname <;> simp [appLoop, AppAggMessage.nickname, h] <;> rfl
  | completed f => cases h : l f.nickname <;> simp [appLoop, AppAggMessage.nickname, h] <;> rfl
  | offline f => cases h : l f.nickname <;> simp [appLoop, AppAggMessage.nickname, h] <;> rfl
  | offlineError f => cases h : l f.nickname <;> simp [appLoop, AppAggMessage.nickname, h] <;> rfl

/-- **The branches are in step but for `Completed`.** -/
theorem first_eq_onto_iff (m : AppAggMessage) :
    m.first = m.onto SingleDownloadState.default ↔ m.isCompleted = false := by
  cases m <;> simp [AppAggMessage.first, AppAggMessage.onto, AppAggMessage.isCompleted,
    SingleDownloadState.default]

/-! ## 2. One message -/

namespace DownloadState

/-- The nickname has no entry. -/
def withoutEntry (l : DownloadState) (nickname : Str) : DownloadState := Function.update l nickname none

/-- The entry of the nickname is a default one. -/
def withDefault (l : DownloadState) (nickname : Str) : DownloadState :=
  l.insert nickname SingleDownloadState.default

variable (l : DownloadState) (nickname : Str)

@[simp] theorem insert_self (s : SingleDownloadState) : l.insert nickname s nickname = some s := by
  simp [insert]

@[simp] theorem insert_insert (s s' : SingleDownloadState) :
    (l.insert nickname s).insert nickname s' = l.insert nickname s' := by
  simp [insert]

theorem insert_inj {s s' : SingleDownloadState} : l.insert nickname s = l.insert nickname s' ↔ s = s' := by
  refine ⟨fun h => ?_, fun h => by rw [h]⟩
  have hn := congrFun h nickname
  simpa using hn

/-- A message about an entry. -/
theorem appLoop_insert (s : SingleDownloadState) (m : AppAggMessage) :
    appLoop (l.insert m.nickname s) m = l.insert m.nickname (m.onto s) := by
  rw [appLoop_eq, insert_self, insert_insert]
  rfl

theorem appLoop_withoutEntry (m : AppAggMessage) :
    appLoop (l.withoutEntry m.nickname) m = l.insert m.nickname m.first := by
  rw [appLoop_eq]
  simp [withoutEntry, insert]

/-- A message about another nickname. -/
theorem appLoop_update {nickname : Str} {m : AppAggMessage} (h : m.nickname ≠ nickname)
    (entry : Option SingleDownloadState) :
    appLoop (Function.update l nickname entry) m = Function.update (appLoop l m) nickname entry := by
  rw [appLoop_eq, appLoop_eq, Function.update_of_ne h, insert, insert, Function.update_comm h]

end DownloadState

/-! ## 3. Any number of messages -/

/-- The messages about a nickname. -/
def about (nickname : Str) (ms : List AppAggMessage) : List AppAggMessage :=
  ms.filter fun m => m.nickname = nickname

/-- The entry with another local path. -/
def SingleDownloadState.downloadingTo (s : SingleDownloadState) (p : Option Str) : SingleDownloadState :=
  { s with activeDownloadLocalPath := p }

/-- A message changes the local path of an entry only by setting it. -/
theorem onto_downloadingTo (m : AppAggMessage) (s : SingleDownloadState) (p : Option Str) :
    m.onto (s.downloadingTo p) = if m.setsLocalPath then m.onto s else (m.onto s).downloadingTo p := by
  cases m <;> rfl

theorem onto_keeps_localPath {m : AppAggMessage} (h : m.setsLocalPath = false) (s : SingleDownloadState) :
    (m.onto s).activeDownloadLocalPath = s.activeDownloadLocalPath := by
  cases m with
  | invalidFile f => rfl
  | inProgress f => cases h
  | completed f => cases h
  | offline f => rfl
  | offlineError f => rfl

/-- **Two entries that differ in the local path** come to one by the next message that sets it. Over the
    messages. -/
theorem localPath_agrees_iff (nickname : Str) : ∀ (ms : List AppAggMessage) (l : DownloadState)
    (s : SingleDownloadState) (p : Option Str),
    ms.foldl appLoop (l.insert nickname s) =
        ms.foldl appLoop (l.insert nickname (s.downloadingTo p)) ↔
      s.activeDownloadLocalPath = p ∨ ∃ m ∈ about nickname ms, m.setsLocalPath = true
  | [], l, s, p => by
    have hrefl : s = s.downloadingTo p ↔ s.activeDownloadLocalPath = p :=
      ⟨fun h => by rw [h]; rfl, fun h => by rw [← h]; rfl⟩
    simp [about, DownloadState.insert_inj, hrefl]
  | m :: ms, l, s, p => by
    rw [List.foldl_cons, List.foldl_cons]
    by_cases hm : m.nickname = nickname
    · subst hm
      rw [DownloadState.appLoop_insert, DownloadState.appLoop_insert, onto_downloadingTo]
      have hmem : m ∈ about m.nickname (m :: ms) := by simp [about]
      cases hsets : m.setsLocalPath with
      | true =>
        rw [if_pos rfl]
        exact ⟨fun _ => .inr ⟨m, hmem, hsets⟩, fun _ => rfl⟩
      | false =>
        rw [if_neg (by decide), localPath_agrees_iff m.nickname ms, onto_keeps_localPath hsets]
        simp [about, hsets]
    · have hother : ∀ entry, appLoop (l.insert nickname entry) m = (appLoop l m).insert nickname entry :=
        fun entry => DownloadState.appLoop_update l hm (some entry)
      rw [hother, hother, localPath_agrees_iff nickname ms]
      simp [about, hm]

/-- An entry and none agree after the first message about the nickname, or when the local path has been
    set again. Over the messages up to the first one. -/
theorem entry_agrees_iff (nickname : Str) : ∀ (ms : List AppAggMessage) (l : DownloadState),
    ms.foldl appLoop (l.withoutEntry nickname) = ms.foldl appLoop (l.withDefault nickname) ↔
      ∃ m rest, about nickname ms = m :: rest ∧
        (m.isCompleted = false ∨ ∃ m' ∈ rest, m'.setsLocalPath = true)
  | [], l => by
    have hne : l.withoutEntry nickname ≠ l.withDefault nickname := by
      intro h
      have hn := congrFun h nickname
      simp [DownloadState.withoutEntry, DownloadState.withDefault] at hn
    simp [about, hne]
  | m :: ms, l => by
    rw [List.foldl_cons, List.foldl_cons]
    by_cases hm : m.nickname = nickname
    · subst hm
      have habout : about m.nickname (m :: ms) = m :: about m.nickname ms := by simp [about]
      rw [habout, DownloadState.appLoop_withoutEntry, DownloadState.withDefault,
        DownloadState.appLoop_insert]
      cases hc : m.isCompleted with
      | false => simp [(first_eq_onto_iff m).mpr hc, hc]
      | true =>
        -- the second branch leaves the local path as it is by default
        obtain ⟨f, rfl⟩ : ∃ f, m = .completed f := by
          cases m <;> first | exact ⟨_, rfl⟩ | cases hc
        have hfirst : (AppAggMessage.completed f).onto SingleDownloadState.default =
            (AppAggMessage.completed f).first.downloadingTo (some f.pathLocalDisk) := rfl
        rw [hfirst, localPath_agrees_iff]
        simp [AppAggMessage.first, SingleDownloadState.default, hc]
    · have hother : ∀ entry, appLoop (Function.update l nickname entry) m =
          Function.update (appLoop l m) nickname entry := DownloadState.appLoop_update l hm
      have ih := entry_agrees_iff nickname ms (appLoop l m)
      have habout : about nickname (m :: ms) = about nickname ms := by simp [about, hm]
      rw [habout, ← ih, DownloadState.withoutEntry, DownloadState.withDefault, DownloadState.insert,
        hother, hother]
      rfl

/-- **When a default entry in front makes no difference**: to one message, where it is no `Completed`; to
    any messages, where the first one about the nickname is none, or a later one about it sets the local
    path. -/
theorem firstMessage_agrees_iff (l : DownloadState) :
    (∀ m : AppAggMessage,
      appLoop (l.withoutEntry m.nickname) m = appLoop (l.withDefault m.nickname) m ↔
        m.isCompleted = false) ∧
    ∀ (nickname : Str) (ms : List AppAggMessage),
      ms.foldl appLoop (l.withoutEntry nickname) = ms.foldl appLoop (l.withDefault nickname) ↔
        ∃ m rest, about nickname ms = m :: rest ∧
          (m.isCompleted = false ∨ ∃ m' ∈ rest, m'.setsLocalPath = true) := by
  refine ⟨fun m => ?_, fun nickname ms => entry_agrees_iff nickname ms l⟩
  rw [DownloadState.appLoop_withoutEntry, DownloadState.withDefault, DownloadState.appLoop_insert,
    DownloadState.insert_inj, first_eq_onto_iff]

/-- A download that completes before anything else is reported of the user. -/
def completedFirst : CompletedMessage :=
  { nickname := "bob".toList
    path := "/share/a.txt".toList
    pathLocalDisk := "/home/u/Transmitic Downloads/bob/a.txt".toList
    downloadQueue := []
    sizeString := "0 bytes".toList }

/-- **The first message is treated otherwise**: where the file lies is not shown. -/
theorem completedFirst_differs :
    appLoop (DownloadState.withoutEntry (fun _ => none) "bob".toList) (.completed completedFirst) ≠
      appLoop (DownloadState.withDefault (fun _ => none) "bob".toList) (.completed completedFirst) := by
  intro h
  have hn := congrArg (fun s : Option SingleDownloadState => s.bind SingleDownloadState.activeDownloadLocalPath)
    (congrFun h "bob".toList)
  revert hn
  decide

end Transmitic
