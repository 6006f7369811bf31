/-
  File:      Transmitic/RefreshCache.lean
  Subject:   EVERY USER HAS AN ENTRY IN THE CACHE OF LISTINGS (outgoing_downloader.rs, `refresh_data`).

  The refresh of all listings looks up the entry of each user of the config, and posts `AppFailedKill`
  where there is none. A new config gets its entries last, after all downloaders were told, so in the
  middle of that operation entries may be missing. Whoever else has the lock finds them.

  * `Covers` -- every user of the config has an entry;
  * `refreshesAll` -- the holder of the lock is refreshing all listings;
  * `cacheParties` -- the operations keep `Covers`, the downloaders only add entries;
  * `covers_run` -- **at each of its lookups the refresh of all listings finds an entry**, in every run.
-/
import Transmitic.CoreMethods
import Transmitic.DownloaderRuns

namespace Transmitic

open Lib

/-! ## 1. Entries -/

/-- The user has an entry in `refresh_data`. -/
def World.HasEntry (w : World) (nickname : Str) : Prop := (w.refreshData nickname).isSome = true

/-- Every user of the downloads' config has one. -/
def Covers (d : OutgoingDownloader) (w : World) : Prop :=
  ∀ user ∈ d.config.configFile.sharedUsers, w.HasEntry user.nickname

/-- No entry goes. -/
def KeepsEntries (w w' : World) : Prop := ∀ nickname, w.HasEntry nickname → w'.HasEntry nickname

/-- Is it `start_refresh_shared_with_me_all` that has the lock? -/
def Turn.refreshesAll : Turn → Bool → Bool
  | .downloadOperation .startRefreshAll, _ => true
  | .downloadOperation _, _ => false
  | .operation _ _, _ => false
  | _, refreshing => refreshing

/-- The same after all turns of a run. -/
def refreshesAll (turns : List Turn) : Bool :=
  turns.foldl (fun refreshing turn => turn.refreshesAll refreshing) false

/-- Commands that do not look at the cache. -/
def CoreCmd.besideCache : CoreCmd → Prop
  | .setRefreshData _ => False
  | .startRefresh _ _ => False
  | _ => True

section Entries

variable {w w' : World} {d d' : OutgoingDownloader}

theorem KeepsEntries.of_eq (h : w'.refreshData = w.refreshData) : KeepsEntries w w' := by
  intro nickname hn
  unfold World.HasEntry at hn ⊢
  rwa [h]

theorem Covers.keep (h : Covers d w) (hw : KeepsEntries w w') : Covers d w' :=
  fun user hu => hw user.nickname (h user hu)

theorem Covers.congr (h : Covers d w) (hd : d'.config = d.config) : Covers d' w := by
  intro user hu
  rw [hd] at hu
  exact h user hu

theorem entries_setRefresh {inserted : Str} {entry : Option InternalRefreshData}
    (h : entry.isSome = true) : KeepsEntries w (w.setRefresh inserted entry) := by
  intro nickname hn
  show (Function.update w.refreshData inserted entry nickname).isSome = true
  by_cases he : nickname = inserted
  · subst he
    rwa [Function.update_self]
  · rwa [Function.update_of_ne he]

/-- A downloader adds entries only. -/
theorem entries_threadStep {ioFails : Prop} {i : Nat} {t : Thread SingleDownloader}
    {c : Wire ⊕ DownloaderCmd} {a : Ans DownloaderCmd.Ans c} (h : w.ThreadStep ioFails i t c a w') :
    KeepsEntries w w' := by
  unfold World.ThreadStep at h
  split at h
  · obtain ⟨ch, ch', -, -, rfl⟩ := h
    exact .of_eq rfl
  · obtain ⟨ch, ch', -, -, rfl⟩ := h
    exact .of_eq rfl
  · exact .of_eq (by rw [h.2])
  · rw [h.2]
    exact .of_eq rfl
  · exact .of_eq (by rw [h.2])
  · exact .of_eq (by rw [h.2])
  · rw [h]
    exact .of_eq rfl
  · obtain ⟨-, file, rfl⟩ := h
    exact .of_eq rfl
  · exact .of_eq (by rw [h.2])
  · rw [h]
    exact entries_setRefresh rfl
  · exact .of_eq (by rw [h.2.2])
  · exact .of_eq (by rw [h])

variable [Crates] {ioFails : Prop}

/-- So does the core, but for `set_refresh_data`. -/
theorem entries_coreStep {c : CoreCmd} {a : c.Ans} (h : w.CoreStep ioFails c a w')
    (hc : ∀ nicknames, c ≠ .setRefreshData nicknames) : KeepsEntries w w' := by
  cases c with
  | send i m =>
    obtain ⟨ch, -, ⟨-, -, rfl⟩ | ⟨-, -, rfl⟩⟩ := h <;> exact .of_eq rfl
  | sendReverse i enc =>
    obtain ⟨ch, -, ⟨-, rfl⟩ | ⟨-, rfl⟩⟩ := h <;> exact .of_eq rfl
  | dropSenders i =>
    obtain ⟨ch, -, rfl⟩ := h
    exact .of_eq rfl
  | queueExists path => exact .of_eq (by rw [h.2])
  | queueAppend path bytes =>
    cases a with
    | ok u =>
      rw [show w' = _ from h]
      exact .of_eq rfl
    | error e =>
      obtain ⟨-, file, rfl⟩ := h
      exact .of_eq rfl
  | newChannels nickname =>
    rw [h.2]
    exact .of_eq rfl
  | spawn i user path isPaused reverse config =>
    obtain ⟨fuel, n, encryptedStream, rfl⟩ := h
    exact .of_eq rfl
  | setRefreshData nicknames => exact absurd rfl (hc nicknames)
  | startRefresh nickname config =>
    rw [show w' = _ from h]
    intro m hm
    show (Function.update w.refreshData nickname _ m).isSome = true
    by_cases he : m = nickname
    · subst he
      rw [Function.update_self, Option.isSome_map]
      exact hm
    · rw [Function.update_of_ne he]
      exact hm
  | pollRefresh =>
    rw [show w' = _ from h]
    intro m hm
    show ((w.refreshData m).map _).isSome = true
    rw [Option.isSome_map]
    exact hm

/-- **`set_refresh_data`** makes an entry for each nickname it is given. -/
theorem hasEntry_setRefreshData {nicknames : List Str} {nickname : Str} (h : nickname ∈ nicknames)
    (hs : w.CoreStep ioFails (.setRefreshData nicknames) () w') : w'.HasEntry nickname := by
  rw [show w' = _ from hs]
  show (setRefreshData nicknames w.refreshData nickname).isSome = true
  unfold setRefreshData
  rw [if_pos h]
  rfl

end Entries

/-! ## 2. Methods that look at no entry -/

/-- The config of the downloads, which the lookups go by. -/
abbrev goesByConfig (d : OutgoingDownloader) : Config := d.config

/-- A method that changes neither the cache nor the config. -/
abbrev LeavesCache {α : Type} (m : Core α) : Prop := Steady CoreCmd.besideCache goesByConfig m

/-- The channels are neither. -/
theorem channelless_config {config : Config} :
    Channelless fun d (_ : Unit) => goesByConfig d = config := fun _ _ _ h => h

theorem leavesCache_removeChannel (nickname : Str) : LeavesCache (removeChannel nickname) :=
  steady_of_endsIn fun _ =>
    endsIn_removeChannel channelless_config (fun _ => endsIn_steadily trivial) nickname

theorem leavesCache_insertChannel (nickname : Str) (thread : Nat) :
    LeavesCache (insertChannel nickname thread) :=
  steady_bind (leavesCache_removeChannel nickname) fun _ => steady_modify fun _ => rfl

theorem leavesCache_startThread (user : SharedUser) (path : Str) (reverse : Option EncryptedStream) :
    LeavesCache (startThread user path reverse) := by
  refine steady_bind (steady_issue trivial) fun thread => ?_
  refine steady_bind (leavesCache_insertChannel _ thread) fun _ => steady_bind steady_get fun _ => ?_
  exact steady_issue trivial

theorem leavesCache_startDownloadingSingleUser (user : SharedUser)
    (reverse : Option EncryptedStream) :
    LeavesCache (startDownloadingSingleUser user reverse) := by
  refine steady_bind steady_get fun d => ?_
  cases reverse with
  | none =>
    refine steady_bind (steady_issue trivial) fun (pathExists : Bool) => ?_
    exact steady_ite (leavesCache_startThread user _ none) (steady_pure _)
  | some enc =>
    refine steady_ite ?_ (steady_pure _)
    cases d.channel user.nickname with
    | some thread => exact steady_issue trivial
    | none => exact leavesCache_startThread user _ (some enc)

theorem leavesCache_startDownloadingUsers : ∀ users : List SharedUser,
    LeavesCache (startDownloadingUsers users)
  | [] => steady_pure _
  | user :: users => steady_bind (leavesCache_startDownloadingSingleUser user none) fun _ =>
      leavesCache_startDownloadingUsers users

theorem leavesCache_sendMessageToAllDownloads (m : MessageSingleDownloader) :
    LeavesCache (sendMessageToAllDownloads m) :=
  steady_of_endsIn fun _ => endsIn_sendMessageToAllDownloads channelless_config
    (fun _ => endsIn_steadily trivial) fun _ => endsIn_steadily trivial

theorem leavesCache_sendMessageToDownload (nickname : Str) (m : MessageSingleDownloader) :
    LeavesCache (OutgoingDownloader.sendMessageToDownload nickname m) := by
  refine steady_bind steady_get fun d => ?_
  cases d.channel nickname with
  | some thread =>
    refine steady_bind (steady_issue trivial) fun (sent : Bool) => ?_
    exact steady_ite (steady_pure _) (leavesCache_removeChannel nickname)
  | none => exact steady_pure _

theorem leavesCache_updateUser (nickname : Str) :
    LeavesCache (OutgoingDownloader.updateUser nickname) := by
  refine steady_bind steady_get fun d => ?_
  cases d.config.configFile.sharedUsers.find? fun user => user.nickname = nickname with
  | some user => exact leavesCache_sendMessageToDownload _ _
  | none => exact steady_throw _

theorem leavesCache_removeUser (nickname : Str) :
    LeavesCache (OutgoingDownloader.removeUser nickname) := by
  refine steady_bind steady_get fun d => ?_
  cases d.channel nickname with
  | some thread =>
    exact steady_bind (steady_issue trivial) fun (_ : Bool) => leavesCache_removeChannel nickname
  | none => exact steady_pure _

theorem leavesCache_addToQueueFile (owner path : Str) (size : UInt64) :
    LeavesCache (OutgoingDownloader.addToQueueFileAndStartDownloader owner path size) := by
  refine steady_bind steady_get fun d => steady_bind (steady_issue trivial) fun written => ?_
  cases written with
  | error e => exact steady_throw _
  | ok u =>
    cases d.config.configFile.sharedUsers.find? fun user => user.nickname = owner with
    | some user => exact leavesCache_startDownloadingSingleUser user none
    | none => exact steady_pure _

theorem leavesCache_downloadOne (download : SelectedDownload) :
    LeavesCache (OutgoingDownloader.downloadOne download) := by
  refine steady_bind steady_get fun d => ?_
  cases d.channel download.owner with
  | some thread =>
    refine steady_bind (steady_issue trivial) fun (sent : Bool) => ?_
    exact steady_ite (steady_pure _) (leavesCache_addToQueueFile _ _ _)
  | none => exact leavesCache_addToQueueFile _ _ _

theorem leavesCache_downloadSelected : ∀ downloads : List SelectedDownload,
    LeavesCache (OutgoingDownloader.downloadSelected downloads)
  | [] => steady_pure _
  | download :: downloads => steady_bind (leavesCache_downloadOne download) fun _ =>
      leavesCache_downloadSelected downloads

/-- A method that does not fail, whatever the answers. -/
abbrev NeverFails {α : Type} (m : Core α) : Prop :=
  EndsIn (anyAnswers fun _ => True) (fun _ _ => True) (fun _ => False) m

theorem neverFails_command (c : CoreCmd) : NeverFails (coreCommand c) :=
  endsIn_issue (fun _ _ _ => trivial) fun _ _ _ _ _ _ => trivial

theorem neverFails_sendMessageToAllDownloads (m : MessageSingleDownloader) :
    NeverFails (sendMessageToAllDownloads m) :=
  endsIn_sendMessageToAllDownloads (fun _ _ _ _ => trivial) (fun _ => neverFails_command _)
    fun _ => neverFails_command _

/-! ## 3. The core keeps the entries -/

/-- The entries, as something every party keeps to; the account says whether all listings are being
    refreshed. -/
def cacheParties [Crates] (ioFails : Prop) : Parties Bool where
  ioFails := ioFails
  allowed _ _ := True
  known _ _ := True
  coreKnown _ _ _ := True
  account := Turn.refreshesAll
  idle d wg := Covers d wg.1
  coreOk wg d c := wg.2 = true → ∀ nickname config, c = .startRefresh nickname config →
    Covers d wg.1 ∧ wg.1.HasEntry nickname
  threadOk _ _ _ _ := True
  threadEnd _ _ _ := True
  aroundCore wg wg' := KeepsEntries wg.1 wg'.1 ∧ wg'.2 = wg.2
  aroundThread _ _ _ := True

section Core

variable [Crates] {ioFails : Prop} {d : OutgoingDownloader} {wg : World × Bool}

/-- The surroundings of the core. -/
abbrev cacheEnv (ioFails : Prop) : Env OutgoingDownloader CoreCmd CoreCmd.Ans (World × Bool) :=
  (cacheParties ioFails).coreEnv.among (cacheParties ioFails).aroundCore

/-- What holds between two methods while `refreshing` tells whether all listings are refreshed. -/
abbrev CoversIn (refreshing : Bool) (d : OutgoingDownloader) (wg : World × Bool) : Prop :=
  Covers d wg.1 ∧ wg.2 = refreshing

theorem entries_command {c : CoreCmd} {a : c.Ans} {wg' : World × Bool}
    (hc : ∀ nicknames, c ≠ .setRefreshData nicknames) (h : (cacheEnv ioFails).step wg d c a wg') :
    KeepsEntries wg.1 wg'.1 ∧ wg'.2 = wg.2 := by
  obtain ⟨wg₀, wg₁, h₀, ⟨-, -, -, hstep, hflag⟩, h₁⟩ := h
  refine ⟨fun n hn => h₁.1 n (entries_coreStep hstep hc n (h₀.1 n hn)), ?_⟩
  exact h₁.2.trans (hflag.trans h₀.2)

/-- **A method that leaves the cache alone.** -/
theorem covers_of_leaves {α : Type} {refreshing : Bool} {m : Core α} (h : LeavesCache m) :
    Maintains (cacheEnv ioFails) (CoversIn refreshing) m := by
  refine maintains_of_steady h (fun d d' wg hd hi => ⟨hi.1.congr hd, hi.2⟩)
    (fun d wg c hi hc wg' hw _ _ _ nickname config he => ?_) fun d wg c a wg' hi hc hs => ?_
  · subst he
    exact hc.elim
  · have hne : ∀ nicknames, c ≠ .setRefreshData nicknames := by
      rintro nicknames rfl
      exact hc.elim
    obtain ⟨hkeep, hflag⟩ := entries_command hne hs
    exact ⟨hi.1.keep hkeep, hflag.trans hi.2⟩

/-- One lookup, of a user of the config or by itself. -/
theorem covers_startRefresh {refreshing : Bool} {nickname : Str}
    (h : CoversIn refreshing d wg) (hn : refreshing = true → wg.1.HasEntry nickname) :
    wp (cacheEnv ioFails) (OutgoingDownloader.startRefreshSharedWithMeSingleUser nickname)
      (fun _ d' wg' => d' = d ∧ CoversIn refreshing d wg' ∧ KeepsEntries wg.1 wg'.1)
      (fun _ _ _ => False) d wg := by
  refine ⟨fun wg' hw _ _ hflag m config he => ?_, fun _ wg' hs => ?_⟩
  · cases he
    refine ⟨h.1.keep hw.1, hw.1 nickname (hn ?_)⟩
    rw [← h.2, ← hw.2]
    exact hflag
  · obtain ⟨hkeep, hflag⟩ := entries_command (c := .startRefresh nickname d.config) nofun hs
    exact ⟨rfl, ⟨h.1.keep hkeep, hflag.trans h.2⟩, hkeep⟩

/-- **The refresh of all listings** finds every entry. -/
theorem covers_startRefreshUsers {refreshing : Bool} : ∀ (users : List SharedUser)
    {d : OutgoingDownloader} {wg : World × Bool},
    (∀ user ∈ users, user ∈ d.config.configFile.sharedUsers) → CoversIn refreshing d wg →
    wp (cacheEnv ioFails) (OutgoingDownloader.startRefreshUsers users)
      (fun _ => CoversIn refreshing) (fun _ _ _ => False) d wg
  | [], _, _, _, h => h
  | user :: users, d, wg, hu, h => by
    have hentry : refreshing = true → wg.1.HasEntry user.nickname :=
      fun _ => h.1 user (hu user List.mem_cons_self)
    refine wp_seq (covers_startRefresh h hentry) (fun _ d' wg' h' => ?_) fun _ _ _ hf => hf
    obtain ⟨rfl, hcovers, -⟩ := h'
    exact covers_startRefreshUsers users (fun u hmem => hu u (List.mem_cons_of_mem _ hmem)) hcovers

/-- **A new config** has its entries once all downloaders were told; until then none may fail. -/
theorem covers_setNewConfig {refreshing : Bool} (config : Config) (h : wg.2 = refreshing) :
    wp (cacheEnv ioFails) (OutgoingDownloader.setNewConfig config) (fun _ => CoversIn refreshing)
      (fun _ _ _ => False) d wg := by
  have htold : Maintains (cacheEnv ioFails) (fun d wg => d.config = config ∧ wg.2 = refreshing)
      (sendMessageToAllDownloads (.newConfig config)) := by
    refine maintains_of_steady (leavesCache_sendMessageToAllDownloads _)
      (fun d d' wg hd hi => ⟨hd.trans hi.1, hi.2⟩)
      (fun d wg c hi hc wg' hw _ _ _ nickname config he => ?_) fun d wg c a wg' hi hc hs => ?_
    · subst he
      exact hc.elim
    · have hne : ∀ nicknames, c ≠ .setRefreshData nicknames := by
        rintro nicknames rfl
        exact hc.elim
      exact ⟨hi.1, (entries_command hne hs).2.trans hi.2⟩
  have hsent := wp_also (neverFails_sendMessageToAllDownloads (.newConfig config) { d with config } ()
    trivial) (htold { d with config } wg ⟨rfl, h⟩)
  refine (wp_bind _ _).mpr ((wp_modify _).mpr (wp_seq hsent (fun _ d₁ wg₁ h₁ => ?_)
    fun _ _ _ hf => hf.2))
  obtain ⟨⟨hconfig, hflag⟩, -⟩ := h₁
  refine ⟨fun wg' _ _ _ _ m c he => (nomatch he), fun _ wg₂ hs => ?_⟩
  obtain ⟨wg', wg'', h₀, ⟨-, -, -, hstep, hg⟩, h₂⟩ := hs
  refine ⟨fun user hu => ?_, h₂.2.trans (hg.trans (h₀.2.trans hflag))⟩
  rw [hconfig] at hu
  exact h₂.1 _ (hasEntry_setRefreshData (List.mem_map_of_mem hu) hstep)

/-- A new config, and what is told after it. -/
theorem covers_newConfig_then {refreshing : Bool} {config : Config} {m : Core Unit} (hm : LeavesCache m)
    (h : wg.2 = refreshing) :
    wp (cacheEnv ioFails) (OutgoingDownloader.setNewConfig config >>= fun _ => m)
      (fun _ => CoversIn refreshing) (fun _ => CoversIn refreshing) d wg :=
  wp_seq (covers_setNewConfig config h) (fun _ d' wg' h' => covers_of_leaves hm d' wg' h')
    fun _ _ _ hf => hf.elim

/-- **What the core does after an operation.** -/
theorem covers_follow {refreshing : Bool} (config : Config) (op : Operation)
    (h : CoversIn refreshing d wg) :
    wp (cacheEnv ioFails) (op.follow config) (fun _ => CoversIn refreshing)
      (fun _ => CoversIn refreshing) d wg := by
  have hnew : wp (cacheEnv ioFails) (OutgoingDownloader.setNewConfig config)
      (fun _ => CoversIn refreshing) (fun _ => CoversIn refreshing) d wg :=
    wp_conseq (covers_setNewConfig config h.2) (fun _ _ _ h' => h') fun _ _ _ hf => hf.elim
  cases op with
  | addNewUser => exact hnew
  | createNewId => exact hnew
  | setPathDownloadsDir => exact hnew
  | removeUser nickname => exact covers_newConfig_then (leavesCache_removeUser nickname) h.2
  | setIgnoreIncoming =>
    exact covers_newConfig_then (leavesCache_sendMessageToAllDownloads .restartConnection) h.2
  | updateUser nickname => exact covers_newConfig_then (leavesCache_updateUser nickname) h.2
  | _ => exact h

/-- **The operations on the downloads**; the refresh of all listings is marked as such. -/
theorem covers_downloadOperation (op : DownloadOperation)
    (h : CoversIn (Turn.refreshesAll (.downloadOperation op) false) d wg) :
    wp (cacheEnv ioFails) op.run (fun _ d' wg' => Covers d' wg'.1) (fun _ d' wg' => Covers d' wg'.1)
      d wg := by
  have hleaves : ∀ {m : Core Unit}, LeavesCache m →
      wp (cacheEnv ioFails) m (fun _ d' wg' => Covers d' wg'.1) (fun _ d' wg' => Covers d' wg'.1) d wg :=
    fun hm => wp_conseq (covers_of_leaves hm d wg h) (fun _ _ _ h' => h'.1) fun _ _ _ h' => h'.1
  cases op with
  | cancelAll => exact hleaves (leavesCache_sendMessageToAllDownloads _)
  | cancelSingle nickname filePath => exact hleaves (leavesCache_sendMessageToDownload _ _)
  | pauseAll =>
    exact hleaves (steady_bind (steady_modify fun _ => rfl) fun _ =>
      leavesCache_sendMessageToAllDownloads _)
  | resumeAll =>
    exact hleaves (steady_bind (steady_modify fun _ => rfl) fun _ =>
      leavesCache_sendMessageToAllDownloads _)
  | downloadSelected downloads => exact hleaves (leavesCache_downloadSelected downloads)
  | startRefreshAll =>
    exact wp_conseq (covers_startRefreshUsers _ (fun _ hu => hu) h) (fun _ _ _ h' => h'.1)
      fun _ _ _ hf => hf.elim
  | startRefreshSingle nickname =>
    exact wp_conseq (covers_startRefresh h nofun) (fun _ _ _ h' => h'.1 ▸ h'.2.1.1)
      fun _ _ _ hf => hf.elim
  | getSharedWithMeData => exact hleaves (steady_issue trivial)
  | reverseConnection enc => exact hleaves (leavesCache_startDownloadingSingleUser enc.sharedUser (some enc))

/-! ## 4. Every run -/

theorem cache_lawful : (cacheParties ioFails).Lawful where
  core := ⟨fun _ => ⟨fun _ hn => hn, rfl⟩,
    fun _ _ _ h h' => ⟨fun n hn => h'.1 n (h.1 n hn), h'.2.trans h.2⟩⟩
  thread _ := ⟨fun _ => trivial, fun _ _ _ _ _ => trivial⟩
  idle _ _ _ hw h := h.keep hw.1
  threadEnd _ _ _ _ _ _ := trivial
  coreTurn _ _ _ _ _ _ _ _ _ _ _ _ _ := trivial
  spawned _ _ _ _ _ _ _ _ _ _ _ _ _ _ _ _ _ _ :=
    Parties.threadHolds_of_lax (fun _ _ _ => trivial) (fun _ _ => trivial) _ _
  threadTurn _ _ _ _ _ _ _ _ _ _ _ _ hs :=
    ⟨⟨fun n hn => entries_threadStep hs n hn, rfl⟩, fun _ _ => trivial⟩
  ownTurn _ _ _ _ := trivial
  operation s g op o disk disk' config _ hidle _ _ := by
    refine ⟨?_, fun _ => trivial⟩
    exact wp_conseq (@covers_follow _ _ _ _ false config op ⟨hidle, rfl⟩)
      (fun _ _ _ h' => h'.1) fun _ _ _ h' => h'.1
  operationFails _ _ _ _ _ _ _ _ _ _ _ := ⟨⟨fun _ hn => hn, rfl⟩, fun _ => trivial⟩
  downloadOperation s g op _ hidle _ := by
    refine ⟨covers_downloadOperation op ⟨hidle, ?_⟩, fun _ => trivial⟩
    cases op <;> rfl
  ended _ _ _ _ _ _ _ _ _ _ := ⟨⟨fun _ hn => hn, rfl⟩, fun _ => trivial⟩
  fetched _ _ _ _ _ _ _ _ := ⟨⟨fun _ hn => hn, rfl⟩, fun _ => trivial⟩

/-- **At each of its lookups the refresh of all listings finds an entry**, and so would it for every
    other user of the config. -/
theorem covers_run {s₀ s : System} {turns : List Turn} {d : OutgoingDownloader} {nickname : Str}
    {config : Config} {k : Unit → Prog OutgoingDownloader CoreCmd CoreCmd.Ans Exc Unit}
    (h₀ : s₀.Start) (hr : System.Run ioFails (fun _ _ => True) s₀ turns s)
    (hcore : s.core = .call d (.startRefresh nickname config) k) (hall : refreshesAll turns = true) :
    Covers d s.world ∧ s.world.HasEntry nickname := by
  obtain ⟨configDir, isFirstStart, password, o, disk, disk', -, hstart, hthreads, -, hrefresh⟩ := h₀
  have hcovers : Covers (OutgoingDownloader.new s₀.config) s₀.world := by
    intro user hu
    have hmem : user.nickname ∈ s₀.config.configFile.sharedUsers.map SharedUser.nickname :=
      List.mem_map_of_mem hu
    unfold World.HasEntry
    rw [hrefresh]
    unfold setRefreshData
    rw [if_pos hmem]
    rfl
  have hinv : (cacheParties ioFails).Inv s₀ false := by
    refine ⟨?_, fun i p hp => ?_⟩
    · rw [hstart]
      exact wp_conseq (@covers_of_leaves _ _ _ false _ (steady_bind steady_get fun d =>
        leavesCache_startDownloadingUsers d.config.configFile.sharedUsers) _ _ ⟨hcovers, rfl⟩)
        (fun _ _ _ h' => h'.1) fun _ _ _ h' => h'.1
    · unfold World.program at hp
      rw [hthreads] at hp
      cases hp
  have hrun := Parties.run cache_lawful hinv (fun _ _ _ => ⟨trivial, fun _ _ _ _ => trivial⟩) hr
  have hholds := hrun.core
  rw [hcore] at hholds
  exact (hholds.issue cache_lawful.core).1 trivial trivial hall nickname config rfl

end Core

end Transmitic
