/-
  File:      Transmitic/RefreshKeys.lean
  Subject:   WHOSE LISTINGS THE CACHE HOLDS (outgoing_downloader.rs, `refresh_data`).

  `set_refresh_data` gives every user of a new config an entry, and takes the entries of all others away.
  It runs when a config arrives and at no other time, while a downloader inserts what it has fetched
  whenever the fetch is done.

  * `KeysExact` -- the keys of the cache are the nicknames of a config;
  * `prunePending` -- the holder of the lock has still to call `set_refresh_data`;
  * `refresh_keys_exact` -- **whenever nobody has the lock the keys are the nicknames of the config**, in
    every run whose downloaders insert for configured users only;
  * `removed_user_reappears` -- a run in which a downloader inserts for a user who was removed.
-/
import Transmitic.RefreshCache
import Transmitic.OneDownloader
import Transmitic.SharerServes

namespace Transmitic

open Lib

/-! ## 1. Keys -/

/-- The nicknames of a config, as `set_refresh_data` collects them. -/
def nicknamesOf (config : Config) : List Str := config.configFile.sharedUsers.map SharedUser.nickname

/-- The keys of the cache are the nicknames of the config. -/
def KeysExact (config : Config) (w : World) : Prop :=
  ∀ nickname, w.HasEntry nickname ↔ nickname ∈ nicknamesOf config

/-- No key comes, and none goes. -/
def SameKeys (w w' : World) : Prop := ∀ nickname, w'.HasEntry nickname ↔ w.HasEntry nickname

section Keys

variable {w w' : World} {config : Config} {ioFails : Prop}

theorem SameKeys.of_eq (h : w'.refreshData = w.refreshData) : SameKeys w w' := by
  intro nickname
  unfold World.HasEntry
  rw [h]

theorem KeysExact.same (h : KeysExact config w) (hw : SameKeys w w') : KeysExact config w' :=
  fun nickname => (hw nickname).trans (h nickname)

/-- An entry for one more nickname. -/
theorem hasEntry_insert {inserted nickname : Str} {entry : InternalRefreshData} :
    (w.setRefresh inserted (some entry)).HasEntry nickname ↔
      nickname = inserted ∨ w.HasEntry nickname := by
  show (Function.update w.refreshData inserted (some entry) nickname).isSome = true ↔ _
  by_cases h : nickname = inserted
  · subst h
    simp
  · rw [Function.update_of_ne h]
    simp [h, World.HasEntry]

/-- The commands by which a downloader may add a key. -/
def insertsFor (nickname : Str) (c : Wire ⊕ DownloaderCmd) : Prop :=
  ∃ everythingFile, c = .inr (.refreshInsert nickname everythingFile)

theorem keys_threadStep {i : Nat} {t : Thread SingleDownloader} {c : Wire ⊕ DownloaderCmd}
    {a : Ans DownloaderCmd.Ans c} (h : w.ThreadStep ioFails i t c a w') :
    SameKeys w w' ∨ ∃ inserted, insertsFor inserted c ∧
      ∀ nickname, w'.HasEntry nickname ↔ nickname = inserted ∨ w.HasEntry nickname := by
  unfold World.ThreadStep at h
  split at h
  · obtain ⟨ch, ch', -, -, rfl⟩ := h
    exact .inl (.of_eq rfl)
  · obtain ⟨ch, ch', -, -, rfl⟩ := h
    exact .inl (.of_eq rfl)
  · exact .inl (.of_eq (by rw [h.2]))
  · rw [h.2]
    exact .inl (.of_eq rfl)
  · exact .inl (.of_eq (by rw [h.2]))
  · exact .inl (.of_eq (by rw [h.2]))
  · rw [h]
    exact .inl (.of_eq rfl)
  · obtain ⟨-, file, rfl⟩ := h
    exact .inl (.of_eq rfl)
  · exact .inl (.of_eq (by rw [h.2]))
  · rw [h]
    exact .inr ⟨_, ⟨_, rfl⟩, fun _ => hasEntry_insert⟩
  · exact .inl (.of_eq (by rw [h.2.2]))
  · exact .inl (.of_eq (by rw [h]))

variable [Crates]

theorem keys_coreStep {c : CoreCmd} {a : c.Ans} (h : w.CoreStep ioFails c a w')
    (hc : ∀ nicknames, c ≠ .setRefreshData nicknames) : SameKeys w w' := by
  cases c with
  | send i m =>
    obtain ⟨ch, -, ⟨-, -, rfl⟩ | ⟨-, -, rfl⟩⟩ := h <;> exact .of_eq rfl
  | sendReverse i enc =>
    obtain ⟨ch, -, ⟨-, rfl⟩ | ⟨-, rfl⟩⟩ := h <;> exact .of_eq rfl
  | dropSenders i =>
    obtain ⟨ch, -, rfl⟩ := h
    exact .of_eq rfl
  | queueExists path => exact .of_eq (by rw [h.2])
  | queueAppend path bytes =>
    cases a with
    | ok u =>
      rw [show w' = _ from h]
      exact .of_eq rfl
    | error e =>
      obtain ⟨-, file, rfl⟩ := h
      exact .of_eq rfl
  | newChannels nickname =>
    rw [h.2]
    exact .of_eq rfl
  | spawn i user path isPaused reverse config =>
    obtain ⟨fuel, n, encryptedStream, rfl⟩ := h
    exact .of_eq rfl
  | setRefreshData nicknames => exact absurd rfl (hc nicknames)
  | startRefresh nickname config =>
    rw [show w' = _ from h]
    intro m
    show (Function.update w.refreshData nickname _ m).isSome = true ↔ (w.refreshData m).isSome = true
    by_cases he : m = nickname
    · subst he
      rw [Function.update_self, Option.isSome_map]
    · rw [Function.update_of_ne he]
  | pollRefresh =>
    rw [show w' = _ from h]
    intro m
    show ((w.refreshData m).map _).isSome = true ↔ (w.refreshData m).isSome = true
    rw [Option.isSome_map]

/-- **`set_refresh_data`** leaves the keys it is given. -/
theorem keys_setRefreshData (hs : w.CoreStep ioFails (.setRefreshData (nicknamesOf config)) () w') :
    KeysExact config w' := by
  intro nickname
  rw [show w' = _ from hs]
  show (setRefreshData (nicknamesOf config) w.refreshData nickname).isSome = true ↔ _
  unfold setRefreshData
  split
  · simp [*]
  · simp [*]

end Keys

/-! ## 2. The holder of the lock -/

/-- Whatever the answers, the program comes to `set_refresh_data` before its end. -/
def prunePending : Prog OutgoingDownloader CoreCmd CoreCmd.Ans Exc Unit → Prop
  | .ret _ _ => False
  | .fail _ _ => False
  | .call _ c k => (∃ nicknames, c = .setRefreshData nicknames) ∨ ∀ a, prunePending (k a)

/-- A prune is one to this config. -/
def CoreCmd.prunesTo (config : Config) (c : CoreCmd) : Prop :=
  ∀ nicknames, c = .setRefreshData nicknames → nicknames = nicknamesOf config

/-- The program goes by this config all the time. -/
def GoesByConfig (config : Config) (p : Prog OutgoingDownloader CoreCmd CoreCmd.Ans Exc Unit) : Prop :=
  p.Holds (steadily (CoreCmd.prunesTo config) goesByConfig config) (fun _ d _ => d.config = config)
    (fun _ d _ => d.config = config) ()

section Lock

variable {config : Config} {d : OutgoingDownloader}

theorem GoesByConfig.state {p : Prog OutgoingDownloader CoreCmd CoreCmd.Ans Exc Unit}
    (h : GoesByConfig config p) : p.state.config = config := by
  cases p with
  | ret a d => exact h
  | fail x d => exact h
  | call d c k => exact h.1.2

theorem prunesTo_of_beside {c : CoreCmd} (h : c.besideCache) : c.prunesTo config := by
  rintro nicknames rfl
  exact h.elim

theorem goesByConfig_of_leaves {m : Core Unit} (h : LeavesCache m) (d : OutgoingDownloader) :
    GoesByConfig d.config (m d) :=
  h.mono (fun _ => prunesTo_of_beside) d

/-- What is done before a prune, if it does not fail. -/
theorem prunePending_bind {α : Type} {m : Core α} {f : α → Core Unit} (hm : NeverFails m)
    (hf : ∀ a d, prunePending (f a d)) (d : OutgoingDownloader) : prunePending ((m >>= f) d) := by
  have hends := hm d () trivial
  unfold wp at hends
  show prunePending ((m d).bind fun a d => f a d)
  generalize m d = p at hends ⊢
  induction p with
  | ret a d => exact hf a d
  | fail x d => exact hends.elim
  | call d c k ih => exact .inr fun a => ih a (hends.2 a () trivial)

/-- What is done after a prune. -/
theorem prunePending_then {m : Core Unit} {f : Unit → Core Unit} (h : prunePending (m d)) :
    prunePending ((m >>= f) d) := by
  show prunePending ((m d).bind fun a d => f a d)
  generalize m d = p at h ⊢
  induction p with
  | ret a d => exact h.elim
  | fail x d => exact h.elim
  | call d c k ih => exact h.imp_right fun h a => ih a (h a)

theorem goesByConfig_then {m : Core Unit} {f : Unit → Core Unit} (h : GoesByConfig config (m d))
    (hf : LeavesCache (f ())) : GoesByConfig config ((m >>= f) d) := by
  refine wp_seq h (fun _ d' _ hd => ?_) fun _ _ _ hd => hd
  subst hd
  exact goesByConfig_of_leaves hf d'

/-- **A new config**: all downloaders are told, and the cache is pruned to it. -/
theorem setNewConfig_prunes (d : OutgoingDownloader) :
    GoesByConfig config (OutgoingDownloader.setNewConfig config d) ∧
      prunePending (OutgoingDownloader.setNewConfig config d) := by
  have hprune : Steady (CoreCmd.prunesTo config) goesByConfig
      (coreCommand (.setRefreshData (nicknamesOf config))) := by
    refine steady_issue ?_
    rintro nicknames h
    cases h
    rfl
  constructor
  · have hsteady : Steady (CoreCmd.prunesTo config) goesByConfig
        (sendMessageToAllDownloads (.newConfig config) >>= fun _ =>
          coreCommand (.setRefreshData (nicknamesOf config))) :=
      steady_bind ((leavesCache_sendMessageToAllDownloads _).mono fun _ => prunesTo_of_beside)
        fun _ => hprune
    exact hsteady { d with config }
  · have hpending : ∀ d, prunePending ((sendMessageToAllDownloads (.newConfig config) >>= fun _ =>
        coreCommand (.setRefreshData (nicknamesOf config))) d) :=
      prunePending_bind (neverFails_sendMessageToAllDownloads _) fun _ _ => .inl ⟨_, rfl⟩
    exact hpending { d with config }

/-- **What the core does after an operation**: it takes over the new config and prunes the cache to it, or
    leaves the downloads alone. -/
theorem follow_prunes (op : Operation) (config : Config) (d : OutgoingDownloader) :
    GoesByConfig config (op.follow config d) ∧ prunePending (op.follow config d) ∨
      op.follow config d = .ret () d := by
  obtain ⟨hgoes, hpending⟩ := @setNewConfig_prunes config d
  have hthen : ∀ {m : Core Unit}, LeavesCache m →
      GoesByConfig config ((OutgoingDownloader.setNewConfig config >>= fun _ => m) d) ∧
        prunePending ((OutgoingDownloader.setNewConfig config >>= fun _ => m) d) :=
    fun hm => ⟨goesByConfig_then hgoes hm, prunePending_then hpending⟩
  cases op with
  | addNewUser => exact .inl ⟨hgoes, hpending⟩
  | createNewId => exact .inl ⟨hgoes, hpending⟩
  | setPathDownloadsDir => exact .inl ⟨hgoes, hpending⟩
  | removeUser nickname => exact .inl (hthen (leavesCache_removeUser nickname))
  | setIgnoreIncoming => exact .inl (hthen (leavesCache_sendMessageToAllDownloads .restartConnection))
  | updateUser nickname => exact .inl (hthen (leavesCache_updateUser nickname))
  | _ => exact .inr rfl

/-- The operations on the downloads keep the config. -/
theorem downloadOperation_goes (op : DownloadOperation) (d : OutgoingDownloader) :
    GoesByConfig d.config (op.run d) := by
  have hlookup : ∀ nickname, Steady (CoreCmd.prunesTo d.config) goesByConfig
      (OutgoingDownloader.startRefreshSharedWithMeSingleUser nickname) :=
    fun nickname => steady_bind steady_get fun _ => steady_issue nofun
  have hlookups : ∀ users, Steady (CoreCmd.prunesTo d.config) goesByConfig
      (OutgoingDownloader.startRefreshUsers users) := by
    intro users
    induction users with
    | nil => exact steady_pure _
    | cons user users ih => exact steady_bind (hlookup user.nickname) fun _ => ih
  cases op with
  | cancelAll => exact goesByConfig_of_leaves (leavesCache_sendMessageToAllDownloads _) d
  | cancelSingle nickname filePath =>
    exact goesByConfig_of_leaves (leavesCache_sendMessageToDownload _ _) d
  | pauseAll =>
    have hleaves : LeavesCache OutgoingDownloader.downloadsPauseAll :=
      steady_bind (steady_modify fun _ => rfl) fun _ => leavesCache_sendMessageToAllDownloads _
    exact goesByConfig_of_leaves hleaves d
  | resumeAll =>
    have hleaves : LeavesCache OutgoingDownloader.downloadsResumeAll :=
      steady_bind (steady_modify fun _ => rfl) fun _ => leavesCache_sendMessageToAllDownloads _
    exact goesByConfig_of_leaves hleaves d
  | downloadSelected downloads => exact goesByConfig_of_leaves (leavesCache_downloadSelected downloads) d
  | startRefreshAll => exact steady_bind steady_get (fun d => hlookups _) d
  | startRefreshSingle nickname => exact hlookup nickname d
  | getSharedWithMeData =>
    have hleaves : LeavesCache OutgoingDownloader.getSharedWithMeData := steady_issue trivial
    exact goesByConfig_of_leaves hleaves d
  | reverseConnection enc =>
    exact goesByConfig_of_leaves (leavesCache_startDownloadingSingleUser enc.sharedUser (some enc)) d

end Lock

/-! ## 3. Every run -/

/-- A downloader inserts for a user of the config, unless the cache is still to be pruned. -/
def InsertsKnown (s : System) : Turn → Prop
  | .thread _ _ c _ => ∀ nickname, insertsFor nickname c →
      nickname ∈ nicknamesOf s.downloads.config ∨ prunePending s.core
  | _ => True

/-- The keys are those of the config, or will be made so. -/
structure Tidy (s : System) : Prop where
  goes : GoesByConfig s.downloads.config s.core
  keys : KeysExact s.downloads.config s.world ∨ prunePending s.core

section Runs

variable [Crates] {ioFails : Prop} {s s₀ s' : System}

theorem tidy_start (h : s.Start) : Tidy s := by
  obtain ⟨configDir, isFirstStart, password, o, disk, disk', -, hstart, -, -, hrefresh⟩ := h
  have hleaves : LeavesCache startDownloading := steady_bind steady_get fun d =>
    leavesCache_startDownloadingUsers d.config.configFile.sharedUsers
  have hgoes : GoesByConfig s.config s.core := by
    rw [hstart]
    exact goesByConfig_of_leaves hleaves (OutgoingDownloader.new s.config)
  have hconfig : s.downloads.config = s.config := hgoes.state
  refine ⟨by rwa [hconfig], .inl fun nickname => ?_⟩
  rw [hconfig]
  unfold World.HasEntry nicknamesOf
  rw [hrefresh]
  unfold setRefreshData
  split
  · simp [*]
  · simp [*]

omit [Crates] in
/-- Nobody has the lock. -/
theorem Tidy.exact (h : Tidy s) (hidle : s.core.issued = none) : KeysExact s.downloads.config s.world := by
  rcases h.keys with hkeys | hpending
  · exact hkeys
  · cases hcore : s.core with
    | ret a d =>
      rw [hcore] at hpending
      exact hpending.elim
    | fail x d =>
      rw [hcore] at hpending
      exact hpending.elim
    | call d c k =>
      rw [hcore] at hidle
      cases hidle

omit [Crates] in
/-- The cache was not touched. -/
theorem Tidy.same {w : World} (h : Tidy s) (hw : SameKeys s.world w) : Tidy { s with world := w } :=
  ⟨h.goes, h.keys.imp_left fun hkeys => hkeys.same hw⟩

/-- **One turn.** -/
theorem tidy_step {turn : Turn} (h : Tidy s) (hs : s.Step ioFails turn s') (ha : InsertsKnown s turn) :
    Tidy s' := by
  cases hs with
  | core d c k a w hcore hstep =>
    have hgoes := h.goes
    have hkeys := h.keys
    have hd : s.downloads = d := congrArg Prog.state hcore
    rw [hcore, hd] at hgoes
    rw [hcore, hd] at hkeys
    have hnext : GoesByConfig d.config (k a) := hgoes.2 a () trivial
    have hconfig : (k a).state.config = d.config := hnext.state
    refine ⟨by show GoesByConfig (k a).state.config (k a); rwa [hconfig], ?_⟩
    show KeysExact (k a).state.config w ∨ prunePending (k a)
    rw [hconfig]
    by_cases hc : ∃ nicknames, c = .setRefreshData nicknames
    · obtain ⟨nicknames, rfl⟩ := hc
      obtain rfl := hgoes.1.1 nicknames rfl
      exact .inl (keys_setRefreshData hstep)
    · have hsame := keys_coreStep hstep fun nicknames he => hc ⟨nicknames, he⟩
      rcases hkeys with hkeys | hpending
      · exact .inl (hkeys.same hsame)
      · exact .inr ((hpending.resolve_left hc) a)
  | operation op o disk disk' config hidle hrun =>
    rcases follow_prunes op config s.downloads with ⟨hgoes, hpending⟩ | hret
    · have hconfig : (op.follow config s.downloads).state.config = config := hgoes.state
      refine ⟨?_, .inr hpending⟩
      show GoesByConfig (op.follow config s.downloads).state.config _
      rwa [hconfig]
    · show Tidy ⟨config, op.follow config s.downloads, s.world⟩
      rw [hret]
      exact ⟨rfl, .inl (h.exact hidle)⟩
  | operationFails op o disk disk' config e hrun => exact ⟨h.goes, h.keys⟩
  | downloadOperation op hidle =>
    have hgoes := downloadOperation_goes op s.downloads
    have hconfig : (op.run s.downloads).state.config = s.downloads.config := hgoes.state
    refine ⟨?_, .inl ?_⟩
    · show GoesByConfig (op.run s.downloads).state.config _
      rwa [hconfig]
    · show KeysExact (op.run s.downloads).state.config s.world
      rw [hconfig]
      exact h.exact hidle
  | thread i th t c k a w hi hprogram hstep =>
    show Tidy { s with world := w.setProgram i (k a) }
    rcases keys_threadStep hstep with hsame | ⟨inserted, hinsert, hkeys⟩
    · exact h.same hsame
    · refine ⟨h.goes, ?_⟩
      rcases ha inserted hinsert with hknown | hpending
      · refine h.keys.imp_left fun hexact nickname => (hkeys nickname).trans ?_
        constructor
        · rintro (rfl | hn)
          · exact hknown
          · exact (hexact nickname).mp hn
        · exact fun hn => .inr ((hexact nickname).mpr hn)
      · exact .inr hpending
  | ended i th t hi hprogram => exact h.same fun _ => Iff.rfl
  | fetched i fetch r hi hsent huser => exact h.same fun _ => Iff.rfl

theorem tidy_run {turns : List Turn} (h₀ : Tidy s₀) (hr : System.Run ioFails InsertsKnown s₀ turns s) :
    Tidy s := by
  induction hr with
  | start => exact h₀
  | step turns s s' turn _ hs ha ih => exact tidy_step ih hs ha

/-- **Whenever nobody has the lock, the keys of the cache are the nicknames of the config**, in every run in
    which downloaders insert for users of the config only. -/
theorem refresh_keys_exact {turns : List Turn} (h₀ : s₀.Start)
    (hr : System.Run ioFails InsertsKnown s₀ turns s) (hidle : s.core.issued = none) (nickname : Str) :
    s.world.HasEntry nickname ↔
      ∃ user ∈ s.downloads.config.configFile.sharedUsers, user.nickname = nickname :=
  ((tidy_run (tidy_start h₀) hr).exact hidle nickname).trans List.mem_map

/-- **A downloader that inserts for anyone else** while nobody has the lock breaks this at once. -/
theorem insert_breaks {i : Nat} {t : Thread SingleDownloader} {c : Wire ⊕ DownloaderCmd}
    {a : Ans DownloaderCmd.Ans c} {nickname : Str} (hs : s.Step ioFails (.thread i t c a) s')
    (hc : insertsFor nickname c) (hunknown : nickname ∉ nicknamesOf s.downloads.config) :
    s'.world.HasEntry nickname ∧
      ¬ ∃ user ∈ s'.downloads.config.configFile.sharedUsers, user.nickname = nickname := by
  cases hs with
  | thread i th t c k a w hi hprogram hstep =>
    obtain ⟨everythingFile, rfl⟩ := hc
    refine ⟨?_, fun h => hunknown (List.mem_map.mpr h)⟩
    show w.HasEntry nickname
    rw [show w = _ from hstep]
    exact hasEntry_insert.mpr (.inl rfl)

end Runs

/-! ## 4. A removed user comes back -/

section Alone

variable {ioFails : Prop} {i : Nat} {V : Type} {E : DlEnv V} {allowed : System → Turn → Prop}

namespace World

theorem setChannels_self {w : World} {ch : Channels} (h : w.channels i = some ch) :
    w.setChannels i ch = w := by
  obtain ⟨th, hth, rfl⟩ := Option.map_eq_some_iff.mp h
  have hthreads : (w.setChannels i th.channels).threads = w.threads := by
    refine List.ext_getElem? fun j => ?_
    unfold setChannels
    rw [threads_update]
    by_cases hij : i = j
    · subst hij
      simp [hth]
    · simp [hij]
  exact congrArg (fun threads => { w with threads }) hthreads

/-- The downloader has nothing to read, and nobody has a queue file. -/
structure Silent (i : Nat) (w : World) : Prop where
  channels : ∃ ch, w.channels i = some ch ∧ ch.inbox = [] ∧ ch.revInbox = [] ∧ ch.connected = true ∧
    ch.received = true
  queueFiles : ∀ path, w.queueFiles path = none

theorem Silent.setProgram {w : World} (h : w.Silent i) (p : DlProgram) : (w.setProgram i p).Silent i :=
  ⟨by rw [channels_setProgram]; exact h.channels, h.queueFiles⟩

end World

/-- **A run of one downloader is a run of the system**, where the world answers that way without a change
    of its own. -/
theorem run_alone [Crates] (hstep : ∀ w v t c a v', World.Silent i w → E.step v t c a v' →
      w.ThreadStep ioFails i t c a w)
    (hallowed : ∀ s v t c a v', E.step v t c a v' → allowed s (.thread i t c a))
    {p q : DlProgram} {v v' : V} (hr : Reach E (p, v) (q, v')) {s : System}
    (hp : s.world.program i = some p) (hs : s.world.Silent i) :
    ∃ turns s', System.Run ioFails allowed s turns s' ∧ s'.world.program i = some q ∧
      s'.world.Silent i ∧ s'.world.refreshData = s.world.refreshData ∧ s'.core = s.core ∧
      s'.config = s.config := by
  generalize hc : (q, v') = c at hr
  induction hr generalizing q v' with
  | start =>
    cases hc
    exact ⟨[], s, .start, hp, hs, rfl, rfl, rfl⟩
  | step t c k v₁ v₂ a hr he ih =>
    cases hc
    obtain ⟨turns, s', hrun, hprogram, hsilent, hrefresh, hcore, hconfig⟩ := ih rfl
    obtain ⟨th, hth, hp'⟩ := World.threads_of_program hprogram
    refine ⟨_, _, .step turns s' _ _ hrun (.thread i th t c k a s'.world hth hp'
      (hstep _ _ _ _ _ _ hsilent he)) (hallowed _ _ _ _ _ _ he), ?_, hsilent.setProgram _, hrefresh,
      hcore, hconfig⟩
    rw [World.program_setProgram, if_pos rfl, hth]
    rfl

end Alone

section Fetching

variable [Crates] {bytes : List UInt8} {everythingFile : SharedFile} {enc es : EncryptedStream}
  {user : SharedUser} {path : Str} {config : Config} {fuel : Nat}

/-- Nothing is read from the channels and from the disk. -/
def silence : Env (Thread SingleDownloader) DownloaderCmd DownloaderCmd.Ans Unit where
  ok _ _ c := match c with
    | .revTryRecv | .tryRecv | .app _ | .queueRead _ | .downloadsBase => True
    | _ => False
  step _ _ c a _ := match c, a with
    | .revTryRecv, a => a = .empty
    | .tryRecv, a => a = .empty
    | .queueRead _, a => a = none
    | .downloadsBase, a => a = .ok []
    | .app _, _ => True
    | _, _ => False

/-- A downloader and a peer that sends a listing with these bytes, until the listing is inserted. -/
abbrev fetching (bytes : List UInt8) (nickname : Str) :
    DlEnv (Unit × Option (View (Option (List (UInt16 × List UInt8))))) :=
  (onWire (answering (pieces bytes)) .left False silence).until fun _ _ c => insertsFor nickname c

theorem fetching_serves {t : Thread SingleDownloader} {root : Str} (hfuel : (pieces bytes).length ≤ fuel)
    (hparse : parseListing bytes = .ok everythingFile) (hsize : bytes.length ≤ maxEverythingFileSize)
    (hnonce : t.encryptedStream.nonce + 2 * ((pieces bytes).length + 1) ≤ nonceMax)
    (hreverse : t.encryptedStream.reverseMessage = msgReverse) :
    wp (fetching bytes t.self.sharedUser.nickname) (serveConnection fuel root) (fun _ _ _ => False)
      (fun _ _ _ => False) t ((), some ⟨none, t.encryptedStream.nonce, none⟩) := by
  have hle : t.encryptedStream.nonce ≤ nonceMax := by omega
  have hdownload : wp (onWire (answering (pieces bytes)) .left False silence)
      (downloadEverythingFile fuel : Dl SharedFile) (fun _ _ _ => True) (fun _ _ _ => False) t
      ((), some ⟨none, t.encryptedStream.nonce, none⟩) := by
    refine wp_conseq (wp_downloadEverythingFile hfuel rfl hle) (fun _ _ _ _ => trivial) fun e _ _ h => ?_
    obtain hbreak | hcount | ⟨-, herror⟩ | ⟨hlarge, -⟩ := h
    · exact hbreak
    · omega
    · rw [hparse] at herror
      cases herror
    · omega
  have hkept : wp (fetching bytes t.self.sharedUser.nickname) (downloadEverythingFile fuel : Dl SharedFile)
      (fun _ t' _ => True ∧ t'.self = t.self) (fun _ t' _ => False ∧ t'.self = t.self) t
      ((), some ⟨none, t.encryptedStream.nonce, none⟩) :=
    wp_keeps (steady_downloadEverythingFile (P := fun _ => True) fuel).keeps (wp_until hdownload)
  have hset : wp (fetching bytes t.self.sharedUser.nickname) (setEverythingFile fuel false)
      (fun _ _ _ => False) (fun _ _ _ => False) t ((), some ⟨none, t.encryptedStream.nonce, none⟩) := by
    show wp _ ((if t.encryptedStream.reverseMessage = msgReverse ∨ false = true then pure true else _) >>=
      fun needed : Bool => _) _ _ t _
    rw [if_pos (.inl hreverse)]
    show wp _ (downloadEverythingFile fuel >>= fun everythingFile => self >>= fun d =>
      command (.refreshInsert d.sharedUser.nickname everythingFile)) _ _ t _
    refine wp_seq hkept (fun f t' w h => ⟨.inr ⟨f, ?_⟩, fun _ _ hs => hs.1.elim⟩) fun _ _ _ h => h.1
    show Sum.inr (DownloaderCmd.refreshInsert t'.self.sharedUser.nickname f) = _
    rw [h.2]
  exact wp_seq hset (fun _ _ _ h => h.elim) fun _ _ _ h => h

/-- **A downloader with a connection from its user** comes to insert the listing it is sent. -/
theorem fetching_inserts (hfuel : (pieces bytes).length ≤ fuel + 1)
    (hparse : parseListing bytes = .ok everythingFile) (hsize : bytes.length ≤ maxEverythingFileSize)
    (hnonce : enc.nonce + 2 * ((pieces bytes).length + 1) ≤ nonceMax)
    (hreverse : enc.reverseMessage = msgReverse) :
    wp (fetching bytes user.nickname) (runThread (fuel + 2) 1) (fun _ _ _ => False) (fun _ _ _ => False)
      { self := SingleDownloader.new user path false (some enc) config, encryptedStream := es }
      ((), some ⟨none, enc.nonce, none⟩) := by
  generalize hw₀ : ((), some (⟨none, enc.nonce, none⟩ : View (Option (List (UInt16 × List UInt8))))) = w₀
  generalize ht₀ :
    (⟨SingleDownloader.new user path false (some enc) config, es⟩ : Thread SingleDownloader) = t₀
  have hqueue : wp (fetching bytes user.nickname) initializeDownloadQueue
      (fun _ t w => t = t₀ ∧ w = w₀) (fun _ _ _ => False) t₀ w₀ := by
    subst ht₀
    refine ⟨.inl trivial, fun a w hs => ?_⟩
    obtain ⟨-, rfl, hview⟩ := hs
    exact ⟨rfl, Prod.ext rfl hview⟩
  have hoffline : wp (fetching bytes user.nickname) appUpdateOffline
      (fun _ t w => t = t₀ ∧ w = w₀) (fun _ _ _ => False) t₀ w₀ :=
    ⟨.inl trivial, fun _ w hs => ⟨rfl, Prod.ext rfl hs.2.2⟩⟩
  have hreceive : wp (fetching bytes user.nickname) (readReceiver (fuel + 1))
      (fun _ t w => t = t₀ ∧ w = w₀) (fun _ _ _ => False) t₀ w₀ := by
    refine ⟨.inl trivial, fun a w hs => ?_⟩
    obtain ⟨-, rfl, hview⟩ := hs
    refine ⟨.inl trivial, fun a w' hs' => ?_⟩
    obtain ⟨-, rfl, hview'⟩ := hs'
    exact ⟨rfl, Prod.ext rfl (hview'.trans hview)⟩
  have hroot : wp (fetching bytes user.nickname) (getPathDownloadsDirUser user.nickname config)
      (fun _ t w => t = t₀ ∧ w = w₀) (fun _ _ _ => False) t₀ w₀ := by
    unfold getPathDownloadsDirUser getPathDownloadsDir
    split
    · refine ⟨.inl trivial, fun a w hs => ?_⟩
      obtain ⟨-, rfl, hview⟩ := hs
      exact ⟨rfl, Prod.ext rfl hview⟩
    · exact ⟨rfl, rfl⟩
  have hserve : ∀ root, wp (fetching bytes user.nickname) (serveConnection (fuel + 1) root)
      (fun _ _ _ => False) (fun _ _ _ => False)
      { self := { t₀.self with reverseConnection := none }, encryptedStream := enc } w₀ := by
    subst hw₀ ht₀
    exact fun root => fetching_serves (t := ⟨SingleDownloader.new user path false none config, enc⟩) hfuel
      hparse hsize hnonce hreverse
  have hrun : wp (fetching bytes user.nickname) (run (fuel + 2)) (fun _ _ _ => False)
      (fun _ _ _ => False) t₀ w₀ := by
    refine wp_seq hqueue (fun _ t w h => ?_) fun _ _ _ h => h
    obtain ⟨rfl, rfl⟩ := h
    refine wp_seq hoffline (fun _ t w h => ?_) fun _ _ _ h => h
    obtain ⟨rfl, rfl⟩ := h
    refine wp_seq hreceive (fun _ t w h => ?_) fun _ _ _ h => h
    obtain ⟨rfl, rfl⟩ := h
    subst ht₀
    show wp _ (getPathDownloadsDirUser user.nickname config >>= _) _ _ _ _
    refine wp_seq hroot (fun root t w h => ?_) fun _ _ _ h => h
    obtain ⟨rfl, rfl⟩ := h
    show wp _ (serveConnection (fuel + 1) (root ++ ['/']) >>= _) _ _
      ⟨SingleDownloader.new user path false none config, enc⟩ _
    exact wp_seq (hserve _) (fun _ _ _ h => h.elim) fun _ _ _ h => h
  refine (wp_bind _ _).mpr ((wp_tryCatch _ _).mpr ((wp_bind _ _).mpr ?_))
  exact wp_conseq hrun (fun _ _ _ h => h.elim) fun _ _ _ h => h.elim

end Fetching

section Fetched

variable [Crates] {bytes : List UInt8}

omit [Crates] in
theorem silence_total (w : Unit) (t : Thread SingleDownloader) (c : DownloaderCmd)
    (h : silence.ok w t c) : ∃ a w', silence.step w t c a w' := by
  cases c
  case revTryRecv => exact ⟨_, (), rfl⟩
  case tryRecv => exact ⟨_, (), rfl⟩
  case app => exact ⟨(), (), trivial⟩
  case queueRead => exact ⟨_, (), rfl⟩
  case downloadsBase => exact ⟨_, (), rfl⟩
  all_goals exact h.elim

/-- The world answers in silence, if it is silent. -/
theorem silence_step {ioFails : Prop} {i : Nat} (w : World)
    (v : Unit × Option (View (Option (List (UInt16 × List UInt8))))) (t : Thread SingleDownloader)
    (c : Wire ⊕ DownloaderCmd) (a : Ans DownloaderCmd.Ans c)
    (v' : Unit × Option (View (Option (List (UInt16 × List UInt8))))) (hw : w.Silent i)
    (hs : (onWire (answering (pieces bytes)) .left False silence).step v t c a v') :
    w.ThreadStep ioFails i t c a w := by
  obtain ⟨ch, hch, hinbox, hrev, hconnected, -⟩ := hw.channels
  have hself : w = w.setChannels i ch := (World.setChannels_self hch).symm
  rcases c with (⟨n, plain⟩ | ⟨n, size⟩) | c
  · rfl
  · rfl
  · have hs : silence.step v.1 t c a v'.1 := hs.1
    cases c
    case revTryRecv =>
      obtain rfl : a = TryRecv.empty := hs
      exact ⟨ch, ch, hch, ⟨hrev, hconnected, rfl⟩, hself⟩
    case tryRecv =>
      obtain rfl : a = TryRecv.empty := hs
      exact ⟨ch, ch, hch, ⟨hinbox, hconnected, rfl⟩, hself⟩
    case app => rfl
    case queueRead =>
      have ha : a = none := hs
      exact ⟨.inl (ha.trans (hw.queueFiles _).symm), rfl⟩
    case downloadsBase => rfl
    all_goals exact hs.elim

/-- Nothing is inserted in silence. -/
theorem insertsKnown_silence (s : System) (i : Nat)
    (v : Unit × Option (View (Option (List (UInt16 × List UInt8))))) (t : Thread SingleDownloader)
    (c : Wire ⊕ DownloaderCmd) (a : Ans DownloaderCmd.Ans c)
    (v' : Unit × Option (View (Option (List (UInt16 × List UInt8)))))
    (hs : (onWire (answering (pieces bytes)) .left False silence).step v t c a v') :
    InsertsKnown s (.thread i t c a) := by
  rintro nickname ⟨everythingFile, rfl⟩
  exact hs.1.elim

/-- **The downloader fetches the listing**, and nothing else happens. -/
theorem run_fetches {everythingFile : SharedFile} {enc es : EncryptedStream} {user : SharedUser} {path : Str}
    {config : Config} {fuel i : Nat} {s : System} {ioFails : Prop}
    (hp : s.world.program i = some (runThread (fuel + 2) 1
      { self := SingleDownloader.new user path false (some enc) config, encryptedStream := es }))
    (hs : s.world.Silent i) (hfuel : (pieces bytes).length ≤ fuel + 1)
    (hparse : parseListing bytes = .ok everythingFile) (hsize : bytes.length ≤ maxEverythingFileSize)
    (hnonce : enc.nonce + 2 * ((pieces bytes).length + 1) ≤ nonceMax)
    (hreverse : enc.reverseMessage = msgReverse) :
    ∃ turns s' t f k, System.Run ioFails InsertsKnown s turns s' ∧
      s'.world.program i = some (.call t (.inr (.refreshInsert user.nickname f)) k) ∧
      s'.world.Silent i ∧ s'.core = s.core ∧ s'.config = s.config := by
  obtain ⟨t, c, k, v, hreach, f, rfl⟩ := reach_until (onWire_total silence_total)
    (@fetching_inserts _ bytes everythingFile enc es user path config fuel hfuel hparse hsize hnonce hreverse)
  obtain ⟨turns, s', hrun, hprogram, hsilent, -, hcore, hconfig⟩ :=
    run_alone silence_step (fun s => insertsKnown_silence s i) hreach hp hs
  exact ⟨turns, s', t, f, k, hrun, hprogram, hsilent, hcore, hconfig⟩

end Fetched

section Removal

variable [Crates] {ioFails : Prop} {s s₀ : System}

theorem run_mono {allowed allowed' : System → Turn → Prop} (h : ∀ s turn, allowed s turn → allowed' s turn)
    {turns : List Turn} (hr : System.Run ioFails allowed s₀ turns s) :
    System.Run ioFails allowed' s₀ turns s := by
  induction hr with
  | start => exact .start
  | step turns s s' turn _ hs ha ih => exact .step turns s s' turn ih hs (h s turn ha)

/-- The holder of the lock goes on. -/
theorem run_core {turns : List Turn} {d : OutgoingDownloader} (c : CoreCmd) (a : c.Ans)
    {k : c.Ans → Prog OutgoingDownloader CoreCmd CoreCmd.Ans Exc Unit} {w : World}
    (hr : System.Run ioFails (fun _ _ => True) s₀ turns s) (hcore : s.core = .call d c k)
    (hstep : s.world.CoreStep ioFails c a w) : ∃ turns' s', System.Run ioFails (fun _ _ => True) s₀ turns' s' ∧
      s'.core = k a ∧ s'.world = w :=
  ⟨_, _, .step turns s _ _ hr (.core d c k a w hcore hstep) trivial, rfl, rfl⟩

/-- A message is sent to a downloader that receives. -/
theorem run_send {turns : List Turn} {d : OutgoingDownloader} {i : Nat} {m : MessageSingleDownloader}
    {k : Bool → Prog OutgoingDownloader CoreCmd CoreCmd.Ans Exc Unit} {ch : Channels}
    (hr : System.Run ioFails (fun _ _ => True) s₀ turns s) (hcore : s.core = .call d (.send i m) k)
    (hch : s.world.channels i = some ch) (hreceived : ch.received = true) :
    ∃ turns' s' ch', System.Run ioFails (fun _ _ => True) s₀ turns' s' ∧ s'.core = k true ∧
      s'.world.channels i = some ch' ∧ ch'.received = true ∧ s'.world.program i = s.world.program i := by
  obtain ⟨turns', s', hr', hcore', hw⟩ := run_core (.send i m) true hr hcore
    ⟨ch, hch, .inl ⟨rfl, hreceived, rfl⟩⟩
  refine ⟨turns', s', { ch with posted := ch.posted ++ [m] }, hr', hcore', ?_, hreceived, ?_⟩
  · rw [hw, World.channels_setChannels, hch]
    simp
  · rw [hw, World.program_setChannels]

omit [Crates] in
theorem removeUser_of {d : OutgoingDownloader} {nickname : Str} {thread : Nat}
    (h : d.channel nickname = some thread) : OutgoingDownloader.removeUser nickname d =
      (coreCommand (.send thread .removeUser) >>= fun (_ : Bool) => removeChannel nickname) d := by
  unfold OutgoingDownloader.removeUser
  simp only [get_bind, h]
  rfl

omit [Crates] in
theorem removeChannel_of {d : OutgoingDownloader} {nickname : Str} {thread : Nat}
    (h : d.channel nickname = some thread) : removeChannel nickname d =
      (modify (fun d : OutgoingDownloader =>
        { d with channelMap := d.channelMap.filter fun entry => entry.1 ≠ nickname }) >>= fun _ =>
          coreCommand (.dropSenders thread) : Core Unit) d := by
  unfold removeChannel
  simp only [get_bind, h]
  rfl

/-- **The user of a downloader is removed** while the downloader does nothing. -/
theorem run_removes {nickname : Str} {i : Nat} {oldConfig config : Config} {isDownloadingPaused : Bool}
    {o : Outcomes} {disk disk' : Disk} {ch : Channels}
    (hcore : s.core = .ret () ⟨oldConfig, [(nickname, i)], isDownloadingPaused⟩)
    (hch : s.world.channels i = some ch) (hreceived : ch.received = true)
    (hrun : (Operation.removeUser nickname).run s.config.pathDirConfig s.config o disk =
      (.ok (), config, disk')) :
    ∃ turns s', System.Run ioFails (fun _ _ => True) s turns s' ∧
      s'.core = .ret () ⟨config, [], isDownloadingPaused⟩ ∧ s'.world.program i = s.world.program i := by
  have hidle : s.core.issued = none := by
    rw [hcore]
    rfl
  have hdownloads : s.downloads = ⟨oldConfig, [(nickname, i)], isDownloadingPaused⟩ := congrArg Prog.state hcore
  generalize hd : (⟨config, [(nickname, i)], isDownloadingPaused⟩ : OutgoingDownloader) = d
  have hlookup : d.channel nickname = some i := by
    rw [← hd]
    simp [OutgoingDownloader.channel]
  have h : System.Run ioFails (fun _ _ => True) s _ _ :=
    .step [] s _ _ .start (.operation _ o disk disk' config hidle hrun) trivial
  rw [hdownloads] at h
  -- the new config, and the cache pruned to it
  obtain ⟨turns, s₁, ch₁, h, hcore₁, hch₁, hreceived₁, hp₁⟩ := run_send h rfl hch hreceived
  have hcore₁ : s₁.core = (coreCommand (.setRefreshData (nicknamesOf config)) >>= fun _ =>
      OutgoingDownloader.removeUser nickname) d := by
    rw [hcore₁, ← hd]
    rfl
  obtain ⟨turns, s₂, h, hcore₂, hw₂⟩ := run_core (.setRefreshData _) () h hcore₁ rfl
  -- the removal
  have hcore₂ : s₂.core = OutgoingDownloader.removeUser nickname d := hcore₂
  rw [removeUser_of hlookup] at hcore₂
  have hch₂ : s₂.world.channels i = some ch₁ := by
    rw [hw₂]
    exact hch₁
  obtain ⟨turns, s₃, ch₃, h, hcore₃, hch₃, hreceived₃, hp₃⟩ := run_send h hcore₂ hch₂ hreceived₁
  have hcore₃ : s₃.core = removeChannel nickname d := hcore₃
  rw [removeChannel_of hlookup] at hcore₃
  obtain ⟨turns, s₄, h, hcore₄, hw₄⟩ := run_core (.dropSenders i) () h hcore₃ ⟨ch₃, hch₃, rfl⟩
  refine ⟨turns, s₄, h, ?_, ?_⟩
  · rw [hcore₄, ← hd]
    show Prog.ret () (⟨config, [(nickname, i)].filter fun entry => entry.1 ≠ nickname, _⟩ : OutgoingDownloader)
      = _
    simp
  · rw [hw₄, World.program_setChannels, hp₃, hw₂]
    exact hp₁

end Removal

/-! ## 5. Bob is removed while his listing is fetched -/

/-- The other packages, with the listing of one file. -/
@[reducible] def fetchCrates : Crates :=
  { usersCrates [[], [sampleBob]] with
    listingToJson := oneFileCrates.listingToJson
    listingFromJson := oneFileCrates.listingFromJson }

/-- A connection from Bob. -/
def bobReverse : EncryptedStream :=
  { EncryptedStream.new sampleBob sampleKey with reverseMessage := msgReverse }

/-- His downloader was started for it. -/
def bobConnected : System :=
  { config := usersMemory [sampleBob]
    core := .ret ()
      { config := usersMemory [sampleBob]
        channelMap := [(sampleBob.nickname, 0)]
        isDownloadingPaused := false }
    world :=
      { threads := [{
          nickname := sampleBob.nickname
          channels := .new
          program := some (@runThread fetchCrates 2 1
            { self := SingleDownloader.new sampleBob
                (queueFilePath (usersMemory [sampleBob]) sampleBob.nickname) false (some bobReverse)
                (usersMemory [sampleBob])
              encryptedStream := EncryptedStream.new sampleBob [] }) }]
        queueFiles := fun _ => none
        refreshData := setRefreshData [sampleBob.nickname] fun _ => none
        fetches := [] } }

theorem bobReverse_matches : userMatches (usersMemory [sampleBob]) bobReverse = true := by
  decide +kernel

theorem bob_connects : ∃ turns, @System.Run fetchCrates False InsertsKnown (quietSystem [sampleBob]) turns
    bobConnected := by
  have hstart : (DownloadOperation.reverseConnection bobReverse).run
      (OutgoingDownloader.new (usersMemory [sampleBob])) =
      startThread sampleBob (queueFilePath (usersMemory [sampleBob]) sampleBob.nickname) (some bobReverse)
        (OutgoingDownloader.new (usersMemory [sampleBob])) := by
    show (if userMatches (usersMemory [sampleBob]) bobReverse = true then
      startThread sampleBob (queueFilePath (usersMemory [sampleBob]) sampleBob.nickname) (some bobReverse)
      else pure ()) _ = _
    rw [if_pos bobReverse_matches]
  have hrun := @System.Run.start fetchCrates False InsertsKnown (quietSystem [sampleBob])
  have hrun := @System.Run.step fetchCrates _ _ _ _ _ _ _ hrun
    (@System.Step.core fetchCrates _ _ _ (.queueExists _) _ false _ rfl ⟨rfl, rfl⟩) trivial
  have hrun := @System.Run.step fetchCrates _ _ _ _ _ _ _ hrun
    (@System.Step.downloadOperation fetchCrates _ _ (.reverseConnection bobReverse) rfl) trivial
  have hrun := @System.Run.step fetchCrates _ _ _ _ _ _ _ hrun
    (@System.Step.core fetchCrates _ _ _ (.newChannels _) _ (0 : Nat) _ hstart ⟨rfl, rfl⟩) trivial
  have hrun := @System.Run.step fetchCrates _ _ _ _ _ _ _ hrun
    (@System.Step.core fetchCrates _ _ _ (.spawn _ _ _ _ _ _) _ () _ rfl
      ⟨2, 1, EncryptedStream.new sampleBob [], rfl⟩) trivial
  exact ⟨_, hrun⟩

theorem oneFile_pieces : (pieces (utf8 oneFileJson)).length = 1 := by
  rw [pieces_of_le (by decide +kernel)]
  rfl

/-- His downloader has fetched the listing. -/
theorem bob_fetches : ∃ turns s t f k,
    @System.Run fetchCrates False InsertsKnown (quietSystem [sampleBob]) turns s ∧
      s.world.program 0 = some (.call t (.inr (.refreshInsert sampleBob.nickname f)) k) ∧
      s.world.Silent 0 ∧ s.core = bobConnected.core ∧ s.config = bobConnected.config := by
  obtain ⟨turns, hrun⟩ := bob_connects
  have hsilent : bobConnected.world.Silent 0 :=
    ⟨⟨_, rfl, rfl, rfl, rfl, rfl⟩, fun _ => rfl⟩
  have hparse := @parseListing_utf8 fetchCrates _ oneFileJson (if_pos rfl)
  obtain ⟨turns', s, t, f, k, hrun', hfetched⟩ := @run_fetches fetchCrates (utf8 oneFileJson) _ _ _ _ _ _ 0 0
    bobConnected False rfl hsilent (by rw [oneFile_pieces]) hparse (by decide +kernel)
    (by rw [oneFile_pieces]; decide) rfl
  exact ⟨_, s, t, f, k, @run_trans fetchCrates _ _ _ _ _ _ _ hrun hrun', hfetched⟩

theorem bob_system_started : @System.Start fetchCrates (quietSystem [sampleBob]) :=
  @quietSystem_start fetchCrates _ (by decide +kernel) (by decide +kernel)

/-- The listing of a user of the config, once it is inserted. -/
theorem refresh_keys_exact_bob : ∃ s : System, s.core.issued = none ∧
    (s.world.HasEntry sampleBob.nickname ↔
      ∃ user ∈ s.downloads.config.configFile.sharedUsers, user.nickname = sampleBob.nickname) := by
  obtain ⟨turns, s, t, f, k, hrun, hprogram, -, hcore, -⟩ := bob_fetches
  obtain ⟨th, hth, hp⟩ := World.threads_of_program hprogram
  have hidle : s.core.issued = none := by
    rw [hcore]
    rfl
  have hdownloads : s.downloads = bobConnected.downloads := congrArg Prog.state hcore
  have hinserted := @System.Run.step fetchCrates _ _ _ _ _ _ _ hrun
    (@System.Step.thread fetchCrates _ _ 0 th t _ k () _ hth hp rfl) (by
      rintro nickname ⟨f, hf⟩
      cases hf
      rw [hdownloads]
      exact .inl List.mem_cons_self)
  refine ⟨_, ?_, @refresh_keys_exact fetchCrates _ _ _ _ bob_system_started hinserted hidle _⟩
  exact hidle

/-- The removal of Bob succeeds. -/
theorem bob_removal : ∃ config disk', @Operation.run fetchCrates (usersMemory [sampleBob]).pathDirConfig
    (usersMemory [sampleBob]) sampleOutcomes (usersDisk [sampleBob]) (.removeUser sampleBob.nickname) =
      (.ok (), config, disk') ∧ config.configFile.sharedUsers = [] := by
  have hcheck : (fun r : Except Exc Unit × Config × Disk => r.1.isOk && r.2.1.configFile.sharedUsers.isEmpty)
      (@Operation.run fetchCrates (usersMemory [sampleBob]).pathDirConfig (usersMemory [sampleBob])
        sampleOutcomes (usersDisk [sampleBob]) (.removeUser sampleBob.nickname)) = true := by decide +kernel
  generalize @Operation.run fetchCrates (usersMemory [sampleBob]).pathDirConfig (usersMemory [sampleBob])
    sampleOutcomes (usersDisk [sampleBob]) (.removeUser sampleBob.nickname) = r at hcheck
  obtain ⟨result, config, disk'⟩ := r
  cases result with
  | error e => cases hcheck
  | ok u => exact ⟨config, disk', rfl, List.isEmpty_iff.mp hcheck⟩

/-- **A removed user comes back**: a run at whose end nobody has the lock and the cache holds the listing of a
    user who is in the config no more. -/
theorem removed_user_reappears : ∃ (crates : Crates) (s₀ s : System) (turns : List Turn) (nickname : Str),
    @System.Start crates s₀ ∧ @System.Run crates False (fun _ _ => True) s₀ turns s ∧
      s.core.issued = none ∧ s.world.HasEntry nickname ∧
      ¬ ∃ user ∈ s.downloads.config.configFile.sharedUsers, user.nickname = nickname := by
  obtain ⟨turns, s, t, f, k, hrun, hprogram, ⟨⟨ch, hch, -, -, -, hreceived⟩, -⟩, hcore, hconfig⟩ := bob_fetches
  obtain ⟨config, disk', hremoval, husers⟩ := bob_removal
  rw [show usersMemory [sampleBob] = s.config from hconfig.symm] at hremoval
  obtain ⟨turns', s', hrun', hcore', hp⟩ :=
    @run_removes fetchCrates False s _ _ _ _ _ _ _ _ _ hcore hch hreceived hremoval
  rw [hprogram] at hp
  obtain ⟨th, hth, hp⟩ := World.threads_of_program hp
  have hstep := @System.Step.thread fetchCrates False s' 0 th t _ k () _ hth hp rfl
  have hunknown : sampleBob.nickname ∉ nicknamesOf s'.downloads.config := by
    rw [show s'.downloads = _ from congrArg Prog.state hcore']
    show _ ∉ config.configFile.sharedUsers.map SharedUser.nickname
    rw [husers]
    exact List.not_mem_nil
  obtain ⟨hentry, hgone⟩ := @insert_breaks fetchCrates _ _ _ _ _ _ _ _ hstep ⟨f, rfl⟩ hunknown
  have hrun₀ := @run_mono fetchCrates _ _ _ InsertsKnown (fun _ _ => True) (fun _ _ _ => trivial) _ hrun
  have hall := @run_trans fetchCrates _ _ _ _ _ _ _ hrun₀ hrun'
  refine ⟨fetchCrates, _, _, _, sampleBob.nickname, bob_system_started,
    @System.Run.step fetchCrates _ _ _ _ _ _ _ hall hstep trivial, ?_, hentry, hgone⟩
  show s'.core.issued = none
  rw [hcore']
  rfl

end Transmitic
