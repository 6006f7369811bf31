/-
  File:      Transmitic/RefreshOrder.lean
  Subject:   AN OUTDATED REFRESH IS NEVER STORED (outgoing_downloader.rs, `refresh_data`).

  An entry of the cache has one receiver. A new refresh replaces it, a downloader that stores a listing
  clears it, `set_refresh_data` drops it with the entry, and a poll that finds a result clears it. So a
  result that comes late finds no receiver.

  * `World.slot` -- the refresh an entry waits for, `World.Stores` -- the poll that takes its result;
  * `slot_threadStep`, `slot_coreStep` -- what a command does to the receivers;
  * `Latest` -- the last refresh of a user, with nothing since then that outdates it;
  * `Ordered` -- **what an entry waits for is the latest refresh**, or the entry is about to be dropped;
  * `refresh_stored_latest` -- what a poll stores.
-/
import Transmitic.RefreshKeys
import Transmitic.DownloaderConfig

namespace Transmitic

open Lib

/-! ## 1. Receivers -/

/-- The refresh whose result the entry of a user waits for. -/
def World.slot (w : World) (nickname : Str) : Option Nat :=
  (w.refreshData nickname).bind InternalRefreshData.recv

/-- A poll stores the result `r` of refresh `i` in the entry of the user. -/
def World.Stores (w : World) (nickname : Str) (i : Nat) (r : Except Str SharedFile) : Prop :=
  w.slot nickname = some i ∧ ∃ fetch, w.fetches[i]? = some fetch ∧ fetch.sent = some r

/-- The refresh a command of the core starts. -/
def CoreCmd.startsFor : CoreCmd → Option Str
  | .startRefresh nickname _ => some nickname
  | _ => none

/-- Whose refresh the turn starts. -/
def Turn.startsFor : Turn → Option Str
  | .core _ c _ => c.startsFor
  | _ => none

/-- Whose refreshes have been started, in this order. -/
def startedBy (turns : List Turn) : List Str := turns.filterMap Turn.startsFor

/-- After the turn a refresh of the user that was started before it is out of date: a newer one is started,
    a downloader stores a listing, or the user is removed. -/
def Turn.outdates (nickname : Str) : Turn → Prop
  | .core _ (.startRefresh started _) _ => started = nickname
  | .core _ (.setRefreshData nicknames) _ => nickname ∉ nicknames
  | .operation (.removeUser removed) _ => removed = nickname
  | .thread _ _ (.inr (.refreshInsert stored _)) _ => stored = nickname
  | _ => False

/-- Refresh `i` is the latest one of the user, and nothing has outdated it. -/
def Latest (turns : List Turn) (nickname : Str) (i : Nat) : Prop :=
  ∃ before turn since, turns = before ++ turn :: since ∧ turn.startsFor = some nickname ∧
    (startedBy before).length = i ∧ ∀ later ∈ since, ¬ later.outdates nickname

section Latest

variable {turns : List Turn} {turn : Turn} {nickname : Str} {i : Nat}

theorem Latest.snoc (h : Latest turns nickname i) (hturn : ¬ turn.outdates nickname) :
    Latest (turns ++ [turn]) nickname i := by
  obtain ⟨before, start, since, rfl, hstart, hcount, hsince⟩ := h
  refine ⟨before, start, since ++ [turn], by simp, hstart, hcount, fun later hlater => ?_⟩
  rcases List.mem_append.mp hlater with hmem | hmem
  · exact hsince later hmem
  · rw [List.mem_singleton.mp hmem]
    exact hturn

theorem latest_started (h : turn.startsFor = some nickname) (hcount : (startedBy turns).length = i) :
    Latest (turns ++ [turn]) nickname i :=
  ⟨turns, turn, [], rfl, h, hcount, fun _ hmem => absurd hmem List.not_mem_nil⟩

/-- Refresh `i` was started for this user. -/
theorem Latest.started (h : Latest turns nickname i) : (startedBy turns)[i]? = some nickname := by
  obtain ⟨before, start, since, rfl, hstart, rfl, -⟩ := h
  simp [startedBy, hstart]

end Latest

section Polls

variable {w w' : World} {nickname : Str} {i : Nat} {ioFails : Prop}

/-- The entry a result is stored in. -/
def InternalRefreshData.take (entry : InternalRefreshData) (fetch : Fetch) :
    Except Str SharedFile → InternalRefreshData
  | .ok everythingFile =>
    { data := some ⟨everythingFile, (fetch.sharedUser.map SharedUser.publicId).getD []⟩, recv := none }
  | .error _ => { entry with recv := none }

theorem pollRefresh_sent {fetches : List Fetch} {entry : InternalRefreshData} {fetch : Fetch}
    {r : Except Str SharedFile} (hrecv : entry.recv = some i) (hfetch : fetches[i]? = some fetch)
    (hsent : fetch.sent = some r) : pollRefresh fetches entry = entry.take fetch r := by
  unfold pollRefresh
  simp only [hrecv, Option.bind_some, hfetch, hsent]
  cases r <;> rfl

theorem pollRefresh_waiting {fetches : List Fetch} {entry : InternalRefreshData}
    (h : ∀ i fetch, entry.recv = some i → fetches[i]? = some fetch → fetch.sent = none) :
    pollRefresh fetches entry = entry := by
  unfold pollRefresh
  cases hfetch : entry.recv.bind fun i => fetches[i]? with
  | none => rfl
  | some fetch =>
    obtain ⟨i, hrecv, hi⟩ := Option.bind_eq_some_iff.mp hfetch
    simp [h i fetch hrecv hi]

/-- What is still waited for after a poll has not come. -/
theorem pollRefresh_keeps {fetches : List Fetch} {entry : InternalRefreshData}
    (h : (pollRefresh fetches entry).recv = some i) :
    entry.recv = some i ∧ ∀ fetch, fetches[i]? = some fetch → fetch.sent = none := by
  by_cases hwaiting : ∀ i fetch, entry.recv = some i → fetches[i]? = some fetch → fetch.sent = none
  · rw [pollRefresh_waiting hwaiting] at h
    exact ⟨h, fun fetch hfetch => hwaiting i fetch h hfetch⟩
  · push Not at hwaiting
    obtain ⟨j, fetch, hrecv, hfetch, hsent⟩ := hwaiting
    obtain ⟨r, hr⟩ := Option.ne_none_iff_exists'.mp hsent
    rw [pollRefresh_sent hrecv hfetch hr] at h
    cases r <;> cases h

/-- **A poll changes the entries it stores a result in**, and no others. -/
theorem poll_changes_iff [Crates] (h : w.CoreStep ioFails .pollRefresh () w') :
    w'.refreshData nickname ≠ w.refreshData nickname ↔ ∃ i r, w.Stores nickname i r := by
  rw [show w' = _ from h]
  show (w.refreshData nickname).map (pollRefresh w.fetches) ≠ _ ↔ _
  cases hentry : w.refreshData nickname with
  | none => simp [World.Stores, World.slot, hentry]
  | some entry =>
    constructor
    · intro hchanged
      by_contra hno
      refine hchanged (congrArg some (pollRefresh_waiting fun i fetch hrecv hfetch => ?_))
      cases hsent : fetch.sent with
      | none => rfl
      | some r =>
        exact absurd ⟨i, r, by simp [World.slot, hentry, hrecv], fetch, hfetch, hsent⟩ hno
    · intro hstores heq
      obtain ⟨i, r, hslot, fetch, hfetch, hsent⟩ := hstores
      have hrecv : entry.recv = some i := by simpa [World.slot, hentry] using hslot
      have hsame : pollRefresh w.fetches entry = entry := Option.some.inj heq
      rw [pollRefresh_sent hrecv hfetch hsent] at hsame
      have hcleared : (entry.take fetch r).recv = none := by cases r <;> rfl
      rw [hsame, hrecv] at hcleared
      cases hcleared

end Polls

/-! ## 2. What a command does to the receivers -/

section Steps

variable {w w' : World} {nickname : Str} {i : Nat} {ioFails : Prop}

theorem slot_of_eq (h : w'.refreshData = w.refreshData) (hslot : w'.slot nickname = some i) :
    w.slot nickname = some i := by
  unfold World.slot at hslot ⊢
  rwa [h] at hslot

/-- A command of a downloader that stores no listing leaves the cache alone. -/
theorem cache_threadStep {j : Nat} {t : Thread SingleDownloader} {c : Wire ⊕ DownloaderCmd}
    {a : Ans DownloaderCmd.Ans c} (h : w.ThreadStep ioFails j t c a w')
    (hc : ∀ nickname, ¬ insertsFor nickname c) :
    w'.fetches = w.fetches ∧ w'.refreshData = w.refreshData := by
  unfold World.ThreadStep at h
  split at h
  · obtain ⟨ch, ch', -, -, rfl⟩ := h
    exact ⟨rfl, rfl⟩
  · obtain ⟨ch, ch', -, -, rfl⟩ := h
    exact ⟨rfl, rfl⟩
  · rw [h.2]
    exact ⟨rfl, rfl⟩
  · rw [h.2]
    exact ⟨rfl, rfl⟩
  · rw [h.2]
    exact ⟨rfl, rfl⟩
  · rw [h.2]
    exact ⟨rfl, rfl⟩
  · rw [h]
    exact ⟨rfl, rfl⟩
  · obtain ⟨-, file, rfl⟩ := h
    exact ⟨rfl, rfl⟩
  · rw [h.2]
    exact ⟨rfl, rfl⟩
  · exact absurd ⟨_, rfl⟩ (hc _)
  · rw [h.2.2]
    exact ⟨rfl, rfl⟩
  · rw [h]
    exact ⟨rfl, rfl⟩

/-- **A downloader** starts no refresh, and clears the receiver of the user whose listing it stores. -/
theorem slot_threadStep {j : Nat} {t : Thread SingleDownloader} {c : Wire ⊕ DownloaderCmd}
    {a : Ans DownloaderCmd.Ans c} (h : w.ThreadStep ioFails j t c a w') :
    w'.fetches = w.fetches ∧ ∀ nickname i, w'.slot nickname = some i →
      w.slot nickname = some i ∧ ¬ insertsFor nickname c := by
  by_cases hc : ∃ stored, insertsFor stored c
  · obtain ⟨stored, everythingFile, rfl⟩ := hc
    obtain rfl : w' = _ := h
    constructor
    · rfl
    · intro nickname i hslot
      have hslot : (Function.update w.refreshData stored (some
          { data := some ⟨everythingFile, t.encryptedStream.sharedUser.publicId⟩, recv := none })
            nickname).bind InternalRefreshData.recv = some i := hslot
      by_cases hn : nickname = stored
      · subst hn
        rw [Function.update_self] at hslot
        cases hslot
      · rw [Function.update_of_ne hn] at hslot
        refine ⟨hslot, fun hinserts => ?_⟩
        obtain ⟨f, hf⟩ := hinserts
        cases hf
        exact hn rfl
  · have hnone : ∀ nickname, ¬ insertsFor nickname c := fun nickname hn => hc ⟨nickname, hn⟩
    obtain ⟨hfetches, hdata⟩ := cache_threadStep h hnone
    exact ⟨hfetches, fun nickname i hslot => ⟨slot_of_eq hdata hslot, hnone nickname⟩⟩

/-- What a command of the core leaves in the receiver of a user. -/
def CoreCmd.leaves (w : World) (nickname : Str) (i : Nat) : CoreCmd → Prop
  | .startRefresh started _ => started ≠ nickname
  | .setRefreshData nicknames => nickname ∈ nicknames
  | .pollRefresh => ∀ fetch, w.fetches[i]? = some fetch → fetch.sent = none
  | _ => True

variable [Crates]

/-- A command of the core that is not about the cache. -/
theorem cache_coreStep {c : CoreCmd} {a : c.Ans} (h : w.CoreStep ioFails c a w') (hc : c.besideCache)
    (hpoll : c ≠ .pollRefresh) : w'.fetches = w.fetches ∧ w'.refreshData = w.refreshData := by
  cases c with
  | send i m =>
    obtain ⟨ch, -, ⟨-, -, rfl⟩ | ⟨-, -, rfl⟩⟩ := h <;> exact ⟨rfl, rfl⟩
  | sendReverse i enc =>
    obtain ⟨ch, -, ⟨-, rfl⟩ | ⟨-, rfl⟩⟩ := h <;> exact ⟨rfl, rfl⟩
  | dropSenders i =>
    obtain ⟨ch, -, rfl⟩ := h
    exact ⟨rfl, rfl⟩
  | queueExists path =>
    rw [h.2]
    exact ⟨rfl, rfl⟩
  | queueAppend path bytes =>
    cases a with
    | ok u =>
      rw [show w' = _ from h]
      exact ⟨rfl, rfl⟩
    | error e =>
      obtain ⟨-, file, rfl⟩ := h
      exact ⟨rfl, rfl⟩
  | newChannels nickname =>
    rw [h.2]
    exact ⟨rfl, rfl⟩
  | spawn i user path isPaused reverse config =>
    obtain ⟨fuel, n, encryptedStream, rfl⟩ := h
    exact ⟨rfl, rfl⟩
  | setRefreshData nicknames => exact hc.elim
  | startRefresh nickname config => exact hc.elim
  | pollRefresh => exact absurd rfl hpoll

/-- **The core**: a receiver is that of the refresh it starts, or was there before. -/
theorem slot_coreStep {c : CoreCmd} {a : c.Ans} (h : w.CoreStep ioFails c a w')
    (hslot : w'.slot nickname = some i) :
    c.startsFor = some nickname ∧ i = w.fetches.length ∨
      w.slot nickname = some i ∧ c.leaves w nickname i := by
  cases c with
  | setRefreshData nicknames =>
    rw [show w' = _ from h] at hslot
    have hslot : (setRefreshData nicknames w.refreshData nickname).bind InternalRefreshData.recv = some i :=
      hslot
    unfold setRefreshData at hslot
    split at hslot
    · rename_i hmem
      refine .inr ⟨?_, hmem⟩
      unfold World.slot
      cases hentry : w.refreshData nickname with
      | none =>
        rw [hentry] at hslot
        cases hslot
      | some entry =>
        rw [hentry] at hslot
        exact hslot
    · cases hslot
  | startRefresh started config =>
    rw [show w' = _ from h] at hslot
    have hslot : (Function.update w.refreshData started ((w.refreshData started).map
        fun entry => { entry with recv := some w.fetches.length }) nickname).bind InternalRefreshData.recv =
        some i := hslot
    by_cases hn : nickname = started
    · subst hn
      rw [Function.update_self] at hslot
      cases hentry : w.refreshData nickname with
      | none =>
        rw [hentry] at hslot
        cases hslot
      | some entry =>
        rw [hentry] at hslot
        cases hslot
        exact .inl ⟨rfl, rfl⟩
    · rw [Function.update_of_ne hn] at hslot
      exact .inr ⟨hslot, fun he => hn he.symm⟩
  | pollRefresh =>
    rw [show w' = _ from h] at hslot
    have hslot : ((w.refreshData nickname).map (pollRefresh w.fetches)).bind InternalRefreshData.recv =
        some i := hslot
    cases hentry : w.refreshData nickname with
    | none =>
      rw [hentry] at hslot
      cases hslot
    | some entry =>
      rw [hentry] at hslot
      have hslot : (pollRefresh w.fetches entry).recv = some i := hslot
      obtain ⟨hrecv, hsent⟩ := pollRefresh_keeps hslot
      refine .inr ⟨?_, hsent⟩
      unfold World.slot
      rw [hentry]
      exact hrecv
  | _ => exact .inr ⟨slot_of_eq (cache_coreStep h trivial nofun).2 hslot, trivial⟩

/-- The core starts one thread for each refresh. -/
theorem fetches_coreStep {c : CoreCmd} {a : c.Ans} (h : w.CoreStep ioFails c a w') :
    w'.fetches.length = w.fetches.length + c.startsFor.toList.length := by
  cases c with
  | setRefreshData nicknames =>
    rw [show w' = _ from h]
    rfl
  | startRefresh started config =>
    rw [show w' = _ from h]
    exact List.length_append
  | pollRefresh =>
    rw [show w' = _ from h]
    rfl
  | _ =>
    rw [(cache_coreStep h trivial nofun).1]
    rfl

end Steps

/-! ## 3. A user who is removed -/

/-- Whatever the answers, the program takes the entry of the user away before it polls or ends. -/
def DropPending (nickname : Str) : Prog OutgoingDownloader CoreCmd CoreCmd.Ans Exc Unit → Prop
  | .ret _ _ => False
  | .fail _ _ => False
  | .call _ c k => (∃ nicknames, c = .setRefreshData nicknames ∧ nickname ∉ nicknames) ∨
      c ≠ .pollRefresh ∧ ∀ a, DropPending nickname (k a)

/-- A method that does not fail and polls nothing. -/
abbrev Unpolling {α : Type} (m : Core α) : Prop :=
  EndsIn (anyAnswers fun c => c ≠ .pollRefresh) (fun _ _ => True) (fun _ => False) m

section Removal

variable {nickname : Str} {d : OutgoingDownloader}

theorem unpolling_command {c : CoreCmd} (hc : c ≠ .pollRefresh) : Unpolling (coreCommand c) :=
  endsIn_issue (fun _ _ _ => hc) fun _ _ _ _ _ _ => trivial

theorem unpolling_sendMessageToAllDownloads (m : MessageSingleDownloader) :
    Unpolling (sendMessageToAllDownloads m) :=
  endsIn_sendMessageToAllDownloads (fun _ _ _ _ => trivial) (fun _ => unpolling_command nofun)
    fun _ => unpolling_command nofun

theorem dropPending_bind {α : Type} {m : Core α} {f : α → Core Unit} (hm : Unpolling m)
    (hf : ∀ a d, DropPending nickname (f a d)) (d : OutgoingDownloader) :
    DropPending nickname ((m >>= f) d) := by
  have hends := hm d () trivial
  unfold wp at hends
  show DropPending nickname ((m d).bind fun a d => f a d)
  generalize m d = p at hends ⊢
  induction p with
  | ret a d => exact hf a d
  | fail x d => exact hends.elim
  | call d c k ih => exact .inr ⟨hends.1, fun a => ih a (hends.2 a () trivial)⟩

theorem dropPending_then {m : Core Unit} {f : Unit → Core Unit} (h : DropPending nickname (m d)) :
    DropPending nickname ((m >>= f) d) := by
  show DropPending nickname ((m d).bind fun a d => f a d)
  generalize m d = p at h ⊢
  induction p with
  | ret a d => exact h.elim
  | fail x d => exact h.elim
  | call d c k ih => exact h.imp_right fun h => ⟨h.1, fun a => ih a (h.2 a)⟩

/-- **A removal** takes the entry away, as the new config has no user of that name. -/
theorem dropPending_removeUser {config : Config} (h : nickname ∉ nicknamesOf config) :
    DropPending nickname ((Operation.removeUser nickname).follow config d) := by
  have hnew : ∀ d, DropPending nickname ((sendMessageToAllDownloads (.newConfig config) >>= fun _ =>
      coreCommand (.setRefreshData (nicknamesOf config))) d) :=
    dropPending_bind (unpolling_sendMessageToAllDownloads _) fun _ _ => .inl ⟨_, rfl, h⟩
  have hconfig : DropPending nickname (OutgoingDownloader.setNewConfig config d) := hnew { d with config }
  exact dropPending_then hconfig

theorem DropPending.issues {p : Prog OutgoingDownloader CoreCmd CoreCmd.Ans Exc Unit}
    (h : DropPending nickname p) : p.issued ≠ none := by
  cases p with
  | ret a d => exact h.elim
  | fail x d => exact h.elim
  | call d c k => exact nofun

variable [Crates] {configDir : Str} {m m' : Config} {o : Outcomes} {disk disk' : Disk}

/-- **A user who is removed** is in the config no more. Its nicknames have no white space around them, so
    the one that goes does not come back when the config is sanitized. -/
theorem removed_not_mem (hv : Verified configDir m)
    (h : (Operation.removeUser nickname).run configDir m o disk = (.ok (), m', disk')) :
    nickname ∉ nicknamesOf m' := by
  obtain ⟨-, ⟨-, hne⟩ | hw⟩ := writes_of_writeAndSetConfig h
  · exact absurd rfl hne
  · intro hmem
    obtain ⟨user, huser, hnick⟩ := List.mem_map.mp hmem
    rw [(verifyConfig_eq_ok.mp hw).1] at huser
    obtain ⟨raw, hraw, rfl⟩ := List.mem_map.mp huser
    have hraw := List.mem_filter.mp ((List.mem_insertionSort _).mp hraw)
    have hne : raw.nickname ≠ nickname := of_decide_eq_true hraw.2
    have htrim : trim raw.nickname = nickname := hnick
    exact hne ((hv.nickname_trimmed hraw.1).symm.trans htrim)

end Removal

/-! ## 4. Every run -/

/-- What every entry waits for is the latest refresh of its user, or the entry is about to go. -/
structure Ordered (turns : List Turn) (s : System) [Crates] : Prop where
  verified : Verified s.config.pathDirConfig s.config
  fetches : s.world.fetches.length = (startedBy turns).length
  slots : ∀ nickname i, s.world.slot nickname = some i →
    Latest turns nickname i ∨ DropPending nickname s.core

section Runs

variable [Crates] {ioFails : Prop} {s s₀ s' : System} {turns : List Turn}

theorem ordered_start (h : s.Start) : Ordered [] s := by
  obtain ⟨configDir, isFirstStart, password, o, disk, disk', hnew, -, -, hfetches, hrefresh⟩ := h
  have hverified := (new_kept hnew).1
  rw [← directory_of_new hnew] at hverified
  refine ⟨hverified, ?_, fun nickname i hslot => ?_⟩
  · rw [hfetches]
    rfl
  · unfold World.slot at hslot
    rw [hrefresh] at hslot
    unfold setRefreshData at hslot
    split at hslot
    · cases hslot
    · cases hslot

omit [Crates] in
theorem startedBy_snoc (turn : Turn) :
    (startedBy (turns ++ [turn])).length = (startedBy turns).length + turn.startsFor.toList.length := by
  unfold startedBy
  rw [List.filterMap_append, List.length_append]
  cases h : turn.startsFor <;> simp [h]

omit [Crates] in
theorem outdates_thread {j : Nat} {t : Thread SingleDownloader} {c : Wire ⊕ DownloaderCmd}
    {a : Ans DownloaderCmd.Ans c} {nickname : Str} (h : (Turn.thread j t c a).outdates nickname) :
    insertsFor nickname c := by
  cases c with
  | inl wire => exact h.elim
  | inr cmd =>
    cases cmd with
    | refreshInsert stored everythingFile =>
      obtain rfl : stored = nickname := h
      exact ⟨everythingFile, rfl⟩
    | _ => exact h.elim

omit [Crates] in
theorem outdates_core {d : OutgoingDownloader} {c : CoreCmd} {a : c.Ans} {nickname : Str} {i : Nat} {w : World}
    (h : c.leaves w nickname i) : ¬ (Turn.core d c a).outdates nickname := by
  cases c with
  | startRefresh => exact h
  | setRefreshData => exact fun hout => hout h
  | _ => exact fun hout => hout

/-- A turn that takes nobody's entry away and starts no refresh. -/
theorem Ordered.keep {turn : Turn} (h : Ordered turns s) (hstarts : turn.startsFor = none)
    (hverified : Verified s'.config.pathDirConfig s'.config)
    (hfetches : s'.world.fetches.length = s.world.fetches.length)
    (hslots : ∀ nickname i, s'.world.slot nickname = some i → s.world.slot nickname = some i ∧
      (turn.outdates nickname → DropPending nickname s'.core) ∧
        (DropPending nickname s.core → DropPending nickname s'.core)) : Ordered (turns ++ [turn]) s' := by
  refine ⟨hverified, ?_, fun nickname i hslot => ?_⟩
  · rw [startedBy_snoc, hstarts, hfetches]
    exact h.fetches
  · obtain ⟨hold, hout, hpending⟩ := hslots nickname i hslot
    by_cases hturn : turn.outdates nickname
    · exact .inr (hout hturn)
    · exact (h.slots nickname i hold).imp (fun hlatest => hlatest.snoc hturn) hpending

/-- **One turn.** -/
theorem Ordered.step {turn : Turn} (h : Ordered turns s) (hs : s.Step ioFails turn s') :
    Ordered (turns ++ [turn]) s' := by
  cases hs with
  | core d c k a w hcore hstep =>
    refine ⟨h.verified, ?_, fun nickname i hslot => ?_⟩
    · rw [startedBy_snoc, ← h.fetches]
      exact fetches_coreStep hstep
    · rcases slot_coreStep hstep hslot with ⟨hstarts, rfl⟩ | ⟨hold, hleaves⟩
      · exact .inl (latest_started hstarts h.fetches.symm)
      · rcases h.slots nickname i hold with hlatest | hpending
        · exact .inl (hlatest.snoc (outdates_core hleaves))
        · rw [hcore] at hpending
          rcases hpending with ⟨nicknames, rfl, hmem⟩ | ⟨-, hpending⟩
          · exact absurd hleaves hmem
          · exact .inr (hpending a)
  | operation op o disk disk' config hidle hrun =>
    have hdir : config.pathDirConfig = s.config.pathDirConfig := (operation_spares hrun).directory
    have hverified : Verified config.pathDirConfig config := by
      rw [hdir]
      exact h.verified.effect (operation_effect hrun)
    refine h.keep rfl hverified rfl fun nickname i hslot => ⟨hslot, fun hout => ?_, fun hpending => ?_⟩
    · cases op with
      | removeUser removed =>
        obtain rfl : removed = nickname := hout
        exact dropPending_removeUser (removed_not_mem h.verified hrun)
      | _ => exact hout.elim
    · exact absurd hidle hpending.issues
  | operationFails op o disk disk' config e hrun =>
    have hdir : config.pathDirConfig = s.config.pathDirConfig := (operation_spares hrun).directory
    have hverified : Verified config.pathDirConfig config := by
      rw [hdir]
      exact h.verified.effect (operation_effect hrun)
    exact h.keep rfl hverified rfl fun nickname i hslot =>
      ⟨hslot, fun hout => hout.elim, fun hpending => hpending⟩
  | downloadOperation op hidle =>
    exact h.keep rfl h.verified rfl fun nickname i hslot =>
      ⟨hslot, fun hout => hout.elim, fun hpending => absurd hidle hpending.issues⟩
  | thread i th t c k a w hi hp hstep =>
    obtain ⟨hfetches, hslots⟩ := slot_threadStep hstep
    refine h.keep rfl h.verified (congrArg List.length hfetches) fun nickname j hslot => ?_
    obtain ⟨hold, hinserts⟩ := hslots nickname j hslot
    exact ⟨hold, fun hout => absurd (outdates_thread hout) hinserts, fun hpending => hpending⟩
  | ended i th t hi hp =>
    exact h.keep rfl h.verified rfl fun nickname i hslot =>
      ⟨hslot, fun hout => hout.elim, fun hpending => hpending⟩
  | fetched i fetch r hi hsent huser =>
    exact h.keep rfl h.verified List.length_set fun nickname i hslot =>
      ⟨hslot, fun hout => hout.elim, fun hpending => hpending⟩

/-- **Every run.** -/
theorem ordered_run {allowed : System → Turn → Prop} (h₀ : s₀.Start)
    (hr : System.Run ioFails allowed s₀ turns s) : Ordered turns s := by
  induction hr with
  | start => exact ordered_start h₀
  | step turns s s' turn _ hs _ ih => exact ih.step hs

/-! ## 5. Refreshes that nothing waits for -/

/-- Refresh `i` was started, and no entry waits for it. -/
def World.Gone (w : World) (i : Nat) : Prop := i < w.fetches.length ∧ ∀ nickname, w.slot nickname ≠ some i

variable {i : Nat}

theorem gone_step {turn : Turn} (h : s.world.Gone i) (hs : s.Step ioFails turn s') : s'.world.Gone i := by
  cases hs with
  | core d c k a w hcore hstep =>
    have hlength := fetches_coreStep hstep
    refine ⟨by have := h.1; show i < w.fetches.length; omega, fun nickname hslot => ?_⟩
    rcases slot_coreStep hstep hslot with ⟨-, rfl⟩ | ⟨hold, -⟩
    · exact absurd h.1 (lt_irrefl _)
    · exact h.2 nickname hold
  | operation => exact h
  | operationFails => exact h
  | downloadOperation => exact h
  | thread j th t c k a w hi hp hstep =>
    obtain ⟨hfetches, hslots⟩ := slot_threadStep hstep
    refine ⟨?_, fun nickname hslot => h.2 nickname (hslots nickname i hslot).1⟩
    show i < w.fetches.length
    rw [hfetches]
    exact h.1
  | ended => exact h
  | fetched j fetch r hj =>
    refine ⟨?_, h.2⟩
    show i < (s.world.fetches.set j _).length
    rw [List.length_set]
    exact h.1

theorem gone_run {allowed : System → Turn → Prop} (h : s.world.Gone i)
    (hr : System.Run ioFails allowed s turns s') : s'.world.Gone i := by
  induction hr with
  | start => exact h
  | step turns s₁ s₂ turn _ hs _ ih => exact gone_step ih hs

omit [Crates] in
theorem World.Gone.not_stores {w : World} (h : w.Gone i) (nickname : Str) (r : Except Str SharedFile) :
    ¬ w.Stores nickname i r := fun hstores => h.2 nickname hstores.1

omit [Crates] in
/-- No two users wait for one refresh. -/
theorem Latest.unique {nickname nickname' : Str} (h : Latest turns nickname i) (h' : Latest turns nickname' i) :
    nickname' = nickname :=
  Option.some.inj (h'.started.symm.trans h.started)

/-- **An outdated refresh is never stored.** Whatever refreshes are under way when a poll stores the result
    of refresh `i` in the entry of a user, in any run and whichever results have come in which order: `i` is
    the refresh of that user that was started last, since then no downloader has stored a listing for him
    and he was not removed, and no other entry gets this result, then or later. -/
theorem refresh_stored_latest {allowed : System → Turn → Prop} {d : OutgoingDownloader} {nickname : Str}
    {r : Except Str SharedFile} (h₀ : s₀.Start) (hr : System.Run ioFails allowed s₀ turns s)
    (hpoll : s.Step ioFails (.core d .pollRefresh ()) s') (hstores : s.world.Stores nickname i r) :
    Latest turns nickname i ∧ (∀ nickname' r', s.world.Stores nickname' i r' → nickname' = nickname) ∧
      ∀ turns' s'' nickname' r', System.Run ioFails allowed s' turns' s'' →
        ¬ s''.world.Stores nickname' i r' := by
  have hordered := ordered_run h₀ hr
  -- before a poll nothing is about to be removed
  have hlatest : ∀ nickname, s.world.slot nickname = some i → Latest turns nickname i := by
    intro nickname hslot
    refine (hordered.slots nickname i hslot).resolve_right fun hpending => ?_
    cases hpoll with
    | core d c k a w hcore hstep =>
      rw [hcore] at hpending
      rcases hpending with ⟨nicknames, hc, -⟩ | ⟨hc, -⟩
      · cases hc
      · exact hc rfl
  have hgone : s'.world.Gone i := by
    obtain ⟨hslot, fetch, hfetch, hsent⟩ := hstores
    cases hpoll with
    | core d c k a w hcore hstep =>
      have hlength := fetches_coreStep hstep
      refine ⟨?_, fun nickname' hslot' => ?_⟩
      · have hi := (List.getElem?_eq_some_iff.mp hfetch).1
        show i < w.fetches.length
        omega
      · rcases slot_coreStep hstep hslot' with ⟨hstarts, -⟩ | ⟨-, hnotSent⟩
        · cases hstarts
        · rw [hnotSent fetch hfetch] at hsent
          cases hsent
  refine ⟨hlatest nickname hstores.1, fun nickname' r' hstores' => ?_, fun turns' s'' nickname' r' hr' => ?_⟩
  · exact (hlatest nickname hstores.1).unique (hlatest nickname' hstores'.1)
  · exact (gone_run hgone hr').not_stores nickname' r'

end Runs

/-- The refresh of Bob's listing that fails. -/
theorem refresh_stored_latest_bob : ∃ turns, Latest turns sampleBob.nickname 0 := by
  have hrun := @System.Run.start fetchCrates False (fun _ _ => True) (quietSystem [sampleBob])
  have hrun := @System.Run.step fetchCrates _ _ _ _ _ _ _ hrun
    (@System.Step.core fetchCrates _ _ _ (.queueExists _) _ false _ rfl ⟨rfl, rfl⟩) trivial
  have hrun := @System.Run.step fetchCrates _ _ _ _ _ _ _ hrun
    (@System.Step.downloadOperation fetchCrates _ _ (.startRefreshSingle sampleBob.nickname) rfl) trivial
  have hrun := @System.Run.step fetchCrates _ _ _ _ _ _ _ hrun
    (@System.Step.core fetchCrates _ _ _ (.startRefresh _ _) _ () _ rfl rfl) trivial
  have hrun := @System.Run.step fetchCrates _ _ _ _ _ _ _ hrun
    (@System.Step.fetched fetchCrates _ _ 0 _ (.error []) rfl rfl fun _ => ⟨_, rfl⟩) trivial
  have hrun := @System.Run.step fetchCrates _ _ _ _ _ _ _ hrun
    (@System.Step.downloadOperation fetchCrates _ _ .getSharedWithMeData rfl) trivial
  exact ⟨_, (@refresh_stored_latest fetchCrates _ _ _ _ _ _ _ _ _ _ bob_system_started hrun
    (@System.Step.core fetchCrates False _ _ .pollRefresh _ () _ rfl rfl) ⟨rfl, _, rfl, rfl⟩).1⟩

end Transmitic
