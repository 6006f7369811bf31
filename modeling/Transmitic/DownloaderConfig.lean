/-
  File:      Transmitic/DownloaderConfig.lean
  Subject:   THE CONFIG THE DOWNLOADERS GO BY is the config of the core, in every run.

  * `KnownAddress` -- a downloader for a reverse connection is started with the address in the config;
  * `Briefs` -- what a thread has heard, and the messages on their way, make what it comes to;
  * `downloader_config_agrees` -- **then every registered downloader goes by the config of the core**,
    once its channel is drained;
  * `reverse_address_stale` -- and without it one goes by an address that was replaced.
-/
import Transmitic.DownloaderLedger
import Transmitic.OneDownloader

namespace Transmitic

open Lib

/-! ## 1. What the threads have heard -/

/-- A downloader that is started for a reverse connection is one for a user as the config has him: the
    address the connection carries is the one in the config. -/
def KnownAddress : Turn → Prop
  | .core _ (.spawn _ user _ _ reverse config) _ => reverse.isSome → HasContact config user
  | _ => True

/-- Where the threads and their channels are; `told` is what each thread has heard. -/
structure Briefs (w : World) (comes told : Ledger) : Prop where
  unmade : ∀ i, w.channels i = none → comes i = none ∧ told i = none
  channels : ∀ i ch, w.channels i = some ch → ch.taken ≤ ch.posted.length ∧
    comes i = (told i).map (ch.inbox.foldl Briefing.hear) ∧ (told i = none → ch.posted = [])
  threads : ∀ i p, w.program i = some p → ∃ x, told i = some x ∧
    p.Holds briefedEnv (fun _ _ _ => True) (fun _ _ _ => True) x

section Runs

variable {ioFails : Prop} {w w' : World} {comes told : Ledger} {i : Nat}

/-- Channels through which nothing was sent and nothing received. -/
theorem Briefs.congr (h : Briefs w comes told) (hprogram : ∀ j, w'.program j = w.program j)
    (hnone : ∀ j, w'.channels j = none → w.channels j = none)
    (hchannels : ∀ j ch', w'.channels j = some ch' → ∃ ch, w.channels j = some ch ∧
      ch'.posted = ch.posted ∧ ch'.taken = ch.taken) : Briefs w' comes told where
  unmade j hj := h.unmade j (hnone j hj)
  channels j ch' hj := by
    obtain ⟨ch, hch, hp, ht⟩ := hchannels j ch' hj
    have hold := h.channels j ch hch
    unfold Channels.inbox at hold ⊢
    rw [hp, ht]
    exact hold
  threads j p hp := h.threads j p (by rwa [hprogram] at hp)

theorem Briefs.of_threads (h : Briefs w comes told) (hw : w'.threads = w.threads) :
    Briefs w' comes told := by
  refine h.congr (program_congr hw) (fun j hj => ?_) fun j ch hj => ⟨ch, ?_, rfl, rfl⟩
  · rwa [channels_congr hw] at hj
  · rwa [channels_congr hw] at hj

theorem channels_setChannels_cases {ch' ch'' : Channels} {j : Nat}
    (h : (w.setChannels i ch').channels j = some ch'') :
    j = i ∧ ch'' = ch' ∨ j ≠ i ∧ w.channels j = some ch'' := by
  rw [World.channels_setChannels] at h
  obtain ⟨ch₀, hch₀, he⟩ := Option.map_eq_some_iff.mp h
  by_cases hij : i = j
  · rw [if_pos hij] at he
    exact .inl ⟨hij.symm, he.symm⟩
  · rw [if_neg hij] at he
    exact .inr ⟨fun hji => hij hji.symm, he ▸ hch₀⟩

theorem channels_setChannels_none {ch' : Channels} {j : Nat}
    (h : (w.setChannels i ch').channels j = none) : w.channels j = none := by
  rw [World.channels_setChannels] at h
  exact Option.map_eq_none_iff.mp h

/-- A change of channels that sends nothing and receives nothing on the first one. -/
theorem Briefs.setChannels {ch ch' : Channels} (h : Briefs w comes told)
    (hch : w.channels i = some ch) (hp : ch'.posted = ch.posted) (ht : ch'.taken = ch.taken) :
    Briefs (w.setChannels i ch') comes told := by
  refine h.congr (World.program_setChannels w i · ch') (fun j => channels_setChannels_none)
    fun j ch'' hj => ?_
  rcases channels_setChannels_cases hj with ⟨rfl, rfl⟩ | ⟨-, hj⟩
  · exact ⟨ch, hch, hp, ht⟩
  · exact ⟨ch'', hj, rfl, rfl⟩

/-- The core has sent a message to a thread that was started. -/
theorem Briefs.post {ch : Channels} (m : MessageSingleDownloader) (h : Briefs w comes told)
    (hch : w.channels i = some ch) (hstarted : (comes i).isSome = true) :
    Briefs (w.setChannels i { ch with posted := ch.posted ++ [m] }) (comes.tell m [i]) told where
  unmade j hj := by
    obtain ⟨hcomes, htold⟩ := h.unmade j (channels_setChannels_none hj)
    refine ⟨?_, htold⟩
    unfold Ledger.tell
    rw [hcomes]
    exact ite_self _
  channels j ch' hj := by
    unfold Ledger.tell
    rcases channels_setChannels_cases hj with ⟨rfl, rfl⟩ | ⟨hne, hj⟩
    · obtain ⟨htaken, hcomes, hnone⟩ := h.channels j ch hch
      refine ⟨?_, ?_, fun ht => ?_⟩
      · show ch.taken ≤ (ch.posted ++ [m]).length
        rw [List.length_append]
        omega
      · have hinbox : Channels.inbox { ch with posted := ch.posted ++ [m] } = ch.inbox ++ [m] :=
          List.drop_append_of_le_length htaken
        rw [if_pos (List.mem_singleton.mpr rfl), hcomes, hinbox, Option.map_map]
        congr 1
        funext x
        simp [List.foldl_append]
      · rw [hcomes, ht] at hstarted
        cases hstarted
    · rw [if_neg fun hm => hne (List.mem_singleton.mp hm)]
      exact h.channels j ch' hj
  threads j p hp := h.threads j p (by rwa [World.program_setChannels] at hp)

/-- Channels are made for one more thread. -/
theorem Briefs.withThread (h : Briefs w comes told) (n : Str) : Briefs (w.withThread n) comes told ∧
    comes w.threads.length = none := by
  have hnone : w.channels w.threads.length = none := by
    unfold World.channels
    rw [List.getElem?_eq_none (Nat.le_refl _)]
    rfl
  obtain ⟨hcomes, htold⟩ := h.unmade _ hnone
  refine ⟨⟨fun j hj => h.unmade j ?_, fun j ch hj => ?_, fun j p hp => ?_⟩, hcomes⟩
  · unfold World.channels at hj ⊢
    rw [threads_withThread] at hj
    split at hj
    · cases hj
    · exact hj
  · obtain ⟨th, hth, rfl⟩ := Option.map_eq_some_iff.mp hj
    rcases withThread_cases hth with hth | ⟨rfl, rfl⟩
    · exact h.channels j _ (World.channels_of_threads hth)
    · exact ⟨Nat.le_refl 0, by rw [hcomes, htold]; rfl, fun _ => rfl⟩
  · obtain ⟨th, hth, hthp⟩ := World.threads_of_program hp
    rcases withThread_cases hth with hth | ⟨-, rfl⟩
    · exact h.threads j p (World.program_of_threads hth hthp)
    · cases hthp

/-- A thread is started. -/
theorem Briefs.spawn {x : Briefing} {p : DlProgram} {ch : Channels} (h : Briefs w comes told)
    (hch : w.channels i = some ch) (hcomes : comes i = none)
    (hp : p.Holds briefedEnv (fun _ _ _ => True) (fun _ _ _ => True) x) :
    Briefs (w.setProgram i p) (Function.update comes i (some x)) (Function.update told i (some x))
    where
  unmade j hj := by
    rw [World.channels_setProgram] at hj
    have hji : j ≠ i := by
      intro he
      rw [he, hch] at hj
      cases hj
    rw [Function.update_of_ne hji, Function.update_of_ne hji]
    exact h.unmade j hj
  channels j ch' hj := by
    rw [World.channels_setProgram] at hj
    by_cases hji : j = i
    · subst hji
      obtain ⟨htaken, htold, hnone⟩ := h.channels j ch' hj
      have hposted : ch'.posted = [] := hnone (by
        rw [hcomes] at htold
        exact Option.map_eq_none_iff.mp htold.symm)
      rw [Function.update_self, Function.update_self]
      refine ⟨htaken, ?_, fun hx => nomatch hx⟩
      unfold Channels.inbox
      rw [hposted, List.drop_nil]
      rfl
    · rw [Function.update_of_ne hji, Function.update_of_ne hji]
      exact h.channels j ch' hj
  threads j q hq := by
    rw [World.program_setProgram] at hq
    by_cases hji : j = i
    · subst hji
      rw [if_pos rfl] at hq
      obtain ⟨th, -, rfl⟩ := Option.map_eq_some_iff.mp hq
      exact ⟨x, Function.update_self j _ told, hp⟩
    · rw [if_neg (Ne.symm hji)] at hq
      rw [Function.update_of_ne hji]
      exact h.threads j q hq

/-- A thread has gone on, and has heard what it received. -/
theorem Briefs.turn {x y : Briefing} {p : DlProgram} (h : Briefs w comes told) (hy : told i = some y)
    (hp : p.Holds briefedEnv (fun _ _ _ => True) (fun _ _ _ => True) x)
    (hprogram : ∀ j, w'.program j = w.program j)
    (hown : ∀ ch', w'.channels i = some ch' → ∃ ch, w.channels i = some ch ∧
      ch'.taken ≤ ch'.posted.length ∧ ch'.inbox.foldl Briefing.hear x = ch.inbox.foldl Briefing.hear y)
    (hnone : ∀ j, w'.channels j = none → w.channels j = none)
    (hother : ∀ j ch', j ≠ i → w'.channels j = some ch' → w.channels j = some ch') :
    Briefs (w'.setProgram i p) comes (Function.update told i (some x)) where
  unmade j hj := by
    rw [World.channels_setProgram] at hj
    obtain ⟨hcomes, htold⟩ := h.unmade j (hnone j hj)
    have hji : j ≠ i := by
      intro he
      rw [he, hy] at htold
      cases htold
    rw [Function.update_of_ne hji]
    exact ⟨hcomes, htold⟩
  channels j ch' hj := by
    rw [World.channels_setProgram] at hj
    by_cases hji : j = i
    · subst hji
      obtain ⟨ch, hch, htaken, hfold⟩ := hown ch' hj
      obtain ⟨-, hcomes, -⟩ := h.channels j ch hch
      rw [Function.update_self]
      refine ⟨htaken, ?_, fun hx => nomatch hx⟩
      rw [hcomes, hy]
      exact congrArg some hfold.symm
    · rw [Function.update_of_ne hji]
      exact h.channels j ch' (hother j ch' hji hj)
  threads j q hq := by
    rw [World.program_setProgram] at hq
    by_cases hji : j = i
    · subst hji
      rw [if_pos rfl] at hq
      obtain ⟨th, -, rfl⟩ := Option.map_eq_some_iff.mp hq
      exact ⟨x, Function.update_self j _ told, hp⟩
    · rw [if_neg (Ne.symm hji), hprogram] at hq
      rw [Function.update_of_ne hji]
      exact h.threads j q hq

/-- **One turn of a downloader.** -/
theorem Briefs.thread {t : Thread SingleDownloader} {c : Wire ⊕ DownloaderCmd}
    {k : Ans DownloaderCmd.Ans c → DlProgram} {a : Ans DownloaderCmd.Ans c} (h : Briefs w comes told)
    (hp : w.program i = some (.call t c k)) (hs : w.ThreadStep ioFails i t c a w') :
    ∃ told', Briefs (w'.setProgram i (k a)) comes told' := by
  obtain ⟨y, hy, -, hrest⟩ := h.threads i _ hp
  have hprogram := program_threadStep hs
  -- the thread received no message
  have hsame : w'.threads = w.threads → HearStep y c a y →
      ∃ told', Briefs (w'.setProgram i (k a)) comes told' := by
    intro hw hear
    refine ⟨_, h.turn hy (hrest a y hear) hprogram (fun ch' hch' => ?_) (fun j hj => ?_)
      fun j ch' _ hj => ?_⟩
    · rw [channels_congr hw] at hch'
      exact ⟨ch', hch', (h.channels i ch' hch').1, rfl⟩
    · rwa [channels_congr hw] at hj
    · rwa [channels_congr hw] at hj
  have hchannel : ∀ {x ch ch'}, w.channels i = some ch → w' = w.setChannels i ch' →
      ch'.taken ≤ ch'.posted.length →
      ch'.inbox.foldl Briefing.hear x = ch.inbox.foldl Briefing.hear y → HearStep y c a x →
      ∃ told', Briefs (w'.setProgram i (k a)) comes told' := by
    intro x ch ch' hch hw htaken hfold hear
    subst hw
    refine ⟨_, h.turn hy (hrest a x hear) hprogram (fun ch'' hch'' => ?_)
      (fun j => channels_setChannels_none) fun j ch'' hji hj => ?_⟩
    · rcases channels_setChannels_cases hch'' with ⟨-, rfl⟩ | ⟨hne, -⟩
      · exact ⟨ch, hch, htaken, hfold⟩
      · exact absurd rfl hne
    · rcases channels_setChannels_cases hj with ⟨he, -⟩ | ⟨-, hj⟩
      · exact absurd he hji
      · exact hj
  clear hrest hprogram
  unfold World.ThreadStep at hs
  split at hs
  · rename_i a
    obtain ⟨ch, ch', hch, hrecv, hw⟩ := hs
    have htaken : ch'.posted = ch.posted ∧ ch'.taken = ch.taken := by
      cases a with
      | value enc =>
        obtain ⟨-, rfl⟩ := hrecv
        exact ⟨rfl, rfl⟩
      | empty =>
        obtain ⟨-, -, rfl⟩ := hrecv
        exact ⟨rfl, rfl⟩
      | disconnected =>
        obtain ⟨-, -, rfl⟩ := hrecv
        exact ⟨rfl, rfl⟩
    refine hchannel (x := y) hch hw ?_ ?_ rfl
    · rw [htaken.1, htaken.2]
      exact (h.channels i ch hch).1
    · unfold Channels.inbox
      rw [htaken.1, htaken.2]
  · rename_i a
    obtain ⟨ch, ch', hch, hrecv, hw⟩ := hs
    cases a with
    | value m =>
      obtain ⟨hhead, rfl⟩ := hrecv
      obtain ⟨rest, hinbox⟩ := List.head?_eq_some_iff.mp hhead
      have hrest : ch.posted.drop (ch.taken + 1) = rest := by
        rw [← List.drop_drop, show ch.posted.drop ch.taken = m :: rest from hinbox]
        rfl
      refine hchannel (x := y.hear m) hch hw ?_ ?_ rfl
      · have hlen := congrArg List.length hinbox
        unfold Channels.inbox at hlen
        rw [List.length_drop, List.length_cons] at hlen
        show ch.taken + 1 ≤ ch.posted.length
        omega
      · show (ch.posted.drop (ch.taken + 1)).foldl Briefing.hear (y.hear m) = _
        rw [hrest, hinbox]
        rfl
    | empty =>
      obtain ⟨-, -, rfl⟩ := hrecv
      exact hchannel (x := y) hch hw (h.channels i ch' hch).1 rfl rfl
    | disconnected =>
      obtain ⟨-, -, rfl⟩ := hrecv
      exact hchannel (x := y) hch hw (h.channels i ch' hch).1 rfl rfl
  · exact hsame (by rw [hs.2]) rfl
  · exact hsame (by rw [hs.2]; rfl) rfl
  · exact hsame (by rw [hs.2]) rfl
  · exact hsame (by rw [hs.2]) rfl
  · exact hsame (by rw [hs]; rfl) rfl
  · obtain ⟨-, file, rfl⟩ := hs
    exact hsame rfl rfl
  · exact hsame (by rw [hs.2]) rfl
  · exact hsame (by rw [hs]; rfl) rfl
  · exact hsame (by rw [hs.2.2]) rfl
  · refine hsame (by rw [hs]) ?_
    unfold HearStep
    split
    · rename_i m _ hmessage _ _ _ _ _ _ _ _ _
      exact (hmessage _ rfl HEq.rfl).elim
    · rfl

variable [Crates]

/-- **One command of the core.** -/
theorem Briefs.core {d : OutgoingDownloader} {c : CoreCmd} {a : c.Ans} (h : Briefs w comes told)
    (hok : LedgerOk comes c) (hready : Ready d w c) (hknown : KnownAddress (.core d c a))
    (hs : w.CoreStep ioFails c a w') :
    ∃ comes' told', LedgerStep comes c a comes' ∧ Briefs w' comes' told' := by
  cases c with
  | send i m =>
    obtain ⟨ch, hch, ⟨rfl, -, rfl⟩ | ⟨rfl, -, rfl⟩⟩ := hs
    · exact ⟨_, told, rfl, h.post m hch hok⟩
    · exact ⟨comes, told, rfl, h⟩
  | sendReverse i enc =>
    obtain ⟨ch, hch, ⟨-, rfl⟩ | ⟨-, rfl⟩⟩ := hs
    · exact ⟨comes, told, rfl, h.setChannels hch rfl rfl⟩
    · exact ⟨comes, told, rfl, h⟩
  | dropSenders i =>
    obtain ⟨ch, hch, rfl⟩ := hs
    exact ⟨comes, told, rfl, h.setChannels hch rfl rfl⟩
  | newChannels n =>
    obtain ⟨rfl, rfl⟩ := hs
    obtain ⟨hb, hnone⟩ := h.withThread n
    exact ⟨comes, told, ⟨hnone, rfl⟩, hb⟩
  | spawn i user path isPaused reverse config =>
    obtain ⟨fuel, n, encryptedStream, rfl⟩ := hs
    obtain ⟨⟨-, -, ch, hch, -⟩, -⟩ := hready
    have hthread := briefed_runThread fuel n
      { self := SingleDownloader.new user path isPaused reverse config, encryptedStream } ⟨user, config⟩ rfl
    exact ⟨_, _, ⟨hknown, rfl⟩, h.spawn hch hok
      (hthread.mono (fun _ _ _ _ => trivial) fun _ _ _ _ => trivial)⟩
  | queueExists path =>
    exact ⟨comes, told, rfl, h.of_threads (threads_coreStep (c := .queueExists path) trivial hs)⟩
  | queueAppend path bytes =>
    exact ⟨comes, told, rfl, h.of_threads (threads_coreStep (c := .queueAppend path bytes) trivial hs)⟩
  | setRefreshData nicknames =>
    exact ⟨comes, told, rfl, h.of_threads (threads_coreStep (c := .setRefreshData nicknames) trivial hs)⟩
  | startRefresh nickname config =>
    exact ⟨comes, told, rfl,
      h.of_threads (threads_coreStep (c := .startRefresh nickname config) trivial hs)⟩
  | pollRefresh =>
    exact ⟨comes, told, rfl, h.of_threads (threads_coreStep (c := .pollRefresh) trivial hs)⟩

/-! ## 2. Every run -/

/-- What holds in every state of a run: the core keeps to the config `c`, which its own config tracks. -/
structure System.Consistent (s : System) (c : Config) (comes told : Ledger) : Prop where
  verified : Verified s.config.pathDirConfig s.config
  tracks : Tracks c s.config
  core : s.core.Holds ledgerEnv (fun _ => InformedOf c) (fun _ => InformedOf c) comes
  briefs : Briefs s.world comes told

omit [Crates] in
/-- Between two methods. -/
theorem informed_of_idle {p : Prog OutgoingDownloader CoreCmd CoreCmd.Ans Exc Unit} {c : Config}
    (h : p.Holds ledgerEnv (fun _ => InformedOf c) (fun _ => InformedOf c) comes)
    (hidle : p.issued = none) : Informed c none p.state comes := by
  cases p with
  | ret a d => exact h
  | fail x d => exact h
  | call d c k => cases hidle

/-- **One turn.** -/
theorem System.Consistent.step {s s' : System} {turn : Turn} {c : Config}
    (h : s.Consistent c comes told)
    (hready : ∀ d cmd k, s.core = .call d cmd k → Ready d s.world cmd)
    (hs : s.Step ioFails turn s') (hknown : KnownAddress turn) :
    ∃ c' comes' told', s'.Consistent c' comes' told' := by
  cases hs with
  | core d cmd k a w hcore hstep =>
    have hcall := h.core
    rw [hcore] at hcall
    obtain ⟨comes', told', hledger, hbriefs⟩ :=
      h.briefs.core hcall.1 (hready d cmd k hcore) hknown hstep
    exact ⟨c, comes', told', h.verified, h.tracks, hcall.2 a comes' hledger, hbriefs⟩
  | operation op o disk disk' config hidle hrun =>
    have hdir : config.pathDirConfig = s.config.pathDirConfig := (operation_spares hrun).directory
    have hverified : Verified config.pathDirConfig config := by
      rw [hdir]
      exact h.verified.effect (operation_effect hrun)
    obtain ⟨c', htracks, hcore⟩ :=
      ledger_follow h.verified hrun (informed_of_idle h.core hidle) h.tracks
    exact ⟨c', comes, told, hverified, htracks, hcore, h.briefs⟩
  | operationFails op o disk disk' config e hrun =>
    have hfails : Except.error e ≠ .ok () := fun he => nomatch he
    have hdir : config.pathDirConfig = s.config.pathDirConfig := (operation_spares hrun).directory
    have hverified : Verified config.pathDirConfig config := by
      rw [hdir]
      exact h.verified.effect (operation_effect hrun)
    exact ⟨c, comes, told, hverified, h.tracks.trans (failed_tracks h.verified hfails hrun), h.core,
      h.briefs⟩
  | downloadOperation op hidle =>
    refine ⟨c, comes, told, h.verified, h.tracks, ?_, h.briefs⟩
    exact keeps_downloadOperation op s.downloads comes (informed_of_idle h.core hidle)
  | thread i th t cmd k a w hi hp hstep =>
    obtain ⟨told', hbriefs⟩ := h.briefs.thread (World.program_of_threads hi hp) hstep
    exact ⟨c, comes, told', h.verified, h.tracks, h.core, hbriefs⟩
  | ended i th t hi hp =>
    exact ⟨c, comes, told, h.verified, h.tracks, h.core,
      h.briefs.setChannels (World.channels_of_threads hi) rfl rfl⟩
  | fetched i fetch r hi =>
    exact ⟨c, comes, told, h.verified, h.tracks, h.core, h.briefs.of_threads rfl⟩

theorem directory_of_new {configDir : Str} {isFirstStart : Bool} {password : Option Str} {o : Outcomes}
    {disk disk' : Disk} {c : Config}
    (h : Config.new configDir isFirstStart password o disk = .ok (c, disk')) :
    c.pathDirConfig = configDir := by
  unfold Config.new at h
  obtain ⟨-, -, h⟩ := bind_eq_ok.mp h
  obtain ⟨disk₁, -, h⟩ := bind_eq_ok.mp h
  obtain ⟨⟨configFile, nonce⟩, -, h⟩ := bind_eq_ok.mp h
  obtain ⟨bytes, -, h⟩ := bind_eq_ok.mp h
  cases h
  rfl

theorem briefed_start {s : System} (h : s.Start) :
    s.Consistent s.config (fun _ => none) fun _ => none := by
  obtain ⟨configDir, isFirstStart, password, o, disk, disk', hnew, hcore, hthreads, -, -⟩ := h
  have hverified := (new_kept hnew).1
  rw [← directory_of_new hnew] at hverified
  refine ⟨hverified, .refl _, ?_, ?_⟩
  · rw [hcore]
    have hinformed : Informed s.config none (OutgoingDownloader.new s.config) fun _ => none :=
      ⟨⟨rfl, List.nodup_nil, fun _ he => absurd he List.not_mem_nil⟩,
        fun _ he => absurd he List.not_mem_nil⟩
    exact wp_conseq (ledger_startDownloadingUsers _ (fun user hu => hasContact_of_mem hu) hinformed)
      (fun _ _ _ h' => h') fun _ _ _ hf => False.elim hf
  · refine ⟨fun _ _ => ⟨rfl, rfl⟩, fun i ch hi => ?_, fun i p hp => ?_⟩
    · unfold World.channels at hi
      rw [hthreads] at hi
      cases hi
    · unfold World.program at hp
      rw [hthreads] at hp
      cases hp

/-- **Every run.** -/
theorem briefed_run {s₀ s : System} {turns : List Turn} (h₀ : s₀.Start)
    (hr : System.Run ioFails (fun _ turn => KnownAddress turn) s₀ turns s) :
    ∃ c comes told, s.Consistent c comes told := by
  induction hr with
  | start => exact ⟨_, _, _, briefed_start h₀⟩
  | step turns s s' turn hr hs ha ih =>
    obtain ⟨c, comes, told, h⟩ := ih
    have hready := (@registry_run _ ioFails (fun _ => KnownAddress) _ _ _ h₀ hr).2
    exact h.step hready hs ha

omit [Crates] in
/-- Where no two users are named alike, a user is found by his nickname. -/
theorem find_nickname {users : List SharedUser} (h : (users.map SharedUser.nickname).Nodup)
    {user : SharedUser} (hu : user ∈ users) :
    users.find? (fun u => u.nickname = user.nickname) = some user := by
  induction users with
  | nil => cases hu
  | cons u users ih =>
    rw [List.map_cons, List.nodup_cons] at h
    rcases List.mem_cons.mp hu with rfl | hu
    · exact List.find?_cons_of_pos (by simp)
    · have hne : u.nickname ≠ user.nickname := fun he =>
        h.1 (List.mem_map.mpr ⟨user, hu, he.symm⟩)
      rw [List.find?_cons_of_neg (by simpa using hne)]
      exact ih h.2 hu

/-- The copies a downloader for the nickname has agree with the config. -/
structure GoesBy (config : Config) (nickname : Str) (d : SingleDownloader) : Prop where
  named : d.sharedUser.nickname = nickname
  user : ∃ user, config.configFile.sharedUsers.find? (fun user => user.nickname = nickname) =
    some user ∧ user.publicId = d.sharedUser.publicId ∧ user.ip = d.sharedUser.ip ∧
      user.port = d.sharedUser.port
  privateId : d.config.localPrivateKeyBytes = config.localPrivateKeyBytes
  pathDownloads : d.config.configFile.pathDownloads = config.configFile.pathDownloads

/-- **The downloaders go by the config of the core.** In every run in which each downloader for a
    reverse connection is started with the address in the config: while the core is not at it, every
    live downloader that is registered for a nickname and has received all its messages has the public
    ID and the address the config has for the nickname, and its private ID and downloads directory. -/
theorem downloader_config_agrees {s₀ s : System} {turns : List Turn} {nickname : Str} {i : Nat}
    {ch : Channels} {t : Thread SingleDownloader} {cmd : Wire ⊕ DownloaderCmd}
    {k : Ans DownloaderCmd.Ans cmd → DlProgram} (h₀ : s₀.Start)
    (hr : System.Run ioFails (fun _ turn => KnownAddress turn) s₀ turns s)
    (hidle : s.core.issued = none) (hregistered : s.downloads.channel nickname = some i)
    (hch : s.world.channels i = some ch) (hdrained : ch.inbox = [])
    (hlive : s.world.program i = some (.call t cmd k)) : GoesBy s.config nickname t.self := by
  obtain ⟨c, comes, told, h⟩ := briefed_run h₀ hr
  have hinformed := informed_of_idle h.core hidle
  have hmem := mem_of_channel hregistered
  -- the thread has heard what it comes to
  obtain ⟨x, hx, hok, -⟩ := h.briefs.threads i _ hlive
  have hcomes : comes i = some x := by
    rw [(h.briefs.channels i ch hch).2.1, hx, hdrained]
    rfl
  obtain ⟨y, hy, hnick, hcontact⟩ := hinformed.registered.entries _ hmem
  rw [hcomes] at hy
  cases hy
  obtain ⟨hkey, hpath⟩ := hinformed.heard _ hmem x hcomes
  obtain ⟨user, huser, hc⟩ := h.tracks.contacts _ (hcontact nofun)
  have ht : briefing t = x := hok
  subst ht
  have hc : user.contact = t.self.sharedUser.contact := hc
  obtain ⟨hname, hpublicId, hip, hport⟩ : user.nickname = t.self.sharedUser.nickname ∧
      user.publicId = t.self.sharedUser.publicId ∧ user.ip = t.self.sharedUser.ip ∧
      user.port = t.self.sharedUser.port := by simpa [SharedUser.contact] using hc
  obtain ⟨raw, hraw⟩ := h.verified
  have hfind := find_nickname (nodup_nicknames hraw) huser
  rw [hname, show t.self.sharedUser.nickname = nickname from hnick] at hfind
  exact ⟨hnick, ⟨user, hfind, hpublicId, hip, hport⟩, hkey.trans h.tracks.privateId,
    hpath.trans h.tracks.pathDownloads⟩

end Runs

/-! ## 3. An address that was replaced -/

/-- No downloader is about to be started for a reverse connection. -/
def noReverseSpawn (s : System) : Bool :=
  match s.core with
  | .call _ (.spawn _ _ _ _ (some _) _) _ => false
  | _ => true

theorem knownAddress_of_step [Crates] {ioFails : Prop} {s s' : System} {turn : Turn}
    (h : noReverseSpawn s = true) (hs : s.Step ioFails turn s') : KnownAddress turn := by
  cases hs with
  | core d c k a w hcore hstep =>
    unfold noReverseSpawn at h
    rw [hcore] at h
    cases c with
    | spawn i user path isPaused reverse config =>
      cases reverse with
      | none => exact fun hr => nomatch hr
      | some enc => cases h
    | _ => trivial
  | _ => trivial

/-- The downloader `i` of Bob is live, and has received all its messages. -/
def drainedLive (s : System) (i : Nat) : Bool :=
  s.core.issued.isNone && s.downloads.channel sampleBob.nickname = some i &&
    (s.world.channels i).any (fun ch => ch.inbox.isEmpty) &&
    (s.world.program i).any fun p => p.issued.isSome

theorem drainedLive_cases {s : System} {i : Nat} (h : drainedLive s i = true) :
    ∃ ch t cmd k, s.core.issued = none ∧ s.downloads.channel sampleBob.nickname = some i ∧
      s.world.channels i = some ch ∧ ch.inbox = [] ∧
      s.world.program i = some (.call t cmd k) := by
  unfold drainedLive at h
  simp only [Bool.and_eq_true, decide_eq_true_eq, Option.any_eq_true] at h
  obtain ⟨⟨⟨hidle, hchannel⟩, ch, hch, hinbox⟩, p, hp, hissued⟩ := h
  cases p with
  | ret a t => cases hissued
  | fail x t => cases hissued
  | call t cmd k =>
    exact ⟨ch, t, cmd, k, Option.isNone_iff_eq_none.mp hidle, hchannel, hch,
      List.isEmpty_iff.mp hinbox, hp⟩

/-- Bob, at another address. -/
def movedBob : SharedUser := { sampleBob with ip := "127.0.0.2".toList }

@[reducible] def movedCrates : Crates := usersCrates [[sampleBob], [movedBob]]

theorem movedSystem_started : @System.Start movedCrates (quietSystem [sampleBob]) :=
  @quietSystem_start movedCrates _ (by decide +kernel) (by decide +kernel)

/-- A download of Bob's starts his downloader. -/
def selectScript : List Cue :=
  [.core, .downloadOperation (.downloadSelected
    [{ path := "/x".toList, owner := sampleBob.nickname, fileSize := 1 }])] ++
    [.core, .core, .core, .core]

theorem selectScript_played : ((@System.playWhere movedCrates sampleOutcomes
    (usersDisk [sampleBob]) noReverseSpawn selectScript (quietSystem [sampleBob])).any fun s =>
      drainedLive s 0) = true := by
  decide +kernel

/-- The agreement, right after the start of a downloader. -/
theorem downloader_config_agrees_bob : ∃ (s : System) (t : Thread SingleDownloader)
    (cmd : Wire ⊕ DownloaderCmd) (k : Ans DownloaderCmd.Ans cmd → DlProgram),
    s.world.program 0 = some (.call t cmd k) ∧ GoesBy s.config sampleBob.nickname t.self := by
  obtain ⟨s, hplay, hlive⟩ := (Option.any_eq_true _ _).mp selectScript_played
  obtain ⟨turns, hrun⟩ := @run_playWhere movedCrates False _ _ _
    (fun _ turn => KnownAddress turn) (fun s turn s' => @knownAddress_of_step movedCrates _ s s' turn)
    _ _ _ hplay
  obtain ⟨ch, t, cmd, k, hidle, hchannel, hch, hinbox, hp⟩ := drainedLive_cases hlive
  exact ⟨s, t, cmd, k, hp, @downloader_config_agrees False movedCrates _ _ _ _ _ _ _ _ _
    movedSystem_started hrun hidle hchannel hch hinbox hp⟩

/-- Bob moves while a connection from him is on its way from the uploads to the downloads. -/
def movedScript : List Cue :=
  [.core, .operation (.updateUser movedBob.nickname movedBob.publicId movedBob.ip movedBob.port), .core,
    .downloadOperation (.reverseConnection (EncryptedStream.new sampleBob sampleKey)), .core, .core]

/-- The downloader of Bob has an address that is not that of the config. -/
def staleAddress (s : System) : Bool :=
  match s.world.program 0, s.config.configFile.sharedUsers.find? fun u => u.nickname = sampleBob.nickname
    with
  | some (.call t _ _), some user => user.ip ≠ t.self.sharedUser.ip
  | _, _ => false

theorem movedScript_played : ((@System.play movedCrates sampleOutcomes (usersDisk [sampleBob])
    movedScript (quietSystem [sampleBob])).any fun s => drainedLive s 0 && staleAddress s) = true := by
  decide +kernel

/-- **A downloader goes by an address that was replaced**: a run after which the downloader for a
    reverse connection has received all its messages, and the config has another address. -/
theorem reverse_address_stale : ∃ (crates : Crates) (s₀ s : System) (turns : List Turn)
    (nickname : Str) (i : Nat) (ch : Channels) (t : Thread SingleDownloader)
    (cmd : Wire ⊕ DownloaderCmd) (k : Ans DownloaderCmd.Ans cmd → DlProgram),
    @System.Start crates s₀ ∧ @System.Run crates False (fun _ _ => True) s₀ turns s ∧
      s.core.issued = none ∧ s.downloads.channel nickname = some i ∧
      s.world.channels i = some ch ∧ ch.inbox = [] ∧ s.world.program i = some (.call t cmd k) ∧
      ¬ GoesBy s.config nickname t.self := by
  obtain ⟨s, hplay, hs⟩ := (Option.any_eq_true _ _).mp movedScript_played
  obtain ⟨turns, hrun⟩ := @run_play movedCrates False _ _ _ _ _ hplay
  obtain ⟨hlive, hstale⟩ := (Bool.and_eq_true _ _).mp hs
  obtain ⟨ch, t, cmd, k, hidle, hchannel, hch, hinbox, hp⟩ := drainedLive_cases hlive
  refine ⟨movedCrates, _, s, turns, _, 0, ch, t, cmd, k, movedSystem_started, hrun, hidle, hchannel,
    hch, hinbox, hp, fun hgoes => ?_⟩
  obtain ⟨user, hfind, -, hip, -⟩ := hgoes.user
  unfold staleAddress at hstale
  rw [hp, hfind] at hstale
  exact of_decide_eq_true hstale hip

end Transmitic
