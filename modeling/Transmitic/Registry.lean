/-
  File:      Transmitic/Registry.lean
  Subject:   WHAT THE CORE KNOWS OF ITS DOWNLOADERS, in every run.

  The core has a map from nicknames to channels, and starts a downloader where the map has no entry, or
  one whose downloader has ended.

  * `Registry` -- every downloader at work that was not removed is in the map, and can be reached;
  * `Ready` -- what holds when the core starts a downloader;
  * `registry_run` -- **both, in every state of every run**.
-/
import Transmitic.ConfigUsers
import Transmitic.DownloaderRuns

namespace Transmitic

open Lib

/-! ## 1. What downloaders do to the world -/

/-- The downloaders go on, and some come to their end. -/
structure ThreadsGoOn (w w' : World) : Prop where
  size : w'.threads.length = w.threads.length
  nickname : ∀ i, w'.nickname i = w.nickname i
  started : ∀ i, (w'.program i).isSome = (w.program i).isSome
  atWork : ∀ i, w'.atWork i → w.atWork i
  channels : ∀ i ch', w'.channels i = some ch' → ∃ ch, w.channels i = some ch ∧
    ch'.posted = ch.posted ∧ ch'.revPosted = ch.revPosted ∧ ch'.connected = ch.connected ∧
      (ch'.received = ch.received ∨ (w'.program i).isSome ∧ ¬ w'.atWork i)

namespace ThreadsGoOn

theorem refl (w : World) : ThreadsGoOn w w :=
  ⟨rfl, fun _ => rfl, fun _ => rfl, fun _ h => h, fun _ ch h => ⟨ch, h, rfl, rfl, rfl, .inl rfl⟩⟩

theorem trans {w w' w'' : World} (h : ThreadsGoOn w w') (h' : ThreadsGoOn w' w'') :
    ThreadsGoOn w w'' := by
  refine ⟨h'.size.trans h.size, fun i => (h'.nickname i).trans (h.nickname i),
    fun i => (h'.started i).trans (h.started i), fun i hi => h.atWork i (h'.atWork i hi), ?_⟩
  intro i ch'' hch''
  obtain ⟨ch', hch', hp', hr', hc', hrec'⟩ := h'.channels i ch'' hch''
  obtain ⟨ch, hch, hp, hr, hc, hrec⟩ := h.channels i ch' hch'
  refine ⟨ch, hch, hp'.trans hp, hr'.trans hr, hc'.trans hc, ?_⟩
  rcases hrec' with hrec' | hrec'
  · rcases hrec with hrec | ⟨hsome, hwork⟩
    · exact .inl (hrec'.trans hrec)
    · exact .inr ⟨(h'.started i).trans hsome, fun hw => hwork (h'.atWork i hw)⟩
  · exact .inr hrec'

/-- The same threads, with channels that only the downloaders at the other end have used. -/
theorem of_threads {w w' : World} (h : w'.threads = w.threads) : ThreadsGoOn w w' := by
  refine ⟨by rw [h], nickname_congr h, fun i => by rw [program_congr h], fun i hi => ?_, ?_⟩
  · unfold World.atWork at hi ⊢
    rwa [program_congr h] at hi
  · intro i ch hch
    rw [channels_congr h] at hch
    exact ⟨ch, hch, rfl, rfl, rfl, .inl rfl⟩

end ThreadsGoOn

section Worlds

variable {w w' : World} {i : Nat}

theorem length_update (f : Downloader → Downloader) :
    (w.update i f).threads.length = w.threads.length := List.length_modify f w.threads i

/-- A downloader has used its channels. -/
theorem goOn_setChannels {ch ch' : Channels} (hch : w.channels i = some ch)
    (hp : ch'.posted = ch.posted) (hr : ch'.revPosted = ch.revPosted)
    (hc : ch'.connected = ch.connected)
    (hrec : ch'.received = ch.received ∨ (w.program i).isSome ∧ ¬ w.atWork i) :
    ThreadsGoOn w (w.setChannels i ch') := by
  have hwork : ∀ j, (w.setChannels i ch').atWork j ↔ w.atWork j := by
    intro j
    unfold World.atWork
    rw [World.program_setChannels]
  refine ⟨length_update _, fun j => World.nickname_setChannels _ _ _ _,
    fun j => by rw [World.program_setChannels], fun j hj => (hwork j).mp hj, ?_⟩
  intro j ch'' hch''
  rw [World.channels_setChannels] at hch''
  obtain ⟨ch₀, hch₀, he⟩ := Option.map_eq_some_iff.mp hch''
  by_cases hij : i = j
  · subst hij
    rw [if_pos rfl] at he
    subst he
    refine ⟨ch, hch, hp, hr, hc, ?_⟩
    rw [World.program_setChannels, hwork]
    exact hrec
  · rw [if_neg hij] at he
    subst he
    exact ⟨ch₀, hch₀, rfl, rfl, rfl, .inl rfl⟩

/-- A downloader goes on with its program. -/
theorem goOn_setProgram {p p' : DlProgram} (hp : w.program i = some p)
    (hret : ∀ a t, p ≠ .ret a t) : ThreadsGoOn w (w.setProgram i p') := by
  obtain ⟨th, hth, hthp⟩ := World.threads_of_program hp
  have hprogram : ∀ j, (w.setProgram i p').program j = if i = j then some p' else w.program j := by
    intro j
    rw [World.program_setProgram]
    by_cases hij : i = j
    · subst hij
      rw [if_pos rfl, if_pos rfl, hth]
      rfl
    · rw [if_neg hij, if_neg hij]
  refine ⟨length_update _, fun j => World.nickname_setProgram _ _ _ _, fun j => ?_, fun j hj => ?_,
    fun j ch hch => ?_⟩
  · rw [hprogram]
    by_cases hij : i = j
    · subst hij
      rw [if_pos rfl, hp]
      rfl
    · rw [if_neg hij]
  · unfold World.atWork at hj ⊢
    rw [hprogram] at hj
    by_cases hij : i = j
    · subst hij
      exact ⟨p, hp, hret⟩
    · rw [if_neg hij] at hj
      exact hj
  · rw [World.channels_setProgram] at hch
    exact ⟨ch, hch, rfl, rfl, rfl, .inl rfl⟩

/-- A downloader that polls its channel takes a message, and touches nothing else of it. -/
theorem tryRecv_kept {ch ch' : Channels} {a : TryRecv MessageSingleDownloader}
    (h : ch.TryRecv a ch') : ch'.posted = ch.posted ∧ ch'.revPosted = ch.revPosted ∧
      ch'.connected = ch.connected ∧ ch'.received = ch.received := by
  cases a with
  | value m =>
    obtain ⟨_, rfl⟩ := h
    exact ⟨rfl, rfl, rfl, rfl⟩
  | empty =>
    obtain ⟨_, _, rfl⟩ := h
    exact ⟨rfl, rfl, rfl, rfl⟩
  | disconnected =>
    obtain ⟨_, _, rfl⟩ := h
    exact ⟨rfl, rfl, rfl, rfl⟩

/-- The same for the channel of the reverse connections. -/
theorem revTryRecv_kept {ch ch' : Channels} {a : TryRecv EncryptedStream}
    (h : ch.RevTryRecv a ch') : ch'.posted = ch.posted ∧ ch'.revPosted = ch.revPosted ∧
      ch'.connected = ch.connected ∧ ch'.received = ch.received := by
  cases a with
  | value m =>
    obtain ⟨_, rfl⟩ := h
    exact ⟨rfl, rfl, rfl, rfl⟩
  | empty =>
    obtain ⟨_, _, rfl⟩ := h
    exact ⟨rfl, rfl, rfl, rfl⟩
  | disconnected =>
    obtain ⟨_, _, rfl⟩ := h
    exact ⟨rfl, rfl, rfl, rfl⟩

/-- **A downloader only goes on**, whatever command it has answered. -/
theorem goOn_threadStep {ioFails : Prop} {t : Thread SingleDownloader} {c : Wire ⊕ DownloaderCmd}
    {a : Ans DownloaderCmd.Ans c} (h : w.ThreadStep ioFails i t c a w') : ThreadsGoOn w w' := by
  unfold World.ThreadStep at h
  split at h
  · obtain ⟨ch, ch', hch, hrecv, rfl⟩ := h
    obtain ⟨hp, hr, hc, hrec⟩ := revTryRecv_kept hrecv
    exact goOn_setChannels hch hp hr hc (.inl hrec)
  · obtain ⟨ch, ch', hch, hrecv, rfl⟩ := h
    obtain ⟨hp, hr, hc, hrec⟩ := tryRecv_kept hrecv
    exact goOn_setChannels hch hp hr hc (.inl hrec)
  · rw [h.2]
    exact .refl w
  · rw [h.2]
    exact .of_threads rfl
  · rw [h.2]
    exact .refl w
  · rw [h.2]
    exact .refl w
  · rw [h]
    exact .of_threads rfl
  · obtain ⟨_, file, rfl⟩ := h
    exact .of_threads rfl
  · rw [h.2]
    exact .refl w
  · rw [h]
    exact .of_threads rfl
  · rw [h.2.2]
    exact .refl w
  · rw [h]
    exact .refl w

/-- **One turn of a downloader.** -/
theorem goOn_thread {ioFails : Prop} {t : Thread SingleDownloader} {c : Wire ⊕ DownloaderCmd}
    {k : Ans DownloaderCmd.Ans c → DlProgram} {a : Ans DownloaderCmd.Ans c}
    (hp : w.program i = some (.call t c k)) (h : w.ThreadStep ioFails i t c a w') :
    ThreadsGoOn w (w'.setProgram i (k a)) := by
  refine (goOn_threadStep h).trans (goOn_setProgram ((program_threadStep h i).trans hp) ?_)
  intro _ _ hret
  cases hret

end Worlds

/-! ## 2. The registry -/

/-- No downloader of the nickname is at work, but those that were removed. -/
def Free (n : Str) (w : World) : Prop :=
  ∀ i ch, w.nickname i = some n → w.channels i = some ch → w.atWork i → ch.removed

/-- The map against the threads: its keys are distinct; an entry is a thread of that nickname; a thread at
    work that was not removed has an entry; a receiver is gone only with its thread; a sender in the map
    is held. -/
structure Registry (d : OutgoingDownloader) (w : World) : Prop where
  keys : (d.channelMap.map Prod.fst).Nodup
  mapped : ∀ n i, d.channel n = some i → w.nickname i = some n
  registered : ∀ i n ch, w.nickname i = some n → w.channels i = some ch → w.atWork i →
    ¬ ch.removed → d.channel n = some i
  received : ∀ i ch, w.channels i = some ch → ch.received = false →
    (w.program i).isSome ∧ ¬ w.atWork i
  connected : ∀ n i ch, d.channel n = some i → w.channels i = some ch → ch.connected = true

/-- Who is free stays free while the downloaders go on: none of them starts another one. -/
theorem Free.goOn {n : Str} {w w' : World} (h : Free n w) (hw : ThreadsGoOn w w') : Free n w' := by
  intro i ch' hn hch' hwork
  obtain ⟨ch, hch, hp, -⟩ := hw.channels i ch' hch'
  rw [hw.nickname] at hn
  unfold Channels.removed
  rw [hp]
  exact h i ch hn hch (hw.atWork i hwork)

/-- **The downloaders cannot break the registry**: they change no entry, and can only come to their end. -/
theorem Registry.goOn {d : OutgoingDownloader} {w w' : World} (h : Registry d w)
    (hw : ThreadsGoOn w w') : Registry d w' := by
  refine ⟨h.keys, fun n i hi => ?_, fun i n ch' hn hch' hwork hrem => ?_, fun i ch' hch' hrec => ?_,
    fun n i ch' hi hch' => ?_⟩
  · rw [hw.nickname]
    exact h.mapped n i hi
  · obtain ⟨ch, hch, hp, -⟩ := hw.channels i ch' hch'
    rw [hw.nickname] at hn
    refine h.registered i n ch hn hch (hw.atWork i hwork) fun hr => hrem ?_
    unfold Channels.removed
    rw [hp]
    exact hr
  · obtain ⟨ch, hch, -, -, -, hr⟩ := hw.channels i ch' hch'
    rcases hr with hr | hr
    · have hend := h.received i ch hch (hr ▸ hrec)
      exact ⟨(hw.started i).trans hend.1, fun hwork => hend.2 (hw.atWork i hwork)⟩
    · exact hr
  · obtain ⟨ch, hch, -, -, hc, -⟩ := hw.channels i ch' hch'
    exact hc.trans (h.connected n i ch hi hch)

/-- A nickname without an entry is free. -/
theorem Registry.free_of_none {d : OutgoingDownloader} {w : World} {n : Str} (h : Registry d w)
    (hn : d.channel n = none) : Free n w := by
  intro i ch hi hch hwork
  by_contra hrem
  have hreg := h.registered i n ch hi hch hwork hrem
  rw [hn] at hreg
  cases hreg

/-- A nickname whose downloader has ended, or was removed, is free. -/
theorem Registry.free_of_gone {d : OutgoingDownloader} {w : World} {n : Str} {i : Nat}
    (h : Registry d w) (hn : d.channel n = some i)
    (hi : ∀ ch, w.channels i = some ch → w.atWork i → ch.removed) : Free n w := by
  intro j ch hj hch hwork
  by_contra hrem
  have hreg := h.registered j n ch hj hch hwork hrem
  rw [hn] at hreg
  cases hreg
  exact hrem (hi ch hch hwork)

/-! ## 3. The map of channels -/

section Map

variable {d : OutgoingDownloader} {n m : Str} {i : Nat}

/-- `channel_map` without an entry. -/
def without (n : Str) (d : OutgoingDownloader) : OutgoingDownloader :=
  { d with channelMap := d.channelMap.filter fun entry => entry.1 ≠ n }

/-- Taking out a key takes out no other one. -/
theorem lookup_filter_ne (l : List (Str × Nat)) (n m : Str) :
    (l.filter fun entry => entry.1 ≠ n).lookup m = if m = n then none else l.lookup m := by
  induction l with
  | nil => by_cases h : m = n <;> simp [h]
  | cons entry l ih =>
    obtain ⟨key, i⟩ := entry
    by_cases hkey : key = n
    · subst hkey
      rw [List.filter_cons_of_neg (by simp), ih]
      by_cases hm : m = key
      · rw [if_pos hm, if_pos hm]
      · rw [if_neg hm, if_neg hm, List.lookup_cons, beq_eq_false_iff_ne.mpr hm]
    · rw [List.filter_cons_of_pos (by simpa using hkey), List.lookup_cons, List.lookup_cons, ih]
      by_cases hm : m = key
      · subst hm
        simp [hkey]
      · rw [beq_eq_false_iff_ne.mpr hm]

@[simp] theorem channel_without : (without n d).channel m = if m = n then none else d.channel m :=
  lookup_filter_ne d.channelMap n m

/-- With distinct keys an entry is what is found. -/
theorem lookup_of_mem {l : List (Str × Nat)} (h : (l.map Prod.fst).Nodup) {key : Str} {i : Nat}
    (hmem : (key, i) ∈ l) : l.lookup key = some i := by
  induction l with
  | nil => cases hmem
  | cons entry l ih =>
    rw [List.map_cons, List.nodup_cons] at h
    rw [List.lookup_cons]
    rcases List.mem_cons.mp hmem with rfl | hmem
    · simp
    · have hne : key ≠ entry.1 := by
        rintro rfl
        exact h.1 (List.mem_map.mpr ⟨_, hmem, rfl⟩)
      rw [beq_eq_false_iff_ne.mpr hne]
      exact ih h.2 hmem

theorem keys_without (h : (d.channelMap.map Prod.fst).Nodup) :
    ((without n d).channelMap.map Prod.fst).Nodup :=
  List.Nodup.sublist (List.Sublist.map _ List.filter_sublist) h

/-- The entry of a nickname without a downloader at work can be forgotten. -/
theorem Registry.without {w : World} (h : Registry d w) (hn : Free n w) :
    Registry (without n d) w := by
  refine ⟨keys_without h.keys, fun m i hi => ?_, fun i m ch hm hch hwork hrem => ?_, h.received,
    fun m i ch hi => ?_⟩
  · rw [channel_without] at hi
    split at hi
    · cases hi
    · exact h.mapped m i hi
  · rw [channel_without, if_neg]
    · exact h.registered i m ch hm hch hwork hrem
    · rintro rfl
      exact hrem (hn i ch hm hch hwork)
  · rw [channel_without] at hi
    split at hi
    · cases hi
    · exact h.connected m i ch hi

/-- A new entry, for a downloader still to be started. -/
theorem Registry.insert {w : World} {ch : Channels} (h : Registry d w) (hn : Free n w)
    (hnone : d.channel n = none) (hi : w.nickname i = some n) (hch : w.channels i = some ch)
    (hc : ch.connected = true) :
    Registry { d with channelMap := (n, i) :: d.channelMap } w := by
  have hchannel : ∀ m, OutgoingDownloader.channel { d with channelMap := (n, i) :: d.channelMap } m =
      if m = n then some i else d.channel m := by
    intro m
    show List.lookup m ((n, i) :: d.channelMap) = _
    rw [List.lookup_cons]
    by_cases hm : m = n
    · simp [hm]
    · rw [beq_eq_false_iff_ne.mpr hm, if_neg hm]
      rfl
  refine ⟨?_, fun m j hj => ?_, fun j m ch hm hch hwork hrem => ?_, h.received,
    fun m j ch' hj hch' => ?_⟩
  · rw [List.map_cons, List.nodup_cons]
    refine ⟨fun hmem => ?_, h.keys⟩
    obtain ⟨entry, hentry, he⟩ := List.mem_map.mp hmem
    have hlookup : d.channelMap.lookup entry.1 = some entry.2 := lookup_of_mem h.keys hentry
    rw [show entry.1 = n from he] at hlookup
    rw [show d.channel n = _ from hlookup] at hnone
    cases hnone
  · rw [hchannel] at hj
    split at hj
    · rename_i hm
      cases hj
      rw [hm]
      exact hi
    · exact h.mapped m j hj
  · rw [hchannel, if_neg]
    · exact h.registered j m ch hm hch hwork hrem
    · rintro rfl
      exact hrem (hn j ch hm hch hwork)
  · rw [hchannel] at hj
    split at hj
    · cases hj
      rw [hch] at hch'
      cases hch'
      exact hc
    · exact h.connected m j ch' hj hch'

end Map

/-! ## 4. The commands of the core -/

/-- Nicknames that are free, next to the registry. -/
structure Orderly (names : List Str) (d : OutgoingDownloader) (w : World) : Prop where
  registry : Registry d w
  free : ∀ n ∈ names, Free n w

/-- A downloader that goes on leaves free what is free. -/
theorem Orderly.goOn {names : List Str} {d : OutgoingDownloader} {w w' : World} (h : Orderly names d w)
    (hw : ThreadsGoOn w w') : Orderly names d w' :=
  ⟨h.registry.goOn hw, fun n hn => (h.free n hn).goOn hw⟩

/-- A thread whose channels have been made, and which was not started. -/
structure Made (i : Nat) (n : Str) (w : World) : Prop where
  nickname : w.nickname i = some n
  program : w.program i = none
  channels : ∃ ch, w.channels i = some ch ∧ ch.connected = true ∧ ch.received = true

/-- What holds when the core issues a command. -/
def Ready (d : OutgoingDownloader) (w : World) : CoreCmd → Prop
  | .spawn i user path isPaused _ config => Made i user.nickname w ∧ Free user.nickname w ∧
      d.channel user.nickname = some i ∧ path = queueFilePath d.config user.nickname ∧
      isPaused = d.isDownloadingPaused ∧ config = d.config
  | .queueAppend path _ => ∃ n, path = queueFilePath d.config n ∧ Free n w
  | .dropSenders i => ∀ n, d.channel n ≠ some i
  | .newChannels n => Free n w
  | .send i _ => ∃ n, d.channel n = some i
  | .sendReverse i enc =>
      d.channel enc.sharedUser.nickname = some i ∧ userMatches d.config enc = true
  | _ => True

section Steps

variable {names : List Str} {d : OutgoingDownloader} {w w' : World} {i : Nat} {n : Str}

/-- The core has used the channels of a thread. -/
structure ToldOn (w w' : World) (i : Nat) : Prop where
  size : w'.threads.length = w.threads.length
  nickname : ∀ j, w'.nickname j = w.nickname j
  program : ∀ j, w'.program j = w.program j
  channels : ∀ j ch', w'.channels j = some ch' → ∃ ch, w.channels j = some ch ∧
    (ch.removed → ch'.removed) ∧ ch'.received = ch.received ∧
      (ch'.connected = ch.connected ∨ j = i)

/-- One pair of channels is used; a message in it is not taken back. -/
theorem toldOn_setChannels {ch ch' : Channels} (hch : w.channels i = some ch)
    (hrem : ch.removed → ch'.removed) (hrec : ch'.received = ch.received) :
    ToldOn w (w.setChannels i ch') i := by
  refine ⟨length_update _, fun j => World.nickname_setChannels _ _ _ _,
    fun j => World.program_setChannels _ _ _ _, fun j ch'' hch'' => ?_⟩
  rw [World.channels_setChannels] at hch''
  obtain ⟨ch₀, hch₀, he⟩ := Option.map_eq_some_iff.mp hch''
  by_cases hij : i = j
  · subst hij
    rw [if_pos rfl] at he
    subst he
    exact ⟨ch, hch, hrem, hrec, .inr rfl⟩
  · rw [if_neg hij] at he
    subst he
    exact ⟨ch₀, hch₀, id, rfl, .inl rfl⟩

theorem ToldOn.atWork (h : ToldOn w w' i) (j : Nat) : w'.atWork j ↔ w.atWork j := by
  unfold World.atWork
  rw [h.program]

/-- **A message breaks nothing**, where the sender of an entry is still held afterwards. -/
theorem Orderly.told (hk : Orderly names d w) (h : ToldOn w w' i) (hi : ∀ n, d.channel n = some i →
    ∀ ch, w'.channels i = some ch → ch.connected = true) : Orderly names d w' := by
  refine ⟨⟨hk.registry.keys, fun n j hj => ?_, fun j n ch' hn hch' hwork hrem => ?_,
    fun j ch' hch' hrec => ?_, fun n j ch' hj hch' => ?_⟩, fun n hn j ch' hj hch' hwork => ?_⟩
  · rw [h.nickname]
    exact hk.registry.mapped n j hj
  · obtain ⟨ch, hch, hr, -⟩ := h.channels j ch' hch'
    rw [h.nickname] at hn
    exact hk.registry.registered j n ch hn hch ((h.atWork j).mp hwork) fun hre => hrem (hr hre)
  · obtain ⟨ch, hch, -, hre, -⟩ := h.channels j ch' hch'
    have hend := hk.registry.received j ch hch (hre ▸ hrec)
    rw [h.program, h.atWork]
    exact hend
  · obtain ⟨ch, hch, -, -, hc | hji⟩ := h.channels j ch' hch'
    · exact hc.trans (hk.registry.connected n j ch hj hch)
    · subst hji
      exact hi n hj ch' hch'
  · obtain ⟨ch, hch, hr, -⟩ := h.channels j ch' hch'
    rw [h.nickname] at hj
    exact hr (hk.free n hn j ch hj hch ((h.atWork j).mp hwork))

/-- A thread still to be started is not told anything. -/
theorem Made.told (hm : Made i n w) {j : Nat} (h : ToldOn w w' j) (hji : j ≠ i) :
    Made i n w' := by
  obtain ⟨ch, hch, hc, hr⟩ := hm.channels
  refine ⟨(h.nickname i).trans hm.nickname, (h.program i).trans hm.program, ?_⟩
  have hsome : (w'.channels i).isSome := by
    have hn := (h.nickname i).trans hm.nickname
    unfold World.nickname at hn
    unfold World.channels
    cases hth : w'.threads[i]? with
    | none =>
      rw [hth] at hn
      cases hn
    | some th => rfl
  obtain ⟨ch', hch'⟩ := Option.isSome_iff_exists.mp hsome
  obtain ⟨ch₀, hch₀, -, hrec, hcon⟩ := h.channels i ch' hch'
  rw [hch] at hch₀
  cases hch₀
  rcases hcon with hcon | hij
  · exact ⟨ch', hch', hcon.trans hc, hrec.trans hr⟩
  · exact absurd hij.symm hji

/-- Nor does it go on by itself. -/
theorem Made.goOn (hm : Made i n w) (h : ThreadsGoOn w w') : Made i n w' := by
  obtain ⟨ch, hch, hc, hr⟩ := hm.channels
  have hprogram : w'.program i = none := by
    have hs := h.started i
    rw [hm.program] at hs
    exact Option.not_isSome_iff_eq_none.mp (by simp [hs])
  have hn := (h.nickname i).trans hm.nickname
  refine ⟨hn, hprogram, ?_⟩
  unfold World.nickname at hn
  obtain ⟨th, hth, -⟩ := Option.map_eq_some_iff.mp hn
  have hch' := World.channels_of_threads hth
  obtain ⟨ch₀, hch₀, -, -, hcon, hrec⟩ := h.channels i _ hch'
  rw [hch] at hch₀
  cases hch₀
  refine ⟨_, hch', hcon.trans hc, ?_⟩
  rcases hrec with hrec | ⟨hsome, -⟩
  · exact hrec.trans hr
  · rw [hprogram] at hsome
    cases hsome

end Steps

/-! ## 5. The core keeps the registry -/

/-- The registry, as something every party keeps to. -/
def registryParties [Crates] (ioFails : Prop) (allowed : World → Turn → Prop) : Parties Unit where
  ioFails := ioFails
  allowed := allowed
  known _ _ := True
  coreKnown _ _ _ := True
  account _ g := g
  idle d wg := Registry d wg.1
  coreOk wg d c := Registry d wg.1 ∧ Ready d wg.1 c
  threadOk _ _ _ _ := True
  threadEnd _ _ _ := True
  aroundCore wg wg' := ThreadsGoOn wg.1 wg'.1
  aroundThread _ _ _ := True

section Core

variable [Crates] {ioFails : Prop} {allowed : World → Turn → Prop} {names : List Str}
  {d : OutgoingDownloader} {wg : World × Unit} {i : Nat} {n : Str}

/-- The surroundings of the core. -/
abbrev registryEnv (ioFails : Prop) (allowed : World → Turn → Prop) :
    Env OutgoingDownloader CoreCmd CoreCmd.Ans (World × Unit) :=
  (registryParties ioFails allowed).coreEnv.among (registryParties ioFails allowed).aroundCore

/-- A command of the core, among the downloaders. -/
theorem wp_coreCommand {c : CoreCmd} {I : World → Prop} {J : c.Ans → World → Prop}
    (hI : ∀ w w', ThreadsGoOn w w' → I w → I w')
    (hJ : ∀ a w w', ThreadsGoOn w w' → J a w → J a w')
    (hok : ∀ w, I w → Registry d w ∧ Ready d w c)
    (hstep : ∀ w a w', I w → w.CoreStep ioFails c a w' → J a w') (hw : I wg.1) :
    wp (registryEnv ioFails allowed) (coreCommand c) (fun a d' wg' => d' = d ∧ J a wg'.1)
      (fun _ _ _ => False) d wg := by
  have hstable : ∀ {K : World → Prop}, (∀ w w', ThreadsGoOn w w' → K w → K w') →
      ∀ wg wg' : World × Unit, (registryParties ioFails allowed).aroundCore wg wg' → K wg.1 → K wg'.1 :=
    fun hK wg wg' h => hK wg.1 wg'.1 h
  refine wp_issue_among (I := fun wg : World × Unit => I wg.1)
    (J := fun a (wg : World × Unit) => J a wg.1) (hstable hI) (fun a => hstable (hJ a))
    (fun wg hi _ _ => hok wg.1 hi) ?_ hw
  rintro wg a wg' hi ⟨-, -, -, hs, -⟩
  exact hstep wg.1 a wg'.1 hi hs

/-- A message to a thread: if there was no receiver, the thread has ended. -/
theorem wp_send {m : MessageSingleDownloader} (hmap : d.channel n = some i)
    (h : Orderly names d wg.1) :
    wp (registryEnv ioFails allowed) (coreCommand (.send i m)) (fun (a : Bool) d' wg' => d' = d ∧
      Orderly names d wg'.1 ∧ ((a = false ∨ m = .removeUser) → Free n wg'.1))
      (fun _ _ _ => False) d wg := by
  refine wp_coreCommand (c := .send i m) (I := Orderly names d)
    (J := fun (a : Bool) w => Orderly names d w ∧ ((a = false ∨ m = .removeUser) → Free n w))
    (fun w w' hw hs => hs.goOn hw)
    (fun a w w' hw hs => ⟨hs.1.goOn hw, fun ha => (hs.2 ha).goOn hw⟩)
    (fun w hs => ⟨hs.registry, n, hmap⟩) ?_ h
  -- with a receiver the message is posted; without one the thread has come to its end
  rintro w a w' hs ⟨ch, hch, ⟨ha, hrec, rfl⟩ | ⟨ha, hrec, rfl⟩⟩
  · have htold : ToldOn w (w.setChannels i { ch with posted := ch.posted ++ [m] }) i :=
      toldOn_setChannels hch (fun hr => List.mem_append_left _ hr) rfl
    have horderly : Orderly names d (w.setChannels i { ch with posted := ch.posted ++ [m] }) := by
      refine hs.told htold fun k hk ch' hch' => ?_
      rw [World.channels_setChannels, hch] at hch'
      simp only [Option.map_some, if_true, Option.some.injEq] at hch'
      rw [← hch']
      exact hs.registry.connected k i ch hk hch
    refine ⟨horderly, fun hm => horderly.registry.free_of_gone hmap fun ch' hch' _ => ?_⟩
    rcases hm with hm | rfl
    · rw [ha] at hm
      cases hm
    · rw [World.channels_setChannels, hch] at hch'
      simp only [Option.map_some, if_true, Option.some.injEq] at hch'
      rw [← hch']
      exact List.mem_append_right _ List.mem_cons_self
  · refine ⟨hs, fun _ => hs.registry.free_of_gone hmap fun ch' hch' hwork => ?_⟩
    rw [hch] at hch'
    cases hch'
    exact absurd hwork (hs.registry.received i ch hch hrec).2

/-- Commands that leave the threads alone. -/
def CoreCmd.besideThreads : CoreCmd → Prop
  | .queueExists _ => True
  | .queueAppend _ _ => True
  | .setRefreshData _ => True
  | .startRefresh _ _ => True
  | .pollRefresh => True
  | _ => False

/-- The queue files and the cache are not the threads. -/
theorem threads_coreStep {w w' : World} {c : CoreCmd} {a : c.Ans} (hc : c.besideThreads)
    (h : w.CoreStep ioFails c a w') : w'.threads = w.threads := by
  cases c with
  | queueExists path => rw [h.2]
  | queueAppend path bytes =>
    cases a with
    | ok u => rw [show w' = _ from h]; rfl
    | error e =>
      obtain ⟨-, file, rfl⟩ := h
      rfl
  | setRefreshData nicknames => rw [show w' = _ from h]
  | startRefresh nickname config => rw [show w' = _ from h]
  | pollRefresh => rw [show w' = _ from h]
  | _ => exact hc.elim

/-- Such a command leaves the registry as it is. -/
theorem wp_besideThreads {c : CoreCmd} (hc : c.besideThreads)
    (hready : ∀ w, Orderly names d w → Ready d w c) (h : Orderly names d wg.1) :
    wp (registryEnv ioFails allowed) (coreCommand c) (fun _ d' wg' => d' = d ∧ Orderly names d wg'.1)
      (fun _ _ _ => False) d wg := by
  refine wp_coreCommand (I := Orderly names d) (J := fun _ => Orderly names d)
    (fun w w' hw hs => hs.goOn hw) (fun _ w w' hw hs => hs.goOn hw)
    (fun w hs => ⟨hs.registry, hready w hs⟩) (fun w a w' hs hstep => ?_) h
  exact hs.goOn (.of_threads (threads_coreStep hc hstep))

/-- The reverse connection goes to the downloader of the entry; if it has ended, the connection is lost. -/
theorem wp_sendReverse {enc : EncryptedStream} (hmap : d.channel enc.sharedUser.nickname = some i)
    (hmatch : userMatches d.config enc = true) (h : Orderly names d wg.1) :
    wp (registryEnv ioFails allowed) (coreCommand (.sendReverse i enc))
      (fun _ d' wg' => d' = d ∧ Orderly names d wg'.1) (fun _ _ _ => False) d wg := by
  refine wp_coreCommand (c := .sendReverse i enc) (I := Orderly names d)
    (J := fun _ => Orderly names d) (fun w w' hw hs => hs.goOn hw) (fun _ w w' hw hs => hs.goOn hw)
    (fun w hs => ⟨hs.registry, hmap, hmatch⟩) ?_ h
  rintro w a w' hs ⟨ch, hch, ⟨hrec, rfl⟩ | ⟨hrec, rfl⟩⟩
  · refine hs.told (toldOn_setChannels hch id rfl) fun k hk ch' hch' => ?_
    rw [World.channels_setChannels, hch] at hch'
    simp only [Option.map_some, if_true, Option.some.injEq] at hch'
    rw [← hch']
    exact hs.registry.connected k i ch hk hch
  · exact hs

/-! ### Entries of the map -/

omit [Crates] in
/-- Nothing is taken out where there is no entry. -/
theorem without_of_none (h : d.channel n = none) : without n d = d := by
  have hlist : d.channelMap.filter (fun entry => entry.1 ≠ n) = d.channelMap := by
    refine List.filter_eq_self.mpr fun entry hentry => ?_
    have hne := List.lookup_eq_none_iff.mp h entry hentry
    refine decide_eq_true fun he => ?_
    rw [he, bne_self_eq_false] at hne
    cases hne
  unfold without
  rw [hlist]

/-- Removing an entry; `K` is something else that holds of the world. -/
theorem wp_removeChannel {K : World → Prop} (hK : ∀ w w', ThreadsGoOn w w' → K w → K w')
    (hdrop : ∀ w w' j, d.channel n = some j → ToldOn w w' j → K w → K w')
    (h : Orderly names d wg.1) (hn : n ∈ names) (hk : K wg.1) :
    wp (registryEnv ioFails allowed) (removeChannel n) (fun _ d' wg' => d' = without n d ∧
      Orderly names d' wg'.1 ∧ K wg'.1) (fun _ _ _ => False) d wg := by
  unfold removeChannel
  rw [wp_bind, wp_get]
  cases hc : d.channel n with
  | none => exact ⟨(without_of_none hc).symm, h, hk⟩
  | some j =>
    have horderly : Orderly names (without n d) wg.1 :=
      ⟨h.registry.without (h.free n hn), h.free⟩
    -- two entries with one thread would give it two nicknames
    have hunmapped : ∀ m, (without n d).channel m ≠ some j := by
      intro m hm
      rw [channel_without] at hm
      split at hm
      · cases hm
      rename_i hne
      have h₁ := h.registry.mapped n j hc
      have h₂ := h.registry.mapped m j hm
      rw [h₁] at h₂
      exact hne (Option.some.inj h₂).symm
    have hcmd : wp (registryEnv ioFails allowed) (coreCommand (.dropSenders j)) (fun _ d' wg' =>
        d' = without n d ∧ Orderly names (without n d) wg'.1 ∧ K wg'.1) (fun _ _ _ => False)
        (without n d) wg := by
      refine wp_coreCommand (c := .dropSenders j) (I := fun w => Orderly names (without n d) w ∧ K w)
        (J := fun _ w => Orderly names (without n d) w ∧ K w)
        (fun w w' hw hs => ⟨hs.1.goOn hw, hK w w' hw hs.2⟩)
        (fun _ w w' hw hs => ⟨hs.1.goOn hw, hK w w' hw hs.2⟩)
        (fun w hs => ⟨hs.1.registry, hunmapped⟩) ?_ ⟨horderly, hk⟩
      rintro w a w' hs ⟨ch, hch, rfl⟩
      have htold : ToldOn w (w.setChannels j { ch with connected := false }) j :=
        toldOn_setChannels hch id rfl
      exact ⟨hs.1.told htold fun m hm => absurd hm (hunmapped m), hdrop w _ j hc htold hs.2⟩
    exact wp_conseq hcmd (fun _ d' wg' h' => ⟨h'.1, h'.1 ▸ h'.2.1, h'.2.2⟩) fun _ _ _ h' => h'

/-! ### A new downloader -/

/-- The world with the channels of one more thread. -/
def World.withThread (w : World) (n : Str) : World :=
  { w with threads := w.threads ++ [{ nickname := n, channels := .new, program := none }] }

omit [Crates] in
/-- The threads before, and one more, which was not started. -/
theorem threads_withThread (w : World) (n : Str) (j : Nat) : (w.withThread n).threads[j]? =
    if j = w.threads.length then some { nickname := n, channels := .new, program := none }
    else w.threads[j]? := by
  unfold World.withThread
  rw [List.getElem?_append]
  by_cases hj : j = w.threads.length
  · simp [hj]
  · rw [if_neg hj]
    split
    · rfl
    · rename_i hlt
      rw [List.getElem?_eq_none (by simp; omega), List.getElem?_eq_none (by omega)]

omit [Crates] in
/-- A thread of the world after it was there before, or is the new one, which was not started. -/
theorem withThread_cases {w : World} {n : Str} {j : Nat} {th : Downloader}
    (h : (w.withThread n).threads[j]? = some th) : w.threads[j]? = some th ∨
      j = w.threads.length ∧ th = { nickname := n, channels := .new, program := none } := by
  rw [threads_withThread] at h
  split at h
  · cases h
    exact .inr ⟨by assumption, rfl⟩
  · exact .inl h

omit [Crates] in
/-- Only a thread that was there before can be at work. -/
theorem atWork_withThread {w : World} {n : Str} {j : Nat} (h : (w.withThread n).atWork j) :
    ∃ th, w.threads[j]? = some th ∧ (w.withThread n).threads[j]? = some th ∧ w.atWork j := by
  obtain ⟨p, hp, hret⟩ := h
  obtain ⟨th, hth, hthp⟩ := World.threads_of_program hp
  rcases withThread_cases hth with hth' | ⟨-, rfl⟩
  · exact ⟨th, hth', hth, p, World.program_of_threads hth' hthp, hret⟩
  · cases hthp

omit [Crates] in
theorem nickname_withThread {w : World} {n m : Str} {j : Nat} (h : w.nickname j = some m) :
    (w.withThread n).nickname j = some m := by
  obtain ⟨th, hth, rfl⟩ := Option.map_eq_some_iff.mp h
  have hlt : j < w.threads.length := (List.getElem?_eq_some_iff.mp hth).1
  unfold World.nickname
  rw [threads_withThread, if_neg (by omega), hth]
  rfl

omit [Crates] in
/-- **Channels for a thread to be** disturb nobody: it has no program yet, and no entry. -/
theorem Orderly.withThread {w : World} (h : Orderly names d w) :
    Orderly names d (w.withThread n) := by
  have hold : ∀ {j m ch}, (w.withThread n).nickname j = some m →
      (w.withThread n).channels j = some ch → (w.withThread n).atWork j →
        w.nickname j = some m ∧ w.channels j = some ch ∧ w.atWork j := by
    intro j m ch hm hch hwork
    obtain ⟨th, hth, hth', hwork'⟩ := atWork_withThread hwork
    unfold World.nickname at hm ⊢
    unfold World.channels at hch ⊢
    rw [hth'] at hm hch
    rw [hth]
    exact ⟨hm, hch, hwork'⟩
  refine ⟨⟨h.registry.keys, fun m j hj => nickname_withThread (h.registry.mapped m j hj),
    fun j m ch hm hch hwork hrem => ?_, fun j ch hch hrec => ?_, fun m j ch hj hch => ?_⟩,
    fun m hm j ch hj hch hwork => ?_⟩
  · obtain ⟨hm, hch, hwork⟩ := hold hm hch hwork
    exact h.registry.registered j m ch hm hch hwork hrem
  · obtain ⟨th, hth, rfl⟩ := Option.map_eq_some_iff.mp hch
    rcases withThread_cases hth with hth' | ⟨-, rfl⟩
    · obtain ⟨hsome, hwork⟩ := h.registry.received j _ (World.channels_of_threads hth') hrec
      refine ⟨?_, fun hw => ?_⟩
      · unfold World.program at hsome ⊢
        rw [hth'] at hsome
        rw [hth]
        exact hsome
      · obtain ⟨_, _, _, hwork'⟩ := atWork_withThread hw
        exact hwork hwork'
    · cases hrec
  · have hn := h.registry.mapped m j hj
    obtain ⟨th, hth, -⟩ := Option.map_eq_some_iff.mp hn
    have hlt : j < w.threads.length := (List.getElem?_eq_some_iff.mp hth).1
    unfold World.channels at hch
    rw [threads_withThread, if_neg (by omega)] at hch
    exact h.registry.connected m j ch hj hch
  · obtain ⟨hj, hch, hwork⟩ := hold hj hch hwork
    exact h.free m hm j ch hj hch hwork

omit [Crates] in
/-- The new thread, for which there is no entry. -/
theorem made_withThread {w : World} (h : Registry d w) : Made w.threads.length n (w.withThread n) ∧
    ∀ m, d.channel m ≠ some w.threads.length := by
  have hth : (w.withThread n).threads[w.threads.length]? =
      some { nickname := n, channels := .new, program := none } := by
    rw [threads_withThread, if_pos rfl]
  refine ⟨⟨?_, ?_, Channels.new, World.channels_of_threads hth, rfl, rfl⟩, fun m hm => ?_⟩
  · unfold World.nickname
    rw [hth]
    rfl
  · unfold World.program
    rw [hth]
    rfl
  · have hn := h.mapped m _ hm
    obtain ⟨th, hth, -⟩ := Option.map_eq_some_iff.mp hn
    have hlt := (List.getElem?_eq_some_iff.mp hth).1
    omega

omit [Crates] in
/-- The thread is started. -/
theorem Orderly.spawn {w : World} {p : DlProgram} (h : Orderly (n :: names) d w) (hn : n ∉ names)
    (hm : Made i n w) (hmap : d.channel n = some i) : Orderly names d (w.setProgram i p) := by
  -- the others work on; the new one has its entry, and its nickname is no longer promised to be free
  have hother : ∀ {j}, j ≠ i → ((w.setProgram i p).atWork j ↔ w.atWork j) := by
    intro j hj
    unfold World.atWork
    rw [World.program_setProgram, if_neg (Ne.symm hj)]
  refine ⟨⟨h.registry.keys, fun m j hj => ?_, fun j m ch hj hch hwork hrem => ?_,
    fun j ch hch hrec => ?_, fun m j ch hj hch => ?_⟩, fun m hmem j ch hj hch hwork => ?_⟩
  · rw [World.nickname_setProgram]
    exact h.registry.mapped m j hj
  · rw [World.nickname_setProgram] at hj
    rw [World.channels_setProgram] at hch
    by_cases hji : j = i
    · subst hji
      rw [hm.nickname] at hj
      cases hj
      exact hmap
    · exact h.registry.registered j m ch hj hch ((hother hji).mp hwork) hrem
  · rw [World.channels_setProgram] at hch
    by_cases hji : j = i
    · subst hji
      obtain ⟨ch', hch', -, hr⟩ := hm.channels
      rw [hch] at hch'
      cases hch'
      rw [hrec] at hr
      cases hr
    · have hend := h.registry.received j ch hch hrec
      rw [hother hji, World.program_setProgram, if_neg (Ne.symm hji)]
      exact hend
  · rw [World.channels_setProgram] at hch
    exact h.registry.connected m j ch hj hch
  · rw [World.nickname_setProgram] at hj
    rw [World.channels_setProgram] at hch
    have hji : j ≠ i := by
      rintro rfl
      rw [hm.nickname] at hj
      cases hj
      exact hn hmem
    exact h.free m (List.mem_cons_of_mem n hmem) j ch hj hch ((hother hji).mp hwork)

/-- **A downloader is started** for a free nickname. -/
theorem wp_startThread {user : SharedUser} {reverse : Option EncryptedStream}
    (h : Orderly (user.nickname :: names) d wg.1) (hn : user.nickname ∉ names) :
    wp (registryEnv ioFails allowed) (startThread user (queueFilePath d.config user.nickname) reverse)
      (fun _ d' wg' => Orderly names d' wg'.1) (fun _ _ _ => False) d wg := by
  -- the channels first, then the entry in place of an old one, then the thread
  have hnew : wp (registryEnv ioFails allowed) (coreCommand (.newChannels user.nickname))
      (fun (i : Nat) d' wg' => d' = d ∧ Orderly (user.nickname :: names) d wg'.1 ∧
        Made i user.nickname wg'.1 ∧ ∀ m, d.channel m ≠ some i) (fun _ _ _ => False) d wg := by
    refine wp_coreCommand (c := .newChannels user.nickname)
      (I := Orderly (user.nickname :: names) d)
      (J := fun (i : Nat) w => Orderly (user.nickname :: names) d w ∧ Made i user.nickname w ∧
        ∀ m, d.channel m ≠ some i) (fun w w' hw hs => hs.goOn hw)
      (fun _ w w' hw hs => ⟨hs.1.goOn hw, hs.2.1.goOn hw, hs.2.2⟩)
      (fun w hs => ⟨hs.registry, hs.free _ List.mem_cons_self⟩) ?_ h
    rintro w i w' hs ⟨rfl, rfl⟩
    obtain ⟨hmade, hun⟩ := made_withThread (n := user.nickname) hs.registry
    exact ⟨hs.withThread, hmade, hun⟩
  refine wp_seq hnew (fun i d₁ wg₁ h₁ => ?_) fun _ _ _ hf => hf
  obtain ⟨rfl, hs, hmade, hun⟩ := h₁
  have hremove : wp (registryEnv ioFails allowed) (removeChannel user.nickname) (fun _ d' wg' =>
      d' = without user.nickname d₁ ∧ Orderly (user.nickname :: names) d' wg'.1 ∧
        Made i user.nickname wg'.1) (fun _ _ _ => False) d₁ wg₁ :=
    wp_removeChannel (fun w w' hw hm => hm.goOn hw)
      (fun w w' j hj htold hm => hm.told htold fun hji => hun _ (hji ▸ hj)) hs List.mem_cons_self
      hmade
  have hinsert : wp (registryEnv ioFails allowed) (insertChannel user.nickname i) (fun _ d' wg' =>
      Orderly (user.nickname :: names) d' wg'.1 ∧ Made i user.nickname wg'.1 ∧
        d'.channel user.nickname = some i ∧ d'.config = d₁.config) (fun _ _ _ => False) d₁ wg₁ := by
    refine wp_seq hremove (fun _ d₂ wg₂ h₂ => ?_) fun _ _ _ hf => hf
    obtain ⟨rfl, hs₂, hmade₂⟩ := h₂
    obtain ⟨ch, hch, hc, -⟩ := hmade₂.channels
    refine ⟨⟨hs₂.registry.insert (hs₂.free _ List.mem_cons_self) (by simp) hmade₂.nickname hch hc,
      hs₂.free⟩, hmade₂, ?_, rfl⟩
    exact List.lookup_cons_self
  refine wp_seq hinsert (fun _ d₂ wg₂ h₂ => ?_) fun _ _ _ hf => hf
  obtain ⟨hs₂, hmade₂, hmap, hconfig⟩ := h₂
  have hspawn : wp (registryEnv ioFails allowed) (coreCommand (.spawn i user
      (queueFilePath d₁.config user.nickname) d₂.isDownloadingPaused reverse d₂.config))
      (fun _ d' wg' => d' = d₂ ∧ Orderly names d₂ wg'.1) (fun _ _ _ => False) d₂ wg₂ := by
    refine wp_coreCommand (c := .spawn i user _ _ _ _)
      (I := fun w => Orderly (user.nickname :: names) d₂ w ∧ Made i user.nickname w)
      (J := fun _ => Orderly names d₂) (fun w w' hw hs => ⟨hs.1.goOn hw, hs.2.goOn hw⟩)
      (fun _ w w' hw hs => hs.goOn hw) (fun w hs => ⟨hs.1.registry, hs.2,
        hs.1.free _ List.mem_cons_self, hmap, by rw [hconfig], rfl, rfl⟩) ?_ ⟨hs₂, hmade₂⟩
    rintro w a w' ⟨hs, hm⟩ ⟨fuel, k, encryptedStream, rfl⟩
    exact hs.spawn hn hm hmap
  exact wp_conseq hspawn (fun _ d' wg' h' => h'.1 ▸ h'.2) fun _ _ _ hf => hf

/-! ### The methods -/

/-- A downloader for a user whose nickname is free, where there is something to download. -/
theorem wp_startDownloadingSingleUser {user : SharedUser}
    (h : Orderly (user.nickname :: names) d wg.1) (hn : user.nickname ∉ names) :
    wp (registryEnv ioFails allowed) (startDownloadingSingleUser user none)
      (fun _ d' wg' => Orderly names d' wg'.1) (fun _ _ _ => False) d wg := by
  have hexists : wp (registryEnv ioFails allowed)
      (coreCommand (.queueExists (queueFilePath d.config user.nickname)))
      (fun _ d' wg' => d' = d ∧ Orderly (user.nickname :: names) d wg'.1) (fun _ _ _ => False) d wg :=
    wp_besideThreads trivial (fun _ _ => trivial) h
  show wp _ (coreCommand (.queueExists (queueFilePath d.config user.nickname)) >>= _) _ _ d wg
  refine wp_seq hexists (fun (pathExists : Bool) d₁ wg₁ h₁ => ?_) fun _ _ _ hf => hf
  obtain ⟨rfl, h₁⟩ := h₁
  refine (wp_ite _ _ _).mpr ?_
  split
  · exact wp_startThread h₁ hn
  · exact ⟨h₁.registry, fun m hm => h₁.free m (List.mem_cons_of_mem _ hm)⟩

/-- A reverse connection is handed to the downloader of the user, or a downloader is started. -/
theorem wp_startReverse {enc : EncryptedStream} (h : Orderly [] d wg.1) :
    wp (registryEnv ioFails allowed) (startDownloadingSingleUser enc.sharedUser (some enc))
      (fun _ d' wg' => Orderly [] d' wg'.1) (fun _ _ _ => False) d wg := by
  unfold startDownloadingSingleUser
  rw [wp_bind, wp_get]
  refine (wp_ite _ _ _).mpr ?_
  split
  · rename_i hmatch
    cases hc : d.channel enc.sharedUser.nickname with
    | some i =>
      refine wp_conseq (wp_sendReverse hc hmatch h) (fun _ d' wg' h' => ?_) fun _ _ _ hf => hf
      rw [h'.1]
      exact h'.2
    | none =>
      have hfree : Orderly [enc.sharedUser.nickname] d wg.1 :=
        ⟨h.registry, fun m hm => List.mem_singleton.mp hm ▸ h.registry.free_of_none hc⟩
      exact wp_startThread hfree List.not_mem_nil
  · exact h

/-- Over the users; their nicknames are distinct, so each start leaves the rest free. -/
theorem wp_startDownloadingUsers : ∀ (users : List SharedUser) {d : OutgoingDownloader}
    {wg : World × Unit}, (users.map SharedUser.nickname).Nodup →
    Orderly (users.map SharedUser.nickname) d wg.1 →
    wp (registryEnv ioFails allowed) (startDownloadingUsers users)
      (fun _ d' wg' => Orderly [] d' wg'.1) (fun _ _ _ => False) d wg
  | [], _, _, _, h => h
  | user :: users, _, _, hnodup, h => by
    rw [List.map_cons, List.nodup_cons] at hnodup
    refine wp_seq (wp_startDownloadingSingleUser h hnodup.1) (fun _ d' wg' h' => ?_)
      fun _ _ _ hf => hf
    exact wp_startDownloadingUsers users hnodup.2 h'

/-- The keys whose thread was gone are free. -/
theorem wp_sendToEach {m : MessageSingleDownloader} : ∀ (entries : List (Str × Nat))
    {d : OutgoingDownloader} {names : List Str} {wg : World × Unit},
    (∀ entry ∈ entries, d.channel entry.1 = some entry.2) → Orderly names d wg.1 →
    wp (registryEnv ioFails allowed) (sendToEach m entries)
      (fun removeKeys d' wg' => d' = d ∧ Orderly (removeKeys ++ names) d wg'.1)
      (fun _ _ _ => False) d wg
  | [], _, _, _, _, h => ⟨rfl, h⟩
  | (key, i) :: entries, d, names, wg, hmap, h => by
    refine wp_seq (wp_send (hmap _ List.mem_cons_self) h) (fun (sent : Bool) d₁ wg₁ h₁ => ?_)
      fun _ _ _ hf => hf
    obtain ⟨rfl, hs, hfree⟩ := h₁
    have hrest : ∀ entry ∈ entries, d₁.channel entry.1 = some entry.2 :=
      fun entry he => hmap entry (List.mem_cons_of_mem _ he)
    by_cases hsent : sent = true
    · refine wp_seq (wp_sendToEach entries hrest hs) (fun removeKeys d₂ wg₂ h₂ => ?_)
        fun _ _ _ hf => hf
      rw [if_pos hsent]
      exact h₂
    · -- no receiver, so the nickname is free from here on
      have hkey : Orderly (key :: names) d₁ wg₁.1 := by
        refine ⟨hs.registry, fun n hn => ?_⟩
        rcases List.mem_cons.mp hn with rfl | hn
        · exact hfree (.inl (by simpa using hsent))
        · exact hs.free n hn
      refine wp_seq (wp_sendToEach entries hrest hkey) (fun removeKeys d₂ wg₂ h₂ => ?_)
        fun _ _ _ hf => hf
      rw [if_neg hsent]
      refine ⟨h₂.1, h₂.2.registry, fun n hn => h₂.2.free n ?_⟩
      simp only [List.cons_append, List.mem_cons, List.mem_append] at hn ⊢
      tauto

/-- The keys of the threads that were gone are taken out one by one. -/
theorem wp_removeChannels : ∀ (keys : List Str) {d : OutgoingDownloader} {wg : World × Unit},
    Orderly keys d wg.1 →
    wp (registryEnv ioFails allowed) (removeChannels keys)
      (fun _ d' wg' => d'.config = d.config ∧ d'.isDownloadingPaused = d.isDownloadingPaused ∧
        Orderly [] d' wg'.1) (fun _ _ _ => False) d wg
  | [], _, _, h => ⟨rfl, rfl, h⟩
  | key :: keys, d, _, h => by
    have hremove : wp (registryEnv ioFails allowed) (removeChannel key) _ _ _ _ :=
      wp_removeChannel (K := fun _ => True) (fun _ _ _ _ => trivial) (fun _ _ _ _ _ _ => trivial) h
        List.mem_cons_self trivial
    refine wp_seq hremove (fun _ d' wg' h' => ?_) fun _ _ _ hf => hf
    obtain ⟨rfl, hs, -⟩ := h'
    refine wp_conseq (wp_removeChannels keys ⟨hs.registry, fun n hn =>
      hs.free n (List.mem_cons_of_mem key hn)⟩) (fun _ d' wg' h' => ?_) fun _ _ _ hf => hf
    exact h'

/-- The registry, between two methods. -/
abbrev RegistryHolds (d : OutgoingDownloader) (wg : World × Unit) : Prop := Registry d wg.1

omit [Crates] in
theorem orderly_nil (h : Registry d wg.1) : Orderly [] d wg.1 :=
  ⟨h, fun _ hn => absurd hn List.not_mem_nil⟩

/-- **A message to all** leaves no entry of a downloader that is gone. -/
theorem maintains_sendMessageToAllDownloads (m : MessageSingleDownloader) :
    Maintains (registryEnv ioFails allowed) RegistryHolds (sendMessageToAllDownloads m) := by
  intro d wg h
  show wp _ (sendToEach m d.channelMap >>= _) _ _ d wg
  refine wp_seq (wp_sendToEach d.channelMap (fun entry he => ?_) (orderly_nil h))
    (fun removeKeys d₁ wg₁ h₁ => ?_) fun _ _ _ hf => False.elim hf
  · exact lookup_of_mem h.keys he
  · obtain ⟨rfl, hs⟩ := h₁
    rw [List.append_nil] at hs
    exact wp_conseq (wp_removeChannels removeKeys hs) (fun _ _ _ h' => h'.2.2.registry)
      fun _ _ _ hf => False.elim hf

theorem maintains_besideThreads {c : CoreCmd} (hc : c.besideThreads)
    (hready : ∀ d w, Registry d w → Ready d w c) :
    Maintains (registryEnv ioFails allowed) RegistryHolds (coreCommand c) := by
  intro d wg h
  refine wp_conseq (wp_besideThreads hc (fun w hs => hready d w hs.registry) (orderly_nil h))
    (fun _ d' wg' h' => ?_) fun _ _ _ hf => False.elim hf
  rw [h'.1]
  exact h'.2.registry

theorem maintains_setNewConfig (config : Config) :
    Maintains (registryEnv ioFails allowed) RegistryHolds (OutgoingDownloader.setNewConfig config) :=
  maintains_bind (maintains_modify fun _ _ h => ⟨h.keys, h.mapped, h.registered, h.received,
    h.connected⟩) fun _ => maintains_bind (maintains_sendMessageToAllDownloads _) fun _ =>
      maintains_besideThreads trivial fun _ _ _ => trivial

/-- A message to one of them does the same for his entry. -/
theorem maintains_sendMessageToDownload (nickname : Str) (m : MessageSingleDownloader) :
    Maintains (registryEnv ioFails allowed) RegistryHolds
      (OutgoingDownloader.sendMessageToDownload nickname m) := by
  intro d wg h
  unfold OutgoingDownloader.sendMessageToDownload
  rw [wp_bind, wp_get]
  cases hc : d.channel nickname with
  | none => exact h
  | some i =>
    refine wp_seq (wp_send hc (orderly_nil h)) (fun (sent : Bool) d₁ wg₁ h₁ => ?_)
      fun _ _ _ hf => False.elim hf
    obtain ⟨rfl, hs, hfree⟩ := h₁
    refine (wp_ite _ _ _).mpr ?_
    split
    · exact hs.registry
    · rename_i hsent
      have hkey : Orderly [nickname] d₁ wg₁.1 := ⟨hs.registry, fun n hn =>
        List.mem_singleton.mp hn ▸ hfree (.inl (by simpa using hsent))⟩
      refine wp_conseq (wp_removeChannel (K := fun _ => True) (fun _ _ _ _ => trivial)
        (fun _ _ _ _ _ _ => trivial) hkey List.mem_cons_self trivial) (fun _ _ _ h' => ?_)
        fun _ _ _ hf => False.elim hf
      exact h'.2.1.registry

theorem maintains_updateUser (nickname : Str) :
    Maintains (registryEnv ioFails allowed) RegistryHolds
      (OutgoingDownloader.updateUser nickname) := by
  intro d wg h
  unfold OutgoingDownloader.updateUser
  rw [wp_bind, wp_get]
  cases d.config.configFile.sharedUsers.find? fun user => user.nickname = nickname with
  | none => exact h
  | some user => exact maintains_sendMessageToDownload _ _ d wg h

/-- The queue file of a nickname without a downloader. -/
theorem wp_addToQueueFile {owner path : Str} {size : UInt64} (h : Orderly [owner] d wg.1) :
    wp (registryEnv ioFails allowed)
      (OutgoingDownloader.addToQueueFileAndStartDownloader owner path size)
      (fun _ => RegistryHolds) (fun _ => RegistryHolds) d wg := by
  have happend : wp (registryEnv ioFails allowed)
      (coreCommand (.queueAppend (queueFilePath d.config owner) (queueAppend path size)))
      (fun _ d' wg' => d' = d ∧ Orderly [owner] d wg'.1) (fun _ _ _ => False) d wg :=
    wp_besideThreads trivial (fun w hs => ⟨owner, rfl, hs.free _ List.mem_cons_self⟩) h
  unfold OutgoingDownloader.addToQueueFileAndStartDownloader
  rw [wp_bind, wp_get]
  refine wp_seq happend (fun written d₁ wg₁ h₁ => ?_) fun _ _ _ hf => False.elim hf
  obtain ⟨rfl, hs⟩ := h₁
  cases written with
  | error e => exact hs.registry
  | ok u =>
    dsimp only
    cases hu : d₁.config.configFile.sharedUsers.find? fun user => user.nickname = owner with
    | none => exact hs.registry
    | some user =>
      have hnick : user.nickname = owner := by simpa using List.find?_some hu
      rw [← hnick] at hs
      exact wp_conseq (wp_startDownloadingSingleUser hs List.not_mem_nil)
        (fun _ _ _ h' => h'.registry) fun _ _ _ hf => False.elim hf

/-- The downloader of the owner is told, or, where he has none, one is started after his queue file was
    written. -/
theorem maintains_downloadOne (download : SelectedDownload) :
    Maintains (registryEnv ioFails allowed) RegistryHolds
      (OutgoingDownloader.downloadOne download) := by
  intro d wg h
  unfold OutgoingDownloader.downloadOne
  rw [wp_bind, wp_get]
  cases hc : d.channel download.owner with
  | none =>
    exact wp_addToQueueFile ⟨h, fun n hn => List.mem_singleton.mp hn ▸ h.free_of_none hc⟩
  | some i =>
    refine wp_seq (wp_send hc (orderly_nil h)) (fun (sent : Bool) d₁ wg₁ h₁ => ?_)
      fun _ _ _ hf => False.elim hf
    obtain ⟨rfl, hs, hfree⟩ := h₁
    refine (wp_ite _ _ _).mpr ?_
    split
    · exact hs.registry
    · rename_i hsent
      exact wp_addToQueueFile ⟨hs.registry, fun n hn =>
        List.mem_singleton.mp hn ▸ hfree (.inl (by simpa using hsent))⟩

theorem maintains_downloadSelected : ∀ downloads : List SelectedDownload,
    Maintains (registryEnv ioFails allowed) RegistryHolds
      (OutgoingDownloader.downloadSelected downloads)
  | [] => maintains_pure ()
  | download :: downloads =>
    maintains_bind (maintains_downloadOne download) fun _ => maintains_downloadSelected downloads

/-- He is told to stop before his entry goes, so his nickname is free from then on. -/
theorem maintains_removeUser (nickname : Str) :
    Maintains (registryEnv ioFails allowed) RegistryHolds
      (OutgoingDownloader.removeUser nickname) := by
  intro d wg h
  unfold OutgoingDownloader.removeUser
  rw [wp_bind, wp_get]
  cases hc : d.channel nickname with
  | none => exact h
  | some i =>
    refine wp_seq (wp_send hc (orderly_nil h)) (fun _ d₁ wg₁ h₁ => ?_) fun _ _ _ hf => False.elim hf
    obtain ⟨rfl, hs, hfree⟩ := h₁
    -- a downloader that was told to remove its user does not count as one at work
    have hkey : Orderly [nickname] d₁ wg₁.1 :=
      ⟨hs.registry, fun n hn => List.mem_singleton.mp hn ▸ hfree (.inr rfl)⟩
    refine wp_conseq (wp_removeChannel (K := fun _ => True) (fun _ _ _ _ => trivial)
      (fun _ _ _ _ _ _ => trivial) hkey List.mem_cons_self trivial) (fun _ _ _ h' => ?_)
      fun _ _ _ hf => False.elim hf
    exact h'.2.1.registry

theorem maintains_startRefreshSingle (nickname : Str) :
    Maintains (registryEnv ioFails allowed) RegistryHolds
      (OutgoingDownloader.startRefreshSharedWithMeSingleUser nickname) := by
  intro d wg h
  show wp _ (coreCommand (.startRefresh nickname d.config)) _ _ d wg
  exact maintains_besideThreads (c := .startRefresh nickname d.config) trivial
    (fun _ _ _ => trivial) d wg h

theorem maintains_startRefreshUsers : ∀ users : List SharedUser,
    Maintains (registryEnv ioFails allowed) RegistryHolds
      (OutgoingDownloader.startRefreshUsers users)
  | [] => maintains_pure ()
  | user :: users =>
    maintains_bind (maintains_startRefreshSingle user.nickname) fun _ =>
      maintains_startRefreshUsers users

omit [Crates] in
theorem Registry.setPaused {w : World} (h : Registry d w) (isDownloadingPaused : Bool) :
    Registry { d with isDownloadingPaused } w :=
  ⟨h.keys, h.mapped, h.registered, h.received, h.connected⟩

/-- **What the core tells the downloads of an operation on the config.** -/
theorem maintains_follow (config : Config) (op : Operation) :
    Maintains (registryEnv ioFails allowed) RegistryHolds (op.follow config) := by
  cases op with
  | addNewUser => exact maintains_setNewConfig config
  | createNewId => exact maintains_setNewConfig config
  | setPathDownloadsDir => exact maintains_setNewConfig config
  | removeUser nickname =>
    exact maintains_bind (maintains_setNewConfig config) fun _ => maintains_removeUser nickname
  | setIgnoreIncoming =>
    exact maintains_bind (maintains_setNewConfig config) fun _ =>
      maintains_sendMessageToAllDownloads _
  | updateUser nickname =>
    exact maintains_bind (maintains_setNewConfig config) fun _ => maintains_updateUser nickname
  | _ => exact maintains_pure ()

/-- **The other operations on the downloads.** -/
theorem maintains_downloadOperation (op : DownloadOperation) :
    Maintains (registryEnv ioFails allowed) RegistryHolds op.run := by
  cases op with
  | cancelAll => exact maintains_sendMessageToAllDownloads _
  | cancelSingle nickname filePath => exact maintains_sendMessageToDownload _ _
  | pauseAll =>
    exact maintains_bind (maintains_modify fun _ _ h => h.setPaused true) fun _ =>
      maintains_sendMessageToAllDownloads _
  | resumeAll =>
    exact maintains_bind (maintains_modify fun _ _ h => h.setPaused false) fun _ =>
      maintains_sendMessageToAllDownloads _
  | downloadSelected downloads => exact maintains_downloadSelected downloads
  | startRefreshAll =>
    exact maintains_get fun d wg h => maintains_startRefreshUsers _ d wg h
  | startRefreshSingle nickname => exact maintains_startRefreshSingle nickname
  | getSharedWithMeData => exact maintains_besideThreads trivial fun _ _ _ => trivial
  | reverseConnection enc =>
    intro d wg h
    exact wp_conseq (wp_startReverse (orderly_nil h)) (fun _ _ _ h' => h'.registry)
      fun _ _ _ hf => False.elim hf

/-! ## 6. Every run -/

/-- **Each party keeps to the registry**: the core by its methods, the downloaders by going on. -/
theorem registry_lawful : (registryParties ioFails allowed).Lawful where
  core := ⟨fun wg => .refl wg.1, fun _ _ _ h h' => h.trans h'⟩
  thread _ := ⟨fun _ => trivial, fun _ _ _ _ _ => trivial⟩
  idle _ _ _ hw h := h.goOn hw
  threadEnd _ _ _ _ _ _ := trivial
  coreTurn _ _ _ _ _ _ _ _ _ _ _ _ _ := trivial
  spawned _ _ _ _ _ _ _ _ _ _ _ _ _ _ _ _ _ _ := Parties.threadHolds_of_lax (fun _ _ _ => trivial) (fun _ _ => trivial) _ _
  threadTurn _ _ _ _ _ _ _ _ _ hp _ _ hs := ⟨goOn_thread hp hs, fun _ _ => trivial⟩
  ownTurn _ _ _ _ := trivial
  operation s g op o disk disk' config _ hidle _ _ :=
    ⟨maintains_follow config op _ _ hidle, fun _ => trivial⟩
  operationFails _ _ _ _ _ _ _ _ _ _ _ := ⟨.refl _, fun _ => trivial⟩
  downloadOperation s g op _ hidle _ := ⟨maintains_downloadOperation op _ _ hidle, fun _ => trivial⟩
  ended s g i th t _ hi hp _ _ := by
    refine ⟨goOn_setChannels (World.channels_of_threads hi) rfl rfl rfl (.inr ?_), fun _ => trivial⟩
    have hprogram := World.program_of_threads hi hp
    refine ⟨by rw [hprogram]; rfl, ?_⟩
    rintro ⟨p, hp', hret⟩
    rw [hprogram] at hp'
    cases hp'
    exact hret _ _ rfl
  fetched _ _ _ _ _ _ _ _ := ⟨.of_threads rfl, fun _ => trivial⟩

/-- **In every run** the registry is true of the threads, and the core is ready for each of its
    commands. -/
theorem registry_run {s₀ s : System} {turns : List Turn} (h₀ : s₀.Start)
    (hr : System.Run ioFails (fun s turn => allowed s.world turn) s₀ turns s) :
    Registry s.downloads s.world ∧ ∀ d c k, s.core = .call d c k → Ready d s.world c := by
  obtain ⟨configDir, isFirstStart, password, o, disk, disk', hnew, hcore, hthreads, -, -⟩ := h₀
  -- no thread at the start, so nothing is registered and everyone is free
  have hnone : ∀ i : Nat, s₀.world.threads[i]? = none := by
    intro i
    rw [hthreads]
    rfl
  have hregistry : ∀ users : List SharedUser, Orderly (users.map SharedUser.nickname)
      (OutgoingDownloader.new s₀.config) s₀.world := by
    intro users
    refine ⟨⟨List.nodup_nil, (fun _ _ hi => by cases hi), fun i n ch hn => ?_, fun i ch hch => ?_,
      (fun _ _ _ hi => by cases hi)⟩, fun n _ i ch hn => ?_⟩
    · unfold World.nickname at hn
      rw [hnone] at hn
      cases hn
    · unfold World.channels at hch
      rw [hnone] at hch
      cases hch
    · unfold World.nickname at hn
      rw [hnone] at hn
      cases hn
  have hinv : (registryParties ioFails allowed).Inv s₀ () := by
    refine ⟨?_, fun i p hp => ?_⟩
    · rw [hcore]
      exact wp_conseq (wp_startDownloadingUsers _ (nodup_of_new hnew) (hregistry _))
        (fun _ _ _ h' => h'.registry) fun _ _ _ hf => False.elim hf
    · unfold World.program at hp
      rw [hnone] at hp
      cases hp
  have hrun := Parties.run registry_lawful hinv (fun _ _ _ => ⟨trivial, fun _ _ _ _ => trivial⟩) hr
  have hholds := hrun.core
  unfold Parties.CoreHolds at hholds
  unfold System.downloads
  cases hs : s.core with
  | ret a d =>
    rw [hs] at hholds
    exact ⟨hholds, fun _ _ _ he => nomatch he⟩
  | fail x d =>
    rw [hs] at hholds
    exact ⟨hholds, fun _ _ _ he => nomatch he⟩
  | call d c k =>
    rw [hs] at hholds
    obtain ⟨hreg, hready⟩ := (hholds.issue registry_lawful.core).1 trivial trivial
    refine ⟨hreg, fun d' c' k' he => ?_⟩
    cases he
    exact hready

end Core

end Transmitic
