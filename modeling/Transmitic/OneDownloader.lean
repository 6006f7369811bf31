/-
  File:      Transmitic/OneDownloader.lean
  Subject:   NEVER TWO DOWNLOADERS OF ONE NICKNAME.

  The core forgets a downloader the moment it tells it that its user was removed. The downloader gets to
  know later, and until then it may be at work on a queue file and a download folder a new downloader of
  the same nickname has already been started for.

  * `StillWrites` -- a downloader that may come to a write to its queue file or its downloads;
  * `RemovedEnded` -- no downloader is started for a nickname before those that were removed have ended;
  * `oneWriter` -- **then no two downloaders of one nickname ever both still write**;
  * `removed_erases` -- and without it they do.
-/
import Transmitic.Registry

namespace Transmitic

open Lib

/-! ## 1. Writers -/

/-- Commands that change a queue file or a download folder. -/
def DownloaderCmd.writes : DownloaderCmd → Prop
  | .queueRemove _ => True
  | .queueWrite _ _ => True
  | .createDirAll _ => True
  | .fileCreate _ => True
  | .fileWrite _ _ => True
  | _ => False

/-- The program may come to such a command. -/
def StillWrites (p : DlProgram) : Prop :=
  ∃ q c, Reach (anyAnswers fun _ => True) (p, ()) (q, ()) ∧ q.issued = some (.inr c) ∧ c.writes

/-- No two downloaders of one nickname both still write. -/
def OneWriter (w : World) : Prop :=
  ∀ i j p q n, i ≠ j → w.nickname i = some n → w.nickname j = some n → w.program i = some p →
    w.program j = some q → ¬ (StillWrites p ∧ StillWrites q)

/-- A downloader is started for a nickname only when all downloaders of the nickname that were removed
    have come to their end. -/
def RemovedEnded (w : World) : Turn → Prop
  | .core _ (.spawn _ user _ _ _ _) _ => ∀ j ch, w.nickname j = some user.nickname →
      w.channels j = some ch → ch.removed → ¬ w.atWork j
  | _ => True

/-- No two downloaders of one nickname are at work. -/
def OneAtWork (w : World) : Prop :=
  ∀ i j n, w.nickname i = some n → w.nickname j = some n → w.atWork i → w.atWork j → i = j

/-- A program that has ended writes nothing any more. -/
theorem stillWrites_atWork {w : World} {i : Nat} {p : DlProgram} (hp : w.program i = some p)
    (h : StillWrites p) : w.atWork i := by
  refine ⟨p, hp, ?_⟩
  rintro a t rfl
  obtain ⟨q, c, hr, hc, -⟩ := h
  have hend : ∀ {x y : DlProgram × Unit}, Reach (anyAnswers fun _ => True) x y → x = (.ret a t, ()) →
      y = (.ret a t, ()) := by
    intro x y hxy
    induction hxy with
    | start => exact id
    | step s c k w w' b _ _ ih =>
      intro hx
      have := ih hx
      cases this
  have hq := hend hr rfl
  cases hq
  cases hc

theorem oneWriter_of_atWork {w : World} (h : OneAtWork w) : OneWriter w := by
  intro i j p q n hij hi hj hp hq hboth
  exact hij (h i j n hi hj (stillWrites_atWork hp hboth.1) (stillWrites_atWork hq hboth.2))

/-! ## 2. Every turn -/

section Turns

variable {w w' : World}

theorem OneAtWork.goOn (h : OneAtWork w) (hw : ThreadsGoOn w w') : OneAtWork w' := by
  intro i j n hi hj hwi hwj
  rw [hw.nickname] at hi hj
  exact h i j n hi hj (hw.atWork i hwi) (hw.atWork j hwj)

variable [Crates]

/-- A thread at work after a command of the core was at work before, or has just been started. -/
theorem atWork_coreStep {ioFails : Prop} {c : CoreCmd} {a : c.Ans} (h : w.CoreStep ioFails c a w')
    {i : Nat} (hi : w'.atWork i) : w.atWork i ∨
      ∃ user path isPaused reverse config, c = .spawn i user path isPaused reverse config := by
  obtain ⟨p, hp, hret⟩ := hi
  rcases program_coreStep h hp with hp |
    ⟨user, path, isPaused, reverse, config, _, _, _, rfl, -⟩
  · exact .inl ⟨p, hp, hret⟩
  · exact .inr ⟨user, path, isPaused, reverse, config, rfl⟩

/-- Nicknames of threads at work do not change. -/
theorem nickname_coreStep {ioFails : Prop} {c : CoreCmd} {a : c.Ans} (h : w.CoreStep ioFails c a w')
    {i : Nat} {n : Str} (hn : w'.nickname i = some n) (hi : w'.atWork i) : w.nickname i = some n := by
  cases c with
  | send j m =>
    obtain ⟨ch, -, ⟨-, -, rfl⟩ | ⟨-, -, rfl⟩⟩ := h
    · rwa [World.nickname_setChannels] at hn
    · exact hn
  | sendReverse j enc =>
    obtain ⟨ch, -, ⟨-, rfl⟩ | ⟨-, rfl⟩⟩ := h
    · rwa [World.nickname_setChannels] at hn
    · exact hn
  | dropSenders j =>
    obtain ⟨ch, -, rfl⟩ := h
    rwa [World.nickname_setChannels] at hn
  | newChannels m =>
    obtain ⟨-, rfl⟩ := h
    obtain ⟨th, hth, hth', -⟩ := atWork_withThread hi
    unfold World.nickname at hn ⊢
    rw [show ({ w with threads := w.threads ++ [_] } : World).threads[i]? = some th from hth'] at hn
    rw [hth]
    exact hn
  | spawn j user path isPaused reverse config =>
    obtain ⟨fuel, k, encryptedStream, rfl⟩ := h
    rwa [World.nickname_setProgram] at hn
  | queueExists path =>
    rwa [nickname_congr (threads_coreStep (c := .queueExists path) trivial h)] at hn
  | queueAppend path bytes =>
    rwa [nickname_congr (threads_coreStep (c := .queueAppend path bytes) trivial h)] at hn
  | setRefreshData nicknames =>
    rwa [nickname_congr (threads_coreStep (c := .setRefreshData nicknames) trivial h)] at hn
  | startRefresh nickname config =>
    rwa [nickname_congr (threads_coreStep (c := .startRefresh nickname config) trivial h)] at hn
  | pollRefresh => rwa [nickname_congr (threads_coreStep (c := .pollRefresh) trivial h)] at hn

/-- **One command of the core**, which is ready for it. -/
theorem OneAtWork.coreStep {ioFails : Prop} {d : OutgoingDownloader} {c : CoreCmd} {a : c.Ans}
    (h : OneAtWork w) (hready : Ready d w c) (hended : RemovedEnded w (.core d c a))
    (hs : w.CoreStep ioFails c a w') : OneAtWork w' := by
  intro i j n hi hj hwi hwj
  have hni := nickname_coreStep hs hi hwi
  have hnj := nickname_coreStep hs hj hwj
  -- a downloader of the nickname at work is one that was removed, and those have ended
  have hstarted : ∀ {k l user path isPaused reverse config}, c = .spawn k user path isPaused reverse
      config → w.nickname k = some n → w.nickname l = some n → ¬ w.atWork l := by
    rintro k l user path isPaused reverse config rfl hk hl hwl
    obtain ⟨hmade, hfree, -⟩ := hready
    rw [hmade.nickname] at hk
    cases hk
    have hn := hl
    obtain ⟨th, hth, -⟩ := Option.map_eq_some_iff.mp hn
    have hch := World.channels_of_threads hth
    exact hended l _ hl hch (hfree l _ hl hch hwl) hwl
  rcases atWork_coreStep hs hwi with hwi | ⟨user, path, isPaused, reverse, config, hc⟩
  · rcases atWork_coreStep hs hwj with hwj | ⟨user, path, isPaused, reverse, config, hc⟩
    · exact h i j n hni hnj hwi hwj
    · exact absurd hwi (hstarted hc hnj hni)
  · rcases atWork_coreStep hs hwj with hwj | ⟨user', path', isPaused', reverse', config', hc'⟩
    · exact absurd hwj (hstarted hc hni hnj)
    · rw [hc] at hc'
      cases hc'
      rfl

/-! ## 3. Every run -/

variable {ioFails : Prop}

theorem oneAtWork_run {s₀ s : System} {turns : List Turn} (h₀ : s₀.Start)
    (hr : System.Run ioFails (fun s turn => RemovedEnded s.world turn) s₀ turns s) :
    OneAtWork s.world := by
  induction hr with
  | start =>
    obtain ⟨-, -, -, -, -, -, -, -, hthreads, -, -⟩ := h₀
    intro i j n hi
    unfold World.nickname at hi
    rw [hthreads] at hi
    cases hi
  | step turns s s' turn hr hs ha ih =>
    cases hs with
    | core d c k a w hcore hstep =>
      exact ih.coreStep ((registry_run h₀ hr).2 d c k hcore) ha hstep
    | operation => exact ih
    | operationFails => exact ih
    | downloadOperation => exact ih
    | thread i th t c k a w hi hp hstep =>
      exact ih.goOn (goOn_thread (World.program_of_threads hi hp) hstep)
    | ended i th t hi hp =>
      refine ih.goOn (goOn_setChannels (World.channels_of_threads hi) rfl rfl rfl (.inr ?_))
      have hprogram := World.program_of_threads hi hp
      refine ⟨by rw [hprogram]; rfl, ?_⟩
      rintro ⟨p, hp', hret⟩
      rw [hprogram] at hp'
      cases hp'
      exact hret _ _ rfl
    | fetched i fetch r hi => exact ih.goOn (.of_threads rfl)

/-- **One downloader per nickname.** In every run in which a downloader is started only after those of
    the nickname that were removed have ended, no two downloaders of one nickname both still write. -/
theorem oneWriter {s₀ s : System} {turns : List Turn} (h₀ : s₀.Start)
    (hr : System.Run ioFails (fun s turn => RemovedEnded s.world turn) s₀ turns s) :
    OneWriter s.world :=
  oneWriter_of_atWork (oneAtWork_run h₀ hr)

end Turns

/-! ## 4. A removed downloader at its queue file -/

/-- The program right after its start, with no downloader. -/
def quietSystem (users : List SharedUser) : System :=
  { config := usersMemory users
    core := startDownloading (OutgoingDownloader.new (usersMemory users))
    world :=
      { threads := []
        queueFiles := fun _ => none
        refreshData := setRefreshData (users.map SharedUser.nickname) fun _ => none
        fetches := [] } }

theorem quietSystem_start [Crates] {users : List SharedUser}
    (hj : Crates.configFromJson (usersJson users) = .ok (usersConfig users))
    (hv : verifyConfig sampleDir (usersConfig users) = .ok (usersConfig users)) :
    (quietSystem users).Start := by
  refine ⟨sampleDir, false, none, sampleOutcomes, usersDisk users, usersDisk users, ?_, rfl, rfl, rfl,
    rfl⟩
  exact new_of_read rfl (readConfig_plain rfl hj hv) (Base64.decode_encode sampleKey)

theorem quietSystem_started : @System.Start (usersCrates [[], [sampleBob]]) (quietSystem []) :=
  @quietSystem_start (usersCrates [[], [sampleBob]]) _ (by decide +kernel) (by decide +kernel)

/-- All downloaders have ended where the next one is started. -/
def allEnded (s : System) : Bool :=
  match s.core with
  | .call _ (.spawn _ _ _ _ _ _) _ => s.world.threads.all fun th =>
    match th.program with
    | some (.ret _ _) => true
    | none => true
    | some _ => false
  | _ => true

theorem removedEnded_of_step [Crates] {ioFails : Prop} {s s' : System} {turn : Turn}
    (h : allEnded s = true) (hs : s.Step ioFails turn s') : RemovedEnded s.world turn := by
  cases hs with
  | core d c k a w hcore hstep =>
    unfold allEnded at h
    rw [hcore] at h
    cases c with
    | spawn i user path isPaused reverse config =>
      intro j ch hnick hch hremoved ⟨p, hp, hwork⟩
      obtain ⟨th, hth, hprogram⟩ := Option.bind_eq_some_iff.mp hp
      have hend := List.all_eq_true.mp h th (List.mem_of_getElem? hth)
      rw [hprogram] at hend
      cases p with
      | ret a t => exact hwork a t rfl
      | fail x t => cases hend
      | call t c k => cases hend
    | _ => trivial
  | _ => trivial

/-- Bob is added, or a download of his is selected. -/
def addBob : Cue :=
  .operation (.addNewUser sampleBob.nickname sampleBob.publicId sampleBob.ip sampleBob.port)

def selectBob (path : Str) : Cue :=
  .downloadOperation (.downloadSelected [{ path, owner := sampleBob.nickname, fileSize := 1 }])

/-- A downloader is started, and Bob is removed. It takes the new config before its channels are dropped. -/
def removeBob : List Cue :=
  [addBob, .core, selectBob "/x".toList, .core, .core, .core, .core, .thread 0, .thread 0, .thread 0,
    .operation (.removeUser sampleBob.nickname), .core, .core, .core, .thread 0, .thread 0, .core]

/-- Bob is added again, and a second downloader is started. -/
def readdBob : List Cue :=
  [addBob, .core, selectBob "/y".toList, .core, .core, .core, .core, selectBob "/z".toList, .core,
    .thread 1, .thread 1, .thread 1, .thread 1]

/-- The first downloader comes to its end before Bob is added again. -/
def endedScript : List Cue := removeBob ++ [.thread 0, .thread 0, .thread 0, .ended 0] ++ readdBob

/-- The next command of a thread. -/
def nextCommand (w : World) (i : Nat) : Option (Wire ⊕ DownloaderCmd) :=
  (w.program i).bind Prog.issued

/-- The second downloader of Bob is about to write the queue file. -/
def secondAtQueueFile (w : World) : Bool :=
  match nextCommand w 1 with
  | some (.inr (.queueWrite _ bytes)) => bytes = utf8 "1:/y\n1:/z\n".toList &&
      w.nickname 0 = some sampleBob.nickname && w.nickname 1 = some sampleBob.nickname
  | _ => false

theorem endedScript_played : ((@System.playWhere (usersCrates [[], [sampleBob]]) sampleOutcomes
    (usersDisk []) allEnded endedScript (quietSystem [])).any fun s => secondAtQueueFile s.world) = true := by
  decide +kernel

/-- The second downloader is the only one that writes. -/
theorem oneWriter_again : ∃ s : System, secondAtQueueFile s.world = true ∧ OneWriter s.world := by
  obtain ⟨s, hplay, hsecond⟩ := (Option.any_eq_true _ _).mp endedScript_played
  obtain ⟨turns, hrun⟩ := @run_playWhere (usersCrates [[], [sampleBob]]) False _ _ _
    (fun s turn => RemovedEnded s.world turn)
    (fun s turn s' => @removedEnded_of_step (usersCrates [[], [sampleBob]]) _ s s' turn) _ _ _ hplay
  exact ⟨s, hsecond, @oneWriter (usersCrates [[], [sampleBob]]) False _ _ _ quietSystem_started hrun⟩

/-- Bob is removed and added again while his downloader is between two looks at its channels. -/
def removedScript : List Cue := removeBob ++ readdBob ++ [.thread 0]

/-- Both downloaders are about to change the queue file of Bob: the old one removes it, the new one
    writes what is to be downloaded. -/
def bothAtQueueFile (w : World) : Bool :=
  match nextCommand w 0, nextCommand w 1 with
  | some (.inr (.queueRemove path)), some (.inr (.queueWrite path' bytes)) =>
    path = path' && bytes = utf8 "1:/x\n1:/y\n1:/z\n".toList &&
      w.nickname 0 = some sampleBob.nickname && w.nickname 1 = some sampleBob.nickname
  | _, _ => false

theorem removedScript_played : ((@System.play (usersCrates [[], [sampleBob]]) sampleOutcomes
    (usersDisk []) removedScript (quietSystem [])).any fun s => bothAtQueueFile s.world) = true := by
  decide +kernel

theorem stillWrites_of_next {w : World} {i : Nat} {p : DlProgram} {c : DownloaderCmd}
    (hp : w.program i = some p) (hc : nextCommand w i = some (.inr c)) (hw : c.writes) :
    StillWrites p := by
  unfold nextCommand at hc
  rw [hp] at hc
  exact ⟨p, c, .start _, hc, hw⟩

/-- **The old downloader erases the queue of the new one**: a run in which both are about to change the
    queue file of one nickname. -/
theorem removed_erases : ∃ (crates : Crates) (s₀ s : System) (turns : List Turn)
    (path : Str) (bytes : List UInt8), @System.Start crates s₀ ∧
      @System.Run crates False (fun _ _ => True) s₀ turns s ∧
      nextCommand s.world 0 = some (.inr (.queueRemove path)) ∧
      nextCommand s.world 1 = some (.inr (.queueWrite path bytes)) ∧ ¬ OneWriter s.world := by
  obtain ⟨s, hplay, hboth⟩ := (Option.any_eq_true _ _).mp removedScript_played
  obtain ⟨turns, hrun⟩ := @run_play (usersCrates [[], [sampleBob]]) False _ _ _ _ _ hplay
  unfold bothAtQueueFile at hboth
  split at hboth
  · rename_i path path' bytes h₀ h₁
    simp only [Bool.and_eq_true, decide_eq_true_eq] at hboth
    obtain ⟨⟨⟨rfl, -⟩, hn₀⟩, hn₁⟩ := hboth
    refine ⟨_, _, s, turns, path, bytes, quietSystem_started, hrun, h₀, h₁, fun hone => ?_⟩
    obtain ⟨p, hp, -⟩ := Option.bind_eq_some_iff.mp h₀
    obtain ⟨q, hq, -⟩ := Option.bind_eq_some_iff.mp h₁
    exact hone 0 1 p q _ (by decide) hn₀ hn₁ hp hq
      ⟨stillWrites_of_next hp h₀ trivial, stillWrites_of_next hq h₁ trivial⟩
  · cases hboth

end Transmitic
