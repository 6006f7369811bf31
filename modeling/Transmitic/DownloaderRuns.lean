/-
  File:      Transmitic/DownloaderRuns.lean
  Subject:   WHAT HOLDS IN EVERY RUN of the core with its downloaders.

  A fact about all runs is shown party by party. Each party issues commands the others can live with
  (`coreOk`, `threadOk`), and relies on what the others do to the world (`aroundCore`, `aroundThread`).
  An account `G` may be kept of the turns of a run, for what the world does not remember.

  * `Parties`, `Parties.Lawful` -- the parts of such a proof, and what has to be shown of them;
  * `Parties.run` -- **then every program in every state of every run keeps to what was shown of it**;
  * `System.play` -- the run a list of cues leads to.
-/
import Transmitic.DownloaderSession
import Transmitic.DownloaderSystem

namespace Transmitic

open Lib

/-! ## 1. The threads of the world -/

namespace World

/-- What thread `i` has still to do. -/
def program (w : World) (i : Nat) : Option DlProgram := w.threads[i]?.bind Downloader.program

/-- The nickname thread `i` was made for. -/
def nickname (w : World) (i : Nat) : Option Str := w.threads[i]?.map Downloader.nickname

/-- Thread `i` was started and has not come to its end. -/
def atWork (w : World) (i : Nat) : Prop := ∃ p, w.program i = some p ∧ ∀ a t, p ≠ .ret a t

variable (w : World) (i j : Nat)

/-- One thread is changed, and no other one. -/
theorem threads_update (f : Downloader → Downloader) :
    (w.update i f).threads[j]? = w.threads[j]?.map fun th => if i = j then f th else th := by
  show (w.threads.modify i f)[j]? = _
  rw [List.getElem?_modify]
  rfl

@[simp] theorem channels_setChannels (ch : Channels) : (w.setChannels i ch).channels j =
    (w.channels j).map fun ch' => if i = j then ch else ch' := by
  unfold channels setChannels
  rw [threads_update, Option.map_map, Option.map_map]
  congr 1
  funext th
  by_cases h : i = j <;> simp [h]

@[simp] theorem program_setChannels (ch : Channels) :
    (w.setChannels i ch).program j = w.program j := by
  unfold program setChannels
  rw [threads_update]
  cases w.threads[j]? with
  | none => rfl
  | some th => by_cases h : i = j <;> simp [h]

@[simp] theorem nickname_setChannels (ch : Channels) :
    (w.setChannels i ch).nickname j = w.nickname j := by
  unfold nickname setChannels
  rw [threads_update, Option.map_map]
  congr 1
  funext th
  by_cases h : i = j <;> simp [h]

@[simp] theorem channels_setProgram (p : DlProgram) :
    (w.setProgram i p).channels j = w.channels j := by
  unfold channels setProgram
  rw [threads_update, Option.map_map]
  congr 1
  funext th
  by_cases h : i = j <;> simp [h]

@[simp] theorem nickname_setProgram (p : DlProgram) :
    (w.setProgram i p).nickname j = w.nickname j := by
  unfold nickname setProgram
  rw [threads_update, Option.map_map]
  congr 1
  funext th
  by_cases h : i = j <;> simp [h]

@[simp] theorem program_setProgram (p : DlProgram) : (w.setProgram i p).program j =
    if i = j then w.threads[j]?.map fun _ => p else w.program j := by
  unfold program setProgram
  rw [threads_update]
  cases w.threads[j]? with
  | none => by_cases h : i = j <;> simp [h]
  | some th => by_cases h : i = j <;> simp [h]

@[simp] theorem queueFiles_setChannels (ch : Channels) :
    (w.setChannels i ch).queueFiles = w.queueFiles := rfl

@[simp] theorem refreshData_setChannels (ch : Channels) :
    (w.setChannels i ch).refreshData = w.refreshData := rfl

@[simp] theorem fetches_setChannels (ch : Channels) :
    (w.setChannels i ch).fetches = w.fetches := rfl

@[simp] theorem queueFiles_setProgram (p : DlProgram) :
    (w.setProgram i p).queueFiles = w.queueFiles := rfl

@[simp] theorem refreshData_setProgram (p : DlProgram) :
    (w.setProgram i p).refreshData = w.refreshData := rfl

@[simp] theorem fetches_setProgram (p : DlProgram) : (w.setProgram i p).fetches = w.fetches := rfl

variable {w i}

/-- A program belongs to a thread. -/
theorem threads_of_program {p : DlProgram} (h : w.program i = some p) :
    ∃ th, w.threads[i]? = some th ∧ th.program = some p := by
  obtain ⟨th, hth, hp⟩ := Option.bind_eq_some_iff.mp h
  exact ⟨th, hth, hp⟩

theorem program_of_threads {th : Downloader} {p : DlProgram} (hi : w.threads[i]? = some th)
    (hp : th.program = some p) : w.program i = some p := by
  unfold program
  rw [hi]
  exact hp

theorem channels_of_threads {th : Downloader} (hi : w.threads[i]? = some th) :
    w.channels i = some th.channels := by
  unfold channels
  rw [hi]
  rfl

end World

/-! ## 2. What one command leaves alone -/

section Commands

variable {ioFails : Prop} {w w' : World} {i : Nat}

/-- A command of a downloader changes the channels of the downloader, the queue files and the cache of
    listings. -/
theorem threads_threadStep {t : Thread SingleDownloader} {c : Wire ⊕ DownloaderCmd}
    {a : Ans DownloaderCmd.Ans c} (h : w.ThreadStep ioFails i t c a w') :
    w'.threads = w.threads ∨ ∃ ch, w'.threads = (w.setChannels i ch).threads := by
  unfold World.ThreadStep at h
  split at h
  · obtain ⟨_, ch, _, _, rfl⟩ := h
    exact .inr ⟨ch, rfl⟩
  · obtain ⟨_, ch, _, _, rfl⟩ := h
    exact .inr ⟨ch, rfl⟩
  · rw [h.2]
    exact .inl rfl
  · rw [h.2]
    exact .inl rfl
  · rw [h.2]
    exact .inl rfl
  · rw [h.2]
    exact .inl rfl
  · rw [h]
    exact .inl rfl
  · obtain ⟨_, file, rfl⟩ := h
    exact .inl rfl
  · rw [h.2]
    exact .inl rfl
  · rw [h]
    exact .inl rfl
  · rw [h.2.2]
    exact .inl rfl
  · rw [h]
    exact .inl rfl

/-- Programs, nicknames and channels are read off the threads. -/
theorem program_congr {w w' : World} (h : w'.threads = w.threads) (j : Nat) :
    w'.program j = w.program j := by
  unfold World.program
  rw [h]

theorem nickname_congr {w w' : World} (h : w'.threads = w.threads) (j : Nat) :
    w'.nickname j = w.nickname j := by
  unfold World.nickname
  rw [h]

theorem channels_congr {w w' : World} (h : w'.threads = w.threads) (j : Nat) :
    w'.channels j = w.channels j := by
  unfold World.channels
  rw [h]

/-- **A command of a downloader is answered by its surroundings**, which have no program of their own. -/
theorem program_threadStep {t : Thread SingleDownloader} {c : Wire ⊕ DownloaderCmd}
    {a : Ans DownloaderCmd.Ans c} (h : w.ThreadStep ioFails i t c a w') (j : Nat) :
    w'.program j = w.program j := by
  rcases threads_threadStep h with h | ⟨ch, h⟩
  · exact program_congr h j
  · rw [program_congr h, World.program_setChannels]

variable [Crates]

/-- A command of the core lets the downloaders go on as they are, and may start one. -/
theorem program_coreStep {c : CoreCmd} {a : c.Ans} (h : w.CoreStep ioFails c a w') {j : Nat}
    {p : DlProgram} (hp : w'.program j = some p) : w.program j = some p ∨
      ∃ user path isPaused reverse config fuel n encryptedStream,
        c = .spawn j user path isPaused reverse config ∧ p = runThread fuel n
          { self := SingleDownloader.new user path isPaused reverse config, encryptedStream } := by
  cases c with
  | send i m =>
    obtain ⟨ch, hch, ⟨_, _, rfl⟩ | ⟨_, _, rfl⟩⟩ := h
    · exact .inl (by simpa using hp)
    · exact .inl hp
  | sendReverse i enc =>
    obtain ⟨ch, hch, ⟨_, rfl⟩ | ⟨_, rfl⟩⟩ := h
    · exact .inl (by simpa using hp)
    · exact .inl hp
  | dropSenders i =>
    obtain ⟨ch, hch, rfl⟩ := h
    exact .inl (by simpa using hp)
  | queueExists path =>
    obtain ⟨_, rfl⟩ := h
    exact .inl hp
  | queueAppend path bytes =>
    cases a with
    | ok u => exact .inl (by rw [show w' = _ from h] at hp; exact hp)
    | error e =>
      obtain ⟨_, file, rfl⟩ := h
      exact .inl hp
  | newChannels nickname =>
    obtain ⟨_, rfl⟩ := h
    obtain ⟨th, hth, hprogram⟩ := World.threads_of_program hp
    rw [List.getElem?_append] at hth
    split at hth
    · exact .inl (World.program_of_threads hth hprogram)
    · have hmem := List.mem_of_getElem? hth
      rw [List.mem_singleton] at hmem
      rw [hmem] at hprogram
      cases hprogram
  | spawn i user path isPaused reverse config =>
    obtain ⟨fuel, n, encryptedStream, rfl⟩ := h
    rw [World.program_setProgram] at hp
    split at hp
    · rename_i hij
      obtain ⟨th, _, rfl⟩ := Option.map_eq_some_iff.mp hp
      exact .inr ⟨user, path, isPaused, reverse, config, fuel, n, encryptedStream, by rw [hij], rfl⟩
    · exact .inl hp
  | setRefreshData nicknames =>
    rw [show w' = _ from h] at hp
    exact .inl hp
  | startRefresh nickname config =>
    rw [show w' = _ from h] at hp
    exact .inl hp
  | pollRefresh =>
    rw [show w' = _ from h] at hp
    exact .inl hp

end Commands

/-! ## 3. Party by party -/

/-- What is shown of the core and of each downloader. -/
structure Parties [Crates] (G : Type) where
  ioFails : Prop
  allowed : World → Turn → Prop
  /-- What is known already: of every state of a run, and of every command of the core. -/
  known : OutgoingDownloader → World → Prop
  coreKnown : OutgoingDownloader → World → CoreCmd → Prop
  /-- The account of the run after one more turn. -/
  account : Turn → G → G
  /-- What holds while nobody has the lock. -/
  idle : OutgoingDownloader → World × G → Prop
  coreOk : World × G → OutgoingDownloader → CoreCmd → Prop
  threadOk : Nat → World × G → Thread SingleDownloader → Wire ⊕ DownloaderCmd → Prop
  threadEnd : Nat → Thread SingleDownloader → World × G → Prop
  /-- What the downloaders do to the world, as the core sees it. -/
  aroundCore : World × G → World × G → Prop
  /-- What the core and the other downloaders do to the world, as a downloader sees it. -/
  aroundThread : Nat → World × G → World × G → Prop

namespace Parties

variable [Crates] {G : Type} (P : Parties G)

/-- The surroundings of the core, as long as it keeps to its side; the others come in between. -/
def coreEnv : Env OutgoingDownloader CoreCmd CoreCmd.Ans (World × G) where
  ok wg d c := P.known d wg.1 → P.coreKnown d wg.1 c → P.coreOk wg d c
  step wg d c a wg' := P.known d wg.1 ∧ P.coreKnown d wg.1 c ∧ P.allowed wg.1 (.core d c a) ∧
    wg.1.CoreStep P.ioFails c a wg'.1 ∧ wg'.2 = P.account (.core d c a) wg.2

/-- The surroundings of downloader `i`. -/
def threadEnv (i : Nat) : DlEnv (World × G) where
  ok := P.threadOk i
  step wg t c a wg' := P.allowed wg.1 (.thread i t c a) ∧ wg.1.ThreadStep P.ioFails i t c a wg'.1 ∧
    wg'.2 = P.account (.thread i t c a) wg.2

/-- The core keeps to it. -/
def CoreHolds (p : Prog OutgoingDownloader CoreCmd CoreCmd.Ans Exc Unit) (wg : World × G) : Prop :=
  p.Holds (P.coreEnv.among P.aroundCore) (fun _ => P.idle) (fun _ => P.idle) wg

/-- Downloader `i` keeps to it. -/
def ThreadHolds (i : Nat) (p : DlProgram) (wg : World × G) : Prop :=
  p.Holds ((P.threadEnv i).among (P.aroundThread i)) (fun _ => P.threadEnd i) (fun _ _ _ => True) wg

/-- All parties keep to it. -/
structure Inv (s : System) (g : G) : Prop where
  core : P.CoreHolds s.core (s.world, g)
  threads : ∀ i p, s.world.program i = some p → P.ThreadHolds i p (s.world, g)

/-- What can be used of the state before a turn. -/
structure Given (s : System) (g : G) : Prop where
  inv : P.Inv s g
  known : P.known s.downloads s.world
  coreKnown : ∀ d c k, s.core = .call d c k → P.coreKnown d s.world c

/-- The world and the account as all parties can live with after a turn of downloader `i`. -/
def Bears (i : Nat) (wg wg' : World × G) : Prop :=
  P.aroundCore wg wg' ∧ ∀ j, j ≠ i → P.aroundThread j wg wg'

/-- What each party does is what the others rely on. -/
structure Lawful : Prop where
  core : Interference P.aroundCore
  thread : ∀ i, Interference (P.aroundThread i)
  /-- Between two methods, and at the end of a downloader, nothing is disturbed. -/
  idle : ∀ d wg wg', P.aroundCore wg wg' → P.idle d wg → P.idle d wg'
  threadEnd : ∀ i t wg wg', P.aroundThread i wg wg' → P.threadEnd i t wg → P.threadEnd i t wg'
  /-- A turn of the core, as the downloaders see it; a downloader it starts keeps to it from the beginning. -/
  coreTurn : ∀ s g d c k a w, P.Given s g → s.core = .call d c k → P.allowed s.world (.core d c a) →
    P.coreOk (s.world, g) d c → s.world.CoreStep P.ioFails c a w →
      ∀ i, P.aroundThread i (s.world, g) (w, P.account (.core d c a) g)
  spawned : ∀ s g d (k : Unit → _) w i user path isPaused reverse config fuel n encryptedStream,
    P.Given s g → s.core = .call d (.spawn i user path isPaused reverse config) k →
    P.coreOk (s.world, g) d (.spawn i user path isPaused reverse config) →
    s.world.CoreStep P.ioFails (.spawn i user path isPaused reverse config) () w →
      P.ThreadHolds i (runThread fuel n
        { self := SingleDownloader.new user path isPaused reverse config, encryptedStream })
        (w, P.account (.core d (.spawn i user path isPaused reverse config) ()) g)
  /-- A turn of a downloader, as the core and the others see it. -/
  threadTurn : ∀ s g i t c k a w, P.Given s g → s.world.program i = some (.call t c k) →
    P.allowed s.world (.thread i t c a) → P.threadOk i (s.world, g) t c →
    s.world.ThreadStep P.ioFails i t c a w →
      P.Bears i (s.world, g) (w.setProgram i (k a), P.account (.thread i t c a) g)
  ownTurn : ∀ i w p g, P.aroundThread i (w, g) (w.setProgram i p, g)
  /-- The core takes the lock for an operation; its method keeps to it, and where the operation fails there
      is none. -/
  operation : ∀ s g op o disk disk' config, P.Given s g → P.idle s.downloads (s.world, g) →
    op.run s.config.pathDirConfig s.config o disk = (.ok (), config, disk') →
    P.allowed s.world (.operation op config) →
      P.CoreHolds (op.follow config s.downloads) (s.world, P.account (.operation op config) g) ∧
        ∀ i, P.aroundThread i (s.world, g) (s.world, P.account (.operation op config) g)
  operationFails : ∀ s g op o disk disk' config e, P.Given s g →
    op.run s.config.pathDirConfig s.config o disk = (.error e, config, disk') →
    P.allowed s.world (.operationFails op config) →
      P.aroundCore (s.world, g) (s.world, P.account (.operationFails op config) g) ∧
        ∀ i, P.aroundThread i (s.world, g) (s.world, P.account (.operationFails op config) g)
  downloadOperation : ∀ s g op, P.Given s g → P.idle s.downloads (s.world, g) →
    P.allowed s.world (.downloadOperation op) →
      P.CoreHolds (op.run s.downloads) (s.world, P.account (.downloadOperation op) g) ∧
        ∀ i, P.aroundThread i (s.world, g) (s.world, P.account (.downloadOperation op) g)
  /-- A downloader comes to its end, and a listing arrives. -/
  ended : ∀ s g i th t, P.Given s g → s.world.threads[i]? = some th → th.program = some (.ret () t) →
    P.threadEnd i t (s.world, g) → P.allowed s.world (.ended i) →
      P.aroundCore (s.world, g) (s.world.setChannels i { th.channels with received := false },
        P.account (.ended i) g) ∧
      ∀ j, P.aroundThread j (s.world, g) (s.world.setChannels i { th.channels with received := false },
        P.account (.ended i) g)
  fetched : ∀ s g i (fetch : Fetch) (r : Except Str SharedFile), P.Given s g →
    s.world.fetches[i]? = some fetch → P.allowed s.world (.fetched i) →
      let w := { s.world with fetches := s.world.fetches.set i { fetch with sent := some r } }
      P.aroundCore (s.world, g) (w, P.account (.fetched i) g) ∧
        ∀ j, P.aroundThread j (s.world, g) (w, P.account (.fetched i) g)

variable {P}

/-- Nothing has to be shown of a downloader that may do anything. -/
theorem threadHolds_of_lax {i : Nat} (hok : ∀ wg t c, P.threadOk i wg t c)
    (hend : ∀ t wg, P.threadEnd i t wg) (p : DlProgram) : ∀ wg, P.ThreadHolds i p wg := by
  unfold ThreadHolds
  induction p with
  | ret a t => exact fun wg => hend t wg
  | fail x t => exact fun _ => trivial
  | call t c k ih => exact fun wg => ⟨fun wg' _ => hok wg' t c, fun a wg' _ => ih a wg'⟩

variable (h : P.Lawful)

include h

/-- What the downloaders do in between does the core no harm. -/
theorem Lawful.coreAround {p : Prog OutgoingDownloader CoreCmd CoreCmd.Ans Exc Unit}
    {wg wg' : World × G} (hp : P.CoreHolds p wg) (hw : P.aroundCore wg wg') : P.CoreHolds p wg' :=
  hp.interfere h.core (fun _ d w w' hw => h.idle d w w' hw) (fun _ d w w' hw => h.idle d w w' hw) hw

/-- Nor does what the core and the other downloaders do harm this one. -/
theorem Lawful.threadAround {i : Nat} {p : DlProgram} {wg wg' : World × G}
    (hp : P.ThreadHolds i p wg) (hw : P.aroundThread i wg wg') : P.ThreadHolds i p wg' :=
  hp.interfere (h.thread i) (fun _ t w w' hw => h.threadEnd i t w w' hw) (fun _ _ _ _ _ _ => trivial)
    hw

omit h in
/-- Nobody has the lock. -/
theorem idle_of_issued {s : System} {g : G} (hinv : P.Inv s g) (hidle : s.core.issued = none) :
    P.idle s.downloads (s.world, g) := by
  have hcore := hinv.core
  unfold System.downloads
  unfold CoreHolds at hcore
  cases hs : s.core with
  | ret a d =>
    rw [hs] at hcore
    exact hcore
  | fail x d =>
    rw [hs] at hcore
    exact hcore
  | call d c k =>
    rw [hs] at hidle
    cases hidle

/-- **One turn.** -/
theorem Lawful.step {s s' : System} {turn : Turn} {g : G} (hgiven : P.Given s g)
    (hs : s.Step P.ioFails turn s') (ha : P.allowed s.world turn) :
    P.Inv s' (P.account turn g) := by
  have hinv := hgiven.inv
  cases hs with
  | core d c k a w hcore hstep =>
    have hcall := hinv.core
    rw [hcore] at hcall
    have hknown := hgiven.known
    rw [show s.downloads = d from congrArg Prog.state hcore] at hknown
    obtain ⟨hok, hnext⟩ := hcall.issue h.core
    have hcommand := hgiven.coreKnown d c k hcore
    have hok := hok hknown hcommand
    -- a program is one from before, which the turn does not disturb, or a new one
    refine ⟨hnext a _ ⟨hknown, hcommand, ha, hstep, rfl⟩, fun i p hp => ?_⟩
    have hturn := h.coreTurn s g d c k a w hgiven hcore ha hok hstep i
    rcases program_coreStep hstep hp with hp |
      ⟨user, path, isPaused, reverse, config, fuel, n, encryptedStream, rfl, rfl⟩
    · exact h.threadAround (hinv.threads i p hp) hturn
    · exact h.spawned s g d k w i user path isPaused reverse config fuel n encryptedStream hgiven hcore
        hok hstep
  | operation op o disk disk' config hidle hrun =>
    obtain ⟨hcore, haround⟩ := h.operation s g op o disk disk' config hgiven
      (idle_of_issued hinv hidle) hrun ha
    exact ⟨hcore, fun i p hp => h.threadAround (hinv.threads i p hp) (haround i)⟩
  | operationFails op o disk disk' config e hrun =>
    obtain ⟨hcore, haround⟩ := h.operationFails s g op o disk disk' config e hgiven hrun ha
    exact ⟨h.coreAround hinv.core hcore, fun i p hp =>
      h.threadAround (hinv.threads i p hp) (haround i)⟩
  | downloadOperation op hidle =>
    obtain ⟨hcore, haround⟩ := h.downloadOperation s g op hgiven (idle_of_issued hinv hidle) ha
    exact ⟨hcore, fun i p hp => h.threadAround (hinv.threads i p hp) (haround i)⟩
  | thread i th t c k a w hi hprogram hstep =>
    have hp := World.program_of_threads hi hprogram
    obtain ⟨hok, hnext⟩ := (hinv.threads i _ hp).issue (h.thread i)
    have hturn := h.threadTurn s g i t c k a w hgiven hp ha hok hstep
    -- its own program goes on with the answer, the others stay as they are
    refine ⟨h.coreAround hinv.core hturn.1, fun j p hj => ?_⟩
    rw [World.program_setProgram] at hj
    by_cases hij : i = j
    · subst hij
      rw [if_pos rfl] at hj
      obtain ⟨_, _, rfl⟩ := Option.map_eq_some_iff.mp hj
      exact h.threadAround (hnext a (w, P.account (.thread i t c a) g) ⟨ha, hstep, rfl⟩)
        (h.ownTurn i w _ _)
    · rw [if_neg hij, program_threadStep hstep] at hj
      exact h.threadAround (hinv.threads j p hj) (hturn.2 j (Ne.symm hij))
  | ended i th t hi hprogram =>
    have hend : P.threadEnd i t (s.world, g) :=
      hinv.threads i _ (World.program_of_threads hi hprogram)
    obtain ⟨hcore, haround⟩ := h.ended s g i th t hgiven hi hprogram hend ha
    refine ⟨h.coreAround hinv.core hcore, fun j p hp => ?_⟩
    exact h.threadAround (hinv.threads j p (by simpa using hp)) (haround j)
  | fetched i fetch r hi hsent huser =>
    obtain ⟨hcore, haround⟩ := h.fetched s g i fetch r hgiven hi ha
    exact ⟨h.coreAround hinv.core hcore, fun j p hp =>
      h.threadAround (hinv.threads j p hp) (haround j)⟩

/-- **All parties keep to it in every run.** -/
theorem run {s₀ s : System} {g : G} {turns : List Turn} (h₀ : P.Inv s₀ g)
    (hknown : ∀ turns s, System.Run P.ioFails (fun s turn => P.allowed s.world turn) s₀ turns s →
      P.known s.downloads s.world ∧ ∀ d c k, s.core = .call d c k → P.coreKnown d s.world c)
    (hr : System.Run P.ioFails (fun s turn => P.allowed s.world turn) s₀ turns s) :
    P.Inv s (turns.foldl (fun g turn => P.account turn g) g) := by
  induction hr with
  | start => exact h₀
  | step turns s s' turn hr hs ha ih =>
    rw [List.foldl_append]
    exact h.step ⟨ih, (hknown turns s hr).1, (hknown turns s hr).2⟩ hs ha

end Parties

/-! ## 4. Scripts -/

/-- Whose turn it is. -/
inductive Cue where
  | core
  | operation (op : Operation)
  | downloadOperation (op : DownloadOperation)
  | thread (i : Nat)
  | ended (i : Nat)
  | fetched (i : Nat) (r : Except Str SharedFile)

namespace Channels

/-- What `try_recv` answers, and the channels after it. -/
def tryRecv (ch : Channels) : Transmitic.TryRecv MessageSingleDownloader × Channels :=
  match ch.inbox with
  | m :: _ => (.value m, { ch with taken := ch.taken + 1 })
  | [] => (if ch.connected then .empty else .disconnected, ch)

/-- The same for the channel of the reverse connections. -/
def revTryRecv (ch : Channels) : Transmitic.TryRecv EncryptedStream × Channels :=
  match ch.revInbox with
  | enc :: _ => (.value enc, { ch with revTaken := ch.revTaken + 1 })
  | [] => (if ch.connected then .empty else .disconnected, ch)

variable (ch : Channels)

/-- It is what a channel may answer. -/
theorem tryRecv_step : ch.TryRecv ch.tryRecv.1 ch.tryRecv.2 := by
  unfold tryRecv
  split
  · rename_i m rest hrest
    exact ⟨by rw [hrest]; rfl, rfl⟩
  · rename_i hrest
    by_cases hc : ch.connected = true
    · rw [if_pos hc]
      exact ⟨hrest, hc, rfl⟩
    · rw [if_neg hc]
      exact ⟨hrest, by simpa using hc, rfl⟩

theorem revTryRecv_step : ch.RevTryRecv ch.revTryRecv.1 ch.revTryRecv.2 := by
  unfold revTryRecv
  split
  · rename_i enc rest hrest
    exact ⟨by rw [hrest]; rfl, rfl⟩
  · rename_i hrest
    by_cases hc : ch.connected = true
    · rw [if_pos hc]
      exact ⟨hrest, hc, rfl⟩
    · rw [if_neg hc]
      exact ⟨hrest, by simpa using hc, rfl⟩

end Channels

namespace World

/-- An answer to the core, from system calls that succeed. -/
def coreAnswer [Crates] (w : World) : (c : CoreCmd) → Option (c.Ans × World)
  | .send i m => (w.channels i).map fun ch =>
    if ch.received then (true, w.setChannels i { ch with posted := ch.posted ++ [m] })
    else (false, w)
  | .sendReverse i enc => (w.channels i).map fun ch =>
    if ch.received then ((), w.setChannels i { ch with revPosted := ch.revPosted ++ [enc] })
    else ((), w)
  | .dropSenders i => (w.channels i).map fun ch =>
    ((), w.setChannels i { ch with connected := false })
  | .queueExists path => some ((w.queueFiles path).isSome, w)
  | .queueAppend path bytes =>
    some (.ok (), w.setQueueFile path (some ((w.queueFiles path).getD [] ++ bytes)))
  | .newChannels nickname => some (w.threads.length,
      { w with threads := w.threads ++ [{ nickname, channels := .new, program := none }] })
  | .spawn i user path isPaused reverse config => some ((), w.setProgram i (runThread 100 100
      { self := SingleDownloader.new user path isPaused reverse config
        encryptedStream := EncryptedStream.new user [] }))
  | .setRefreshData nicknames =>
    some ((), { w with refreshData := Transmitic.setRefreshData nicknames w.refreshData })
  | .startRefresh nickname config => some ((), { w with
      refreshData := Function.update w.refreshData nickname ((w.refreshData nickname).map
        fun entry => { entry with recv := some w.fetches.length })
      fetches := w.fetches ++ [{
        sharedUser := config.configFile.sharedUsers.find? fun user => user.nickname = nickname
        sent := none }] })
  | .pollRefresh => some ((), { w with
      refreshData := fun nickname =>
        (w.refreshData nickname).map (Transmitic.pollRefresh w.fetches) })

/-- An answer to downloader `i`, from system calls that succeed and a peer that takes every message
    and sends none. -/
def threadAnswer (w : World) (i : Nat) (t : Thread SingleDownloader) :
    (c : Wire ⊕ DownloaderCmd) → Option (Ans DownloaderCmd.Ans c × World)
  | .inl (.seal _ _) => some (.done, w)
  | .inl (.unseal _ _) => some (.io [], w)
  | .inr .revTryRecv => (w.channels i).map fun ch =>
    (ch.revTryRecv.1, w.setChannels i ch.revTryRecv.2)
  | .inr .tryRecv => (w.channels i).map fun ch => (ch.tryRecv.1, w.setChannels i ch.tryRecv.2)
  | .inr (.app _) => some ((), w)
  | .inr (.sleep _) => some ((), w)
  | .inr .progressElapsed => some (false, w)
  | .inr (.queueRead path) => some (w.queueFiles path, w)
  | .inr (.queueRemove path) =>
    some (if (w.queueFiles path).isSome then (.done, w.setQueueFile path none) else (.notFound, w))
  | .inr (.queueWrite path bytes) => some (.ok (), w.setQueueFile path (some bytes))
  | .inr (.pathExists _) => some (false, w)
  | .inr (.metadataLen _) => some (.ok 0, w)
  | .inr (.createDirAll _) => some (.ok (), w)
  | .inr (.fileCreate _) => some (.ok (), w)
  | .inr (.fileOpenEnd _) => some (.ok (), w)
  | .inr (.fileWrite _ _) => some (.ok (), w)
  | .inr .downloadsBase => some (.ok [], w)
  | .inr (.refreshGet nickname) => some
      ((w.refreshData nickname).map fun entry => entry.data.map Listing.everythingFile, w)
  | .inr (.refreshInsert nickname everythingFile) => some ((), w.setRefresh nickname (some
      { data := some ⟨everythingFile, t.encryptedStream.sharedUser.publicId⟩, recv := none }))
  | .inr (.resolveAddress _ _) => some (.ok [], w)
  | .inr (.tcpConnect _) => some (true, w)
  | .inr (.connect sharedUser privateIdBytes) => some (.ok (.new sharedUser privateIdBytes), w)

variable {ioFails : Prop} {w w' : World} {i : Nat}

/-- **Such an answer is one the core may get.** -/
theorem coreAnswer_step [Crates] {c : CoreCmd} {a : c.Ans} (h : w.coreAnswer c = some (a, w')) :
    w.CoreStep ioFails c a w' := by
  cases c with
  | send i m =>
    obtain ⟨ch, hch, he⟩ := Option.map_eq_some_iff.mp h
    refine ⟨ch, hch, ?_⟩
    split at he
    · cases he
      exact .inl ⟨rfl, by assumption, rfl⟩
    · cases he
      exact .inr ⟨rfl, by simpa using ‹¬ ch.received = true›, rfl⟩
  | sendReverse i enc =>
    obtain ⟨ch, hch, he⟩ := Option.map_eq_some_iff.mp h
    refine ⟨ch, hch, ?_⟩
    split at he
    · cases he
      exact .inl ⟨by assumption, rfl⟩
    · cases he
      exact .inr ⟨by simpa using ‹¬ ch.received = true›, rfl⟩
  | dropSenders i =>
    obtain ⟨ch, hch, he⟩ := Option.map_eq_some_iff.mp h
    cases he
    exact ⟨ch, hch, rfl⟩
  | spawn i user path isPaused reverse config =>
    cases h
    exact ⟨100, 100, _, rfl⟩
  | queueExists path =>
    cases h
    exact ⟨rfl, rfl⟩
  | newChannels nickname =>
    cases h
    exact ⟨rfl, rfl⟩
  | queueAppend path bytes =>
    cases h
    rfl
  | setRefreshData nicknames =>
    cases h
    rfl
  | startRefresh nickname config =>
    cases h
    rfl
  | pollRefresh =>
    cases h
    rfl

/-- **Such an answer is one the downloader may get.** -/
theorem threadAnswer_step {t : Thread SingleDownloader} {c : Wire ⊕ DownloaderCmd}
    {a : Ans DownloaderCmd.Ans c} (h : w.threadAnswer i t c = some (a, w')) :
    w.ThreadStep ioFails i t c a w' := by
  rcases c with (⟨nonce, plain⟩ | ⟨nonce, size⟩) | c
  · cases h
    rfl
  · cases h
    rfl
  cases c with
  | revTryRecv =>
    obtain ⟨ch, hch, he⟩ := Option.map_eq_some_iff.mp h
    cases he
    exact ⟨ch, _, hch, ch.revTryRecv_step, rfl⟩
  | tryRecv =>
    obtain ⟨ch, hch, he⟩ := Option.map_eq_some_iff.mp h
    cases he
    exact ⟨ch, _, hch, ch.tryRecv_step, rfl⟩
  | queueRead path =>
    cases h
    exact ⟨.inl rfl, rfl⟩
  | queueRemove path =>
    have he := Option.some.inj h
    split at he
    · cases he
      exact ⟨by assumption, rfl⟩
    · cases he
      exact ⟨by simpa using ‹¬ (w.queueFiles path).isSome = true›, rfl⟩
  | refreshGet nickname =>
    cases h
    exact ⟨rfl, rfl⟩
  | connect sharedUser privateIdBytes =>
    cases h
    exact ⟨rfl, rfl, rfl⟩
  | _ =>
    cases h
    rfl

end World

/-- The turn a cue is for, if there is one. -/
def System.act [Crates] (o : Outcomes) (disk : Disk) (s : System) : Cue → Option System
  | .core =>
    match s.core with
    | .call _ c k => (s.world.coreAnswer c).map fun aw => { s with core := k aw.1, world := aw.2 }
    | _ => none
  | .operation op =>
    match s.core.issued, op.run s.config.pathDirConfig s.config o disk with
    | none, (.ok (), config, _) => some { s with config, core := op.follow config s.downloads }
    | _, _ => none
  | .downloadOperation op =>
    match s.core.issued with
    | none => some { s with core := op.run s.downloads }
    | some _ => none
  | .thread i =>
    match s.world.program i with
    | some (.call t c k) => (s.world.threadAnswer i t c).map fun aw =>
      { s with world := aw.2.setProgram i (k aw.1) }
    | _ => none
  | .ended i =>
    match s.world.threads[i]? with
    | some { program := some (.ret () _), channels, .. } =>
      some { s with world := s.world.setChannels i { channels with received := false } }
    | _ => none
  | .fetched i r =>
    match s.world.fetches[i]? with
    | some { sharedUser := some user, sent := none } =>
      some { s with world := { s.world with
        fetches := s.world.fetches.set i { sharedUser := some user, sent := some r } } }
    | _ => none

/-- The system after the cues; none where a cue comes at the wrong time. -/
def System.play [Crates] (o : Outcomes) (disk : Disk) : List Cue → System → Option System
  | [], s => some s
  | m :: cues, s => (s.act o disk m).bind (System.play o disk cues)

/-- The same, where every state on the way meets a check. -/
def System.playWhere [Crates] (o : Outcomes) (disk : Disk) (check : System → Bool) :
    List Cue → System → Option System
  | [], s => some s
  | m :: cues, s =>
    if check s then (s.act o disk m).bind (System.playWhere o disk check cues) else none

section Scripts

variable [Crates] {ioFails : Prop} {o : Outcomes} {disk : Disk}

/-- A cue that is acted on is a turn. -/
theorem act_step {s s' : System} {m : Cue} (h : s.act o disk m = some s') :
    ∃ turn, s.Step ioFails turn s' := by
  cases m with
  | core =>
    unfold System.act at h
    dsimp only at h
    split at h
    · rename_i d c k hcore
      obtain ⟨aw, haw, rfl⟩ := Option.map_eq_some_iff.mp h
      exact ⟨_, .core d c k aw.1 aw.2 hcore (World.coreAnswer_step haw)⟩
    · cases h
  | operation op =>
    unfold System.act at h
    dsimp only at h
    split at h
    · rename_i hidle hrun
      cases h
      exact ⟨_, .operation op o disk _ _ hidle hrun⟩
    · cases h
  | downloadOperation op =>
    unfold System.act at h
    dsimp only at h
    split at h
    · rename_i hidle
      cases h
      exact ⟨_, .downloadOperation op hidle⟩
    · cases h
  | thread i =>
    unfold System.act at h
    dsimp only at h
    split at h
    · rename_i t c k hprogram
      obtain ⟨aw, haw, rfl⟩ := Option.map_eq_some_iff.mp h
      obtain ⟨th, hth, hp⟩ := World.threads_of_program hprogram
      exact ⟨_, .thread i th t c k aw.1 aw.2 hth hp (World.threadAnswer_step haw)⟩
    · cases h
  | ended i =>
    unfold System.act at h
    dsimp only at h
    split at h
    · rename_i hi
      cases h
      exact ⟨_, .ended i _ _ hi rfl⟩
    · cases h
  | fetched i r =>
    unfold System.act at h
    dsimp only at h
    split at h
    · rename_i hi
      cases h
      exact ⟨_, .fetched i _ r hi rfl fun hnone => nomatch hnone⟩
    · cases h

/-- One run after another is a run. -/
theorem run_trans {allowed : System → Turn → Prop} {s₀ s₁ s₂ : System} {turns turns' : List Turn}
    (h : System.Run ioFails allowed s₀ turns s₁) (h' : System.Run ioFails allowed s₁ turns' s₂) :
    System.Run ioFails allowed s₀ (turns ++ turns') s₂ := by
  induction h' with
  | start =>
    rw [List.append_nil]
    exact h
  | step turns' s s' turn _ hs ha ih =>
    rw [← List.append_assoc]
    exact .step _ s s' turn ih hs ha

/-- **A script is a run.** -/
theorem run_play : ∀ {cues : List Cue} {s s' : System}, s.play o disk cues = some s' →
    ∃ turns, System.Run ioFails (fun _ _ => True) s turns s'
  | [], s, s', h => by
    cases h
    exact ⟨[], .start⟩
  | m :: cues, s, s', h => by
    obtain ⟨s₁, hact, hrest⟩ := Option.bind_eq_some_iff.mp h
    obtain ⟨turn, hturn⟩ := act_step hact
    obtain ⟨turns, hturns⟩ := run_play hrest
    exact ⟨[] ++ [turn] ++ turns, run_trans (.step [] s s₁ turn .start hturn trivial) hturns⟩

/-- **A script whose states meet a check** is a run whose turns are allowed, if the check is enough. -/
theorem run_playWhere {check : System → Bool} {allowed : System → Turn → Prop}
    (h : ∀ s turn s', check s = true → s.Step ioFails turn s' → allowed s turn) :
    ∀ {cues : List Cue} {s s' : System}, s.playWhere o disk check cues = some s' →
      ∃ turns, System.Run ioFails allowed s turns s'
  | [], s, s', hplay => by
    cases hplay
    exact ⟨[], .start⟩
  | m :: cues, s, s', hplay => by
    unfold System.playWhere at hplay
    split at hplay
    · rename_i hcheck
      obtain ⟨s₁, hact, hrest⟩ := Option.bind_eq_some_iff.mp hplay
      obtain ⟨turn, hturn⟩ := act_step hact
      obtain ⟨turns, hturns⟩ := run_playWhere h hrest
      exact ⟨[] ++ [turn] ++ turns,
        run_trans (.step [] s s₁ turn .start hturn (h s turn s₁ hcheck hturn)) hturns⟩
    · cases hplay

end Scripts

end Transmitic
