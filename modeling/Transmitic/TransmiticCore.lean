/-
  File:      Transmitic/TransmiticCore.lean
  Subject:   THE WHOLE PROGRAM, AND THE FATAL EXITS IT NEVER TAKES (transmitic_core.rs).

  The core with its downloads, and the uploads next to them. What the core sends the uploads is its
  config and a sharing state. The config it sends is the one it has changed, whether or not it still
  waits for the lock on the downloads.

  * `TransmiticCore.Step`, `TransmiticCore.Run` -- all threads side by side, in any order;
  * `run_downloads` -- the downloads by themselves;
  * `ExitFree` -- what is known of the uploads; `exitFree_step`;
  * `fatalExits_never` -- **no run comes to one of the exits, and every user of the downloads' config has
    an entry in the cache where all listings are refreshed**.
-/
import Transmitic.ConfigInvariant
import Transmitic.FatalExits
import Transmitic.OneDownloader
import Transmitic.RefreshCache

namespace Transmitic

open Lib
open UploaderManager (Drained drainedEnv toldEnv synced KeepsStep InStep)
open SingleUploader (stays)

variable {K : Suite}

/-! ## 1. All threads -/

structure TransmiticCore (K : Suite) where
  downloads : System
  uploads : UploadSystem K

/-- Whose turn it is. -/
inductive CoreTurn (K : Suite) where
  | downloads (turn : Turn)
  | uploads (turn : UploadTurn K)

section Runs

variable [Crates]

/-- The config the core has after some operations, each of which may succeed or fail. -/
def Config.ComesTo : Config → Config → Prop :=
  Relation.ReflTransGen fun c c' =>
    ∃ (op : Operation) (o : Outcomes) (disk disk' : Disk) (r : Except Exc Unit),
      op.run c.pathDirConfig c o disk = (r, c', disk')

namespace TransmiticCore

/-- The messages of the core to the uploads. -/
def Sends (s : TransmiticCore K) : MessageUploadManager → Prop
  | .sharingStateMsg _ => True
  | .newConfig config => s.downloads.config.ComesTo config

/-- `TransmiticCore::new`. -/
def Start (s : TransmiticCore K) : Prop :=
  s.downloads.Start ∧ ∃ fuel n, s.uploads = UploadSystem.start fuel n s.downloads.config

inductive Step (ioFails : Prop) (s : TransmiticCore K) : CoreTurn K → TransmiticCore K → Prop where
  | downloads (turn : Turn) (downloads : System) (h : s.downloads.Step ioFails turn downloads) :
      Step ioFails s (.downloads turn) { s with downloads }
  | uploads (turn : UploadTurn K) (uploads : UploadSystem K) (h : s.uploads.Step turn uploads)
      (hsent : ∀ m, turn = .posted m → s.Sends m) : Step ioFails s (.uploads turn) { s with uploads }

/-- The runs, with their turns. -/
inductive Run (ioFails : Prop) (s₀ : TransmiticCore K) : List (CoreTurn K) → TransmiticCore K → Prop
    where
  | start : Run ioFails s₀ [] s₀
  | step (turns : List (CoreTurn K)) (s s' : TransmiticCore K) (turn : CoreTurn K)
      (h : Run ioFails s₀ turns s) (hs : s.Step ioFails turn s') : Run ioFails s₀ (turns ++ [turn]) s'

end TransmiticCore

/-- The turns of the downloads among all turns. -/
def downloadTurns (turns : List (CoreTurn K)) : List Turn :=
  turns.filterMap fun turn =>
    match turn with
    | .downloads turn => some turn
    | .uploads _ => none

variable {ioFails : Prop} {s₀ s : TransmiticCore K} {turns : List (CoreTurn K)}

/-- **The downloads by themselves** do a run of their own. -/
theorem run_downloads (h : TransmiticCore.Run ioFails s₀ turns s) :
    System.Run ioFails (fun _ _ => True) s₀.downloads (downloadTurns turns) s.downloads := by
  induction h with
  | start => exact .start
  | step turns s s' turn _ hs ih =>
    unfold downloadTurns
    rw [List.filterMap_append]
    cases hs with
    | downloads turn downloads hstep => exact .step _ _ _ turn ih hstep trivial
    | uploads turn uploads hstep hsent =>
      rw [show List.filterMap _ [CoreTurn.uploads turn] = [] from rfl, List.append_nil]
      exact ih

/-! ## 2. The config of the core -/

/-- The config of the core is sound all the time. -/
theorem soundRun_downloads {s₀ s : System} {turns : List Turn} (h₀ : s₀.Start)
    (h : System.Run ioFails (fun _ _ => True) s₀ turns s) : SoundRun s.config := by
  induction h with
  | start =>
    obtain ⟨configDir, isFirstStart, password, o, disk, disk', hnew, -⟩ := h₀
    exact sound_of_new hnew
  | step turns s s' turn _ hs _ ih =>
    cases hs with
    | operation op o disk disk' config hidle hrun => exact sound_effect ih (operation_effect hrun)
    | operationFails op o disk disk' config e hrun => exact sound_effect ih (operation_effect hrun)
    | _ => exact ih

/-- So is every config it comes to. -/
theorem soundRun_comesTo {c c' : Config} (h : SoundRun c) (hc : c.ComesTo c') : SoundRun c' := by
  induction hc with
  | refl => exact h
  | tail _ hstep ih =>
    obtain ⟨op, o, disk, disk', r, hrun⟩ := hstep
    exact sound_effect ih (operation_effect hrun)

theorem SoundRun.oneMode {c : Config} (h : SoundRun c) : c.configFile.OneMode :=
  h.sound.file.ignore_or_reverse

/-! ## 3. The uploads -/

/-- What is known of the uploads: the manager goes by a config in one mode, no other one is on its way to
    it, and no uploader comes to the exit. -/
structure ExitFree (s : UploadSystem K) : Prop where
  manager : ∃ w : Drained, s.manager.Holds drainedEnv synced synced w ∧ w.config.configFile.OneMode
  told : ∃ w : UploaderManager.Told, KeepsStep s.manager w
  inbox : ∀ config, .newConfig config ∈ s.world.inbox → config.configFile.OneMode
  uploaders : AllPrograms (fun p => p.Holds (anyAnswers stays) (fun _ _ _ => True) (fun _ _ _ => True) ())
    s.world.uploaders

omit [Crates] in
theorem exitFree_start (fuel n : Nat) {config : Config} (h : config.configFile.OneMode) :
    ExitFree (UploadSystem.start fuel n config : UploadSystem K) where
  manager := ⟨Drained.start config .off, UploaderManager.managerThread_spec fuel n ⟨rfl, rfl⟩, h⟩
  told := ⟨{ config, sharingState := .off, reporting := false },
    UploaderManager.managerThread_inStep fuel n _ _ ⟨rfl, rfl⟩⟩
  inbox config h := absurd h List.not_mem_nil
  uploaders i u p h := by cases h

section Steps

variable {w w' : UploadWorld K} {c : ManagerCmd} {a : c.Ans}

/-- A message on its way to the manager after a command of the manager was on its way before, or is the
    one the manager has sent itself. -/
theorem inbox_managerStep (h : w.ManagerStep c a w') {m : MessageUploadManager} (hm : m ∈ w'.inbox) :
    m ∈ w.inbox ∨ c = .postSelf m := by
  cases c with
  | tryRecv =>
    cases a with
    | value message =>
      obtain ⟨-, rfl⟩ := h
      exact .inl (List.mem_of_mem_tail hm)
    | empty =>
      obtain ⟨-, rfl⟩ := h
      exact .inl hm
    | disconnected => exact h.elim
  | send i message =>
    obtain ⟨u, -, -, rfl⟩ := h
    split at hm <;> exact .inl hm
  | dropSender i =>
    rw [show w' = _ from h] at hm
    exact .inl hm
  | newReverseList =>
    obtain ⟨-, rfl⟩ := h
    exact .inl hm
  | newChannel =>
    obtain ⟨-, rfl⟩ := h
    exact .inl hm
  | spawn i user list config =>
    obtain ⟨u, fuel, encryptedStream, -, -, rfl⟩ := h
    exact .inl hm
  | postSelf message =>
    rw [show w' = _ from h] at hm
    rcases List.mem_append.mp hm with hm | hm
    · exact .inl hm
    · exact .inr (by rw [List.mem_singleton.mp hm])
  | _ =>
    rw [show w' = w from h] at hm
    exact .inl hm

/-- What was drained last is in one mode, where all that is on its way is. -/
theorem drained_next {v : Drained} (hinbox : ∀ config, .newConfig config ∈ w.inbox →
    config.configFile.OneMode) (hv : v.config.configFile.OneMode) (h : w.ManagerStep c a w') :
    ∃ v', v.Step c a v' ∧ v'.config.configFile.OneMode := by
  obtain ⟨v', hstep, hconfig | hcame⟩ := v.next c a
  · exact ⟨v', hstep, hconfig ▸ hv⟩
  · cases hcame
    exact ⟨v', hstep, hinbox _ (List.mem_of_mem_head? h.1)⟩

omit [Crates] in
theorem told_next (v : UploaderManager.Told) (c : ManagerCmd) (a : c.Ans) : ∃ v', v.Step c a v' := by
  cases c with
  | tryRecv => cases a <;> exact ⟨_, rfl⟩
  | _ => exact ⟨_, rfl⟩

omit [Crates] in
/-- Uploaders send the manager nothing. -/
theorem inbox_threadStep {i : Nat} {u : Uploader K} {c : Wire ⊕ UploaderCmd K}
    {a : Ans (@UploaderCmd.Ans K) c} (h : w.ThreadStep i u c a w') : w'.inbox = w.inbox := by
  rcases c with (⟨n, plain⟩ | ⟨n, size⟩) | c
  · rw [show w' = _ from h]
    rfl
  · rw [show w' = _ from h]
    rfl
  · cases c with
    | tryRecv =>
      obtain ⟨u', -, rfl⟩ := h
      rfl
    | reverseListContains nickname =>
      rw [h.2]
      rfl
    | _ =>
      rw [show w' = _ from h]
      rfl

end Steps

/-- **A turn keeps it**, if what the core sends is in one mode. -/
theorem exitFree_step {s s' : UploadSystem K} {turn : UploadTurn K} (h : ExitFree s)
    (hs : s.Step turn s') (hsent : ∀ config, turn = .posted (.newConfig config) →
      config.configFile.OneMode) : ExitFree s' := by
  cases hs with
  | manager m c k a w hmanager hstep =>
    obtain ⟨v, hv, hmode⟩ := h.manager
    obtain ⟨told, htold⟩ := h.told
    rw [hmanager] at hv
    unfold KeepsStep at htold
    rw [hmanager] at htold
    obtain ⟨v', hv', hmode'⟩ := drained_next h.inbox hmode hstep
    obtain ⟨told', htold'⟩ := told_next told c a
    refine ⟨⟨v', hv.2 a v' hv', hmode'⟩, ⟨told', htold.2 a told' htold'⟩, fun config hm => ?_, ?_⟩
    · rcases inbox_managerStep hstep hm with hm | rfl
      · exact h.inbox config hm
      -- what it sends itself is no config
      · have hreport := htold.1.2.2
        cases hreport
    · refine allPrograms_managerStep h.uploaders hstep fun i user list config hspawn => ?_
      subst hspawn
      refine fun fuel encryptedStream => SingleUploader.stays_spawned fuel (fun hsome => ?_) _
      obtain ⟨sharedUser, rfl⟩ := Option.isSome_iff_exists.mp hsome
      obtain ⟨hreverses, rfl⟩ := hv.1
      exact Bool.eq_false_iff.mpr fun hignore => hmode ⟨hignore, hreverses.mode⟩
  | thread i u t c k a w hi hp hstep =>
    refine ⟨h.manager, h.told, fun config hm => ?_, ?_⟩
    · exact h.inbox config (inbox_threadStep hstep ▸ hm)
    · exact allPrograms_threadStep h.uploaders hi hp hstep fun hholds => hholds.2 a () trivial
  | ended i u p hi hp hend =>
    exact ⟨h.manager, h.told, h.inbox, allPrograms_modify h.uploaders fun _ _ _ hp' => .inl hp'⟩
  | posted m =>
    refine ⟨h.manager, h.told, fun config hm => ?_, h.uploaders⟩
    rcases List.mem_append.mp hm with hm | hm
    · exact h.inbox config hm
    · exact hsent config (by rw [List.mem_singleton.mp hm])

theorem exitFree_run (h₀ : s₀.Start) (h : TransmiticCore.Run ioFails s₀ turns s) :
    ExitFree s.uploads := by
  induction h with
  | start =>
    obtain ⟨hstart, fuel, n, huploads⟩ := h₀
    rw [huploads]
    exact exitFree_start fuel n (@soundRun_downloads _ ioFails _ _ [] hstart .start).oneMode
  | step turns s s' turn hr hs ih =>
    cases hs with
    | downloads => exact ih
    | uploads turn uploads hstep hsent =>
      refine exitFree_step ih hstep fun config he => ?_
      have hsound := soundRun_downloads h₀.1 (run_downloads hr)
      exact (soundRun_comesTo hsound (hsent _ he)).oneMode

/-! ## 4. The fatal exits -/

/-- An uploader is about to exit with `InvalidStateIgnoreAndRev`. -/
def InvalidStateIgnoreAndRev (w : UploadWorld K) : Prop :=
  ∃ (i : Nat) (u : Uploader K) (t : Thread SingleUploader)
    (k : Ans (@UploaderCmd.Ans K) (.inr .exit) → UpProgram K),
    w.uploaders[i]? = some u ∧ u.program = some (.call t (.inr .exit) k)

omit [Crates] in
/-- A handshake of this program, in a thread with any state, exits with `EncStreamNoUser`. -/
def EncStreamNoUser (K : Suite) : Prop :=
  ∃ (S : Type) (ts : TransmiticStream),
    ExitsUserless (TransmiticStream.connect (K := K) (S := S) (fun c => issue c) ts) ∨
      ExitsUserless (TransmiticStream.waitForIncoming (K := K) (S := S) (fun c => issue c) ts)

omit [Crates] in
/-- The refresh of all listings is about to look up a user without an entry, and would post
    `AppFailedKill`. -/
def AppFailedKill (turns : List Turn) (s : System) : Prop :=
  refreshesAll turns = true ∧ ∃ d nickname config k, s.core = .call d (.startRefresh nickname config) k ∧
    ¬ s.world.HasEntry nickname

/-- **The fatal exits are never taken**: in every run of the program, with whatever operations, messages
    and peers, in any order; and while all listings are refreshed every user of the downloads' config has
    an entry in the cache. -/
theorem fatalExits_never (h₀ : s₀.Start) (h : TransmiticCore.Run ioFails s₀ turns s) :
    ¬ InvalidStateIgnoreAndRev s.uploads.world ∧ ¬ EncStreamNoUser K ∧
      ¬ AppFailedKill (downloadTurns turns) s.downloads ∧
      ∀ d nickname config k, refreshesAll (downloadTurns turns) = true →
        s.downloads.core = .call d (.startRefresh nickname config) k → Covers d s.downloads.world := by
  have hcache := fun d nickname config k => @covers_run _ ioFails _ _ _ d nickname config k h₀.1
    (run_downloads h)
  refine ⟨?_, ?_, ?_, fun d nickname config k hall hcore => (hcache d nickname config k hcore hall).1⟩
  · rintro ⟨i, u, t, k, hi, hp⟩
    exact ((exitFree_run h₀ h).uploaders i u _ hi hp).1
  · rintro ⟨S, ts, hexit⟩
    obtain ⟨hconnect, hwait⟩ := @userless_never K S ts
    exact hexit.elim hconnect hwait
  · rintro ⟨hall, d, nickname, config, k, hcore, hmissing⟩
    exact hmissing (hcache d nickname config k hcore hall).2

end Runs

/-- The program right after its start, with bob. -/
def bobCore : TransmiticCore openSuite :=
  { downloads := quietSystem [sampleBob]
    uploads := UploadSystem.start 9 1 (usersMemory [sampleBob]) }

/-- All listings are refreshed right after the start: the entry of bob is there. -/
theorem fatalExits_never_refresh : ∃ (s : TransmiticCore openSuite) (turns : List (CoreTurn openSuite))
    (d : OutgoingDownloader) (nickname : Str) (config : Config)
    (k : Unit → Prog OutgoingDownloader CoreCmd CoreCmd.Ans Exc Unit),
    @TransmiticCore.Run openSuite (usersCrates [[sampleBob]]) False bobCore turns s ∧
      s.downloads.core = .call d (.startRefresh nickname config) k ∧ Covers d s.downloads.world ∧
      ¬ InvalidStateIgnoreAndRev s.uploads.world := by
  have hstart : @TransmiticCore.Start openSuite (usersCrates [[sampleBob]]) bobCore :=
    ⟨@quietSystem_start (usersCrates [[sampleBob]]) _ (by decide +kernel) (by decide +kernel), 9, 1, rfl⟩
  let idle : System :=
    { bobCore.downloads with core := .ret () (OutgoingDownloader.new (usersMemory [sampleBob])) }
  have hlooked : @System.Step (usersCrates [[sampleBob]]) False bobCore.downloads _ idle :=
    @System.Step.core (usersCrates [[sampleBob]]) False bobCore.downloads _
      (.queueExists (queueFilePath (usersMemory [sampleBob]) sampleBob.nickname)) _ false
      bobCore.downloads.world rfl ⟨rfl, rfl⟩
  have hrefresh := @System.Step.downloadOperation (usersCrates [[sampleBob]]) False idle
    .startRefreshAll rfl
  have hrun := @TransmiticCore.Run.step openSuite (usersCrates [[sampleBob]]) False bobCore _ _ _ _
    (@TransmiticCore.Run.step openSuite (usersCrates [[sampleBob]]) False bobCore _ _ _ _
      (@TransmiticCore.Run.start openSuite (usersCrates [[sampleBob]]) False bobCore)
      (@TransmiticCore.Step.downloads openSuite (usersCrates [[sampleBob]]) False bobCore _ idle hlooked))
    (@TransmiticCore.Step.downloads openSuite (usersCrates [[sampleBob]]) False
      { bobCore with downloads := idle } _ _ hrefresh)
  obtain ⟨hinvalid, -, -, hcovers⟩ := @fatalExits_never openSuite (usersCrates [[sampleBob]]) False _ _ _
    hstart hrun
  exact ⟨_, _, _, _, _, _, hrun, rfl, hcovers _ _ _ _ rfl rfl, hinvalid⟩

end Transmitic
