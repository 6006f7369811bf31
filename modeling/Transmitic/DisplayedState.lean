/-
  File:      Transmitic/DisplayedState.lean
  Subject:   THE SHARING STATE THE USER SEES (transmitic_core.rs, app_aggregator.rs).

  The core sets the sharing state of the manager by a message. The manager sets its own to `Off` when it
  fails, and reports the failure to the app loop, which leaves it in a slot of one place; the core
  takes it from there and sets the state to `Off`.

  * `setMySharingState`, `getAndResetMySharingError` -- the core, command by command;
  * `SharingSystem.Step` -- the core, the manager and the app loop, in any order;
  * `Others` -- what the others do to what a core operation relies on: **where the state is not what the
    core made it, an error is pending**;
  * `displayed_state` -- the state the core shows is the manager's.
-/
import Transmitic.ConfigReload
import Transmitic.Lib.Interference
import Transmitic.ManagerState

namespace Transmitic

open Lib

/-! ## 1. The core -/

/-- What the core knows of its sharing. -/
structure SharingCore where
  sharingState : SharingState

inductive SharingCmd where
  /-- A message to the log. -/
  | log
  /-- `send` on the manager's channel. -/
  | sendManager (message : MessageUploadManager)
  /-- The error in the slot, and none is left in it: both under one lock. -/
  | takeError

def SharingCmd.Ans : SharingCmd → Type
  | .log => Unit
  | .sendManager _ => Unit
  | .takeError => Option IncomingUploaderError

/-- A method of the core. -/
abbrev Sharing (α : Type) : Type := Act SharingCore SharingCmd SharingCmd.Ans Exc α

namespace SharingCore

def command (c : SharingCmd) : Sharing c.Ans := issue c

def setMySharingState (sharingState : SharingState) : Sharing Unit := do
  command .log
  command (.sendManager (.sharingStateMsg sharingState))
  modify fun s => { s with sharingState }
  command .log

def getAndResetMySharingError : Sharing (Option IncomingUploaderError) := do
  let error : Option IncomingUploaderError ← command .takeError
  if error.isSome then setMySharingState .off
  return error

/-- What the other operations have to do with the manager. -/
def setNewConfig (config : Config) : Sharing Unit := command (.sendManager (.newConfig config))

end SharingCore

inductive SharingOperation where
  | setMySharingState (sharingState : SharingState)
  | getAndResetMySharingError
  | setNewConfig (config : Config)

def SharingOperation.program : SharingOperation → Sharing Unit
  | .setMySharingState sharingState => SharingCore.setMySharingState sharingState
  | .getAndResetMySharingError => do
    let _error ← SharingCore.getAndResetMySharingError
  | .setNewConfig config => SharingCore.setNewConfig config

/-! ## 2. The system -/

structure SharingSystem where
  side : ManagerSide
  /-- The error the app loop has received and not yet stored. -/
  received : Option IncomingUploaderError
  /-- `incoming_uploader_error`. -/
  slot : Option IncomingUploaderError
  core : SharingCore
  /-- The rest of the operation the core is in. -/
  operation : Option (Prog SharingCore SharingCmd SharingCmd.Ans Exc Unit)

/-- A core has been made. -/
def SharingSystem.start (fuel n : Nat) (config : Config) (reverseFileList : Nat) : SharingSystem :=
  { side := ManagerSide.start fuel n config reverseFileList
    received := none
    slot := none
    core := { sharingState := .off }
    operation := none }

/-- What a command of the core does. -/
def SharingSystem.Does (s : SharingSystem) : (c : SharingCmd) → c.Ans → SharingSystem → Prop
  | .log, _, s' => s' = s
  | .sendManager message, _, s' => ∃ side, s.side.Sends message side ∧ s' = { s with side }
  | .takeError, error, s' => error = s.slot ∧ s' = { s with slot := none }

inductive SharingSystem.Step (s : SharingSystem) : SharingSystem → Prop where
  | manager (side : ManagerSide) (h : s.side.Turn side) : s.Step { s with side }
  /-- The app loop receives an error. -/
  | receive (e : IncomingUploaderError) (errors : List IncomingUploaderError)
      (hs : s.side.queues.errors = e :: errors) (hr : s.received = none) :
      s.Step { s with side := { s.side with queues := { s.side.queues with errors } }, received := some e }
  /-- It overwrites the slot with it. -/
  | store (e : IncomingUploaderError) (hr : s.received = some e) :
      s.Step { s with received := none, slot := some e }
  | «begin» (operation : SharingOperation) (hs : s.operation = none) :
      s.Step { s with operation := some (operation.program s.core) }
  | core (m : SharingCore) (c : SharingCmd) (k : c.Ans → Prog SharingCore SharingCmd SharingCmd.Ans Exc Unit)
      (a : c.Ans) (s' : SharingSystem) (hs : s.operation = some (.call m c k)) (hd : s.Does c a s') :
      s.Step { s' with operation := some (k a) }
  /-- It returns. -/
  | «end» (m : SharingCore) (hs : s.operation = some (.ret ⟨⟩ m)) :
      s.Step { s with core := m, operation := none }

inductive SharingSystem.Run (s₀ : SharingSystem) : SharingSystem → Prop where
  | start : s₀.Run s₀
  | step (s s' : SharingSystem) (h : s₀.Run s) (hs : s.Step s') : s₀.Run s'

/-- Every message and every error has come to its end, and the core is in no operation. -/
structure SharingSystem.Settled (s : SharingSystem) : Prop where
  inbox : s.side.queues.inbox = []
  errors : s.side.queues.errors = []
  received : s.received = none
  slot : s.slot = none
  operation : s.operation = none

/-! ## 3. What the core relies on -/

/-- The state the manager comes to, and is an error on its way to the core? -/
structure Shown where
  last : SharingState
  pending : Prop

/-- The manager and the app loop change the state only by an error that is pending then, and an
    error stays pending. -/
structure Shown.Others (w w' : Shown) : Prop where
  pending : w.pending → w'.pending
  last : w'.last = w.last ∨ w'.pending

theorem interference_others : Interference Shown.Others where
  refl _ := ⟨id, .inl rfl⟩
  trans _ _ _ h h' := by
    refine ⟨fun hp => h'.pending (h.pending hp), ?_⟩
    rcases h'.last with he | hp
    · rw [he]
      exact h.last.imp_right h'.pending
    · exact .inr hp

/-- What a command of the core does to it. -/
def ShownStep (w : Shown) : (c : SharingCmd) → c.Ans → Shown → Prop
  | .sendManager (.sharingStateMsg sharingState), _, w' => w' = { w with last := sharingState }
  | .takeError, some _, w' => w'.last = w.last
  | _, _, w' => w' = w

def shownEnv : Env SharingCore SharingCmd SharingCmd.Ans Shown where
  ok _ _ _ := True
  step w _ c a w' := ShownStep w c a w'

/-- What the core shows is what the manager comes to, or an error is pending. -/
def Shows (m : SharingCore) (w : Shown) : Prop := w.pending ∨ w.last = m.sharingState

section Core

variable {m : SharingCore} {w w' : Shown}

theorem Shown.Others.shows (h : Shown.Others w w') (hs : Shows m w) : Shows m w' := by
  rcases hs with hp | he
  · exact .inl (h.pending hp)
  · rcases h.last with hl | hp
    · exact .inr (hl.trans he)
    · exact .inl hp

/-- A fact about what is shown, at each command that does not change it. -/
theorem wp_log_among {α : Type} {I : Shown → Prop} (hI : ∀ w w', w.Others w' → I w → I w') (hw : I w)
    {f : Unit → Sharing α} {Q : α → SharingCore → Shown → Prop}
    (hf : ∀ w, I w → wp (shownEnv.among Shown.Others) (f ⟨⟩) Q (fun _ _ _ => False) m w) :
    wp (shownEnv.among Shown.Others) (SharingCore.command .log >>= f) Q (fun _ _ _ => False) m w := by
  refine wp_seq (m := SharingCore.command .log)
    (wp_issue_among (J := fun _ => I) hI (fun _ => hI) (fun _ _ => trivial) (fun w a w' hi hs => ?_) hw)
    (fun _ _ w' h => ?_) fun _ _ _ h => h
  · obtain rfl : w' = w := hs
    exact hi
  · obtain ⟨rfl, hi⟩ := h
    exact hf w' hi

/-- **Whatever was shown before**, the state that is set is shown. -/
theorem setMySharingState_shows (sharingState : SharingState) :
    wp (shownEnv.among Shown.Others) (SharingCore.setMySharingState sharingState) (fun _ => Shows)
      (fun _ _ _ => False) m w := by
  have hset : ∀ w w', w.Others w' → Shows { m with sharingState } w → Shows { m with sharingState } w' :=
    fun w w' ho hs => ho.shows hs
  refine wp_log_among (I := fun _ => True) (fun _ _ _ _ => trivial) trivial fun w₁ _ => ?_
  refine wp_seq (m := SharingCore.command (.sendManager (.sharingStateMsg sharingState)))
    (wp_issue_among (I := fun _ => True) (J := fun _ => Shows { m with sharingState })
      (fun _ _ _ _ => trivial) (fun _ => hset) (fun _ _ => trivial) (fun w a w' _ hs => ?_) trivial)
    (fun _ _ w₂ h => ?_) fun _ _ _ h => h
  · obtain rfl : w' = { w with last := sharingState } := hs
    exact .inr rfl
  obtain ⟨rfl, hshown⟩ := h
  refine (wp_bind _ _).mpr ((wp_modify _).mpr ?_)
  have hlog : wp (shownEnv.among Shown.Others) (SharingCore.command .log >>= pure)
      (fun _ => Shows) (fun _ _ _ => False) { sharingState } w₂ :=
    wp_log_among hset hshown fun w hs => hs
  exact hlog

theorem getAndResetMySharingError_shows (h : Shows m w) :
    wp (shownEnv.among Shown.Others) SharingCore.getAndResetMySharingError (fun _ => Shows)
      (fun _ _ _ => False) m w := by
  refine wp_seq (m := SharingCore.command .takeError)
    (wp_issue_among (I := Shows m) (J := fun error w => error = none → Shows m w)
      (fun _ _ ho hs => ho.shows hs) (fun error w w' ho hs => ?_) (fun _ _ => trivial)
      (fun w error w' hi hs => ?_) h)
    (fun error _ w₁ h₁ => ?_) fun _ _ _ h => h
  · exact fun he => ho.shows (hs he)
  · intro he
    subst he
    obtain rfl : w' = w := hs
    exact hi
  obtain ⟨rfl, h₁⟩ := h₁
  cases error with
  | some e => exact wp_seq (setMySharingState_shows .off) (fun _ _ _ h => h) fun _ _ _ h => h
  | none => exact h₁ rfl

/-- **No operation of the core ends with another state than the manager's**, but for a pending error. -/
theorem operation_shows (operation : SharingOperation) (h : Shows m w) :
    wp (shownEnv.among Shown.Others) operation.program (fun _ => Shows) (fun _ _ _ => False) m w := by
  cases operation with
  | setMySharingState sharingState => exact setMySharingState_shows sharingState
  | getAndResetMySharingError =>
    exact wp_seq (getAndResetMySharingError_shows h) (fun _ _ _ h => h) fun _ _ _ h => h
  | setNewConfig config =>
    refine wp_conseq (wp_issue_among (I := Shows m) (J := fun _ => Shows m)
      (fun _ _ ho hs => ho.shows hs) (fun _ _ _ ho hs => ho.shows hs) (fun _ _ => trivial)
      (fun w a w' hi hs => ?_) h) (fun _ _ _ h => ?_) fun _ _ _ h => h
    · obtain rfl : w' = w := hs
      exact hi
    · obtain ⟨rfl, hs⟩ := h
      exact hs

end Core

/-! ## 4. Every run -/

/-- What the core relies on, as the system has it. -/
def SharingSystem.shown (s : SharingSystem) (w : UploaderManager.Told) : Shown :=
  { last := (s.side.comesTo w).sharingState
    pending := s.side.Reporting w ∨ s.received ≠ none ∨ s.slot ≠ none }

/-- What holds between the core and the manager. -/
structure SharingSystem.Consistent (s : SharingSystem) (w : UploaderManager.Told) : Prop where
  linked : Linked s.side w
  idle : s.operation = none → Shows s.core (s.shown w)
  busy : ∀ p, s.operation = some p →
    p.Holds (shownEnv.among Shown.Others) (fun _ => Shows) (fun _ _ _ => False) (s.shown w)

section Runs

variable {s s' s₀ : SharingSystem} {w w' : UploaderManager.Told}

/-- A step of the others. -/
theorem SharingSystem.Consistent.others (h : s.Consistent w) (hl : Linked s'.side w')
    (hcore : s'.core = s.core) (hop : s'.operation = s.operation)
    (ho : (s.shown w).Others (s'.shown w')) : s'.Consistent w' where
  linked := hl
  idle hn := by
    rw [hcore]
    exact ho.shows (h.idle (hop ▸ hn))
  busy p hp := Prog.Holds.interfere interference_others (fun _ _ _ _ ho hs => ho.shows hs)
    (fun _ _ _ _ _ hf => hf) (h.busy p (hop ▸ hp)) ho

/-- **A command of the core.** -/
theorem shown_does {c : SharingCmd} {a : c.Ans} (hl : Linked s.side w) (hd : s.Does c a s') :
    ShownStep (s.shown w) c a (s'.shown w) ∧ Linked s'.side w ∧ s'.operation = s.operation := by
  cases c with
  | log =>
    obtain rfl : s' = s := hd
    exact ⟨rfl, hl, rfl⟩
  | sendManager message =>
    obtain ⟨_, ⟨-, rfl⟩, rfl⟩ := hd
    refine ⟨?_, hl.post message, rfl⟩
    have hcomes : (s.side.post message).comesTo w = (s.side.comesTo w).hear message := comesTo_post message
    cases message with
    | sharingStateMsg sharingState =>
      show Shown.mk ((s.side.post _).comesTo w).sharingState _ = _
      rw [hcomes]
      rfl
    | newConfig config =>
      show Shown.mk ((s.side.post _).comesTo w).sharingState _ = _
      rw [hcomes]
      rfl
  | takeError =>
    obtain ⟨rfl, rfl⟩ := hd
    refine ⟨?_, hl, rfl⟩
    have hsame : s.slot = none → { s with slot := none } = s := by
      intro hn
      rw [← hn]
    cases hslot : s.slot with
    | some e => rfl
    | none =>
      rw [hsame hslot]
      rfl

/-- **A step of anyone.** -/
theorem SharingSystem.Consistent.step (h : s.Consistent w) (hs : s.Step s') :
    ∃ w', s'.Consistent w' := by
  cases hs with
  | manager side hturn =>
    obtain ⟨w', hl, hgoes⟩ := h.linked.turn hturn
    exact ⟨w', h.others hl rfl rfl ⟨fun hp => hp.imp_left hgoes.reporting, hgoes.state.imp_right .inl⟩⟩
  | receive e errors herrors hr =>
    exact ⟨w, h.others ⟨h.linked.keeps, h.linked.told⟩ rfl rfl
      ⟨fun _ => .inr (.inl (Option.some_ne_none e)), .inl rfl⟩⟩
  | store e hr =>
    exact ⟨w, h.others h.linked rfl rfl
      ⟨fun _ => .inr (.inr (Option.some_ne_none e)), .inl rfl⟩⟩
  | «begin» operation hop =>
    refine ⟨w, h.linked, fun hn => absurd hn (Option.some_ne_none _), fun p hp => ?_⟩
    cases hp
    exact operation_shows operation (h.idle hop)
  | core m c k a s₁ hop hd =>
    obtain ⟨hstep, hl, -⟩ := shown_does h.linked hd
    obtain ⟨-, hk⟩ := Prog.Holds.issue interference_others (h.busy _ hop)
    refine ⟨w, hl, fun hn => absurd hn (Option.some_ne_none _), fun p hp => ?_⟩
    cases hp
    exact hk a _ hstep
  | «end» m hop => exact ⟨w, h.linked, fun _ => h.busy _ hop, fun _ hp => absurd hp.symm (Option.some_ne_none _)⟩

theorem SharingSystem.Run.consistent (hstart : s₀.Consistent w) (h : s₀.Run s) :
    ∃ w', s.Consistent w' := by
  induction h with
  | start => exact ⟨w, hstart⟩
  | step s s' _ hs ih =>
    obtain ⟨w', h'⟩ := ih
    exact h'.step hs

theorem consistent_start (fuel n : Nat) (config : Config) (reverseFileList : Nat) :
    (SharingSystem.start fuel n config reverseFileList).Consistent
      { config, sharingState := .off, reporting := false } :=
  ⟨linked_start fuel n config reverseFileList, fun _ => .inr rfl, fun _ hp => absurd hp.symm (Option.some_ne_none _)⟩

/-- **The state the core shows is the manager's**, in every run of the core, the manager and the app
    loop, once all messages are processed and no error is pending. -/
theorem displayed_state (fuel n : Nat) (config : Config) (reverseFileList : Nat)
    (h : (SharingSystem.start fuel n config reverseFileList).Run s) (hs : s.Settled) :
    s.core.sharingState = s.side.manager.state.sharingState := by
  obtain ⟨w, hw⟩ := h.consistent (consistent_start fuel n config reverseFileList)
  obtain ⟨hgoes, hdone⟩ := hw.linked.drained hs.inbox
  have hstate : s.side.manager.state.sharingState = (s.side.comesTo w).sharingState :=
    congrArg Prod.snd hgoes
  rw [hstate]
  rcases hw.idle hs.operation with hpending | hlast
  · rcases hpending with (hr | he) | hr | hslot
    · rw [hdone] at hr
      cases hr
    · exact absurd hs.errors he
    · exact absurd hs.received hr
    · exact absurd hs.slot hslot
  · exact hlast.symm

/-- The user shares with the internet, and the manager has heard of it. -/
theorem displayed_state_sample : ∃ s, (SharingSystem.start 3 1 (sampleMemory []) 0).Run s ∧
    s.core.sharingState = .internet ∧ s.core.sharingState = s.side.manager.state.sharingState := by
  let s₀ := SharingSystem.start 3 1 (sampleMemory []) 0
  let operation : SharingOperation := .setMySharingState .internet
  have h₁ : s₀.Run _ := .step _ _ .start (.begin operation rfl)
  have h₂ : s₀.Run _ := .step _ _ h₁ (.core _ .log _ ⟨⟩ _ rfl rfl)
  have h₃ : s₀.Run _ := .step _ _ h₂ (.core _ (.sendManager (.sharingStateMsg .internet)) _ ⟨⟩ _ rfl ⟨_, ⟨rfl, rfl⟩, rfl⟩)
  have h₄ : s₀.Run _ := .step _ _ h₃ (.core _ .log _ ⟨⟩ _ rfl rfl)
  have h₅ : s₀.Run _ := .step _ _ h₄ (.end _ rfl)
  have h₆ : s₀.Run _ := .step _ _ h₅ (.manager _ (.turn _ .tryRecv _ (.value (.sharingStateMsg .internet))
    { inbox := [], errors := [] } rfl ⟨rfl, rfl⟩))
  exact ⟨_, h₆, rfl, displayed_state 3 1 (sampleMemory []) 0 h₆ ⟨rfl, rfl, rfl, rfl, rfl⟩⟩

end Runs

end Transmitic
