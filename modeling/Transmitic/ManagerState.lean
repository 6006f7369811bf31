/-
  File:      Transmitic/ManagerState.lean
  Subject:   THE STATE THE MANAGER IS IN, at every point of its thread.

  The sharing state and the config of the manager are what it was told last on its channel. A message
  has its effect before the manager asks for anything else, so this holds at every command, and not
  only between two drains.

  * `Told` -- what the manager was told last, and is it about to report a failure?
  * `InStep` -- it goes by that;
  * `managerThread_inStep` -- **the manager goes by what it was told, at every point of every run**;
  * `ManagerSide` -- the manager with its channel and the errors on their way to the app;
  * `Linked.turn` -- **a turn of the manager changes nothing of what its channel comes to**, unless it
    reports a failure.
-/
import Transmitic.ManagerMethods

namespace Transmitic

open Lib

namespace UploaderManager

/-! ## 1. What the manager was told -/

structure Told where
  config : Config
  sharingState : SharingState
  /-- It has told itself to stop sharing, and not yet the app why. -/
  reporting : Bool

/-- A message is heard. -/
def Told.hear (w : Told) : MessageUploadManager → Told
  | .sharingStateMsg sharingState => { w with sharingState }
  | .newConfig config => { w with config }

/-- All messages of a channel are heard. -/
def Told.hearAll (w : Told) (inbox : List MessageUploadManager) : Told := inbox.foldl Told.hear w

/-- A failure is reported in two steps, with nothing between them. -/
def Told.Reports (w : Told) : ManagerCmd → Prop
  | .postSelf message => w.reporting = false ∧ message = .sharingStateMsg .off
  | .appError _ => w.reporting = true
  | _ => w.reporting = false

def Told.Step (w : Told) : (c : ManagerCmd) → c.Ans → Told → Prop
  | .tryRecv, .value message, w' => w' = w.hear message
  | .postSelf _, _, w' => w' = { w with reporting := true }
  | .appError _, _, w' => w' = { w with reporting := false }
  | _, _, w' => w' = w

/-- The config and the sharing state a manager goes by. -/
def goesBy (m : UploaderManager) : Config × SharingState := (m.config, m.sharingState)

/-- The manager goes by what it was told. -/
def Told.Heeded (w : Told) (m : UploaderManager) : Prop := m.goesBy = (w.config, w.sharingState)

/-- At every command it does. -/
def toldEnv : Env UploaderManager ManagerCmd ManagerCmd.Ans Told where
  ok w m c := w.Heeded m ∧ w.Reports c
  step w _ c a w' := w.Step c a w'

/-- The manager goes by what it was told, and has nothing to report. -/
structure InStep (m : UploaderManager) (w : Told) : Prop where
  heeded : w.Heeded m
  done : w.reporting = false

@[simp] theorem hearAll_nil (w : Told) : w.hearAll [] = w := rfl

@[simp] theorem hearAll_cons (w : Told) (message : MessageUploadManager)
    (inbox : List MessageUploadManager) :
    w.hearAll (message :: inbox) = (w.hear message).hearAll inbox := rfl

@[simp] theorem hearAll_append (w : Told) (inbox : List MessageUploadManager)
    (message : MessageUploadManager) :
    w.hearAll (inbox ++ [message]) = (w.hearAll inbox).hear message := by
  unfold Told.hearAll
  rw [List.foldl_append]
  rfl

/-- Whether a failure is being reported does not change what is heard. -/
theorem hearAll_report (inbox : List MessageUploadManager) (reporting : Bool) : ∀ w : Told,
    Told.hearAll { w with reporting } inbox = { w.hearAll inbox with reporting } := by
  induction inbox with
  | nil => exact fun _ => rfl
  | cons message inbox ih =>
    intro w
    rw [hearAll_cons, hearAll_cons, ← ih]
    cases message <;> rfl

/-! ## 2. Methods that leave it alone -/

/-- Commands that neither bring a message nor report a failure. -/
def quiet : ManagerCmd → Prop
  | .tryRecv => False
  | .postSelf _ => False
  | .appError _ => False
  | _ => True

section Steady

variable {α : Type}

/-- Telling all threads something. -/
theorem steady_tellAll (message : MessageSingleUploader) :
    Steady quiet goesBy (sendMessageToAllUploaders message) :=
  (steady_sendMessageToAllUploaders (fun _ _ => trivial) (fun _ => trivial) message).map
    fun p => (p.1, p.2.1)

theorem steady_resetConnections : Steady quiet goesBy resetConnections := by
  obtain ⟨rest, heq, hrest⟩ :=
    resetConnections_steady (P := quiet) (fun _ _ => trivial) (fun _ => trivial) trivial
  rw [heq]
  exact steady_bind (steady_modify fun _ => rfl) fun _ => hrest.map fun p => (p.1, p.2.1)

theorem steady_startReverse (sharedUser : SharedUser) :
    Steady quiet goesBy (startReverse sharedUser) := by
  refine steady_bind steady_get fun _ => steady_ite (steady_pure _) (steady_ite (steady_pure _) ?_)
  refine steady_bind (steady_log trivial) fun _ => steady_bind (steady_issue trivial) fun _ => ?_
  exact steady_bind (steady_modify fun _ => rfl) fun _ => steady_issue trivial

theorem steady_startReverseAll : ∀ sharedUsers : List SharedUser,
    Steady quiet goesBy (startReverseAll sharedUsers)
  | [] => steady_pure _
  | sharedUser :: sharedUsers =>
    steady_bind (steady_startReverse sharedUser) fun _ => steady_startReverseAll sharedUsers

/-- **A method that neither drains nor reports** leaves the manager in step. -/
theorem inStep_of_steady {method : Mgr α} (h : Steady quiet goesBy method) :
    Maintains toldEnv InStep method := by
  refine maintains_of_steady h (fun m m' w hm hi => ⟨hm.trans hi.heeded, hi.done⟩)
    (fun m w c hi hc => ⟨hi.heeded, ?_⟩) fun m w c a w' hi hc hs => ?_
  · cases c with
    | tryRecv => exact hc.elim
    | postSelf message => exact hc.elim
    | appError e => exact hc.elim
    | _ => exact hi.done
  · unfold toldEnv Told.Step at hs
    dsimp only at hs
    split at hs
    · exact hc.elim
    · exact hc.elim
    · exact hc.elim
    · exact hs ▸ hi

end Steady

/-! ## 3. The thread -/

section Thread

variable {m : UploaderManager} {w : Told}

theorem receive_inStep (message : MessageUploadManager) (h : InStep m w) :
    wp toldEnv (receive message) (fun _ => InStep) (fun _ => InStep) m (w.hear message) := by
  cases message with
  | sharingStateMsg sharingState =>
    have h₀ : InStep { m with sharingState } { w with sharingState } :=
      ⟨congrArg (fun p : Config × SharingState => (p.1, sharingState)) h.heeded, h.done⟩
    exact inStep_of_steady steady_resetConnections _ _ h₀
  | newConfig config =>
    have h₀ : InStep { m with config } { w with config } :=
      ⟨congrArg (fun p : Config × SharingState => (config, p.2)) h.heeded, h.done⟩
    exact inStep_of_steady steady_resetConnections _ _ h₀

theorem readReceiver_inStep : ∀ fuel : Nat, Maintains toldEnv InStep (readReceiver fuel)
  | 0 => maintains_throw _
  | fuel + 1 => by
    intro m w h
    refine (wp_bind _ _).mpr ⟨⟨h.heeded, h.done⟩, fun a w₁ hs => ?_⟩
    cases a with
    | value message =>
      obtain rfl : w₁ = w.hear message := hs
      exact wp_seq (receive_inStep message h) (fun _ m' w' h' => readReceiver_inStep fuel m' w' h')
        fun _ _ _ h' => h'
    | empty =>
      obtain rfl : w₁ = w := hs
      exact h
    | disconnected =>
      obtain rfl : w₁ = w := hs
      exact (wp_bind _ _).mpr ⟨⟨h.heeded, h.done⟩, fun never => nomatch never⟩

theorem reverseWait_inStep (fuel : Nat) : ∀ seconds : Nat,
    Maintains toldEnv InStep (reverseWait fuel seconds)
  | 0 => maintains_bind (readReceiver_inStep fuel) fun _ => maintains_get fun _ _ h => h
  | seconds + 1 => by
    refine maintains_bind (readReceiver_inStep fuel) fun _ => maintains_get fun m w h => ?_
    have hsleep : Maintains toldEnv InStep (command (.sleep 1000)) :=
      inStep_of_steady (steady_issue trivial)
    exact maintains_ite (fun _ => maintains_pure _)
      (fun _ => maintains_bind hsleep fun _ => reverseWait_inStep fuel seconds) m w h

theorem reverseLoop_inStep : ∀ fuel sleep : Nat, Maintains toldEnv InStep (reverseLoop fuel sleep)
  | 0, _ => maintains_throw _
  | fuel + 1, sleep => by
    refine maintains_bind (inStep_of_steady (steady_log trivial)) fun _ => ?_
    refine maintains_bind (reverseWait_inStep fuel _) fun stop => ?_
    refine maintains_ite (fun _ => maintains_pure _) fun _ => ?_
    refine maintains_bind (inStep_of_steady (steady_tellAll _)) fun _ => ?_
    refine maintains_get fun m w h => ?_
    exact maintains_bind (inStep_of_steady (steady_startReverseAll _))
      (fun _ => reverseLoop_inStep fuel _) m w h

theorem acceptAll_inStep (fuel : Nat) : ∀ listeners : List Nat,
    Maintains toldEnv InStep (acceptAll fuel listeners)
  | [] => maintains_pure _
  | listener :: listeners => by
    refine maintains_bind (readReceiver_inStep fuel) fun _ => maintains_get fun m w h => ?_
    refine maintains_ite (fun _ => maintains_pure _) (fun _ => ?_) m w h
    refine maintains_bind (inStep_of_steady (steady_issue trivial)) fun a => ?_
    have hnext {β : Type} {method : Mgr β} (hm : Steady quiet goesBy method) :
        Maintains toldEnv InStep (method >>= fun _ => acceptAll fuel listeners) :=
      maintains_bind (inStep_of_steady hm) fun _ => acceptAll_inStep fuel listeners
    cases a with
    | stream =>
      refine hnext ((steady_startUploader ?_ ?_ trivial ?_).map fun p => (p.1, p.2.1))
      · exact fun _ _ => trivial
      · exact fun _ => trivial
      · exact fun _ _ _ => trivial
    | wouldBlock => exact hnext (steady_issue trivial)
    | failed e => exact hnext (steady_log trivial)

theorem acceptLoop_inStep (listeners : List Nat) : ∀ fuel : Nat,
    Maintains toldEnv InStep (acceptLoop listeners fuel)
  | 0 => maintains_throw _
  | fuel + 1 => maintains_bind (acceptAll_inStep fuel listeners) fun _ =>
      maintains_ite (fun _ => maintains_pure _) fun _ => acceptLoop_inStep listeners fuel

theorem listen_inStep (fuel : Nat) (ipAddresses : List SocketAddr) :
    Maintains toldEnv InStep (listen fuel ipAddresses) :=
  maintains_bind (inStep_of_steady (steady_bindListeners (fun _ => trivial) ipAddresses)) fun listeners =>
    maintains_ite (fun _ => maintains_throw _) fun _ => acceptLoop_inStep listeners fuel

theorem run_inStep : ∀ fuel : Nat, Maintains toldEnv InStep (run fuel)
  | 0 => maintains_throw _
  | fuel + 1 => by
    refine maintains_bind (maintains_modify fun m w h => ⟨h.heeded, h.done⟩) fun _ => ?_
    refine maintains_bind (readReceiver_inStep fuel) fun _ => maintains_get fun m w h => ?_
    refine maintains_ite (fun _ => ?_) (fun _ => ?_) m w h
    · exact maintains_bind (inStep_of_steady (steady_issue trivial)) fun _ => run_inStep fuel
    refine maintains_bind (inStep_of_steady (steady_unwrapAll _)) fun addresses => ?_
    refine maintains_ite (fun _ => ?_) fun _ => ?_
    · refine maintains_bind (inStep_of_steady (steady_log trivial)) fun _ => ?_
      exact maintains_bind (reverseLoop_inStep fuel 1) fun _ => run_inStep fuel
    · exact maintains_bind (listen_inStep fuel addresses) fun _ => run_inStep fuel

theorem afterFailure_inStep (x : Exc) : Maintains toldEnv InStep (afterFailure x) := by
  cases x with
  | err e =>
    intro m w h
    refine (wp_bind _ _).mpr ⟨⟨h.heeded, h.done, rfl⟩, fun _ w₁ hs => ?_⟩
    obtain rfl : w₁ = { w with reporting := true } := hs
    refine ⟨⟨h.heeded, rfl⟩, fun _ w₂ hs => ?_⟩
    obtain rfl : w₂ = { w with reporting := false } := hs
    exact ⟨h.heeded, rfl⟩
  | panic => exact maintains_throw _
  | fuel => exact maintains_throw _

/-- **The manager goes by what it was told**, whatever comes and whatever fails. -/
theorem managerThread_inStep (fuel : Nat) : ∀ n : Nat, Maintains toldEnv InStep (managerThread fuel n)
  | 0 => maintains_throw _
  | n + 1 => by
    refine maintains_bind (maintains_tryCatch (maintains_bind (run_inStep fuel) fun _ => ?_)
      afterFailure_inStep) fun _ => managerThread_inStep fuel n
    exact maintains_bind (inStep_of_steady (steady_issue trivial)) fun never => nomatch never

/-- The manager at a point of its thread. -/
abbrev Point : Type := Prog UploaderManager ManagerCmd ManagerCmd.Ans Exc Unit

/-- The manager keeps in step from this point on. -/
def KeepsStep (p : Point) (w : Told) : Prop :=
  p.Holds toldEnv (fun _ => InStep) (fun _ => InStep) w

/-- **At every point**, at a command or at its end. -/
theorem KeepsStep.heeded {p : Point} (h : KeepsStep p w) : w.Heeded p.state := by
  cases p with
  | ret a m => exact InStep.heeded h
  | fail x m => exact InStep.heeded h
  | call m c k => exact h.1.1

end Thread

end UploaderManager

open UploaderManager

/-! ## 4. The manager and its channel -/

/-- The messages to the manager, and its errors to the app. -/
structure ManagerQueues where
  inbox : List MessageUploadManager
  errors : List IncomingUploaderError

def ManagerQueues.Step (q : ManagerQueues) : (c : ManagerCmd) → c.Ans → ManagerQueues → Prop
  | .tryRecv, .value message, q' => q.inbox = message :: q'.inbox ∧ q'.errors = q.errors
  | .tryRecv, .empty, q' => q.inbox = [] ∧ q' = q
  -- the manager's own thread has a sender
  | .tryRecv, .disconnected, _ => False
  | .postSelf message, _, q' => q' = { q with inbox := q.inbox ++ [message] }
  | .appError e, _, q' => q' = { q with errors := q.errors ++ [e] }
  | _, _, q' => q' = q

structure ManagerSide where
  manager : Point
  queues : ManagerQueues

/-- `IncomingUploader::new`. -/
def ManagerSide.start (fuel n : Nat) (config : Config) (reverseFileList : Nat) : ManagerSide :=
  { manager := managerThread fuel n (UploaderManager.new config .off reverseFileList)
    queues := { inbox := [], errors := [] } }

/-- A message on the manager's channel. -/
def ManagerSide.post (s : ManagerSide) (message : MessageUploadManager) : ManagerSide :=
  { s with queues := { s.queues with inbox := s.queues.inbox ++ [message] } }

/-- The core's `send`. A manager that has ended has no receiver, and then the process exits. -/
def ManagerSide.Sends (s : ManagerSide) (message : MessageUploadManager) (s' : ManagerSide) : Prop :=
  s.manager.issued.isSome ∧ s' = s.post message

/-- One command of the manager. Everything but its queues may answer anything. -/
inductive ManagerSide.Turn (s : ManagerSide) : ManagerSide → Prop where
  | turn (m : UploaderManager) (c : ManagerCmd)
      (k : c.Ans → Point) (a : c.Ans) (queues : ManagerQueues) (hc : s.manager = .call m c k)
      (hs : s.queues.Step c a queues) : s.Turn { manager := k a, queues }

/-- The manager goes by `w` from here on; a report that is not complete follows its message. -/
structure Linked (s : ManagerSide) (w : UploaderManager.Told) : Prop where
  keeps : KeepsStep s.manager w
  told : w.reporting = true → s.queues.inbox ≠ []

/-- What the manager will have been told once its channel is drained. -/
def ManagerSide.comesTo (s : ManagerSide) (w : UploaderManager.Told) : UploaderManager.Told :=
  w.hearAll s.queues.inbox

/-- An error is on its way to the app. -/
def ManagerSide.Reporting (s : ManagerSide) (w : UploaderManager.Told) : Prop :=
  w.reporting = true ∨ s.queues.errors ≠ []

/-- What a turn changes of what the channel comes to. -/
structure ManagerSide.Goes (s : ManagerSide) (w : UploaderManager.Told) (s' : ManagerSide)
    (w' : UploaderManager.Told) : Prop where
  config : (s'.comesTo w').config = (s.comesTo w).config
  state : (s'.comesTo w').sharingState = (s.comesTo w).sharingState ∨ s'.Reporting w'
  reporting : s.Reporting w → s'.Reporting w'

section Link

variable {s s' : ManagerSide} {w : UploaderManager.Told}

theorem linked_start (fuel n : Nat) (config : Config) (reverseFileList : Nat) :
    Linked (ManagerSide.start fuel n config reverseFileList)
      { config, sharingState := .off, reporting := false } :=
  ⟨managerThread_inStep fuel n _ _ ⟨rfl, rfl⟩, (nomatch ·)⟩

theorem Linked.post (h : Linked s w) (message : MessageUploadManager) : Linked (s.post message) w :=
  ⟨h.keeps, fun _ => List.append_ne_nil_of_right_ne_nil _ (List.cons_ne_nil _ _)⟩

theorem comesTo_post (message : MessageUploadManager) :
    (s.post message).comesTo w = (s.comesTo w).hear message := hearAll_append w _ _

/-- **A turn of the manager.** -/
theorem Linked.turn (h : Linked s w) (ht : s.Turn s') : ∃ w', Linked s' w' ∧ s.Goes w s' w' := by
  obtain ⟨m, c, k, a, queues, hc, hs⟩ := ht
  have hk := h.keeps
  unfold KeepsStep at hk
  rw [hc] at hk
  obtain ⟨⟨-, hreports⟩, hk⟩ := hk
  have hsame (hq : queues = s.queues) (hstep : w.Step c a w) :
      ∃ w', Linked { manager := k a, queues } w' ∧ s.Goes w { manager := k a, queues } w' := by
    subst hq
    exact ⟨w, ⟨hk a w hstep, h.told⟩, rfl, .inl rfl, id⟩
  unfold ManagerQueues.Step at hs
  split at hs
  · rename_i message
    obtain ⟨hinbox, herrors⟩ := hs
    have hdone : w.reporting = false := hreports
    have hcomes : s.comesTo w = (w.hear message).hearAll queues.inbox := by
      unfold ManagerSide.comesTo
      rw [hinbox, hearAll_cons]
    have hheard : (w.hear message).reporting = false := by
      cases message <;> exact hdone
    refine ⟨w.hear message, ⟨hk _ _ rfl, fun h' => ?_⟩, ?_, .inl ?_, fun h' => .inr ?_⟩
    · rw [hheard] at h'
      cases h'
    · rw [hcomes]
      rfl
    · rw [hcomes]
      rfl
    · show queues.errors ≠ []
      rw [herrors]
      rcases h' with h' | h'
      · rw [hdone] at h'
        cases h'
      · exact h'
  · exact hsame hs.2 rfl
  · exact hs.elim
  · rename_i message _
    subst hs
    obtain ⟨hdone, rfl⟩ : w.reporting = false ∧ message = .sharingStateMsg .off := hreports
    refine ⟨{ w with reporting := true }, ⟨hk _ _ rfl, fun _ => ?_⟩, ?_, .inr (.inl rfl),
      fun _ => .inl rfl⟩
    · exact List.append_ne_nil_of_right_ne_nil _ (List.cons_ne_nil _ _)
    · show (UploaderManager.Told.hearAll _ (s.queues.inbox ++ [_])).config = (w.hearAll s.queues.inbox).config
      rw [hearAll_append, hearAll_report]
      rfl
  · rename_i e _
    subst hs
    have hsent : s.queues.errors ++ [e] ≠ [] :=
      List.append_ne_nil_of_right_ne_nil _ (List.cons_ne_nil _ _)
    refine ⟨{ w with reporting := false }, ⟨hk _ _ rfl, (nomatch ·)⟩, ?_, .inr (.inr hsent),
      fun _ => .inr hsent⟩
    show (UploaderManager.Told.hearAll _ s.queues.inbox).config = (w.hearAll s.queues.inbox).config
    rw [hearAll_report]
  · rename_i hvalue hempty hdisconnected hpost herror
    refine hsame hs ?_
    unfold UploaderManager.Told.Step
    split
    · exact (hvalue _ rfl HEq.rfl).elim
    · exact (hpost _ _ rfl HEq.rfl).elim
    · exact (herror _ _ rfl HEq.rfl).elim
    · rfl

/-- Once the channel is drained, the manager goes by what it came to. -/
theorem Linked.drained (h : Linked s w) (hs : s.queues.inbox = []) :
    s.manager.state.goesBy = ((s.comesTo w).config, (s.comesTo w).sharingState) ∧
      w.reporting = false := by
  refine ⟨?_, ?_⟩
  · unfold ManagerSide.comesTo
    rw [hs]
    exact h.keeps.heeded
  · cases hr : w.reporting
    · rfl
    · exact absurd hs (h.told hr)

end Link

end Transmitic
