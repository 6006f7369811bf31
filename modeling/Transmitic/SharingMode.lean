/-
  File:      Transmitic/SharingMode.lean
  Subject:   CONNECTIONS ARE MADE ONLY IN THE STATE THAT ALLOWS THEM.

  What was drained of the manager's channel last is its sharing state and its config, but for the moment
  between a message and its effect. A drain that finds a message sets `stop_incoming`, and every loop
  that makes connections looks at that after its drain: what is connected is of one state and config.

  * `Drained` -- what was drained last, and the addresses of the listeners;
  * `Allowed` -- the connections these allow;
  * `readReceiver_spec` -- **a drain finds nothing, or has the manager stop**;
  * `connections_allowed` -- every connection of every run is allowed.
-/
import Transmitic.ConfigReload
import Transmitic.ManagerMethods

namespace Transmitic

open Lib

namespace UploaderManager

/-! ## 1. What was drained -/

structure Drained where
  config : Config
  sharingState : SharingState
  listeners : Nat → Option SocketAddr

/-- At the start there are no listeners. -/
def Drained.start (config : Config) (sharingState : SharingState) : Drained :=
  { config, sharingState, listeners := fun _ => none }

/-- The message drained. -/
def Drained.message (w : Drained) : MessageUploadManager → Drained
  | .sharingStateMsg sharingState => { w with sharingState }
  | .newConfig config => { w with config }

/-- The manager may be listening on this listener. -/
structure Drained.Listens (w : Drained) (listener : Nat) : Prop where
  state : w.sharingState ≠ .off
  mode : w.config.configFile.reverseConnection = false
  address : ∃ address, w.listeners listener = some address ∧
    some address ∈ ipAddresses w.sharingState w.config.configFile.sharingPort

/-- The manager may connect to users. -/
structure Drained.Reverses (w : Drained) : Prop where
  state : w.sharingState ≠ .off
  mode : w.config.configFile.reverseConnection = true

/-- A user the manager may connect to. -/
structure Drained.ReversesTo (w : Drained) (sharedUser : SharedUser) : Prop extends w.Reverses where
  user : sharedUser ∈ w.config.configFile.sharedUsers
  loopback : w.sharingState = .local → isLoopback sharedUser.ip = true

/-- The connection a command makes is one that is allowed. -/
def Drained.Allowed (w : Drained) : ManagerCmd → Prop
  | .accept listener => w.Listens listener
  | .spawn _ (some sharedUser) _ config => w.ReversesTo sharedUser ∧ config = w.config
  | _ => True

/-- What an answer to the manager changes. -/
def Drained.Step (w : Drained) : (c : ManagerCmd) → c.Ans → Drained → Prop
  | .tryRecv, .value message, w' => w' = w.message message
  | .bind address, .ok listener, w' =>
    w' = { w with listeners := Function.update w.listeners listener (some address) }
  | _, _, w' => w' = w

/-- **Whatever is answered, something was drained**: the config it names is the one before, or one that
    came. -/
theorem Drained.next (w : Drained) (c : ManagerCmd) (a : c.Ans) : ∃ w', w.Step c a w' ∧
    (w'.config = w.config ∨ (⟨c, a⟩ : (c : ManagerCmd) × c.Ans) =
      ⟨.tryRecv, .value (.newConfig w'.config)⟩) := by
  cases c with
  | tryRecv =>
    cases a with
    | value message =>
      refine ⟨w.message message, rfl, ?_⟩
      cases message with
      | sharingStateMsg state => exact .inl rfl
      | newConfig config => exact .inr rfl
    | empty => exact ⟨w, rfl, .inl rfl⟩
    | disconnected => exact ⟨w, rfl, .inl rfl⟩
  | bind address =>
    cases a with
    | ok listener => exact ⟨_, rfl, .inl rfl⟩
    | error e => exact ⟨w, rfl, .inl rfl⟩
  | _ => exact ⟨w, rfl, .inl rfl⟩

/-- Any messages may come, in any order, and any command may fail. -/
def drainedEnv : Env UploaderManager ManagerCmd ManagerCmd.Ans Drained where
  ok w _ c := w.Allowed c
  step w _ c a w' := w.Step c a w'

/-! ## 2. What the methods leave alone -/

/-- Commands that make no connection and drain nothing. -/
def aside : ManagerCmd → Prop
  | .tryRecv => False
  | .bind _ => False
  | .accept _ => False
  | .spawn _ (some _) _ _ => False
  | _ => True

/-- Telling all threads something. -/
theorem keeps_tellAll (message : MessageSingleUploader) :
    Keeps aside mode (sendMessageToAllUploaders message) :=
  (steady_sendMessageToAllUploaders (fun _ _ => trivial) (fun _ => trivial) message).keeps

theorem keeps_log : Keeps aside mode log := (steady_log trivial).keeps

/-- **A method that makes no connection and drains nothing** leaves what was drained as it is. -/
theorem wp_aside {α : Type} {m : Mgr α} {s : UploaderManager} {w : Drained} (h : Keeps aside mode m) :
    wp drainedEnv m (fun _ s' w' => mode s' = mode s ∧ w' = w)
      (fun _ s' w' => mode s' = mode s ∧ w' = w) s w := by
  refine wp_of_keeps h (fun w' s' c _ hc => ?_) (fun w' s' c a w'' hw hc hs => ?_) rfl
  · show w'.Allowed c
    unfold Drained.Allowed
    split
    · exact hc.elim
    · exact hc.elim
    · trivial
  · rw [← hw]
    unfold drainedEnv Drained.Step at hs
    dsimp only at hs
    split at hs
    · exact hc.elim
    · exact hc.elim
    · exact hs

/-! ## 3. The drain -/

section Drain

variable {α : Type} {m : UploaderManager} {w : Drained}

/-- The manager goes by what was drained last. -/
structure Synced (m : UploaderManager) (w : Drained) : Prop where
  config : m.config = w.config
  state : m.sharingState = w.sharingState

theorem Synced.of_mode {m' : UploaderManager} (h : Synced m w) (hm : mode m' = mode m) :
    Synced m' w := by
  unfold mode at hm
  simp only [Prod.mk.injEq] at hm
  exact ⟨hm.1.trans h.config, hm.2.1.trans h.state⟩

theorem stop_of_mode {m' : UploaderManager} (hm : mode m' = mode m) :
    m'.stopIncoming = m.stopIncoming := congrArg (fun p => p.2.2) hm

/-- All uploaders are shut down, and the manager has to stop. -/
theorem resetConnections_spec (h : Synced m w) : wp drainedEnv resetConnections
    (fun _ m' w' => Synced m' w' ∧ m'.stopIncoming = true) (fun _ m' w' => Synced m' w') m w := by
  obtain ⟨rest, heq, hrest⟩ :=
    resetConnections_steady (P := aside) (fun _ _ => trivial) (fun _ => trivial) trivial
  rw [heq]
  have hsynced : Synced { m with stopIncoming := true } w := ⟨h.config, h.state⟩
  refine (wp_bind _ _).mpr ((wp_modify _).mpr (wp_conseq (wp_aside hrest.keeps) ?_ ?_))
  · rintro _ m' w' ⟨hm, rfl⟩
    exact ⟨hsynced.of_mode hm, stop_of_mode hm⟩
  · rintro _ m' w' ⟨hm, rfl⟩
    exact hsynced.of_mode hm

theorem receive_spec (message : MessageUploadManager) (h : Synced m w) :
    wp drainedEnv (receive message) (fun _ m' w' => Synced m' w' ∧ m'.stopIncoming = true)
      (fun _ m' w' => Synced m' w') m (w.message message) := by
  cases message with
  | sharingStateMsg state => exact resetConnections_spec ⟨h.config, rfl⟩
  | newConfig config => exact resetConnections_spec ⟨rfl, h.state⟩

/-- Nothing was drained, or the manager has to stop. -/
def SameOrStop (m : UploaderManager) (w : Drained) (m' : UploaderManager) (w' : Drained) : Prop :=
  m'.stopIncoming = true ∨ m' = m ∧ w' = w

/-- **A drain finds nothing, or has the manager stop.** -/
theorem readReceiver_spec : ∀ (fuel : Nat) {m : UploaderManager} {w : Drained}, Synced m w →
    wp drainedEnv (readReceiver fuel) (fun _ m' w' => Synced m' w' ∧ SameOrStop m w m' w')
      (fun _ m' w' => Synced m' w') m w
  | 0, _, _, h => h
  | fuel + 1, m, w, h => by
    refine (wp_bind _ _).mpr ⟨trivial, fun a w' hs => ?_⟩
    cases a with
    | value message =>
      obtain rfl : w' = w.message message := hs
      refine wp_seq (receive_spec message h) ?_ fun _ _ _ h' => h'
      rintro _ m₁ w₁ ⟨h₁, hstop₁⟩
      refine wp_conseq (readReceiver_spec fuel h₁) ?_ fun _ _ _ h' => h'
      rintro _ m₂ w₂ ⟨h₂, hstop₂ | ⟨rfl, rfl⟩⟩
      · exact ⟨h₂, .inl hstop₂⟩
      · exact ⟨h₂, .inl hstop₁⟩
    | empty =>
      obtain rfl : w' = w := hs
      exact ⟨h, .inr ⟨rfl, rfl⟩⟩
    | disconnected => exact (wp_bind _ _).mpr ⟨trivial, fun never => nomatch never⟩

end Drain

/-! ## 4. The loops -/

section Loops

variable {m : UploaderManager} {w : Drained}

/-- The manager is synced wherever it fails, and wherever it goes on. -/
def synced {α : Type} : α → UploaderManager → Drained → Prop := fun _ => Synced

/-- A method that makes no connection and drains nothing. -/
theorem synced_aside {α : Type} {method : Mgr α} (hk : Keeps aside mode method) (h : Synced m w) :
    wp drainedEnv method (fun _ m' w' => Synced m' w' ∧ mode m' = mode m ∧ w' = w) synced m w := by
  refine wp_conseq (wp_aside hk) ?_ ?_
  · rintro _ m' w' ⟨hm, rfl⟩
    exact ⟨h.of_mode hm, hm, rfl⟩
  · rintro _ m' w' ⟨hm, rfl⟩
    exact h.of_mode hm

/-- One user of a reverse connection: in this state, with this config. -/
theorem startReverse_spec {sharedUser : SharedUser} (h : Synced m w) (hr : w.Reverses)
    (hu : sharedUser ∈ w.config.configFile.sharedUsers) :
    wp drainedEnv (startReverse sharedUser) (fun _ m' w' => Synced m' w' ∧ w' = w) synced m w := by
  show wp drainedEnv (if _ then _ else if _ then _ else _) _ _ m w
  rw [wp_ite]
  split
  · exact ⟨h, rfl⟩
  rw [wp_ite]
  split
  · exact ⟨h, rfl⟩
  rename_i hlocal
  refine wp_seq (synced_aside keeps_log h) ?_ fun _ _ _ h' => h'
  rintro _ m₁ w₁ ⟨h₁, -, rfl⟩
  refine (wp_bind _ _).mpr ⟨trivial, fun thread w₂ hs => ?_⟩
  obtain rfl : w₂ = w₁ := hs
  refine (wp_bind _ _).mpr ⟨⟨⟨hr, hu, fun hstate => ?_⟩, h.config⟩, fun _ w₃ hs => ?_⟩
  · by_contra hne
    exact hlocal ⟨h.state.trans hstate, by simpa using hne⟩
  · obtain rfl : w₃ = w₂ := hs
    exact ⟨⟨h₁.config, h₁.state⟩, rfl⟩

theorem startReverseAll_spec : ∀ {sharedUsers : List SharedUser} {m : UploaderManager} {w : Drained},
    Synced m w → w.Reverses → (∀ user ∈ sharedUsers, user ∈ w.config.configFile.sharedUsers) →
    wp drainedEnv (startReverseAll sharedUsers) (fun _ m' w' => Synced m' w' ∧ w' = w) synced m w
  | [], _, _, h, _, _ => ⟨h, rfl⟩
  | user :: users, m, w, h, hr, hu => by
    refine wp_seq (startReverse_spec h hr (hu user List.mem_cons_self)) ?_ fun _ _ _ h' => h'
    rintro _ m' w' ⟨h', rfl⟩
    exact startReverseAll_spec h' hr fun u hmem => hu u (List.mem_cons_of_mem _ hmem)

/-- The wait before reverse connections: after it the manager has to stop, or nothing was drained. -/
theorem reverseWait_spec (fuel : Nat) : ∀ (seconds : Nat) {m : UploaderManager} {w : Drained},
    Synced m w → wp drainedEnv (reverseWait fuel seconds)
      (fun stop m' w' => Synced m' w' ∧ (stop = true ∨ w' = w)) synced m w
  | 0, m, w, h => by
    refine wp_seq (readReceiver_spec fuel h) ?_ fun _ _ _ h' => h'
    rintro _ m' w' ⟨h', hsame⟩
    exact ⟨h', hsame.imp_right And.right⟩
  | seconds + 1, m, w, h => by
    refine wp_seq (readReceiver_spec fuel h) ?_ fun _ _ _ h' => h'
    rintro _ m' w' ⟨h', hsame⟩
    show wp drainedEnv (if _ then _ else _) _ _ m' w'
    rw [wp_ite]
    split
    · exact ⟨h', .inl rfl⟩
    rename_i hstop
    have hw : w' = w := by
      rcases hsame with hs | ⟨-, hw⟩
      · exact absurd hs hstop
      · exact hw
    subst hw
    refine (wp_bind _ _).mpr ⟨trivial, fun _ w₁ hs => ?_⟩
    obtain rfl : w₁ = w' := hs
    exact reverseWait_spec fuel seconds h'

theorem reverseLoop_spec : ∀ (fuel sleep : Nat) {m : UploaderManager} {w : Drained}, Synced m w →
    w.Reverses → wp drainedEnv (reverseLoop fuel sleep) synced synced m w
  | 0, _, _, _, h, _ => h
  | fuel + 1, sleep, m, w, h, hr => by
    refine wp_seq (synced_aside keeps_log h) ?_ fun _ _ _ h' => h'
    rintro _ m₁ w₁ ⟨h₁, -, rfl⟩
    refine wp_seq (reverseWait_spec fuel _ h₁) ?_ fun _ _ _ h' => h'
    rintro (stop : Bool) m₂ w₂ ⟨h₂, hstop⟩
    rw [wp_ite]
    split
    · exact h₂
    rename_i hne
    obtain rfl : w₂ = w₁ := hstop.resolve_left hne
    refine wp_seq (synced_aside (keeps_tellAll _) h₂) ?_ fun _ _ _ h' => h'
    rintro _ m₃ w₃ ⟨h₃, -, rfl⟩
    show wp drainedEnv (startReverseAll m₃.config.configFile.sharedUsers >>= fun _ => _) _ _ m₃ w₃
    refine wp_seq (startReverseAll_spec h₃ hr fun u hu => h₃.config ▸ hu) ?_ fun _ _ _ h' => h'
    rintro _ m₄ w₄ ⟨h₄, rfl⟩
    exact reverseLoop_spec fuel _ h₄ hr

/-- The listeners of these addresses; a listener keeps its address until it gets another one of
    them. -/
theorem bindListeners_spec {all : List SocketAddr} : ∀ {addresses : List SocketAddr}
    {m : UploaderManager} {w : Drained}, Synced m w → (∀ a ∈ addresses, a ∈ all) →
    wp drainedEnv (bindListeners addresses) (fun listeners m' w' => Synced m' w' ∧
      w'.config = w.config ∧ w'.sharingState = w.sharingState ∧
      (∀ l, (∃ a ∈ all, w.listeners l = some a) → ∃ a ∈ all, w'.listeners l = some a) ∧
      ∀ l ∈ listeners, ∃ a ∈ all, w'.listeners l = some a) synced m w
  | [], m, w, h, _ => ⟨h, rfl, rfl, fun _ hl => hl, fun _ hl => absurd hl List.not_mem_nil⟩
  | address :: addresses, m, w, h, ha => by
    refine (wp_bind _ _).mpr ⟨trivial, fun bound w₁ hs => ?_⟩
    have hrest : ∀ a ∈ addresses, a ∈ all := fun a hmem => ha a (List.mem_cons_of_mem _ hmem)
    cases bound with
    | error e =>
      obtain rfl : w₁ = w := hs
      exact wp_seq (bindListeners_spec h hrest) (fun _ _ _ h' => h') fun _ _ _ h' => h'
    | ok listener =>
      have hs : w₁ = { w with listeners := Function.update w.listeners listener (some address) } := hs
      subst hs
      have hkeep : ∀ l, (∃ a ∈ all, w.listeners l = some a) →
          ∃ a ∈ all, Function.update w.listeners listener (some address) l = some a := by
        intro l hl
        by_cases heq : l = listener
        · subst heq
          exact ⟨address, ha address List.mem_cons_self, Function.update_self _ _ _⟩
        · rw [Function.update_of_ne heq]
          exact hl
      have h₁ : Synced m { w with listeners := Function.update w.listeners listener (some address) } :=
        ⟨h.config, h.state⟩
      refine wp_seq (bindListeners_spec h₁ hrest) ?_ fun _ _ _ h' => h'
      rintro listeners m₂ w₂ ⟨h₂, hconfig, hstate, hkept, hbound⟩
      refine ⟨h₂, hconfig, hstate, fun l hl => hkept l (hkeep l hl), fun l hl => ?_⟩
      rcases List.mem_cons.mp hl with rfl | hl
      · exact hkept l ⟨address, ha address List.mem_cons_self, Function.update_self _ _ _⟩
      · exact hbound l hl

theorem acceptAll_spec (fuel : Nat) : ∀ {listeners : List Nat} {m : UploaderManager} {w : Drained},
    Synced m w → (∀ l ∈ listeners, w.Listens l) →
    wp drainedEnv (acceptAll fuel listeners)
      (fun stop m' w' => Synced m' w' ∧ (stop = true ∨ w' = w)) synced m w
  | [], m, w, h, _ => ⟨h, .inr rfl⟩
  | listener :: listeners, m, w, h, hl => by
    refine wp_seq (readReceiver_spec fuel h) ?_ fun _ _ _ h' => h'
    rintro _ m₁ w₁ ⟨h₁, hsame⟩
    show wp drainedEnv (if _ then _ else _) _ _ m₁ w₁
    rw [wp_ite]
    split
    · exact ⟨h₁, .inl rfl⟩
    rename_i hstop
    have hw : w₁ = w := by
      rcases hsame with hs | ⟨-, hw⟩
      · exact absurd hs hstop
      · exact hw
    subst hw
    refine (wp_bind _ _).mpr ⟨hl listener List.mem_cons_self, fun a w₂ hs => ?_⟩
    obtain rfl : w₂ = w₁ := by
      cases a <;> exact hs
    have hrest : ∀ l ∈ listeners, w₂.Listens l := fun l hmem => hl l (List.mem_cons_of_mem _ hmem)
    have hnext : ∀ {method : Mgr Unit}, Keeps aside mode method →
        wp drainedEnv (method >>= fun _ => acceptAll fuel listeners)
          (fun stop m' w' => Synced m' w' ∧ (stop = true ∨ w' = w₂)) synced m₁ w₂ := by
      intro method hk
      refine wp_seq (synced_aside hk h₁) ?_ fun _ _ _ h' => h'
      rintro _ m₃ w₃ ⟨h₃, -, rfl⟩
      exact acceptAll_spec fuel h₃ hrest
    cases a with
    | stream =>
      refine hnext (steady_startUploader ?_ ?_ trivial ?_).keeps
      · exact fun _ _ => trivial
      · exact fun _ => trivial
      · exact fun _ _ _ => trivial
    | wouldBlock => exact hnext (keeps_issue trivial)
    | failed e => exact hnext keeps_log

theorem acceptLoop_spec {listeners : List Nat} : ∀ (fuel : Nat) {m : UploaderManager} {w : Drained},
    Synced m w → (∀ l ∈ listeners, w.Listens l) →
    wp drainedEnv (acceptLoop listeners fuel) synced synced m w
  | 0, _, _, h, _ => h
  | fuel + 1, m, w, h, hl => by
    refine wp_seq (acceptAll_spec fuel h hl) ?_ fun _ _ _ h' => h'
    rintro (stop : Bool) m' w' ⟨h', hstop⟩
    rw [wp_ite]
    split
    · exact h'
    rename_i hne
    obtain rfl : w' = w := hstop.resolve_left hne
    exact acceptLoop_spec fuel h' hl

theorem unwrapAll_spec : ∀ {addresses : List (Option SocketAddr)}, Synced m w →
    wp drainedEnv (unwrapAll addresses) (fun all m' w' => (∀ a ∈ all, some a ∈ addresses) ∧ m' = m ∧
      w' = w) synced m w
  | [], _ => ⟨fun _ ha => absurd ha List.not_mem_nil, rfl, rfl⟩
  | none :: _, h => h
  | some address :: addresses, h => by
    refine wp_seq (unwrapAll_spec h) ?_ fun _ _ _ h' => h'
    rintro all m' w' ⟨hall, rfl, rfl⟩
    refine ⟨fun a ha => ?_, rfl, rfl⟩
    rcases List.mem_cons.mp ha with rfl | ha
    · exact List.mem_cons_self
    · exact List.mem_cons_of_mem _ (hall a ha)

theorem listen_spec {fuel : Nat} {addresses : List SocketAddr} (h : Synced m w)
    (hstate : w.sharingState ≠ .off) (hmode : w.config.configFile.reverseConnection = false)
    (ha : ∀ a ∈ addresses,
      some a ∈ ipAddresses w.sharingState w.config.configFile.sharingPort) :
    wp drainedEnv (listen fuel addresses) synced synced m w := by
  refine wp_seq (bindListeners_spec h fun a hmem => hmem) ?_ fun _ _ _ h' => h'
  rintro listeners m' w' ⟨h', hconfig, hs, -, hbound⟩
  rw [wp_ite]
  split
  · exact h'
  refine acceptLoop_spec fuel h' fun l hl => ⟨hs ▸ hstate, hconfig ▸ hmode, ?_⟩
  obtain ⟨address, hmem, hlistener⟩ := hbound l hl
  exact ⟨address, hlistener, by rw [hs, hconfig]; exact ha address hmem⟩

theorem run_spec : ∀ (fuel : Nat) {m : UploaderManager} {w : Drained}, Synced m w →
    wp drainedEnv (run fuel) synced synced m w
  | 0, _, _, h => h
  | fuel + 1, m, w, h => by
    have h₀ : Synced { m with stopIncoming := false } w := ⟨h.config, h.state⟩
    refine (wp_bind _ _).mpr ?_
    refine wp_seq (readReceiver_spec fuel h₀) ?_ fun _ _ _ h' => h'
    rintro _ m₁ w₁ ⟨h₁, -⟩
    show wp drainedEnv (if _ then _ else _) _ _ m₁ w₁
    rw [wp_ite]
    split
    · refine (wp_bind _ _).mpr ⟨trivial, fun _ w₂ hs => ?_⟩
      obtain rfl : w₂ = w₁ := hs
      exact run_spec fuel h₁
    rename_i hoff
    refine wp_seq (unwrapAll_spec h₁) ?_ fun _ _ _ h' => h'
    rintro addresses m₂ w₂ ⟨haddresses, rfl, rfl⟩
    have hstate : w₂.sharingState ≠ .off := h₁.state ▸ hoff
    rw [h₁.config, h₁.state] at haddresses
    show wp drainedEnv (if m₂.config.configFile.reverseConnection = true then
      log >>= fun _ => reverseLoop fuel 1 >>= fun _ => run fuel
      else listen fuel addresses >>= fun _ => run fuel) _ _ m₂ w₂
    rw [wp_ite, h₁.config]
    split
    · rename_i hmode
      refine wp_seq (synced_aside keeps_log h₁) ?_ fun _ _ _ h' => h'
      rintro _ m₃ w₃ ⟨h₃, -, rfl⟩
      exact wp_seq (reverseLoop_spec fuel 1 h₃ ⟨hstate, hmode⟩) (fun _ m' w' h' => run_spec fuel h')
        fun _ _ _ h' => h'
    · rename_i hmode
      exact wp_seq (listen_spec h₁ hstate (by simpa using hmode) haddresses)
        (fun _ m' w' h' => run_spec fuel h') fun _ _ _ h' => h'

theorem managerThread_spec (fuel : Nat) : ∀ (n : Nat) {m : UploaderManager} {w : Drained},
    Synced m w → wp drainedEnv (managerThread fuel n) synced synced m w
  | 0, _, _, h => h
  | n + 1, m, w, h => by
    have hrest := fun (_ : Unit) m' w' (h' : Synced m' w') => managerThread_spec fuel n h'
    refine wp_seq ((wp_tryCatch _ _).mpr ?_) hrest fun _ _ _ h' => h'
    refine wp_conseq (wp_seq (run_spec fuel h) (fun _ m' w' _ => ?_) fun _ _ _ h' => h')
      (fun _ _ _ h' => h') fun e m' w' h' => ?_
    · exact (wp_bind _ _).mpr ⟨trivial, fun never => never.elim⟩
    · cases e with
      | err text =>
        refine (wp_bind _ _).mpr ⟨trivial, fun _ w₁ hs => ?_⟩
        obtain rfl : w₁ = w' := hs
        refine ⟨trivial, fun _ w₂ hs => ?_⟩
        obtain rfl : w₂ = w₁ := hs
        exact h'
      | panic => exact h'
      | fuel => exact h'

end Loops

/-! ## 5. Every run -/

/-- **Connections are made only in the state that allows them**: in every run, whatever messages come and
    whatever fails, a connection is accepted on a listener, and a reverse connection started, only as
    what was drained last allows. -/
theorem connections_allowed {config : Config} {cache fuel n : Nat} {m : UploaderManager}
    {c : ManagerCmd} {k : c.Ans → Prog UploaderManager ManagerCmd ManagerCmd.Ans Exc Unit}
    {w : Drained}
    (h : Reach drainedEnv
      (managerThread fuel n (UploaderManager.new config .off cache), Drained.start config .off)
      (.call m c k, w)) : w.Allowed c :=
  reach_ok (managerThread_spec fuel n ⟨rfl, rfl⟩) h

/-- One message turns sharing on, and everything succeeds. -/
def sharingOn (c : ManagerCmd) (w : Drained) : Option (c.Ans × Drained) :=
  match c with
  | .tryRecv =>
    if w.sharingState = .off then
      some (.value (.sharingStateMsg .local), { w with sharingState := .local })
    else some (.empty, w)
  | .log => some (.ok (), w)
  | .send _ _ => some (true, w)
  | .newReverseList => some ((1 : Nat), w)
  | .newChannel => some ((0 : Nat), w)
  | .bind address =>
    some (.ok (0 : Nat), { w with listeners := Function.update w.listeners 0 (some address) })
  | .accept _ => some (.wouldBlock, w)
  | .sleep _ => some ((), w)
  | .dropSender _ => some ((), w)
  | .spawn _ _ _ _ => some ((), w)
  | .postSelf _ => some ((), w)
  | .appError _ => some ((), w)
  | .exit => none

theorem sharingOn_step (w : Drained) (m : UploaderManager) : ∀ (c : ManagerCmd) (a : c.Ans) (w' : Drained),
    sharingOn c w = some (a, w') → drainedEnv.step w m c a w' := by
  intro c a w' h
  cases c with
  | tryRecv =>
    unfold sharingOn at h
    dsimp only at h
    split at h <;> cases h <;> rfl
  | exit => cases h
  | _ =>
    cases h
    rfl

/-- The run in which the manager comes to accept a connection. -/
def acceptRun : Prog UploaderManager ManagerCmd ManagerCmd.Ans Exc Unit × Drained :=
  (managerThread 5 1 (UploaderManager.new (sampleMemory []) .off 0)).playWhile sharingOn 10
    (Drained.start (sampleMemory []) .off)

/-- It is listening then. -/
theorem connections_allowed_accept : acceptRun.1.issued = some (.accept 0) ∧ acceptRun.2.Listens 0 := by
  have hnext : acceptRun.1.issued = some (.accept 0) := rfl
  refine ⟨hnext, ?_⟩
  have hr : Reach drainedEnv (_, _) acceptRun :=
    reach_playWhile (fun w m c a w' => sharingOn_step w m c a w') 10 _ _
  obtain ⟨m, k, hcall⟩ := Prog.issued_eq_some.mp hnext
  rw [show acceptRun = (acceptRun.1, acceptRun.2) from rfl, hcall] at hr
  exact connections_allowed hr

end UploaderManager

end Transmitic
