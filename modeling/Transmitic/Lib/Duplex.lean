/-
  File:      Transmitic/Lib/Duplex.lean
  Subject:   TWO PARTIES ON ONE DUPLEX CONNECTION. Nothing here knows a particular protocol.

  Each party sends frames and reads frames; between the two there is a queue in each direction. A
  protocol says whose turn it is and which frames may come next. Both parties keep a view of how far
  the protocol is, and neither sees the other's.

  * `Protocol` -- views, turns and frames, and a number each frame carries;
  * `Party`, `Conforms` -- a party keeps to the protocol as far as it can see it;
  * `Link`, `Link.Step` -- the two parties and the queues; a read may break, a frame sent may be lost
    together with the connection;
  * `Balanced`, `balanced_step` -- **the invariant of all interleavings**: one direction is empty, and
    the other one is exactly what leads from its reader's view to its writer's view;
  * `keeps_step` -- what the steps of a party keep, every step of the two keeps;
  * `Balanced.one_empty`, `Balanced.takes_front`, `Balanced.numbers_nodup`, `Balanced.waits` -- what it
    gives;
  * `Inevitable` -- what every run comes to, if it goes on as long as it can.
-/
import Mathlib

namespace Transmitic.Lib

/-! ## 1. Protocols -/

inductive Side where
  | left
  | right
  deriving DecidableEq, Repr

def Side.other : Side → Side
  | .left => .right
  | .right => .left

@[simp] theorem Side.other_other (X : Side) : X.other.other = X := by
  cases X <;> rfl

theorem Side.other_ne (X : Side) : X.other ≠ X := by
  cases X <;> exact Side.noConfusion

theorem Side.eq_other {X Y : Side} (h : Y ≠ X) : Y = X.other := by
  cases X <;> cases Y <;> first | rfl | exact absurd rfl h

/-- Whose turn it is in a view of the protocol, and the view after a frame that may come next.
    Frames carry numbers, and the next frame carries the number of frames so far. -/
structure Protocol (V F : Type) where
  turn : V → Side
  next : V → F → Option V
  number : F → Nat
  count : V → Nat
  number_eq : ∀ v f v', next v f = some v' → number f = count v
  count_next : ∀ v f v', next v f = some v' → count v' = count v + 1

section Path

variable {V F : Type} (P : Protocol V F)

/-- The frames `q`, all sent by `X`, lead from the view `v` to the view `w`. -/
def Protocol.Path (X : Side) : V → List F → V → Prop
  | v, [], w => v = w
  | v, f :: q, w => P.turn v = X ∧ ∃ u, P.next v f = some u ∧ Path X u q w

variable {P} {X : Side} {v w w' : V} {q : List F} {f : F}

theorem Protocol.Path.append (h : P.Path X v q w) (ht : P.turn w = X) (hn : P.next w f = some w') :
    P.Path X v (q ++ [f]) w' := by
  induction q generalizing v with
  | nil =>
    obtain rfl : v = w := h
    exact ⟨ht, w', hn, rfl⟩
  | cons g q ih =>
    obtain ⟨htv, u, hu, hrest⟩ := h
    exact ⟨htv, u, hu, ih hrest⟩

end Path

/-! ## 2. Parties -/

/-- What a party does in one step: something of its own, sending a frame (`delivered` says whether
    it gets through), reading a frame, or losing the connection while it reads. -/
inductive Label (F R : Type) where
  | tau
  | send (f : F) (delivered : Bool)
  | recv (r : R) (f : F)
  | broken (r : R)

structure Party (F R : Type) where
  State : Type
  step : State → Label F R → State → Prop

/-- The party is about to read with the request `r`. -/
def Party.Wants {F R : Type} (A : Party F R) (s : A.State) (r : R) : Prop :=
  (∃ f s', A.step s (.recv r f) s') ∨ ∃ s', A.step s (.broken r) s'

/-- `rel s v`: the party in the state `s` keeps to the protocol from the view `v` on; from `none` on
    it does not use the connection any more. `fits r f` says that a read with the request `r`
    takes the frame `f`. -/
structure Conforms {V F R : Type} (P : Protocol V F) (fits : R → F → Prop) (me : Side)
    (A : Party F R) (rel : A.State → Option V → Prop) : Prop where
  tau : ∀ s v s', rel s v → A.step s .tau s' → rel s' v ∨ rel s' none
  send : ∀ s v f d s', rel s v → A.step s (.send f d) s' → ∃ u u', v = some u ∧ P.turn u = me ∧
    P.next u f = some u' ∧ rel s' (if d then some u' else none)
  wants : ∀ s v r, rel s v → A.Wants s r → ∃ u, v = some u ∧ P.turn u = me.other ∧
    (∃ f, (P.next u f).isSome) ∧ ∀ f u', P.next u f = some u' → fits r f
  recv : ∀ s u r f s' u', rel s (some u) → A.step s (.recv r f) s' → P.next u f = some u' →
    rel s' (some u')
  broken : ∀ s v r s', rel s v → A.step s (.broken r) s' → rel s' none

/-! ## 3. The connection -/

/-- The two parties, what is on the way to each of them, and every frame made so far. -/
structure Link {F R : Type} (A B : Party F R) where
  left : A.State
  right : B.State
  toLeft : List F
  toRight : List F
  log : List F

section Link

variable {F R : Type} {A B : Party F R} (fits : R → F → Prop)

/-- The connection seen from the other end. -/
def Link.swap (s : Link A B) : Link B A :=
  { left := s.right, right := s.left, toLeft := s.toRight, toRight := s.toLeft, log := s.log }

@[simp] theorem Link.swap_swap (s : Link A B) : s.swap.swap = s := rfl

/-- The connection after the left party sent `f`. -/
def Link.sent (s : Link A B) (a : A.State) (f : F) (delivered : Bool) : Link A B :=
  { s with
    left := a
    toRight := if delivered then s.toRight ++ [f] else s.toRight
    log := s.log ++ [f] }

/-- A step of the left party. A read takes the frame at the front of the queue. -/
inductive Link.LeftStep : Link A B → Label F R → Link A B → Prop where
  | tau (s : Link A B) (a : A.State) (h : A.step s.left .tau a) :
      LeftStep s .tau { s with left := a }
  | send (s : Link A B) (a : A.State) (f : F) (d : Bool) (h : A.step s.left (.send f d) a) :
      LeftStep s (.send f d) (s.sent a f d)
  | recv (s : Link A B) (a : A.State) (r : R) (f : F) (rest : List F)
      (h : A.step s.left (.recv r f) a) (hq : s.toLeft = f :: rest) (hfits : fits r f) :
      LeftStep s (.recv r f) { s with left := a, toLeft := rest }
  | broken (s : Link A B) (a : A.State) (r : R) (h : A.step s.left (.broken r) a) :
      LeftStep s (.broken r) { s with left := a }

/-- A step of either party. -/
inductive Link.Step : Link A B → Link A B → Prop where
  | left (s s' : Link A B) (l : Label F R) (h : LeftStep fits s l s') : Step s s'
  | right (s s' : Link A B) (l : Label F R) (h : LeftStep fits s.swap l s'.swap) : Step s s'

/-- The connections runs lead to. -/
inductive Link.Run (s : Link A B) : Link A B → Prop where
  | start : Run s s
  | step (s' s'' : Link A B) (h : Run s s') (hs : Step fits s' s'') : Run s s''

end Link

/-! ## 4. The invariant -/

section Balanced

variable {V F R : Type} (P : Protocol V F) {A B : Party F R}

/-- The left party, whose side is `me`, is ahead: nothing is on the way to it, and what is on the
    way from it leads from the right party's view `v` to its own view `w`. A party that is not at its
    view does not use the connection any more (`none`). Every frame made carries a number of its
    own; if one carries the number the next frame would, the party whose turn it is has stopped. -/
def LeftAhead (me : Side) (relA : A.State → Option V → Prop) (relB : B.State → Option V → Prop)
    (s : Link A B) : Prop :=
  ∃ v w a b, s.toLeft = [] ∧ P.Path me v s.toRight w ∧
    relA s.left a ∧ (a = some w ∨ a = none) ∧ relB s.right b ∧ (b = some v ∨ b = none) ∧
    (s.log.map P.number).Nodup ∧ ∀ f ∈ s.log, P.number f < P.count w ∨
      P.number f = P.count w ∧ (P.turn w = me → a = none) ∧ (P.turn w = me.other → b = none)

/-- One of the two parties is ahead. -/
def Balanced (me : Side) (relA : A.State → Option V → Prop) (relB : B.State → Option V → Prop)
    (s : Link A B) : Prop :=
  LeftAhead P me relA relB s ∨ LeftAhead P me.other relB relA s.swap

variable {P} {fits : R → F → Prop} {me : Side} {relA : A.State → Option V → Prop}
  {relB : B.State → Option V → Prop} {s s' : Link A B} {l : Label F R}

theorem Balanced.swap (h : Balanced P me relA relB s) : Balanced P me.other relB relA s.swap := by
  rcases h with h | h
  · right
    rw [Side.other_other]
    exact h
  · exact .inl h

theorem balanced_swap_iff : Balanced P me.other relB relA s.swap ↔ Balanced P me relA relB s := by
  constructor
  · intro h
    have hs := h.swap
    rwa [Side.other_other, Link.swap_swap] at hs
  · exact Balanced.swap

/-- Before the first frame, with both parties at one view. -/
theorem balanced_start {v : V} {a : A.State} {b : B.State} (ha : relA a (some v))
    (hb : relB b (some v)) :
    Balanced P me relA relB { left := a, right := b, toLeft := [], toRight := [], log := [] } :=
  .inl ⟨v, v, some v, some v, rfl, rfl, ha, .inl rfl, hb, .inl rfl, List.nodup_nil,
    fun _ hf => absurd hf List.not_mem_nil⟩

/-- A frame of the party that is ahead. -/
theorem leftAhead_send (hA : Conforms P fits me A relA) (h : LeftAhead P me relA relB s)
    {a' : A.State} {f : F} {d : Bool} (hstep : A.step s.left (.send f d) a') :
    LeftAhead P me relA relB (s.sent a' f d) := by
  obtain ⟨v, w, a, b, hempty, hpath, ha, haw, hb, hbv, hnodup, hlog⟩ := h
  obtain ⟨u, u', rfl, hturn, hnext, ha'⟩ := hA.send _ _ _ _ _ ha hstep
  obtain rfl : u = w := by
    rcases haw with h | h
    · exact Option.some.inj h
    · cases h
  have hnumber := P.number_eq _ _ _ hnext
  -- the party whose turn it is has not stopped, so all numbers are smaller
  have hold : ∀ g ∈ s.log, P.number g < P.count u := by
    intro g hg
    rcases hlog g hg with h | ⟨-, h, -⟩
    · exact h
    · cases h hturn
  have hnodup' : ((s.log ++ [f]).map P.number).Nodup := by
    rw [List.map_append, List.map_singleton, List.nodup_append]
    refine ⟨hnodup, List.nodup_singleton _, ?_⟩
    intro x hx y hy hxy
    obtain ⟨g, hg, rfl⟩ := List.mem_map.mp hx
    have hlt := hold g hg
    rw [List.mem_singleton.mp hy] at hxy
    omega
  cases d with
  | true =>
    refine ⟨v, u', some u', b, hempty, hpath.append hturn hnext, ha', .inl rfl, hb, hbv, hnodup', ?_⟩
    intro g hg
    have hcount := P.count_next _ _ _ hnext
    left
    rcases List.mem_append.mp hg with hg | hg
    · have hlt := hold g hg
      omega
    · rw [List.mem_singleton.mp hg]
      omega
  | false =>
    refine ⟨v, u, none, b, hempty, hpath, ha', .inr rfl, hb, hbv, hnodup', ?_⟩
    intro g hg
    rcases List.mem_append.mp hg with hg | hg
    · exact .inl (hold g hg)
    · refine .inr ⟨?_, fun _ => rfl, fun ht => ?_⟩
      · rw [List.mem_singleton.mp hg, hnumber]
      · rw [hturn] at ht
        exact absurd ht.symm (Side.other_ne me)

/-- With nothing on the way, the party whose turn it is may be seen as the one ahead. -/
theorem leftAhead_of_rightAhead (h : LeftAhead P me.other relB relA s.swap)
    (hempty : s.toLeft = []) : LeftAhead P me relA relB s := by
  obtain ⟨v, w, b, a, hempty', hpath, hb, hbw, ha, hav, hnodup, hlog⟩ := h
  have hq : s.swap.toRight = [] := hempty
  rw [hq] at hpath
  obtain rfl : v = w := hpath
  refine ⟨v, v, a, b, hempty, ?_, ha, hav, hb, hbw, hnodup, ?_⟩
  · have hq' : s.toRight = [] := hempty'
    rw [hq']
    exact rfl
  · intro f hf
    rcases hlog f hf with h | ⟨h, hB, hA⟩
    · exact .inl h
    · rw [Side.other_other] at hA
      exact .inr ⟨h, hA, hB⟩

/-- **A step of the left party keeps the invariant.** -/
theorem balanced_leftStep (hA : Conforms P fits me A relA) (h : Balanced P me relA relB s)
    (hs : Link.LeftStep fits s l s') : Balanced P me relA relB s' := by
  cases hs with
  | tau a' hstep =>
    rcases h with ⟨v, w, a, b, hempty, hpath, ha, haw, hb, hbv, hnodup, hlog⟩ |
      ⟨v, w, b, a, hempty, hpath, hb, hbw, ha, hav, hnodup, hlog⟩
    · left
      rcases hA.tau _ _ _ ha hstep with ha' | ha'
      · exact ⟨v, w, a, b, hempty, hpath, ha', haw, hb, hbv, hnodup, hlog⟩
      · refine ⟨v, w, none, b, hempty, hpath, ha', .inr rfl, hb, hbv, hnodup, fun f hf => ?_⟩
        exact (hlog f hf).imp_right fun ⟨h, _, hB⟩ => ⟨h, fun _ => rfl, hB⟩
    · right
      rcases hA.tau _ _ _ ha hstep with ha' | ha'
      · exact ⟨v, w, b, a, hempty, hpath, hb, hbw, ha', hav, hnodup, hlog⟩
      · refine ⟨v, w, b, none, hempty, hpath, hb, hbw, ha', .inr rfl, hnodup, fun f hf => ?_⟩
        exact (hlog f hf).imp_right fun ⟨h, hB, _⟩ => ⟨h, hB, fun _ => rfl⟩
  | broken a' r hstep =>
    rcases h with ⟨v, w, a, b, hempty, hpath, ha, haw, hb, hbv, hnodup, hlog⟩ |
      ⟨v, w, b, a, hempty, hpath, hb, hbw, ha, hav, hnodup, hlog⟩
    · left
      refine ⟨v, w, none, b, hempty, hpath, hA.broken _ _ _ _ ha hstep, .inr rfl, hb, hbv, hnodup,
        fun f hf => ?_⟩
      exact (hlog f hf).imp_right fun ⟨h, _, hB⟩ => ⟨h, fun _ => rfl, hB⟩
    · right
      refine ⟨v, w, b, none, hempty, hpath, hb, hbw, hA.broken _ _ _ _ ha hstep, .inr rfl, hnodup,
        fun f hf => ?_⟩
      exact (hlog f hf).imp_right fun ⟨h, hB, _⟩ => ⟨h, hB, fun _ => rfl⟩
  | send a' f d hstep =>
    left
    rcases h with h | h
    · exact leftAhead_send hA h hstep
    · -- it is this party's turn, so nothing is on the way to it
      refine leftAhead_send hA (leftAhead_of_rightAhead h ?_) hstep
      obtain ⟨v, w, b, a, hempty, hpath, hb, hbw, ha, hav, hnodup, hlog⟩ := h
      obtain ⟨u, u', rfl, hturn, -, -⟩ := hA.send _ _ _ _ _ ha hstep
      obtain rfl : u = v := by
        rcases hav with h | h
        · exact Option.some.inj h
        · cases h
      cases hq : s.toLeft with
      | nil => rfl
      | cons g q =>
        have hq' : s.swap.toRight = g :: q := hq
        rw [hq'] at hpath
        exact absurd (hpath.1.symm.trans hturn) (Side.other_ne me)
  | recv a' r f rest hstep hq hfits =>
    rcases h with ⟨v, w, a, b, hempty, -⟩ | ⟨v, w, b, a, hempty, hpath, hb, hbw, ha, hav, hnodup, hlog⟩
    · rw [hq] at hempty
      cases hempty
    · right
      obtain ⟨u, rfl, -, -, -⟩ := hA.wants _ _ _ ha (.inl ⟨f, a', hstep⟩)
      obtain rfl : u = v := by
        rcases hav with h | h
        · exact Option.some.inj h
        · cases h
      have hq' : s.swap.toRight = f :: rest := hq
      rw [hq'] at hpath
      obtain ⟨-, u', hnext, hrest⟩ := hpath
      refine ⟨u', w, b, some u', hempty, hrest, hb, hbw, hA.recv _ _ _ _ _ _ ha hstep hnext, .inl rfl,
        hnodup, fun g hg => ?_⟩
      rcases hlog g hg with h | ⟨h, hB, hA'⟩
      · exact .inl h
      · exact .inr ⟨h, hB, fun ht => by cases hA' ht⟩

/-- **A step of either party keeps the invariant.** -/
theorem balanced_step (hA : Conforms P fits me A relA) (hB : Conforms P fits me.other B relB)
    (h : Balanced P me relA relB s) (hs : Link.Step fits s s') : Balanced P me relA relB s' := by
  cases hs with
  | left l hl => exact balanced_leftStep hA h hl
  | right l hl => exact balanced_swap_iff.mp (balanced_leftStep hB h.swap hl)

/-- **Every run keeps the invariant.** -/
theorem balanced_run (hA : Conforms P fits me A relA) (hB : Conforms P fits me.other B relB)
    (h : Balanced P me relA relB s) (hr : Link.Run fits s s') : Balanced P me relA relB s' := by
  induction hr with
  | start => exact h
  | step t t' _ hs ih => exact balanced_step hA hB ih hs

/-- The left party is at some view, or has stopped. -/
theorem Balanced.left_view (h : Balanced P me relA relB s) : ∃ a, relA s.left a := by
  rcases h with ⟨v, w, a, b, -, -, ha, -⟩ | ⟨v, w, b, a, -, -, -, -, ha, -⟩
  · exact ⟨a, ha⟩
  · exact ⟨a, ha⟩

/-- **What the steps of the left party keep**, as long as it keeps to the protocol, every step keeps. -/
theorem keeps_step {J : A.State → Prop} (hJ : ∀ a v l a', relA a v → A.step a l a' → J a → J a')
    (h : Balanced P me relA relB s) (hs : Link.Step fits s s') (hj : J s.left) : J s'.left := by
  obtain ⟨v, hv⟩ := h.left_view
  cases hs with
  | left l hl =>
    cases hl with
    | tau a hstep => exact hJ _ v _ _ hv hstep hj
    | send a f d hstep => exact hJ _ v _ _ hv hstep hj
    | recv a r f rest hstep => exact hJ _ v _ _ hv hstep hj
    | broken a r hstep => exact hJ _ v _ _ hv hstep hj
  | right l hl =>
    have hsame : s'.left = s.left := by
      generalize hu : s'.swap = u at hl
      rw [← Link.swap_swap s', hu]
      cases hl <;> rfl
    rw [hsame]
    exact hj

/-! ## 5. What the invariant gives -/

/-- The two sides never both have sent what the other has not read. -/
theorem Balanced.one_empty (h : Balanced P me relA relB s) : s.toLeft = [] ∨ s.toRight = [] := by
  rcases h with ⟨v, w, a, b, hempty, -⟩ | ⟨v, w, b, a, hempty, -⟩
  · exact .inl hempty
  · exact .inr hempty

/-- No number is used twice. -/
theorem Balanced.numbers_nodup (h : Balanced P me relA relB s) : (s.log.map P.number).Nodup := by
  rcases h with ⟨v, w, a, b, -, -, -, -, -, -, hnodup, -⟩ | ⟨v, w, b, a, -, -, -, -, -, -, hnodup, -⟩
  · exact hnodup
  · exact hnodup

/-- With nothing on the way, the parties that have not stopped have one view. -/
theorem Balanced.one_view (h : Balanced P me relA relB s) (hl : s.toLeft = [])
    (hr : s.toRight = []) : ∃ v a b, relA s.left a ∧ (a = some v ∨ a = none) ∧ relB s.right b ∧
      (b = some v ∨ b = none) := by
  rcases h with ⟨v, w, a, b, hempty, hpath, ha, haw, hb, hbv, -⟩ |
    ⟨v, w, b, a, hempty, hpath, hb, hbw, ha, hav, -⟩
  · rw [hr] at hpath
    obtain rfl : v = w := hpath
    exact ⟨v, a, b, ha, haw, hb, hbv⟩
  · have hq : s.swap.toRight = [] := hl
    rw [hq] at hpath
    obtain rfl : v = w := hpath
    exact ⟨v, a, b, ha, hav, hb, hbw⟩

/-- A party that reads takes the frame at the front of its queue. -/
theorem Balanced.takes_front (hA : Conforms P fits me A relA) (h : Balanced P me relA relB s) {r : R}
    (hw : A.Wants s.left r) {f : F} {rest : List F} (hq : s.toLeft = f :: rest) : fits r f := by
  rcases h with ⟨v, w, a, b, hempty, -⟩ | ⟨v, w, b, a, hempty, hpath, hb, hbw, ha, hav, -⟩
  · rw [hq] at hempty
    cases hempty
  · obtain ⟨u, rfl, -, -, hfits⟩ := hA.wants _ _ _ ha hw
    obtain rfl : u = v := by
      rcases hav with h | h
      · exact Option.some.inj h
      · cases h
    have hq' : s.swap.toRight = f :: rest := hq
    rw [hq'] at hpath
    obtain ⟨-, u', hnext, -⟩ := hpath
    exact hfits f u' hnext

/-- A party that waits with nothing on the way waits for the other one: the other one has stopped,
    or it is its turn and the protocol goes on. -/
theorem Balanced.waits (hA : Conforms P fits me A relA) (h : Balanced P me relA relB s) {r : R}
    (hw : A.Wants s.left r) (hl : s.toLeft = []) (hr : s.toRight = []) :
    ∃ u, (∃ b, relB s.right b ∧ (b = some u ∨ b = none)) ∧ relA s.left (some u) ∧
      P.turn u = me.other ∧ ∃ f, (P.next u f).isSome := by
  obtain ⟨v, a, b, ha, hav, hb, hbv⟩ := h.one_view hl hr
  obtain ⟨u, rfl, hturn, hmore, -⟩ := hA.wants _ _ _ ha hw
  obtain rfl : u = v := by
    rcases hav with h | h
    · exact Option.some.inj h
    · cases h
  exact ⟨u, ⟨b, hb, hbv⟩, ha, hturn, hmore⟩

end Balanced

/-! ## 6. What every run comes to -/

/-- Every run that goes on as long as it can comes to `goal`. -/
inductive Inevitable {σ : Type} (step : σ → σ → Prop) (goal : σ → Prop) : σ → Prop where
  | now (s : σ) (h : goal s) : Inevitable step goal s
  | later (s : σ) (hstep : ∃ s', step s s') (h : ∀ s', step s s' → Inevitable step goal s') :
      Inevitable step goal s

/-- An invariant under which a step is always possible before the goal, with no infinite runs. -/
theorem inevitable_of_acc {σ : Type} {step : σ → σ → Prop} {goal inv : σ → Prop} {s : σ}
    (hacc : Acc (fun s' s => step s s') s) (hinv : ∀ s s', inv s → ¬ goal s → step s s' → inv s')
    (hstep : ∀ s, inv s → ¬ goal s → ∃ s', step s s') (h : inv s) : Inevitable step goal s := by
  induction hacc with
  | intro s _ ih =>
    by_cases hg : goal s
    · exact .now s hg
    · exact .later s (hstep s h hg) fun s' hs => ih s' hs (hinv s s' h hg hs)

end Transmitic.Lib
