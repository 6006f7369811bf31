/-
  File:      Transmitic/Lib/Players.lean
  Subject:   CONNECTIONS THAT ARE PLAYED. Nothing here knows a particular protocol.

  The steps of a connection are a relation: a party may do one thing or another. A player of a party
  decides. With a player on each side, and a list that says whose move it is, a run can be computed.

  * `Player` -- **every move is a step of the party**, and what is read is at the front;
  * `Link.play`, `Link.run_play` -- the connection after the moves, and that a run leads to it;
  * `Player.handOver` -- a player of a party whose connection another one goes on with.
-/
import Transmitic.Lib.Turns

namespace Transmitic.Lib

/-! ## 1. Players -/

/-- Whose move it is, and whether the connection still holds. -/
structure Link.Move where
  side : Side
  holds : Bool

/-- The two sides in turn, `n` times. -/
def inTurn (n : Nat) : List Link.Move := (List.replicate n [⟨.left, true⟩, ⟨.right, true⟩]).flatten

/-- What a party does next on a connection that holds or does not, with `q` on the way to it; nothing
    where it waits, or is at its end. -/
structure Player {F R : Type} (fits : R → F → Prop) (A : Party F R) where
  next : Bool → A.State → List F → Option (Label F R × A.State)
  step : ∀ b s q l s', next b s q = some (l, s') → A.step s l s'
  reads : ∀ b s q r f s', next b s q = some (.recv r f, s') → ∃ rest, q = f :: rest ∧ fits r f

section Play

variable {F R : Type} {A B : Party F R} {fits : R → F → Prop}

/-- The connection after a step of the left party. -/
def Link.after (s : Link A B) (l : Label F R) (a : A.State) : Link A B :=
  match l with
  | .tau => { s with left := a }
  | .send f d => s.sent a f d
  | .recv _ _ => { s with left := a, toLeft := s.toLeft.tail }
  | .broken _ => { s with left := a }

/-- The left party makes its move. -/
def Link.moveLeft (p : Player fits A) (holds : Bool) (s : Link A B) : Option (Link A B) :=
  (p.next holds s.left s.toLeft).map fun r => s.after r.1 r.2

/-- Who waits makes no move. -/
def Link.move (p : Player fits A) (q : Player fits B) (s : Link A B) (c : Link.Move) : Link A B :=
  match c.side with
  | .left => (s.moveLeft p c.holds).getD s
  | .right => ((s.swap.moveLeft q c.holds).map Link.swap).getD s

def Link.play (p : Player fits A) (q : Player fits B) (cues : List Link.Move) (s : Link A B) : Link A B :=
  cues.foldl (Link.move p q) s

variable {p : Player fits A} {q : Player fits B} {s s' : Link A B}

/-- **A move is a step.** -/
theorem leftStep_moveLeft {holds : Bool} (h : s.moveLeft p holds = some s') :
    ∃ l, Link.LeftStep fits s l s' := by
  obtain ⟨⟨l, a⟩, hnext, rfl⟩ := Option.map_eq_some_iff.mp h
  have hstep := p.step _ _ _ _ _ hnext
  cases l with
  | tau => exact ⟨_, .tau s a hstep⟩
  | send f d => exact ⟨_, .send s a f d hstep⟩
  | recv r f =>
    obtain ⟨rest, hq, hfits⟩ := p.reads _ _ _ _ _ _ hnext
    have hrecv := Link.LeftStep.recv s a r f rest hstep hq hfits
    refine ⟨.recv r f, ?_⟩
    show Link.LeftStep fits s (.recv r f) { s with left := a, toLeft := s.toLeft.tail }
    rwa [hq]
  | broken r => exact ⟨_, .broken s a r hstep⟩

/-- **A run leads to what is played.** Over the moves. -/
theorem Link.run_play {s₀ : Link A B} (h : Link.Run fits s₀ s) (cues : List Link.Move) :
    Link.Run fits s₀ (s.play p q cues) := by
  induction cues generalizing s with
  | nil => exact h
  | cons c cues ih =>
    refine ih ?_
    unfold Link.move
    split
    · cases hmove : s.moveLeft p c.holds with
      | none => exact h
      | some s' =>
        obtain ⟨l, hs⟩ := leftStep_moveLeft hmove
        exact .step s s' h (.left s s' l hs)
    · cases hmove : s.swap.moveLeft q c.holds with
      | none => exact h
      | some s' =>
        obtain ⟨l, hs⟩ := leftStep_moveLeft hmove
        exact .step s s'.swap h (.right s s'.swap l hs)

end Play

/-! ## 2. Handing over -/

section HandOver

variable {F R : Type} {A B : Party F R} {fits : R → F → Prop} {hands : A.State → B.State → Prop}

/-- A player that hands the connection over as soon as `hand` says to whom. -/
def Player.handOver (p : Player fits A) (q : Player fits B) (hand : A.State → Option B.State)
    (hhand : ∀ a b, hand a = some b → hands a b) : Player fits (Party.handOver A B hands) where
  next holds s queue :=
    match s with
    | .inl a =>
      match hand a with
      | some b => some (.tau, .inr b)
      | none => (p.next holds a queue).map fun r => (r.1, .inl r.2)
    | .inr b => (q.next holds b queue).map fun r => (r.1, .inr r.2)
  step holds s queue l s' h := by
    cases s with
    | inl a =>
      cases hb : hand a with
      | some b =>
        simp only [hb] at h
        cases h
        exact ⟨rfl, hhand a b hb⟩
      | none =>
        simp only [hb] at h
        obtain ⟨r, hr, heq⟩ := Option.map_eq_some_iff.mp h
        cases heq
        exact p.step _ _ _ _ _ hr
    | inr b =>
      obtain ⟨r, hr, heq⟩ := Option.map_eq_some_iff.mp h
      cases heq
      exact q.step _ _ _ _ _ hr
  reads holds s queue r f s' h := by
    cases s with
    | inl a =>
      cases hb : hand a with
      | some b =>
        simp only [hb] at h
        cases h
      | none =>
        simp only [hb] at h
        obtain ⟨⟨l, a'⟩, hr, heq⟩ := Option.map_eq_some_iff.mp h
        cases heq
        exact p.reads _ _ _ _ _ _ hr
    | inr b =>
      obtain ⟨⟨l, b'⟩, hr, heq⟩ := Option.map_eq_some_iff.mp h
      cases heq
      exact q.reads _ _ _ _ _ _ hr

end HandOver

end Transmitic.Lib
