/-
  File:      Transmitic/Lib/Progress.lean
  Subject:   TWO PARTIES THAT GO ON. Nothing here knows a particular protocol.

  That two parties keep to a protocol does not say that they get anywhere. Each of them has to go on
  until the protocol is over, as far as it depends on itself; then they do not wait for each other, and
  if each comes to an end, they come to it together.

  * `Party.Active`, `Diligent` -- a party that goes on by itself until the protocol is over;
  * `Balanced.progress` -- **two of them never wait for each other**;
  * `acc_step` -- parties that come to an end come to it together;
  * `inevitably_over` -- **every run comes to the end of the protocol**.
-/
import Transmitic.Lib.Duplex

namespace Transmitic.Lib

/-! ## 1. Going on -/

/-- The party can go on: on its own, by sending, or by reading any frame that fits. -/
def Party.Active {F R : Type} (A : Party F R) (fits : R → F → Prop) (s : A.State) : Prop :=
  (∃ s', A.step s .tau s') ∨ (∃ f d s', A.step s (.send f d) s') ∨
    ∃ r, A.Wants s r ∧ ∀ f, fits r f → ∃ s', A.step s (.recv r f) s'

/-- Nothing comes after the view `v`. -/
def Protocol.Over {V F : Type} (P : Protocol V F) (v : V) : Prop := ∀ f, P.next v f = none

/-- The party can go on until the protocol is over. -/
def Diligent {V F R : Type} (P : Protocol V F) (fits : R → F → Prop) (A : Party F R)
    (rel : A.State → Option V → Prop) : Prop :=
  ∀ s v, rel s v → A.Active fits s ∨ ∃ u, v = some u ∧ P.Over u

section Progress

/-- A party that uses the connection is at its view. -/
theorem eq_of_view {V : Type} {u w : V} (h : some u = some w ∨ some u = none) : u = w := by
  rcases h with h | h
  · exact Option.some.inj h
  · cases h

variable {V F R : Type} {P : Protocol V F} {A B : Party F R} {fits : R → F → Prop} {me : Side}
  {relA : A.State → Option V → Prop} {relB : B.State → Option V → Prop} {s : Link A B}

/-- The right party goes on. -/
theorem Link.Step.ofRight {l : Label F R} {s' : Link B A} (h : Link.LeftStep fits s.swap l s') :
    ∃ s'', Link.Step fits s s'' := ⟨s'.swap, .right s s'.swap l h⟩

/-- A party that can go on, and finds a frame that fits where it reads, takes a step. -/
theorem Party.Active.leftStep (h : A.Active fits s.left)
    (hread : ∀ r, A.Wants s.left r → ∃ f rest, s.toLeft = f :: rest ∧ fits r f) :
    ∃ l s', Link.LeftStep fits s l s' := by
  rcases h with ⟨a, hstep⟩ | ⟨f, d, a, hstep⟩ | ⟨r, hwants, hrecv⟩
  · exact ⟨_, _, .tau s a hstep⟩
  · exact ⟨_, _, .send s a f d hstep⟩
  · obtain ⟨f, rest, hq, hfits⟩ := hread r hwants
    obtain ⟨a, hstep⟩ := hrecv f hfits
    exact ⟨_, _, .recv s a r f rest hstep hq hfits⟩

/-- With the left party ahead: the right one can read what is on the way, or it is the left party's
    turn, or the protocol is over for both. -/
theorem leftAhead_progress (hA : Conforms P fits me A relA) (hB : Conforms P fits me.other B relB)
    (dA : Diligent P fits A relA) (dB : Diligent P fits B relB) (h : LeftAhead P me relA relB s) :
    (∃ s', Link.Step fits s s') ∨ ∃ v, s.toLeft = [] ∧ s.toRight = [] ∧ relA s.left (some v) ∧
      relB s.right (some v) ∧ P.Over v := by
  obtain ⟨v, w, a, b, hempty, hpath, ha, haw, hb, hbv, -⟩ := h
  -- what the right party wants to read is there, unless it is its own turn
  have hright : ∀ r, B.Wants s.right r → s.toRight ≠ [] →
      ∃ f rest, s.swap.toLeft = f :: rest ∧ fits r f := by
    intro r hr hne
    obtain ⟨u, rfl, -, -, hfits⟩ := hB.wants _ _ _ hb hr
    obtain rfl : u = v := eq_of_view hbv
    cases hq : s.toRight with
    | nil => exact absurd hq hne
    | cons f rest =>
      rw [hq] at hpath
      obtain ⟨-, u', hnext, -⟩ := hpath
      exact ⟨f, rest, hq, hfits f u' hnext⟩
  have hrightStep : B.Active fits s.right → s.toRight ≠ [] → ∃ s', Link.Step fits s s' := by
    intro hactive hne
    obtain ⟨l, s', hs⟩ := Party.Active.leftStep (s := s.swap) hactive fun r hr => hright r hr hne
    exact Link.Step.ofRight hs
  rcases dA _ _ ha with hactA | ⟨u, rfl, hover⟩
  · rcases hactA with ⟨a', hstep⟩ | ⟨f, d, a', hstep⟩ | ⟨r, hwants, -⟩
    · exact .inl ⟨_, .left _ _ _ (.tau s a' hstep)⟩
    · exact .inl ⟨_, .left _ _ _ (.send s a' f d hstep)⟩
    · left
      obtain ⟨u, rfl, hturn, ⟨f, hmore⟩, -⟩ := hA.wants _ _ _ ha hwants
      obtain rfl : u = w := eq_of_view haw
      rcases dB _ _ hb with hactB | ⟨u', rfl, hover⟩
      · by_cases hq : s.toRight = []
        · rw [hq] at hpath
          obtain rfl : v = u := hpath
          -- it is the right party's turn, so it does not read
          obtain ⟨l, s', hs⟩ := Party.Active.leftStep (s := s.swap) hactB fun r' hr' => by
            obtain ⟨u', rfl, hturn', -, -⟩ := hB.wants _ _ _ hb hr'
            obtain rfl : u' = v := eq_of_view hbv
            rw [hturn, Side.other_other] at hturn'
            exact absurd hturn' (Side.other_ne me)
          exact Link.Step.ofRight hs
        · exact hrightStep hactB hq
      · obtain rfl : u' = v := eq_of_view hbv
        cases hq : s.toRight with
        | nil =>
          rw [hq] at hpath
          obtain rfl : u' = u := hpath
          rw [hover f] at hmore
          cases hmore
        | cons g q =>
          rw [hq] at hpath
          obtain ⟨-, u₁, hnext, -⟩ := hpath
          rw [hover g] at hnext
          cases hnext
  · obtain rfl : u = w := eq_of_view haw
    rcases dB _ _ hb with hactB | ⟨u', rfl, hover'⟩
    · by_cases hq : s.toRight = []
      · rw [hq] at hpath
        obtain rfl : v = u := hpath
        left
        obtain ⟨l, s', hs⟩ := Party.Active.leftStep (s := s.swap) hactB fun r' hr' => by
          obtain ⟨u', rfl, -, ⟨f, hmore⟩, -⟩ := hB.wants _ _ _ hb hr'
          obtain rfl : u' = v := eq_of_view hbv
          rw [hover f] at hmore
          cases hmore
        exact Link.Step.ofRight hs
      · exact .inl (hrightStep hactB hq)
    · obtain rfl : u' = v := eq_of_view hbv
      cases hq : s.toRight with
      | nil =>
        rw [hq] at hpath
        obtain rfl : u' = u := hpath
        exact .inr ⟨u', hempty, rfl, ha, hb, hover⟩
      | cons g q =>
        rw [hq] at hpath
        obtain ⟨-, u₁, hnext, -⟩ := hpath
        rw [hover' g] at hnext
        cases hnext

/-- **Two diligent parties never wait for each other**: one of them goes on, until the protocol is over
    for both. -/
theorem Balanced.progress (hA : Conforms P fits me A relA) (hB : Conforms P fits me.other B relB)
    (dA : Diligent P fits A relA) (dB : Diligent P fits B relB) (h : Balanced P me relA relB s) :
    (∃ s', Link.Step fits s s') ∨ ∃ v, s.toLeft = [] ∧ s.toRight = [] ∧ relA s.left (some v) ∧
      relB s.right (some v) ∧ P.Over v := by
  rcases h with h | h
  · exact leftAhead_progress hA hB dA dB h
  · have hA' : Conforms P fits me.other.other A relA := by
      rw [Side.other_other]
      exact hA
    rcases leftAhead_progress hB hA' dB dA h with ⟨s', hs⟩ | ⟨v, hl, hr, hb, ha, hover⟩
    · left
      cases hs with
      | left l hs => exact ⟨s'.swap, .right _ _ l hs⟩
      | right l hs => exact ⟨s'.swap, .left _ _ l hs⟩
    · exact .inr ⟨v, hr, hl, ha, hb, hover⟩

end Progress

/-! ## 2. Coming to an end -/

section Ends

variable {F R : Type} {A B : Party F R} {fits : R → F → Prop} {s s' : Link A B}

theorem Link.LeftStep.party {l : Label F R} (h : Link.LeftStep fits s l s') :
    A.step s.left l s'.left ∧ s'.right = s.right := by
  cases h with
  | tau a h => exact ⟨h, rfl⟩
  | send a f d h => exact ⟨h, rfl⟩
  | recv a r f rest h hq hf => exact ⟨h, rfl⟩
  | broken a r h => exact ⟨h, rfl⟩

/-- **Parties that come to an end come to an end together.** -/
theorem acc_step (hA : Acc (fun a' a => ∃ l, A.step a l a') s.left)
    (hB : Acc (fun b' b => ∃ l, B.step b l b') s.right) :
    Acc (fun s' s => Link.Step fits s s') s := by
  have hboth := InvImage.accessible (fun s : Link A B => (s.left, s.right)) (hA.prod_gameAdd hB)
  refine Subrelation.accessible (fun {s' s} hs => ?_) hboth
  cases hs with
  | left l hs =>
    obtain ⟨hstep, hright⟩ := hs.party
    show Prod.GameAdd _ _ (s'.left, s'.right) (s.left, s.right)
    rw [hright]
    exact .fst ⟨l, hstep⟩
  | right l hs =>
    obtain ⟨hstep, hleft⟩ := hs.party
    have hleft : s'.left = s.left := hleft
    show Prod.GameAdd _ _ (s'.left, s'.right) (s.left, s.right)
    rw [hleft]
    exact .snd ⟨l, hstep⟩

end Ends

/-! ## 3. What every run comes to -/

theorem Inevitable.mono {σ : Type} {step : σ → σ → Prop} {goal goal' : σ → Prop} {s : σ}
    (h : Inevitable step goal s) (hgoal : ∀ s, goal s → goal' s) : Inevitable step goal' s := by
  induction h with
  | now s h => exact .now s (hgoal s h)
  | later s hstep _ ih => exact .later s hstep ih

section Runs

variable {F R : Type} {A B : Party F R} {fits : R → F → Prop} {s s' s'' : Link A B}

theorem Link.Run.trans (h : Link.Run fits s s') (h' : Link.Run fits s' s'') : Link.Run fits s s'' := by
  induction h' with
  | start => exact h
  | step t t' _ hs ih => exact .step t t' ih hs

/-- What every run comes to, some run comes to. -/
theorem Inevitable.run {goal : Link A B → Prop} (h : Inevitable (Link.Step fits) goal s) :
    ∃ s', Link.Run fits s s' ∧ goal s' := by
  induction h with
  | now s h => exact ⟨s, .start, h⟩
  | later s hstep _ ih =>
    obtain ⟨s₁, hs⟩ := hstep
    obtain ⟨s', hr, hgoal⟩ := ih s₁ hs
    exact ⟨s', Link.Run.trans (.step s s₁ .start hs) hr, hgoal⟩

end Runs

/-- **Every run of two diligent parties that come to an end comes to the end of the protocol**, for both
    and with nothing on the way. -/
theorem inevitably_over {V F R : Type} {P : Protocol V F} {A B : Party F R} {fits : R → F → Prop}
    {me : Side} {relA : A.State → Option V → Prop} {relB : B.State → Option V → Prop} {s : Link A B}
    (hA : Conforms P fits me A relA) (hB : Conforms P fits me.other B relB)
    (dA : Diligent P fits A relA) (dB : Diligent P fits B relB)
    (hacc : Acc (fun s' s => Link.Step fits s s') s) (h : Balanced P me relA relB s) :
    Inevitable (Link.Step fits) (fun s' => ∃ v, s'.toLeft = [] ∧ s'.toRight = [] ∧
      relA s'.left (some v) ∧ relB s'.right (some v) ∧ P.Over v) s := by
  have hkeep : ∀ t t', Balanced P me relA relB t → Link.Step fits t t' → Balanced P me relA relB t' :=
    fun _ _ ht hs => balanced_step hA hB ht hs
  exact inevitable_of_acc hacc (fun t t' ht _ hs => hkeep t t' ht hs)
    (fun t ht hgoal => (ht.progress hA hB dA dB).resolve_right hgoal) h

end Transmitic.Lib
