/-
  File:      Transmitic/Lib/Turns.lean
  Subject:   TAKING TURNS. What two parties that keep to one protocol do, said without the protocol; and a
             party that hands its connection over. Nothing here knows a particular protocol.

  * `TurnsTaken` -- the frames on the way go in one direction, no number is used twice, who reads takes the
    frame that is next, and never do both wait, or both send;
  * `turnsTaken_run` -- **every run of two parties that keep to a protocol takes turns**;
  * `Party.handOver` -- a party whose connection another one goes on with, and `conforms_handOver`.
-/
import Transmitic.Lib.Duplex

namespace Transmitic.Lib

/-! ## 1. Turns -/

section Turns

variable {V F R : Type} {A B : Party F R}

/-- The party is about to send the frame `f`. -/
def Party.Sends (A : Party F R) (s : A.State) (f : F) : Prop := ∃ d s', A.step s (.send f d) s'

/-- What the left party reads is next: what is at the front of its queue, and with nothing on the way what
    the right party is about to send. -/
structure ReadsNext (fits : R → F → Prop) (s : Link A B) : Prop where
  front : ∀ r, A.Wants s.left r → ∀ f rest, s.toLeft = f :: rest → fits r f
  meets : ∀ r f, A.Wants s.left r → B.Sends s.right f → s.toLeft = [] → fits r f

/-- The two parties take turns. -/
structure TurnsTaken (number : F → Nat) (fits : R → F → Prop) (s : Link A B) : Prop where
  oneWay : s.toLeft = [] ∨ s.toRight = []
  fresh : (s.log.map number).Nodup
  leftReads : ReadsNext fits s
  rightReads : ReadsNext fits s.swap
  oneSends : ∀ f g, A.Sends s.left f → ¬ B.Sends s.right g
  oneWaits : ∀ r r', A.Wants s.left r → B.Wants s.right r' → s.toLeft ≠ [] ∨ s.toRight ≠ []

variable {P : Protocol V F} {fits : R → F → Prop} {me : Side} {relA : A.State → Option V → Prop}
  {relB : B.State → Option V → Prop} {s s' : Link A B}

/-- The view of a party that is at its view or uses the connection no more. -/
theorem view_eq {V : Type} {u v : V} {a : Option V} (h : a = some v ∨ a = none) (hu : a = some u) :
    u = v := by
  rcases h with rfl | rfl
  · exact (Option.some.inj hu).symm
  · cases hu

/-- The party that is not ahead sends only when it has read everything. -/
theorem LeftAhead.sends (hB : Conforms P fits me.other B relB) (h : LeftAhead P me relA relB s) {g : F}
    (hg : B.Sends s.right g) : s.toRight = [] := by
  obtain ⟨v, w, a, b, -, hpath, -, -, hb, hbv, -⟩ := h
  obtain ⟨d, b', hstep⟩ := hg
  obtain ⟨u, u', hu, hturn, -⟩ := hB.send _ _ _ _ _ hb hstep
  obtain rfl : u = v := view_eq hbv hu
  cases hq : s.toRight with
  | nil => rfl
  | cons f rest =>
    rw [hq] at hpath
    exact absurd (hturn.symm.trans hpath.1) (Side.other_ne me)

/-- Where the right party sends, it is its turn in its view, which is where the frames on the way to the
    left party lead. -/
theorem Balanced.sends (hB : Conforms P fits me.other B relB) (h : Balanced P me relA relB s) {g : F}
    (hg : B.Sends s.right g) : ∃ v w a, relA s.left a ∧ (a = some v ∨ a = none) ∧
      P.Path me.other v s.toLeft w ∧ P.turn w = me.other ∧ (P.next w g).isSome := by
  rcases h with h | h
  · have hr := h.sends hB hg
    obtain ⟨v, w, a, b, hl, hpath, ha, haw, hb, hbv, -⟩ := h
    obtain ⟨d, b', hstep⟩ := hg
    obtain ⟨u, u', hu, hturn, hnext, -⟩ := hB.send _ _ _ _ _ hb hstep
    obtain rfl : u = v := view_eq hbv hu
    rw [hr] at hpath
    obtain rfl : u = w := hpath
    refine ⟨u, u, a, ha, haw, ?_, hturn, Option.isSome_iff_exists.mpr ⟨u', hnext⟩⟩
    rw [hl]
    rfl
  · obtain ⟨v, w, b, a, -, hpath, hb, hbw, ha, hav, -⟩ := h
    obtain ⟨d, b', hstep⟩ := hg
    obtain ⟨u, u', hu, hturn, hnext, -⟩ := hB.send _ _ _ _ _ hb hstep
    obtain rfl : u = w := view_eq hbw hu
    exact ⟨v, u, a, ha, hav, hpath, hturn, Option.isSome_iff_exists.mpr ⟨u', hnext⟩⟩

/-- What the left party reads is next. -/
theorem Balanced.readsNext (hA : Conforms P fits me A relA) (hB : Conforms P fits me.other B relB)
    (h : Balanced P me relA relB s) : ReadsNext fits s where
  front r hr f rest hq := h.takes_front hA hr hq
  meets r f hr hf hl := by
    obtain ⟨v, w, a, ha, hav, hpath, -, hnext⟩ := h.sends hB hf
    rw [hl] at hpath
    obtain rfl : v = w := hpath
    obtain ⟨u, hu, -, -, hfits⟩ := hA.wants _ _ _ ha hr
    obtain rfl : u = v := view_eq hav hu
    obtain ⟨u', hu'⟩ := Option.isSome_iff_exists.mp hnext
    exact hfits f u' hu'

/-- **Two parties that keep to a protocol take turns.** -/
theorem Balanced.turnsTaken (hA : Conforms P fits me A relA) (hB : Conforms P fits me.other B relB)
    (h : Balanced P me relA relB s) : TurnsTaken P.number fits s where
  oneWay := h.one_empty
  fresh := h.numbers_nodup
  leftReads := h.readsNext hA hB
  rightReads := by
    have hA' : Conforms P fits me.other.other A relA := by
      rw [Side.other_other]
      exact hA
    exact h.swap.readsNext hB hA'
  oneSends f g hf hg := by
    -- in the left party's view it is its own turn, on the way from there it is the right party's
    obtain ⟨v, w, a, ha, hav, hpath, hturn, -⟩ := h.sends hB hg
    obtain ⟨d, a', hstep⟩ := hf
    obtain ⟨u, u', hu, hturn', -⟩ := hA.send _ _ _ _ _ ha hstep
    obtain rfl : u = v := view_eq hav hu
    cases hl : s.toLeft with
    | nil =>
      rw [hl] at hpath
      obtain rfl : u = w := hpath
      exact Side.other_ne me (hturn.symm.trans hturn')
    | cons f' rest =>
      rw [hl] at hpath
      exact Side.other_ne me (hpath.1.symm.trans hturn')
  oneWaits r r' hr hr' := by
    by_contra hnone
    rw [not_or, not_not, not_not] at hnone
    obtain ⟨u, ⟨b, hb, hbu⟩, ha, hturn, -⟩ := h.waits hA hr hnone.1 hnone.2
    obtain ⟨u', hu', hturn', -⟩ := hB.wants _ _ _ hb hr'
    obtain rfl : u' = u := view_eq hbu hu'
    rw [Side.other_other] at hturn'
    exact Side.other_ne me (hturn.symm.trans hturn')

/-- **Every run of theirs takes turns**, from the first frame on. -/
theorem turnsTaken_run (hA : Conforms P fits me A relA) (hB : Conforms P fits me.other B relB) {v : V}
    {a : A.State} {b : B.State} (ha : relA a (some v)) (hb : relB b (some v))
    (hr : Link.Run fits { left := a, right := b, toLeft := [], toRight := [], log := [] } s) :
    TurnsTaken P.number fits s :=
  (balanced_run hA hB (balanced_start ha hb) hr).turnsTaken hA hB

end Turns

/-! ## 2. Handing over -/

section HandOver

variable {V F R : Type} {A B : Party F R}

/-- The party `A`, whose connection the party `B` may go on with from the state `b`, where `hands a b`. -/
def Party.handOver (A B : Party F R) (hands : A.State → B.State → Prop) : Party F R where
  State := A.State ⊕ B.State
  step s l s' :=
    match s, s' with
    | .inl a, .inl a' => A.step a l a'
    | .inl a, .inr b => l = .tau ∧ hands a b
    | .inr b, .inr b' => B.step b l b'
    | .inr _, .inl _ => False

variable {hands : A.State → B.State → Prop} {P : Protocol V F} {fits : R → F → Prop} {me : Side}
  {relA : A.State → Option V → Prop} {relB : B.State → Option V → Prop}

/-- **Where the connection is handed over at the same view, the two together keep to the protocol.** -/
theorem conforms_handOver (hA : Conforms P fits me A relA) (hB : Conforms P fits me B relB)
    (hhands : ∀ a b v, relA a v → hands a b → relB b v ∨ relB b none) :
    Conforms P fits me (Party.handOver A B hands) (Sum.elim relA relB) where
  tau s v s' h hs := by
    match s, s' with
    | .inl a, .inl a' => exact hA.tau a v a' h hs
    | .inl a, .inr b => exact hhands a b v h hs.2
    | .inr b, .inr b' => exact hB.tau b v b' h hs
    | .inr b, .inl a => exact hs.elim
  send s v f d s' h hs := by
    match s, s' with
    | .inl a, .inl a' => exact hA.send a v f d a' h hs
    | .inl a, .inr b => exact nomatch hs.1
    | .inr b, .inr b' => exact hB.send b v f d b' h hs
    | .inr b, .inl a => exact hs.elim
  wants s v r h hw := by
    match s with
    | .inl a =>
      refine hA.wants a v r h ?_
      rcases hw with ⟨f, s', hs⟩ | ⟨s', hs⟩
      · match s' with
        | .inl a' => exact .inl ⟨f, a', hs⟩
        | .inr b => exact nomatch hs.1
      · match s' with
        | .inl a' => exact .inr ⟨a', hs⟩
        | .inr b => exact nomatch hs.1
    | .inr b =>
      refine hB.wants b v r h ?_
      rcases hw with ⟨f, s', hs⟩ | ⟨s', hs⟩
      · match s' with
        | .inl a => exact hs.elim
        | .inr b' => exact .inl ⟨f, b', hs⟩
      · match s' with
        | .inl a => exact hs.elim
        | .inr b' => exact .inr ⟨b', hs⟩
  recv s u r f s' u' h hs hnext := by
    match s, s' with
    | .inl a, .inl a' => exact hA.recv a u r f a' u' h hs hnext
    | .inl a, .inr b => exact nomatch hs.1
    | .inr b, .inr b' => exact hB.recv b u r f b' u' h hs hnext
    | .inr b, .inl a => exact hs.elim
  broken s v r s' h hs := by
    match s, s' with
    | .inl a, .inl a' => exact hA.broken a v r a' h hs
    | .inl a, .inr b => exact nomatch hs.1
    | .inr b, .inr b' => exact hB.broken b v r b' h hs
    | .inr b, .inl a => exact hs.elim

end HandOver

end Transmitic.Lib
