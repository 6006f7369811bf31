/-
  File:      Transmitic/Lib/Cost.lean
  Subject:   HOW MANY COMMANDS A PROGRAM ISSUES. Nothing here knows a particular program.

  * `Costs` -- a text that issues at most so many commands, all with a property, whatever the answers;
    one rule for each way texts are put together;
  * `wp_of_costs` -- **a text that costs `n` can be paid for in all surroundings** where one command can
    be paid for with one unit of what is there.
-/
import Transmitic.Lib.Program

namespace Transmitic.Lib

variable {S C : Type} {A : C → Type} {X α β W : Type}

/-- Surroundings that admit commands with `P`, each for one unit of a budget. -/
def paying (P : C → Prop) : Env S C A Nat where
  ok n _ c := P c ∧ 0 < n
  step n _ _ _ n' := n = n' + 1

/-- The text issues at most `n` commands, all of them with `P`. -/
def Costs (P : C → Prop) (n : Nat) (m : Act S C A X α) : Prop :=
  ∀ s k, wp (paying P) m (fun _ _ left => k ≤ left) (fun _ _ left => k ≤ left) s (n + k)

section Rules

variable {P : C → Prop} {n n' : Nat}

theorem costs_pure (a : α) : Costs P n (pure a : Act S C A X α) :=
  fun _ k => Nat.le_add_left k n

theorem costs_throw (x : X) : Costs P n (throw x : Act S C A X α) :=
  fun _ k => Nat.le_add_left k n

theorem costs_get : Costs P n (get : Act S C A X S) := fun _ k => Nat.le_add_left k n

theorem costs_modify (f : S → S) : Costs P n (modify f : Act S C A X PUnit) :=
  fun _ k => Nat.le_add_left k n

/-- A command costs one. -/
theorem costs_issue {c : C} (h : P c) : Costs P 1 (issue c : Act S C A X (A c)) := by
  refine fun s k => ⟨⟨h, by omega⟩, fun a left hs => ?_⟩
  have hs : 1 + k = left + 1 := hs
  show k ≤ left
  omega

/-- One text after the other: the sum. -/
theorem costs_bind {m : Act S C A X α} {f : α → Act S C A X β} (hm : Costs P n m)
    (hf : ∀ a, Costs P n' (f a)) : Costs P (n + n') (m >>= f) := by
  intro s k
  have hfirst := hm s (n' + k)
  rw [← Nat.add_assoc] at hfirst
  refine wp_seq hfirst (fun a s' left hleft => ?_) fun _ _ left hleft => by omega
  have hrest := hf a s' (left - n')
  rw [show n' + (left - n') = left by omega] at hrest
  exact wp_conseq hrest (fun _ _ l hl => by omega) fun _ _ l hl => by omega

/-- A text that costs nothing, and another one. -/
theorem costs_first {m : Act S C A X α} {f : α → Act S C A X β} (hm : Costs P 0 m)
    (hf : ∀ a, Costs P n (f a)) : Costs P n (m >>= f) := by
  have h := costs_bind hm hf
  rwa [Nat.zero_add] at h

/-- A text, and another one that costs nothing. -/
theorem costs_last {m : Act S C A X α} {f : α → Act S C A X β} (hm : Costs P n m)
    (hf : ∀ a, Costs P 0 (f a)) : Costs P n (m >>= f) := costs_bind hm hf

/-- A text that costs one, and another one. -/
theorem costs_next {m : Act S C A X α} {f : α → Act S C A X β} (hm : Costs P 1 m)
    (hf : ∀ a, Costs P n (f a)) : Costs P (n + 1) (m >>= f) := by
  have h := costs_bind hm hf
  rwa [Nat.add_comm] at h

theorem costs_ite {b : Prop} [Decidable b] {m m' : Act S C A X α} (hm : b → Costs P n m)
    (hm' : ¬ b → Costs P n m') : Costs P n (if b then m else m') := by
  split
  · exact hm ‹_›
  · exact hm' ‹_›

theorem Costs.mono {m : Act S C A X α} (h : Costs P n m) (hle : n ≤ n') : Costs P n' m := by
  intro s k
  have hs := h s (n' - n + k)
  rw [show n + (n' - n + k) = n' + k by omega] at hs
  exact wp_conseq hs (fun _ _ l hl => by omega) fun _ _ l hl => by omega

end Rules

/-- **What costs `n` can be paid for**: where `I (k + 1)` admits a command with `P` and leads to
    `I k`. -/
theorem wp_of_costs {E : Env S C A W} {P : C → Prop} {I : Nat → W → Prop} {n k : Nat}
    {m : Act S C A X α} {s : S} {w : W} (h : Costs P n m)
    (hmono : ∀ k k' w, k' ≤ k → I k w → I k' w)
    (hok : ∀ k w s c, I (k + 1) w → P c → E.ok w s c)
    (hstep : ∀ k w s c a w', I (k + 1) w → P c → E.step w s c a w' → I k w') (hw : I (n + k) w) :
    wp E m (fun _ _ w' => I k w') (fun _ _ w' => I k w') s w := by
  have hs := h s k
  unfold wp at hs ⊢
  generalize n + k = b at hs hw
  generalize m s = p at hs ⊢
  clear h
  induction p generalizing b w with
  | ret a s => exact hmono _ _ _ hs hw
  | fail x s => exact hmono _ _ _ hs hw
  | call s c q ih =>
    obtain ⟨⟨hc, hpos⟩, hnext⟩ := hs
    obtain ⟨b', rfl⟩ : ∃ b', b = b' + 1 := ⟨b - 1, by omega⟩
    refine ⟨hok b' w s c hw hc, fun a w' hw' => ?_⟩
    exact ih a b' (hstep b' w s c a w' hw hc hw') (hnext a b' rfl)

end Transmitic.Lib
