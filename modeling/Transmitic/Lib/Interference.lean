/-
  File:      Transmitic/Lib/Interference.lean
  Subject:   PROGRAMS AMONG OTHERS. Nothing here knows a particular program.

  A program shares its surroundings with others. Between two of its commands they change, but only in
  ways a relation `Others` (reflexive and transitive) allows.

  * `Env.among` -- the surroundings of a program together with what the others do;
  * `Prog.Holds.interfere` -- **what holds of a program among others still holds after they have done
    something**;
  * `Prog.Holds.issue` -- and it holds of the rest of the program after its own next step;
  * `among_step` -- invariants the others respect.
-/
import Transmitic.Lib.Invariant

namespace Transmitic.Lib

variable {S C : Type} {A : C → Type} {X α W : Type}

/-- What the others may do is nothing, and one thing after the other. -/
structure Interference (Others : W → W → Prop) : Prop where
  refl : ∀ w, Others w w
  trans : ∀ w w' w'', Others w w' → Others w' w'' → Others w w''

/-- Before and after each command of the program the others may do something. -/
def Env.among (E : Env S C A W) (Others : W → W → Prop) : Env S C A W where
  ok w s c := ∀ w', Others w w' → E.ok w' s c
  step w s c a w' := ∃ w₀ w₁, Others w w₀ ∧ E.step w₀ s c a w₁ ∧ Others w₁ w'

section Among

variable {E : Env S C A W} {Others : W → W → Prop} {c : C} {Q : α → S → W → Prop} {R : X → S → W → Prop}

/-- **The others do something.** -/
theorem Prog.Holds.interfere {p : Prog S C A X α} {w w' : W} (ho : Interference Others)
    (hQ : ∀ a s w w', Others w w' → Q a s w → Q a s w')
    (hR : ∀ x s w w', Others w w' → R x s w → R x s w') (h : p.Holds (E.among Others) Q R w)
    (hw : Others w w') : p.Holds (E.among Others) Q R w' := by
  cases p with
  | ret a s => exact hQ a s w w' hw h
  | fail x s => exact hR x s w w' hw h
  | call s c k =>
    refine ⟨fun w'' hw' => h.1 w'' (ho.trans _ _ _ hw hw'), fun a w'' hs => ?_⟩
    obtain ⟨w₀, w₁, h₀, hstep, h₁⟩ := hs
    exact h.2 a w'' ⟨w₀, w₁, ho.trans _ _ _ hw h₀, hstep, h₁⟩

/-- **The program does its next step.** -/
theorem Prog.Holds.issue {s : S} {k : A c → Prog S C A X α} {w : W} (ho : Interference Others)
    (h : (Prog.call s c k).Holds (E.among Others) Q R w) :
    E.ok w s c ∧ ∀ a w', E.step w s c a w' → (k a).Holds (E.among Others) Q R w' :=
  ⟨h.1 w (ho.refl w), fun a w' hs => h.2 a w' ⟨w, w', ho.refl w, hs, ho.refl w'⟩⟩

/-- A command that leads from one fact to another, if the others leave both alone. -/
theorem among_step {I J : W → Prop} {s : S} {a : A c} {w w' : W}
    (hI : ∀ w w', Others w w' → I w → I w') (hJ : ∀ w w', Others w w' → J w → J w')
    (h : ∀ w w', I w → E.step w s c a w' → J w') (hw : I w)
    (hs : (E.among Others).step w s c a w') : J w' := by
  obtain ⟨w₀, w₁, h₀, hstep, h₁⟩ := hs
  exact hJ w₁ w' h₁ (h w₀ w₁ (hI w w₀ h₀ hw) hstep)

/-- A command admitted in all surroundings with `I`. -/
theorem among_ok {I : W → Prop} {s : S} {w : W} (hI : ∀ w w', Others w w' → I w → I w')
    (h : ∀ w, I w → E.ok w s c) (hw : I w) : (E.among Others).ok w s c :=
  fun w' h' => h w' (hI w w' h' hw)

/-- **A command among others**: a fact they leave alone admits it, and leads to another one. -/
theorem wp_issue_among {I : W → Prop} {J : A c → W → Prop} {s : S} {w : W}
    (hI : ∀ w w', Others w w' → I w → I w') (hJ : ∀ a w w', Others w w' → J a w → J a w')
    (hok : ∀ w, I w → E.ok w s c) (hstep : ∀ w a w', I w → E.step w s c a w' → J a w') (hw : I w) :
    wp (E.among Others) (issue c : Act S C A X (A c)) (fun a s' w' => s' = s ∧ J a w')
      (fun _ _ _ => False) s w :=
  ⟨among_ok hI hok hw, fun a _ hs =>
    ⟨rfl, among_step hI (hJ a) (fun w w' hi => hstep w a w' hi) hw hs⟩⟩

end Among

end Transmitic.Lib
