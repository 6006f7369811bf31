/-
  File:      Transmitic/Lib/Invariant.lean
  Subject:   INVARIANTS OF INTERACTIVE PROGRAMS. Nothing here knows a particular program.

  * `Maintains`, `Leads` -- a program text that issues admitted commands only and ends, or fails, with
    the invariant it started with (with another one), with one rule for each way texts are put
    together;
  * `Ends` -- the same, where a failure has a property of its own; `EndsIn`, `Survives` -- where it is
    one of some ways to fail, or another invariant;
  * `Steady` -- a text whose commands have a property and which leaves a part of the thread's state
    alone all the time; `steady_of_endsIn` -- one that does not fail, from the rules for `EndsIn`;
  * `maintains_of_steady` -- **a steady text keeps every invariant that looks at that part only**, if
    its commands do;
  * `maintains_reach` -- the invariant at every command of every run;
  * `Env.until`, `reach_until` -- **a run that comes to a command there is**.
-/
import Transmitic.Lib.Program

namespace Transmitic.Lib

variable {S C : Type} {A : C → Type} {X α β W V : Type}

/-! ## 1. Invariants -/

/-- From the invariant `I` the text issues admitted commands only and ends or fails in `I`. -/
def Maintains (E : Env S C A W) (I : S → W → Prop) (m : Act S C A X α) : Prop :=
  ∀ s w, I s w → wp E m (fun _ => I) (fun _ => I) s w

/-- From `J` the text issues admitted commands only and ends or fails in `I`. -/
def Leads (E : Env S C A W) (J I : S → W → Prop) (m : Act S C A X α) : Prop :=
  ∀ s w, J s w → wp E m (fun _ => I) (fun _ => I) s w

section Rules

variable {E : Env S C A W} {I J : S → W → Prop}

theorem maintains_pure (a : α) : Maintains E I (pure a : Act S C A X α) := fun _ _ h => h

theorem maintains_throw (x : X) : Maintains E I (throw x : Act S C A X α) := fun _ _ h => h

theorem maintains_bind {m : Act S C A X α} {f : α → Act S C A X β} (hm : Maintains E I m)
    (hf : ∀ a, Maintains E I (f a)) : Maintains E I (m >>= f) := by
  intro s w h
  exact wp_seq (hm s w h) (fun a s' w' h' => hf a s' w' h') fun _ _ _ h' => h'

/-- A text that starts by looking at its own state. -/
theorem maintains_get {f : S → Act S C A X β}
    (hf : ∀ s w, I s w → wp E (f s) (fun _ => I) (fun _ => I) s w) :
    Maintains E I (get >>= f) := fun s w h => hf s w h

theorem maintains_modify {f : S → S} (hf : ∀ s w, I s w → I (f s) w) :
    Maintains E I (modify f : Act S C A X PUnit) := hf

theorem maintains_ite {b : Prop} [Decidable b] {m n : Act S C A X α} (hm : b → Maintains E I m)
    (hn : ¬ b → Maintains E I n) : Maintains E I (if b then m else n) := by
  split
  · exact hm ‹_›
  · exact hn ‹_›

theorem maintains_tryCatch {m : Act S C A X α} {h : X → Act S C A X α} (hm : Maintains E I m)
    (hh : ∀ x, Maintains E I (h x)) : Maintains E I (tryCatch m h) := by
  intro s w hi
  refine (wp_tryCatch m h).mpr (wp_conseq (hm s w hi) (fun _ _ _ h' => h') fun x s' w' h' => ?_)
  exact hh x s' w' h'

theorem maintains_issue {c : C} (hok : ∀ s w, I s w → E.ok w s c)
    (hstep : ∀ s w a w', I s w → E.step w s c a w' → I s w') :
    Maintains E I (issue c : Act S C A X (A c)) :=
  fun s w h => ⟨hok s w h, fun a w' hs => hstep s w a w' h hs⟩

theorem Maintains.weaken {m : Act S C A X α} (hm : Maintains E I m) (h : ∀ s w, J s w → I s w) :
    Leads E J I m := fun s w hj => hm s w (h s w hj)

/-- **At every command of every run**: the command is admitted. -/
theorem maintains_reach {m : Act S C A X α} {s s' : S} {w w' : W} {c : C}
    {k : A c → Prog S C A X α} (hm : Maintains E I m) (h : I s w)
    (hr : Reach E (m s, w) (.call s' c k, w')) : E.ok w' s' c :=
  reach_ok (hm s w h) hr

end Rules

/-- **At the end of every run**: the result, or the failure. -/
theorem reach_end {E : Env S C A W} {m : Act S C A X α} {Q : α → S → W → Prop}
    {R : X → S → W → Prop} {s : S} {w w' : W} {p : Prog S C A X α} (h : wp E m Q R s w)
    (hr : Reach E (m s, w) (p, w')) (hp : p.issued = none) :
    (∃ a s', p = .ret a s' ∧ Q a s' w') ∨ ∃ x s', p = .fail x s' ∧ R x s' w' := by
  have hend := holds_reach (c := (m s, w)) h hr
  cases p with
  | ret a s' => exact .inl ⟨a, s', rfl, hend⟩
  | fail x s' => exact .inr ⟨x, s', rfl, hend⟩
  | call s' c k => cases hp

/-- Regrouping what is done one after the other. -/
theorem wp_bind_assoc {γ : Type} {E : Env S C A W} {m : Act S C A X α} {f : α → Act S C A X β}
    {g : β → Act S C A X γ} {Q : γ → S → W → Prop} {R : X → S → W → Prop} {s : S} {w : W} :
    wp E ((m >>= f) >>= g) Q R s w ↔ wp E (m >>= fun a => f a >>= g) Q R s w := by
  rw [wp_bind, wp_bind, wp_bind]
  have h : (fun a => wp E (f a >>= g) Q R) = fun a => wp E (f a) (fun b => wp E (g b) Q R) R := by
    funext a s w
    exact propext (wp_bind (f a) g)
  rw [h]

/-- **Two texts with one beginning**: the rest of the one may be taken for the rest of the other. -/
theorem wp_rest {γ : Type} {E : Env S C A W} {m : Act S C A X α} {f : α → Act S C A X β}
    {g : α → Act S C A X γ} {Q : β → S → W → Prop} {Q' : γ → S → W → Prop} {R : X → S → W → Prop} {s : S}
    {w : W} (h : wp E (m >>= f) Q R s w)
    (hg : ∀ a s w, wp E (f a) Q R s w → wp E (g a) Q' R s w) : wp E (m >>= g) Q' R s w :=
  (wp_bind m g).mpr (wp_conseq ((wp_bind m f).mp h) hg fun _ _ _ h' => h')

/-- From the invariant `I` the text issues admitted commands only; it ends in `I`, or fails with `R`. -/
def Ends (E : Env S C A W) (I : S → W → Prop) (R : X → S → W → Prop) (m : Act S C A X α) : Prop :=
  ∀ s w, I s w → wp E m (fun _ => I) R s w

section Ends

variable {E : Env S C A W} {I : S → W → Prop} {R : X → S → W → Prop}

theorem ends_pure (a : α) : Ends E I R (pure a : Act S C A X α) := fun _ _ h => h

theorem ends_throw {x : X} (h : ∀ s w, I s w → R x s w) : Ends E I R (throw x : Act S C A X α) := h

theorem ends_get : Ends E I R (get : Act S C A X S) := fun _ _ h => h

theorem ends_modify {f : S → S} (hf : ∀ s w, I s w → I (f s) w) :
    Ends E I R (modify f : Act S C A X PUnit) := hf

theorem ends_bind {m : Act S C A X α} {f : α → Act S C A X β} (hm : Ends E I R m)
    (hf : ∀ a, Ends E I R (f a)) : Ends E I R (m >>= f) := by
  intro s w h
  exact wp_seq (hm s w h) (fun a s' w' h' => hf a s' w' h') fun _ _ _ h' => h'

theorem ends_ite {b : Prop} [Decidable b] {m n : Act S C A X α} (hm : b → Ends E I R m)
    (hn : ¬ b → Ends E I R n) : Ends E I R (if b then m else n) := by
  split
  · exact hm ‹_›
  · exact hn ‹_›

theorem ends_issue {c : C} (hok : ∀ s w, I s w → E.ok w s c)
    (hstep : ∀ s w a w', I s w → E.step w s c a w' → I s w') :
    Ends E I R (issue c : Act S C A X (A c)) :=
  fun s w h => ⟨hok s w h, fun a w' hs => hstep s w a w' h hs⟩

theorem Maintains.ends {m : Act S C A X α} (hm : Maintains E I m) (h : ∀ x s w, I s w → R x s w) :
    Ends E I R m := fun s w hi =>
  wp_conseq (hm s w hi) (fun _ _ _ h' => h') fun x s' w' h' => h x s' w' h'

end Ends

/-- From the invariant `I` the text issues admitted commands only; it ends in `I`, or fails in a way
    with `R`. -/
def EndsIn (E : Env S C A W) (I : S → W → Prop) (R : X → Prop) (m : Act S C A X α) : Prop :=
  ∀ s w, I s w → wp E m (fun _ => I) (fun x _ _ => R x) s w

section EndsIn

variable {E : Env S C A W} {I : S → W → Prop} {R : X → Prop}

theorem endsIn_pure (a : α) : EndsIn E I R (pure a : Act S C A X α) := ends_pure a

theorem endsIn_throw {x : X} (h : R x) : EndsIn E I R (throw x : Act S C A X α) :=
  ends_throw fun _ _ _ => h

theorem endsIn_get : EndsIn E I R (get : Act S C A X S) := ends_get

theorem endsIn_modify {f : S → S} (hf : ∀ s w, I s w → I (f s) w) :
    EndsIn E I R (modify f : Act S C A X PUnit) := ends_modify hf

theorem endsIn_bind {m : Act S C A X α} {f : α → Act S C A X β} (hm : EndsIn E I R m)
    (hf : ∀ a, EndsIn E I R (f a)) : EndsIn E I R (m >>= f) := ends_bind hm hf

theorem endsIn_ite {b : Prop} [Decidable b] {m n : Act S C A X α} (hm : b → EndsIn E I R m)
    (hn : ¬ b → EndsIn E I R n) : EndsIn E I R (if b then m else n) := ends_ite hm hn

theorem endsIn_issue {c : C} (hok : ∀ s w, I s w → E.ok w s c)
    (hstep : ∀ s w a w', I s w → E.step w s c a w' → I s w') :
    EndsIn E I R (issue c : Act S C A X (A c)) := ends_issue hok hstep

end EndsIn

/-- From the invariant `I` the text issues admitted commands only; it ends in `I`, or fails in `K`. -/
def Survives (E : Env S C A W) (I K : S → W → Prop) (m : Act S C A X α) : Prop :=
  ∀ s w, I s w → wp E m (fun _ => I) (fun _ => K) s w

section Survives

variable {E : Env S C A W} {I K : S → W → Prop}

theorem Maintains.survives {m : Act S C A X α} (hm : Maintains E I m) (h : ∀ s w, I s w → K s w) :
    Survives E I K m := hm.ends fun _ s w => h s w

theorem survives_bind {m : Act S C A X α} {f : α → Act S C A X β} (hm : Survives E I K m)
    (hf : ∀ a, Survives E I K (f a)) : Survives E I K (m >>= f) := ends_bind hm hf

theorem survives_ite {b : Prop} [Decidable b] {m n : Act S C A X α} (hm : b → Survives E I K m)
    (hn : ¬ b → Survives E I K n) : Survives E I K (if b then m else n) := ends_ite hm hn

end Survives

/-! ## 2. Texts that leave a part of the state alone -/

/-- Surroundings that admit the commands with `P` of a thread whose part `r` is `v`. -/
def steadily (P : C → Prop) (r : S → V) (v : V) : Env S C A Unit where
  ok _ s c := P c ∧ r s = v
  step _ _ _ _ _ := True

/-- Every command has `P`, and the part `r` of the thread's state is the same all the time. -/
def Steady (P : C → Prop) (r : S → V) (m : Act S C A X α) : Prop :=
  ∀ s, wp (steadily P r (r s)) m (fun _ s' _ => r s' = r s) (fun _ s' _ => r s' = r s) s ()

section Steady

variable {P P' : C → Prop} {r : S → V}

theorem steady_pure (a : α) : Steady P r (pure a : Act S C A X α) := fun _ => rfl

theorem steady_throw (x : X) : Steady P r (throw x : Act S C A X α) := fun _ => rfl

theorem steady_get : Steady P r (get : Act S C A X S) := fun _ => rfl

theorem steady_modify {f : S → S} (h : ∀ s, r (f s) = r s) :
    Steady P r (modify f : Act S C A X PUnit) := h

theorem steady_issue {c : C} (h : P c) : Steady P r (issue c : Act S C A X (A c)) :=
  fun _ => ⟨⟨h, rfl⟩, fun _ _ _ => rfl⟩

theorem steady_bind {m : Act S C A X α} {f : α → Act S C A X β} (hm : Steady P r m)
    (hf : ∀ a, Steady P r (f a)) : Steady P r (m >>= f) := by
  intro s
  refine wp_seq (hm s) (fun a s' w hs => ?_) fun _ _ _ hs => hs
  have h := hf a s'
  rw [hs] at h
  exact h

theorem steady_ite {b : Prop} [Decidable b] {m n : Act S C A X α} (hm : Steady P r m)
    (hn : Steady P r n) : Steady P r (if b then m else n) := by
  split
  · exact hm
  · exact hn

/-- What does not fail, and keeps every value of the part, is steady. -/
theorem steady_of_endsIn {m : Act S C A X α}
    (h : ∀ v, EndsIn (steadily P r v) (fun s _ => r s = v) (fun _ => False) m) : Steady P r m :=
  fun s => wp_conseq (h (r s) s () rfl) (fun _ _ _ h' => h') fun _ _ _ h' => h'.elim

theorem endsIn_steadily {v : V} {R : X → Prop} {c : C} (h : P c) :
    EndsIn (steadily P r v) (fun s _ => r s = v) R (issue c : Act S C A X (A c)) :=
  endsIn_issue (fun _ _ hs => ⟨h, hs⟩) fun _ _ _ _ hs _ => hs

theorem Steady.mono {m : Act S C A X α} (h : Steady P r m) (hP : ∀ c, P c → P' c) :
    Steady P' r m := by
  intro s
  have hs := h s
  unfold wp at hs ⊢
  generalize hv : r s = v at hs ⊢
  generalize m s = p at hs ⊢
  clear hv h s
  induction p with
  | ret a s => exact hs
  | fail x s => exact hs
  | call s c k ih => exact ⟨⟨hP c hs.1.1, hs.1.2⟩, fun a w hw => ih a (hs.2 a w hw)⟩

theorem Steady.keeps {m : Act S C A X α} (h : Steady P r m) : Keeps P r m := by
  intro s
  have hs := h s
  unfold wp at hs ⊢
  generalize hv : r s = v at hs ⊢
  generalize m s = p at hs ⊢
  clear hv h s
  induction p with
  | ret a s => exact hs
  | fail x s => exact hs
  | call s c k ih => exact ⟨hs.1.1, fun a w hw => ih a (hs.2 a w hw)⟩

/-- What is left alone, seen through a function. -/
theorem Steady.map {V' : Type} {m : Act S C A X α} (h : Steady P r m) (g : V → V') :
    Steady P (fun s => g (r s)) m := by
  intro s
  have hs := h s
  show (m s).Holds (steadily P (fun s => g (r s)) (g (r s))) (fun _ s' _ => g (r s') = g (r s))
    (fun _ s' _ => g (r s') = g (r s)) ()
  unfold wp at hs
  generalize r s = v at hs ⊢
  generalize m s = p at hs ⊢
  clear h s
  induction p with
  | ret a s => exact congrArg g hs
  | fail x s => exact congrArg g hs
  | call s c k ih => exact ⟨⟨hs.1.1, congrArg g hs.1.2⟩, fun a w hw => ih a (hs.2 a w hw)⟩

/-- **A steady text keeps every invariant that looks at its part only**, where the commands do. -/
theorem maintains_of_steady {E : Env S C A W} {I : S → W → Prop} {m : Act S C A X α}
    (h : Steady P r m) (hr : ∀ s s' w, r s' = r s → I s w → I s' w)
    (hok : ∀ s w c, I s w → P c → E.ok w s c)
    (hstep : ∀ s w c a w', I s w → P c → E.step w s c a w' → I s w') : Maintains E I m := by
  intro s w hi
  have hs := h s
  have hall : ∀ s', r s' = r s → I s' w := fun s' hs' => hr s s' w hs' hi
  unfold wp at hs ⊢
  generalize r s = v at hs hall
  generalize m s = p at hs ⊢
  clear h hi s
  induction p generalizing w with
  | ret a s => exact hall s hs
  | fail x s => exact hall s hs
  | call s c k ih =>
    have hi : I s w := hall s hs.1.2
    refine ⟨hok s w c hi hs.1.1, fun a w' hw => ?_⟩
    have hi' : I s w' := hstep s w c a w' hi hs.1.1 hw
    exact ih a w' (fun s' hs' => hr s s' w' (hs'.trans hs.1.2.symm) hi') (hs.2 a () trivial)

end Steady

/-! ## 3. What a text leaves alone, whatever it does -/

section Frame

variable {P : C → Prop} {r : S → V} {E : Env S C A W}

/-- What a text does whatever the answers, next to what it does in these surroundings. -/
theorem wp_also {m : Act S C A X α} {Q : α → S → W → Prop} {R : X → S → W → Prop}
    {Q' : α → S → Unit → Prop} {R' : X → S → Unit → Prop} {s : S} {w : W}
    (h' : wp (anyAnswers P) m Q' R' s ()) (h : wp E m Q R s w) :
    wp E m (fun a s' w' => Q a s' w' ∧ Q' a s' ()) (fun x s' w' => R x s' w' ∧ R' x s' ()) s w := by
  unfold wp at h h' ⊢
  generalize m s = p at h h' ⊢
  induction p generalizing w with
  | ret a s => exact ⟨h, h'⟩
  | fail x s => exact ⟨h, h'⟩
  | call s c k ih => exact ⟨h.1, fun a w' hw => ih a (h.2 a w' hw) (h'.2 a () trivial)⟩

/-- A text that keeps a part of the state keeps it in all surroundings. -/
theorem wp_keeps {m : Act S C A X α} {Q : α → S → W → Prop} {R : X → S → W → Prop} {s : S} {w : W}
    (hk : Keeps P r m) (h : wp E m Q R s w) :
    wp E m (fun a s' w' => Q a s' w' ∧ r s' = r s) (fun x s' w' => R x s' w' ∧ r s' = r s) s w :=
  wp_also (hk s) h

/-- Surroundings that admit the commands of a text admit it. -/
theorem wp_admitting {ok : W → S → C → Prop} {m : Act S C A X α} {Q : α → S → W → Prop}
    {R : X → S → W → Prop} {s : S} {w : W} (hk : Keeps P r m)
    (hok : ∀ w s c, E.ok w s c → P c → ok w s c) (h : wp E m Q R s w) : wp (E.admitting ok) m Q R s w := by
  have hs := hk s
  unfold wp at h hs ⊢
  generalize r s = v at hs
  generalize m s = p at h hs ⊢
  clear hk
  induction p generalizing w with
  | ret a s => exact h
  | fail x s => exact h
  | call s c k ih =>
    exact ⟨hok _ _ _ h.1 hs.1, fun a w' hw => ih a (h.2 a w' hw) (hs.2 a () trivial)⟩

/-- **What a text does whatever the answers, it does in all surroundings** that admit its commands;
    and what its commands keep of them is kept. -/
theorem wp_of_any {m : Act S C A X α} {Q : α → S → Unit → Prop} {R : X → S → Unit → Prop}
    {I : W → Prop} {s : S} {w : W} (h : wp (anyAnswers P) m Q R s ())
    (hok : ∀ w s c, I w → P c → E.ok w s c)
    (hstep : ∀ w s c a w', I w → P c → E.step w s c a w' → I w') (hw : I w) :
    wp E m (fun a s' w' => Q a s' () ∧ I w') (fun x s' w' => R x s' () ∧ I w') s w := by
  unfold wp at h ⊢
  generalize m s = p at h ⊢
  induction p generalizing w with
  | ret a s => exact ⟨h, hw⟩
  | fail x s => exact ⟨h, hw⟩
  | call s c k ih =>
    refine ⟨hok _ _ _ hw h.1, fun a w' hw' => ?_⟩
    exact ih a (hstep _ _ _ _ _ hw h.1 hw') (h.2 a () trivial)

/-- Where `I` holds, commands with `P` are admitted, and `I` holds after them. -/
structure Env.Spares (E : Env S C A W) (P : C → Prop) (I : W → Prop) : Prop where
  ok : ∀ w s c, I w → P c → E.ok w s c
  step : ∀ w s c a w', I w → P c → E.step w s c a w' → I w'

theorem Env.Spares.mono {Q : C → Prop} {I : W → Prop} (h : E.Spares P I) (hQ : ∀ c, Q c → P c) :
    E.Spares Q I where
  ok w s c hw hc := h.ok w s c hw (hQ c hc)
  step w s c a w' hw hc := h.step w s c a w' hw (hQ c hc)

theorem spares_true (h : ∀ w s c, E.ok w s c) : E.Spares P fun _ => True :=
  ⟨fun w s c _ _ => h w s c, fun _ _ _ _ _ _ _ _ => trivial⟩

/-- An invariant together with a fact about a part the text leaves alone. -/
theorem Maintains.and {I : S → W → Prop} {m : Act S C A X α} (hm : Maintains E I m)
    (hk : Keeps P r m) (K : V → Prop) : Maintains E (fun s w => I s w ∧ K (r s)) m := by
  intro s w h
  refine wp_conseq (wp_keeps hk (hm s w h.1)) (fun _ s' w' hs => ?_) fun _ s' w' hs => ?_
  · exact ⟨hs.1, hs.2 ▸ h.2⟩
  · exact ⟨hs.1, hs.2 ▸ h.2⟩

end Frame

/-! ## 4. Runs that come to a command -/

section Until

variable {E : Env S C A W} {Bad : W → S → C → Prop}

/-- The surroundings `E`, until a command with `Bad` is issued. -/
def Env.until (E : Env S C A W) (Bad : W → S → C → Prop) : Env S C A W where
  ok w s c := E.ok w s c ∨ Bad w s c
  step w s c a w' := E.ok w s c ∧ E.step w s c a w'

theorem wp_until {m : Act S C A X α} {Q : α → S → W → Prop} {R : X → S → W → Prop} {s : S} {w : W}
    (h : wp E m Q R s w) : wp (E.until Bad) m Q R s w := by
  unfold wp at h ⊢
  generalize m s = p at h ⊢
  induction p generalizing w with
  | ret a s => exact h
  | fail x s => exact h
  | call s c k ih => exact ⟨.inl h.1, fun a w' hs => ih a (h.2 a w' hs.2)⟩

/-- **A run there is**: a program that does not end before a command with `Bad` comes to one, in
    surroundings that always answer. -/
theorem reach_until {m : Act S C A X α} {s : S} {w : W}
    (htotal : ∀ w s c, E.ok w s c → ∃ a w', E.step w s c a w')
    (h : wp (E.until Bad) m (fun _ _ _ => False) (fun _ _ _ => False) s w) :
    ∃ s' c k w', Reach E (m s, w) (.call s' c k, w') ∧ Bad w' s' c := by
  unfold wp at h
  generalize m s = p at h
  induction p generalizing w with
  | ret a s => exact h.elim
  | fail x s => exact h.elim
  | call s c k ih =>
    rcases h.1 with hok | hbad
    · obtain ⟨a, w', hstep⟩ := htotal w s c hok
      obtain ⟨s', c', k', w'', hr, hbad⟩ := ih a (h.2 a w' ⟨hok, hstep⟩)
      exact ⟨s', c', k', w'', Reach.trans (.step _ s c k w w' a (.start _) hstep) hr, hbad⟩
    · exact ⟨s, c, k, w, .start _, hbad⟩

/-- **A run to the end there is**, in surroundings that always answer. -/
theorem reach_some_end {m : Act S C A X α} {Q : α → S → W → Prop} {R : X → S → W → Prop} {s : S}
    {w : W} (htotal : ∀ w s c, E.ok w s c → ∃ a w', E.step w s c a w') (h : wp E m Q R s w) :
    ∃ p w', Reach E (m s, w) (p, w') ∧ ((∃ a s', p = .ret a s' ∧ Q a s' w') ∨
      ∃ x s', p = .fail x s' ∧ R x s' w') := by
  unfold wp at h
  generalize m s = p at h
  induction p generalizing w with
  | ret a s => exact ⟨_, w, .start _, .inl ⟨a, s, rfl, h⟩⟩
  | fail x s => exact ⟨_, w, .start _, .inr ⟨x, s, rfl, h⟩⟩
  | call s c k ih =>
    obtain ⟨a, w', hstep⟩ := htotal w s c h.1
    obtain ⟨p, w'', hr, hend⟩ := ih a (h.2 a w' hstep)
    exact ⟨p, w'', Reach.trans (.step _ s c k w w' a (.start _) hstep) hr, hend⟩

/-- Runs in surroundings that answer some of the ways others do, seen through a function of the
    surroundings. -/
theorem Reach.map {W' : Type} {E' : Env S C A W'} {g : W' → W}
    (hsub : ∀ w s c a w', E'.step w s c a w' → E.step (g w) s c a (g w'))
    {c c' : Prog S C A X α × W'} (h : Reach E' c c') : Reach E (c.1, g c.2) (c'.1, g c'.2) := by
  induction h with
  | start => exact .start _
  | step s d k w w' a _ hs ih => exact .step _ s d k (g w) (g w') a ih (hsub w s d a w' hs)

end Until

end Transmitic.Lib
