/-
  File:      Transmitic/Lib/Program.lean
  Subject:   INTERACTIVE PROGRAMS AND THEIR PRECONDITIONS. Nothing here knows a particular program.

  A thread is read as a tree of commands: it computes on its own state `S`, issues a command `c`
  to its surroundings, and goes on with the answer `A c` it gets. The tree is finite on every
  path, so a loop of a program carries a bound on its passes; every result below holds for every
  bound.

  * `Prog`, `Act` -- the trees, and the state-passing monad the programs are written in. A failure
    keeps the state it happened in (an early return through an error of a method that has already
    changed its object);
  * `Env` -- surroundings with a state of their own: which commands they admit (`ok`) and how they
    answer (`step`). Every command carries the state the thread issued it in;
  * `Prog.Holds`, `wp` -- what has to be true for a program to issue admitted commands only and to
    end in `Q` (or, by failure, in `R`), whatever the surroundings answer;
  * `Reach`, `holds_reach` -- the runs themselves, and the fact that makes `wp` a statement about
    every point of every run;
  * `wp_bind`, `wp_seq`, `wp_conseq` -- the rules the proofs about programs use;
  * `Keeps`, `wp_of_keeps` -- which commands a program issues and what it leaves alone, whatever
    the answers, and the frame rule that turns it into a precondition in any surroundings;
  * `Prog.play`, `Prog.playIn`, `Prog.playWhile`, `Prog.record` -- the run with given answers, or in
    given surroundings;
  * `bind_eq_ok`, `forM_eq_ok` -- computations without commands that may fail.
-/
import Mathlib

namespace Transmitic.Lib

/-! ## 1. Programs -/

/-- A program: it has ended with a result, it has failed, or it issues a command (`s` is the
    thread's own state at that moment) and goes on with the answer. -/
inductive Prog (S C : Type) (A : C → Type) (X α : Type) : Type where
  | ret (a : α) (s : S)
  | fail (x : X) (s : S)
  | call (s : S) (c : C) (k : A c → Prog S C A X α)

variable {S C : Type} {A : C → Type} {X α β : Type}

namespace Prog

/-- Go on with `f` where the program ends with a result. -/
def bind : Prog S C A X α → (α → S → Prog S C A X β) → Prog S C A X β
  | .ret a s, f => f a s
  | .fail x s, _ => .fail x s
  | .call s c k, f => .call s c fun a => (k a).bind f

/-- Go on with `h` where the program fails. -/
def handle : Prog S C A X α → (X → S → Prog S C A X α) → Prog S C A X α
  | .ret a s, _ => .ret a s
  | .fail x s, h => h x s
  | .call s c k, h => .call s c fun a => (k a).handle h

/-- The thread's own state at this point of the program. -/
def state : Prog S C A X α → S
  | .ret _ s => s
  | .fail _ s => s
  | .call s _ _ => s

/-- The command the program issues next. -/
def issued : Prog S C A X α → Option C
  | .call _ c _ => some c
  | _ => none

theorem issued_eq_some {p : Prog S C A X α} {c : C} :
    p.issued = some c ↔ ∃ s k, p = .call s c k := by
  constructor
  · intro h
    cases p with
    | ret a s => cases h
    | fail x s => cases h
    | call s d k =>
      cases h
      exact ⟨s, k, rfl⟩
  · intro h
    obtain ⟨s, k, rfl⟩ := h
    rfl

end Prog

/-- A program text: from the thread's state to the program that runs from there. -/
def Act (S C : Type) (A : C → Type) (X α : Type) : Type := S → Prog S C A X α

instance : Monad (Act S C A X) where
  pure a := fun s => .ret a s
  bind m f := fun s => (m s).bind f

instance : MonadStateOf S (Act S C A X) where
  get := fun s => .ret s s
  set s := fun _ => .ret ⟨⟩ s
  modifyGet f := fun s => .ret (f s).1 (f s).2

instance : MonadExceptOf X (Act S C A X) where
  throw x := fun s => .fail x s
  tryCatch m h := fun s => (m s).handle h

/-- Issue one command and return its answer. -/
def issue (c : C) : Act S C A X (A c) := fun s => .call s c fun a => .ret a s

/-- How a thread fails: with an error it returns, with a panic, or because the bound on the passes
    of a loop is reached. -/
inductive Exc where
  | err (text : List Char)
  | panic
  | fuel
  deriving DecidableEq, Repr

/-! ## 2. Surroundings and preconditions -/

/-- The surroundings of a thread: `ok w s c` says that in the state `w` they admit the command
    `c` of a thread in state `s`, `step w s c a w'` that they may answer it with `a` and go
    to `w'`. -/
structure Env (S C : Type) (A : C → Type) (W : Type) where
  ok : W → S → C → Prop
  step : W → S → (c : C) → A c → W → Prop

variable {W : Type} (E : Env S C A W)

/-- The program issues admitted commands only, and ends in `Q` or fails in `R`, whatever the
    surroundings answer. -/
def Prog.Holds (Q : α → S → W → Prop) (R : X → S → W → Prop) : Prog S C A X α → W → Prop
  | .ret a s, w => Q a s w
  | .fail x s, w => R x s w
  | .call s c k, w => E.ok w s c ∧ ∀ a w', E.step w s c a w' → (k a).Holds Q R w'

/-- `Prog.Holds` of a program text, from the thread's state `s` and the surroundings' `w`. -/
def wp (m : Act S C A X α) (Q : α → S → W → Prop) (R : X → S → W → Prop) (s : S) (w : W) : Prop :=
  (m s).Holds E Q R w

/-- Points of the runs of a program: the program still to run and the state of the
    surroundings. -/
inductive Reach : Prog S C A X α × W → Prog S C A X α × W → Prop where
  | start (p : Prog S C A X α × W) : Reach p p
  | step (p : Prog S C A X α × W) (s : S) (c : C) (k : A c → Prog S C A X α) (w w' : W) (a : A c)
      (h : Reach p (.call s c k, w)) (hs : E.step w s c a w') : Reach p (k a, w')

variable {E} {Q Q' : α → S → W → Prop} {R R' : X → S → W → Prop}

/-- **What holds of a program holds of the rest of it at every point of every run.** -/
theorem holds_reach {c c' : Prog S C A X α × W} (h : c.1.Holds E Q R c.2) (hr : Reach E c c') :
    c'.1.Holds E Q R c'.2 := by
  induction hr with
  | start => exact h
  | step _ _ _ _ _ _ _ hs ih => exact ih.2 _ _ hs

theorem Reach.trans {c c' c'' : Prog S C A X α × W} (h : Reach E c c') (h' : Reach E c' c'') :
    Reach E c c'' := by
  induction h' with
  | start => exact h
  | step s d k w w' a _ hs ih => exact .step _ s d k w w' a ih hs

/-- A run of `wp` text: its points issue admitted commands only. -/
theorem reach_ok {m : Act S C A X α} {s s' : S} {w w' : W} {c : C} {k : A c → Prog S C A X α}
    (h : wp E m Q R s w) (hr : Reach E (m s, w) (.call s' c k, w')) : E.ok w' s' c :=
  (holds_reach (c := (m s, w)) h hr).1

/-- Surroundings that answer like `E`, and admit other commands. -/
def Env.admitting (E : Env S C A W) (ok : W → S → C → Prop) : Env S C A W := { E with ok }

/-- Which commands are admitted does not change the runs. -/
theorem Reach.admitting {ok : W → S → C → Prop} {c c' : Prog S C A X α × W} (h : Reach E c c') :
    Reach (E.admitting ok) c c' := by
  induction h with
  | start => exact .start _
  | step s d k w w' a _ hs ih => exact .step _ s d k w w' a ih hs

/-! ## 3. The rules -/

theorem Prog.holds_bind (p : Prog S C A X α) (f : α → S → Prog S C A X β)
    {Q : β → S → W → Prop} {w : W} :
    (p.bind f).Holds E Q R w ↔ p.Holds E (fun a s w => (f a s).Holds E Q R w) R w := by
  induction p generalizing w with
  | ret a s => exact Iff.rfl
  | fail x s => exact Iff.rfl
  | call s c k ih =>
    exact and_congr_right fun _ => forall_congr' fun a => forall_congr' fun w' =>
      imp_congr_right fun _ => ih a

theorem Prog.holds_handle (p : Prog S C A X α) (h : X → S → Prog S C A X α) {w : W} :
    (p.handle h).Holds E Q R w ↔ p.Holds E Q (fun x s w => (h x s).Holds E Q R w) w := by
  induction p generalizing w with
  | ret a s => exact Iff.rfl
  | fail x s => exact Iff.rfl
  | call s c k ih =>
    exact and_congr_right fun _ => forall_congr' fun a => forall_congr' fun w' =>
      imp_congr_right fun _ => ih a

theorem Prog.Holds.mono {p : Prog S C A X α} {w : W} (h : p.Holds E Q R w)
    (hQ : ∀ a s w, Q a s w → Q' a s w) (hR : ∀ x s w, R x s w → R' x s w) :
    p.Holds E Q' R' w := by
  induction p generalizing w with
  | ret a s => exact hQ _ _ _ h
  | fail x s => exact hR _ _ _ h
  | call s c k ih => exact ⟨h.1, fun a w' hs => ih a (h.2 a w' hs)⟩

section Rules

variable {s : S} {w : W}

/-- A program that starts by looking at the state. -/
theorem get_bind (f : S → Act S C A X α) (s : S) : (get >>= f : Act S C A X α) s = f s s := rfl

@[simp] theorem wp_pure (a : α) : wp E (pure a : Act S C A X α) Q R s w ↔ Q a s w := Iff.rfl

@[simp] theorem wp_bind (m : Act S C A X α) (f : α → Act S C A X β) {Q : β → S → W → Prop} :
    wp E (m >>= f) Q R s w ↔ wp E m (fun a => wp E (f a) Q R) R s w :=
  Prog.holds_bind (m s) (fun a s => f a s)

@[simp] theorem wp_get {Q : S → S → W → Prop} :
    wp E (get : Act S C A X S) Q R s w ↔ Q s s w := Iff.rfl

@[simp] theorem wp_set (t : S) {Q : PUnit → S → W → Prop} :
    wp E (set t : Act S C A X PUnit) Q R s w ↔ Q ⟨⟩ t w := Iff.rfl

@[simp] theorem wp_modify (f : S → S) {Q : PUnit → S → W → Prop} :
    wp E (modify f : Act S C A X PUnit) Q R s w ↔ Q ⟨⟩ (f s) w := Iff.rfl

@[simp] theorem wp_throw (x : X) : wp E (throw x : Act S C A X α) Q R s w ↔ R x s w := Iff.rfl

@[simp] theorem wp_tryCatch (m : Act S C A X α) (h : X → Act S C A X α) :
    wp E (tryCatch m h) Q R s w ↔ wp E m Q (fun x => wp E (h x) Q R) s w :=
  Prog.holds_handle (m s) (fun x s => h x s)

@[simp] theorem wp_ite (b : Prop) [Decidable b] (m n : Act S C A X α) :
    wp E (if b then m else n) Q R s w ↔ if b then wp E m Q R s w else wp E n Q R s w := by
  split <;> exact Iff.rfl

/-- Consequence: a stronger result is a result. -/
theorem wp_conseq {m : Act S C A X α} (h : wp E m Q' R' s w)
    (hQ : ∀ a s w, Q' a s w → Q a s w) (hR : ∀ x s w, R' x s w → R x s w) : wp E m Q R s w :=
  Prog.Holds.mono h hQ hR

/-- **Sequencing by specifications**: the first part meets its own result, the rest starts
    from there. -/
theorem wp_seq {m : Act S C A X α} {f : α → Act S C A X β} {Q : β → S → W → Prop}
    (h : wp E m Q' R' s w) (hQ : ∀ a s w, Q' a s w → wp E (f a) Q R s w)
    (hR : ∀ x s w, R' x s w → R x s w) : wp E (m >>= f) Q R s w :=
  (wp_bind m f).mpr (wp_conseq h hQ hR)

end Rules

/-! ## 4. What a program asks for, and what it leaves alone -/

/-- Surroundings that admit the commands with `P` and may answer anything. -/
def anyAnswers (P : C → Prop) : Env S C A Unit where
  ok _ _ c := P c
  step _ _ _ _ _ := True

/-- Every command of every run has `P`, and no run changes the part `r` of the thread's state. -/
def Keeps {V : Type} (P : C → Prop) (r : S → V) (m : Act S C A X α) : Prop :=
  ∀ s, wp (anyAnswers P) m (fun _ s' _ => r s' = r s) (fun _ s' _ => r s' = r s) s ()

section Keeps

variable {V : Type} {P P' : C → Prop} {r : S → V}

@[simp] theorem keeps_pure (a : α) : Keeps P r (pure a : Act S C A X α) := fun _ => rfl

@[simp] theorem keeps_throw (x : X) : Keeps P r (throw x : Act S C A X α) := fun _ => rfl

@[simp] theorem keeps_get : Keeps P r (get : Act S C A X S) := fun _ => rfl

theorem keeps_modify {f : S → S} (h : ∀ s, r (f s) = r s) :
    Keeps P r (modify f : Act S C A X PUnit) := h

theorem keeps_issue {c : C} (h : P c) : Keeps P r (issue c : Act S C A X (A c)) :=
  fun _ => ⟨h, fun _ _ _ => rfl⟩

theorem keeps_bind {m : Act S C A X α} {f : α → Act S C A X β} (hm : Keeps P r m)
    (hf : ∀ a, Keeps P r (f a)) : Keeps P r (m >>= f) := by
  intro s
  refine wp_seq (hm s) (fun a s' w hs => ?_) fun _ _ _ hs => hs
  exact wp_conseq (hf a s') (fun _ _ _ h => h.trans hs) fun _ _ _ h => h.trans hs

theorem keeps_ite {b : Prop} [Decidable b] {m n : Act S C A X α} (hm : b → Keeps P r m)
    (hn : ¬ b → Keeps P r n) : Keeps P r (if b then m else n) := by
  split
  · exact hm ‹_›
  · exact hn ‹_›

theorem Keeps.mono {m : Act S C A X α} (h : Keeps P r m) (hP : ∀ c, P c → P' c) :
    Keeps P' r m := by
  intro s
  have hs := h s
  unfold wp at hs ⊢
  generalize hV : r s = v at hs ⊢
  generalize m s = p at hs ⊢
  clear hV h s
  induction p with
  | ret a s => exact hs
  | fail x s => exact hs
  | call s c k ih => exact ⟨hP c hs.1, fun a w hw => ih a (hs.2 a w hw)⟩

/-- What is left alone, seen through a function. -/
theorem Keeps.map {V' : Type} {m : Act S C A X α} (h : Keeps P r m) (g : V → V') :
    Keeps P (fun s => g (r s)) m := fun s =>
  wp_conseq (h s) (fun _ _ _ hr => congrArg g hr) fun _ _ _ hr => congrArg g hr

/-- **Frame rule.** Surroundings that admit the commands of the program and keep `I` under them
    are left with `I`, and the program leaves `r` alone. -/
theorem wp_of_keeps {m : Act S C A X α} {I : W → Prop} {s : S} {w : W} (h : Keeps P r m)
    (hok : ∀ w s c, I w → P c → E.ok w s c)
    (hstep : ∀ w s c a w', I w → P c → E.step w s c a w' → I w') (hw : I w) :
    wp E m (fun _ s' w' => r s' = r s ∧ I w') (fun _ s' w' => r s' = r s ∧ I w') s w := by
  have hs := h s
  unfold wp at hs ⊢
  generalize hV : r s = v at hs ⊢
  generalize m s = p at hs ⊢
  clear hV h s
  induction p generalizing w with
  | ret a s => exact ⟨hs, hw⟩
  | fail x s => exact ⟨hs, hw⟩
  | call s c k ih =>
    refine ⟨hok _ _ _ hw hs.1, fun a w' hw' => ?_⟩
    exact ih a (hstep _ _ _ _ _ hw hs.1 hw') (hs.2 a () trivial)

/-- The commands of the runs of a program that keeps `r` with commands in `P`. -/
theorem Keeps.issued {m : Act S C A X α} (h : Keeps P r m) {s : S} {c : C} {Any : C → Prop}
    {q : Prog S C A X α} (hr : Reach (anyAnswers Any) (m s, ()) (q, ())) (hc : q.issued = some c) :
    P c := by
  have hwp : wp (anyAnswers P) m (fun _ s' _ => r s' = r s) (fun _ s' _ => r s' = r s) s () := h s
  have hreach : ∀ {q q' : Prog S C A X α × Unit}, Reach (anyAnswers Any) q q' →
      Reach (anyAnswers P) q q' := by
    intro q q' hq
    induction hq with
    | start => exact .start _
    | step t d k w w' a _ _ ih => exact .step _ t d k w w' a ih trivial
  cases q with
  | ret a s => cases hc
  | fail x s => cases hc
  | call s d k =>
    cases hc
    exact reach_ok hwp (hreach hr)

end Keeps

/-! ## 5. Runs with given answers -/

namespace Prog

/-- The program after its first commands were answered like this. -/
def play : List (∀ c, A c) → Prog S C A X α → Prog S C A X α
  | answer :: answers, .call _ c k => (k (answer c)).play answers
  | _, p => p

end Prog

/-- What is played is a run, where the surroundings may answer like this. -/
theorem reach_play_of {w : W} (answers : List (∀ c, A c)) (p : Prog S C A X α)
    (h : ∀ answer ∈ answers, ∀ s c, E.step w s c (answer c) w) :
    Reach E (p, w) (p.play answers, w) := by
  induction answers generalizing p with
  | nil => exact .start _
  | cons answer answers ih =>
    cases p with
    | ret a s => exact .start _
    | fail x s => exact .start _
    | call s c k =>
      have hrest := ih (k (answer c)) fun a ha => h a (List.mem_cons_of_mem answer ha)
      exact Reach.trans (.step _ s c k w w (answer c) (.start _) (h answer List.mem_cons_self s c))
        hrest

theorem reach_play (answers : List (∀ c, A c)) (p : Prog S C A X α) :
    Reach (anyAnswers fun _ => True) (p, ()) (p.play answers, ()) :=
  reach_play_of answers p fun _ _ _ _ => trivial

/-- The first `n` steps of a run in surroundings that go on in one way from each of their states. -/
def Prog.playIn (next : (c : C) → W → A c × W) : Nat → Prog S C A X α → W → Prog S C A X α × W
  | n + 1, .call _ c k, w => (k (next c w).1).playIn next n (next c w).2
  | _, p, w => (p, w)

theorem reach_playIn {next : (c : C) → W → A c × W}
    (h : ∀ w s c, E.step w s c (next c w).1 (next c w).2) :
    ∀ (n : Nat) (p : Prog S C A X α) (w : W), Reach E (p, w) (p.playIn next n w)
  | 0, p, w => by
    rw [show p.playIn next 0 w = (p, w) by cases p <;> rfl]
    exact .start _
  | n + 1, .ret a s, w => .start _
  | n + 1, .fail x s, w => .start _
  | n + 1, .call s c k, w =>
    Reach.trans (.step _ s c k w _ _ (.start _) (h w s c)) (reach_playIn h n _ _)

/-- The same in surroundings that need not answer: the run ends where they do not. -/
def Prog.playWhile (next : (c : C) → W → Option (A c × W)) :
    Nat → Prog S C A X α → W → Prog S C A X α × W
  | n + 1, .call s c k, w =>
    match next c w with
    | some (a, w') => (k a).playWhile next n w'
    | none => (.call s c k, w)
  | _, p, w => (p, w)

theorem reach_playWhile {next : (c : C) → W → Option (A c × W)}
    (h : ∀ w s c a w', next c w = some (a, w') → E.step w s c a w') :
    ∀ (n : Nat) (p : Prog S C A X α) (w : W), Reach E (p, w) (p.playWhile next n w)
  | 0, p, w => by
    rw [show p.playWhile next 0 w = (p, w) by cases p <;> rfl]
    exact .start _
  | n + 1, .ret a s, w => .start _
  | n + 1, .fail x s, w => .start _
  | n + 1, .call s c k, w => by
    unfold Prog.playWhile
    split
    · rename_i a w' hnext
      exact Reach.trans (.step _ s c k w w' a (.start _) (h w s c a w' hnext))
        (reach_playWhile h n (k a) w')
    · exact .start _

/-- The run with given answers, in surroundings that record what happens. -/
def Prog.record (after : W → S → (c : C) → A c → W) :
    List (∀ c, A c) → Prog S C A X α → W → Prog S C A X α × W
  | answer :: answers, .call s c k, w =>
    (k (answer c)).record after answers (after w s c (answer c))
  | _, p, w => (p, w)

theorem reach_record {after : W → S → (c : C) → A c → W} :
    ∀ (answers : List (∀ c, A c)) (p : Prog S C A X α) (w : W),
    (∀ answer ∈ answers, ∀ w s c, E.step w s c (answer c) (after w s c (answer c))) →
    Reach E (p, w) (p.record after answers w)
  | [], p, w, _ => by
    rw [show p.record after [] w = (p, w) by cases p <;> rfl]
    exact .start _
  | answer :: answers, .ret a s, w, _ => .start _
  | answer :: answers, .fail x s, w, _ => .start _
  | answer :: answers, .call s c k, w, h =>
    Reach.trans (.step _ s c k w _ (answer c) (.start _) (h answer List.mem_cons_self w s c))
      (reach_record answers _ _ fun a ha => h a (List.mem_cons_of_mem answer ha))

/-! ## 6. Pure computations with an error -/

section Results

variable {ε δ : Type}

theorem bind_eq_ok {x : Except ε α} {f : α → Except ε β} {b : β} :
    x >>= f = .ok b ↔ ∃ a, x = .ok a ∧ f a = .ok b := by
  cases x with
  | error e => exact ⟨(nomatch ·), fun ⟨_, h, _⟩ => (nomatch h)⟩
  | ok a =>
    refine ⟨fun h => ⟨a, rfl, h⟩, fun ⟨b, h, h'⟩ => ?_⟩
    cases h
    exact h'

/-- A check over a list succeeds when it succeeds on every element. -/
theorem forM_eq_ok {f : α → Except ε Unit} :
    ∀ {l : List α}, l.forM f = .ok () ↔ ∀ a ∈ l, f a = .ok ()
  | [] => ⟨fun _ _ h => absurd h List.not_mem_nil, fun _ => rfl⟩
  | a :: l => by
    have hcons : (a :: l).forM f = (f a >>= fun _ => l.forM f) := rfl
    rw [hcons, bind_eq_ok]
    constructor
    · intro ⟨u, h, hl⟩ b hb
      rcases List.mem_cons.mp hb with rfl | hb
      · exact h
      · exact forM_eq_ok.mp hl b hb
    · intro h
      exact ⟨(), h a List.mem_cons_self, forM_eq_ok.mpr fun b hb => h b (List.mem_cons_of_mem a hb)⟩

end Results

end Transmitic.Lib
