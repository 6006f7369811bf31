/-
  File:      Transmitic/Parties.lean
  Subject:   THREADS AS THE PARTIES OF A CONNECTION.

  A thread that keeps to a protocol of messages (`onWire`) is a party of a connection: it encrypts
  frames, reads frames, and does things of its own in between. What is proved about one thread and its
  own view of the protocol comes together here with what is proved about two parties and the frames on
  the way between them.

  * `party` -- a thread and the surroundings of its own commands;
  * `Wired`, `Aboard` -- the thread keeps to the protocol from a view on, or uses the connection no more;
  * `conforms_party` -- **a thread that does conforms to the protocol**;
  * `keeps_party` -- what its own commands keep, its steps keep;
  * `diligent_party` -- where its surroundings answer, and it ends with the protocol only, it goes on
    until the protocol is over;
  * `acc_link` -- two threads come to an end;
  * `playThread` -- a thread whose own commands are answered by a function.
-/
import Transmitic.Lib.Players
import Transmitic.Lib.Progress
import Transmitic.Messages

namespace Transmitic

open Lib

section Parties

variable {σ T L W α : Type} {LA : L → Type}

/-! ## 1. A thread as a party -/

/-- A thread and the surroundings `LE` of its own commands. Encrypting a frame and writing it may fail
    where the connection may break, whether the frame gets through or not; a read may fail there. -/
def party (α : Type) (mayBreak : Prop) (LE : Env (Thread T) L LA W) : Party Frame (Nat × Nat) where
  State := Prog (Thread T) (Wire ⊕ L) (Ans LA) Exc α × W
  step s l s' :=
    match l with
    | .tau => ∃ t c k a, s.1 = .call t (.inr c) k ∧ LE.step s.2 t c a s'.2 ∧ s'.1 = k a
    | .send f delivered => ∃ t k a, s.1 = .call t (.inl (.seal f.1 f.2)) k ∧ s'.1 = k a ∧
        s'.2 = s.2 ∧ (a = Sealed.done ∧ delivered = true ∨ a ≠ Sealed.done ∧ mayBreak)
    | .recv r f => ∃ t k, s.1 = .call t (.inl (.unseal r.1 r.2)) k ∧ f.1 = r.1 ∧
        s'.1 = k (Unsealed.plain f.2) ∧ s'.2 = s.2
    | .broken r => mayBreak ∧ ∃ t k a, s.1 = .call t (.inl (.unseal r.1 r.2)) k ∧
        (∀ bytes, a ≠ Unsealed.plain bytes) ∧ s'.1 = k a ∧ s'.2 = s.2

variable [Crates] {Γ : MessageProtocol σ} {me : Side} {mayBreak : Prop} {LE : Env (Thread T) L LA W}
  {E : Env (Thread T) (Wire ⊕ L) (Ans LA) (W × Option (View σ))}
  {Q : α → Thread T → W × Option (View σ) → Prop} {R : Exc → Thread T → W × Option (View σ) → Prop}

/-- The surroundings `E` are those of a thread that keeps to the protocol, but may admit less. -/
structure Wired (Γ : MessageProtocol σ) (me : Side) (mayBreak : Prop) (LE : Env (Thread T) L LA W)
    (E : Env (Thread T) (Wire ⊕ L) (Ans LA) (W × Option (View σ))) : Prop where
  ok : ∀ w t c, E.ok w t c → (onWire Γ me mayBreak LE).ok w t c
  step : ∀ w t c a w', (onWire Γ me mayBreak LE).step w t c a w' → E.step w t c a w'

theorem wired_onWire : Wired Γ me mayBreak LE (onWire Γ me mayBreak LE) :=
  ⟨fun _ _ _ h => h, fun _ _ _ _ _ h => h⟩

/-- The thread keeps to the protocol from the view `v` on, in the surroundings `E`; or it uses the
    connection no more. -/
def Aboard (E : Env (Thread T) (Wire ⊕ L) (Ans LA) (W × Option (View σ)))
    (Q : α → Thread T → W × Option (View σ) → Prop) (R : Exc → Thread T → W × Option (View σ) → Prop)
    (s : Prog (Thread T) (Wire ⊕ L) (Ans LA) Exc α × W) (v : Option (View σ)) : Prop :=
  s.1.Holds E Q R (s.2, v) ∨ s.1.Holds E Q R (s.2, none)

/-- Without a view, nothing is admitted on the connection. -/
theorem not_seals {t : Thread T} {w : W} {n : Nat} {plain : List UInt8} :
    ¬ (onWire Γ me mayBreak LE).ok (w, none) t (.inl (.seal n plain)) := by
  intro h
  obtain ⟨u, hu, -⟩ := h
  cases hu

theorem not_unseals {t : Thread T} {w : W} {n size : Nat} :
    ¬ (onWire Γ me mayBreak LE).ok (w, none) t (.inl (.unseal n size)) := by
  intro h
  obtain ⟨u, hu, -⟩ := h
  cases hu

/-- What the thread reads next is what the protocol has next. -/
theorem expects_of_wants (hE : Wired Γ me mayBreak LE E) {s : (party α mayBreak LE).State}
    {v : Option (View σ)} {r : Nat × Nat} (h : Aboard E Q R s v) (hw : (party α mayBreak LE).Wants s r) :
    Γ.Expects me r v := by
  obtain ⟨t, k, hp⟩ : ∃ t k, s.1 = .call t (.inl (.unseal r.1 r.2)) k := by
    rcases hw with ⟨f, s', t, k, hp, -⟩ | ⟨s', -, t, k, a, hp, -⟩
    · exact ⟨t, k, hp⟩
    · exact ⟨t, k, hp⟩
  unfold Aboard at h
  rw [hp] at h
  rcases h with h | h
  · exact hE.ok _ _ _ h.1
  · exact absurd (hE.ok _ _ _ h.1) not_unseals

/-- **A thread that keeps to the protocol conforms to it.** -/
theorem conforms_party (hE : Wired Γ me mayBreak LE E) :
    Conforms Γ.frames fits me (party α mayBreak LE) (Aboard E Q R) where
  tau s v s' h hs := by
    obtain ⟨t, c, k, a, hp, hstep, hk⟩ := hs
    unfold Aboard at h ⊢
    rw [hp] at h
    rw [hk]
    rcases h with h | h
    · exact .inl (.inl (h.2 a (s'.2, v) (hE.step _ _ _ _ _ ⟨hstep, rfl⟩)))
    · exact .inr (.inl (h.2 a (s'.2, none) (hE.step _ _ _ _ _ ⟨hstep, rfl⟩)))
  send s v f delivered s' h hs := by
    obtain ⟨t, k, a, hp, hk, hw, hcase⟩ := hs
    unfold Aboard at h ⊢
    rw [hp] at h
    rw [hk, hw]
    rcases h with h | h
    · obtain ⟨u, rfl, hturn, hnext⟩ := hE.ok _ _ _ h.1
      obtain ⟨u', hu'⟩ := Option.isSome_iff_exists.mp hnext
      refine ⟨u, u', rfl, hturn, hu', ?_⟩
      rcases hcase with ⟨rfl, rfl⟩ | ⟨ha, hbreak⟩
      · exact .inl (h.2 Sealed.done (s.2, some u') (hE.step _ _ _ _ _ ⟨rfl, u, u', rfl, hu', rfl⟩))
      · right
        refine h.2 a (s.2, none) (hE.step _ _ _ _ _ ⟨rfl, ?_⟩)
        cases a with
        | done => exact absurd rfl ha
        | io e => exact ⟨hbreak, rfl⟩
        | rejected e => exact ⟨hbreak, rfl⟩
    · exact absurd (hE.ok _ _ _ h.1) not_seals
  wants s v r h hw := by
    obtain ⟨u, rfl, hturn, hmore, hfits⟩ := expects_of_wants hE h hw
    exact ⟨u, rfl, hturn, hmore, hfits⟩
  recv s u r f s' u' h hs hnext := by
    obtain ⟨t, k, hp, hn, hk, hw⟩ := hs
    unfold Aboard at h ⊢
    rw [hp] at h
    rw [hk, hw]
    rcases h with h | h
    · have hmoves : Γ.Moves (r.1, f.2) (some u) (some u') := by
        rw [← hn]
        exact ⟨u, u', rfl, hnext, rfl⟩
      exact .inl (h.2 (Unsealed.plain f.2) (s.2, some u') (hE.step _ _ _ _ _ ⟨rfl, hmoves⟩))
    · exact absurd (hE.ok _ _ _ h.1) not_unseals
  broken s v r s' h hs := by
    obtain ⟨hbreak, t, k, a, hp, ha, hk, hw⟩ := hs
    unfold Aboard at h ⊢
    rw [hp] at h
    rw [hk, hw]
    rcases h with h | h
    · left
      refine h.2 a (s.2, none) (hE.step _ _ _ _ _ ⟨rfl, ?_⟩)
      cases a with
      | plain bytes => exact absurd rfl (ha bytes)
      | io e => exact ⟨hbreak, rfl⟩
      | rejected e => exact ⟨hbreak, rfl⟩
    · exact absurd (hE.ok _ _ _ h.1) not_unseals

/-- **What the commands of a thread keep where they are admitted, its steps keep.** -/
theorem keeps_party (hE : Wired Γ me mayBreak LE E) {J : W → Prop}
    (hJ : ∀ w t c a w', J w → LE.ok w t c → LE.step w t c a w' → J w') {s s' : (party α mayBreak LE).State}
    {v : Option (View σ)} {l : Label Frame (Nat × Nat)} (h : Aboard E Q R s v)
    (hs : (party α mayBreak LE).step s l s') (hw : J s.2) : J s'.2 := by
  have hsame : s'.2 = s.2 → J s'.2 := fun he => he ▸ hw
  cases l with
  | tau =>
    obtain ⟨t, c, k, a, hp, hstep, -⟩ := hs
    unfold Aboard at h
    rw [hp] at h
    rcases h with h | h
    · exact hJ _ _ _ _ _ hw (hE.ok _ _ _ h.1) hstep
    · exact hJ _ _ _ _ _ hw (hE.ok _ _ _ h.1) hstep
  | send f delivered =>
    obtain ⟨t, k, a, -, -, hsent, -⟩ := hs
    exact hsame hsent
  | recv r f =>
    obtain ⟨t, k, -, -, -, hread⟩ := hs
    exact hsame hread
  | broken r =>
    obtain ⟨-, t, k, a, -, -, -, hbroken⟩ := hs
    exact hsame hbroken

/-- The next command of a thread is admitted. -/
theorem admitted_party (hE : Wired Γ me mayBreak LE E) {s : (party α mayBreak LE).State}
    {v : Option (View σ)} {t : Thread T} {c : L} {k : LA c → Prog (Thread T) (Wire ⊕ L) (Ans LA) Exc α}
    (h : Aboard E Q R s v) (hp : s.1 = .call t (.inr c) k) : LE.ok s.2 t c := by
  unfold Aboard at h
  rw [hp] at h
  rcases h with h | h
  · exact hE.ok _ _ _ h.1
  · exact hE.ok _ _ _ h.1

/-! ## 2. Going on -/

/-- A thread that does not fail, and ends with the protocol only. -/
theorem diligent_party (hE : Wired Γ me mayBreak LE E)
    (htotal : ∀ w t c, LE.ok w t c → ∃ a w', LE.step w t c a w')
    (hQ : ∀ a t w v, Q a t (w, v) → ∃ u, v = some u ∧ Γ.frames.Over u)
    (hR : ∀ e t w, ¬ R e t w) :
    Diligent Γ.frames fits (party α mayBreak LE) (Aboard E Q R) := by
  intro s v h
  obtain ⟨p, w⟩ := s
  cases p with
  | ret a t =>
    right
    rcases h with h | h
    · exact hQ a t w v h
    · obtain ⟨u, hu, -⟩ := hQ a t w none h
      cases hu
  | fail e t =>
    rcases h with h | h
    · exact absurd h (hR e t _)
    · exact absurd h (hR e t _)
  | call t c k =>
    left
    match c with
    | .inr c =>
      have hok : LE.ok w t c := by
        rcases h with h | h
        · exact hE.ok _ _ _ h.1
        · exact hE.ok _ _ _ h.1
      obtain ⟨a, w', hstep⟩ := htotal w t c hok
      exact .inl ⟨(k a, w'), t, c, k, a, rfl, hstep, rfl⟩
    | .inl (.seal n plain) =>
      exact .inr (.inl ⟨(n, plain), true, (k Sealed.done, w), t, k, Sealed.done, rfl, rfl, rfl,
        .inl ⟨rfl, rfl⟩⟩)
    | .inl (.unseal n size) =>
      have hrecv : ∀ f : Frame, f.1 = n → ∃ s', (party α mayBreak LE).step
          (.call t (.inl (.unseal n size)) k, w) (.recv (n, size) f) s' :=
        fun f hf => ⟨(k (Unsealed.plain f.2), w), t, k, rfl, hf, rfl, rfl⟩
      refine .inr (.inr ⟨(n, size), .inl ?_, fun f hf => hrecv f hf.1⟩)
      obtain ⟨s', hs'⟩ := hrecv (n, []) rfl
      exact ⟨(n, []), s', hs'⟩

end Parties

/-! ## 3. Coming to an end -/

section Ends

variable {T T' L L' W W' α α' : Type} {LA : L → Type} {LA' : L' → Type} {mayBreak : Prop}
  {LE : Env (Thread T) L LA W} {LE' : Env (Thread T') L' LA' W'}

/-- A step of a thread leads to the program after an answer. -/
theorem party_step {s s' : (party α mayBreak LE).State} {l : Label Frame (Nat × Nat)}
    (h : (party α mayBreak LE).step s l s') : ∃ t c k a, s.1 = .call t c k ∧ s'.1 = k a := by
  cases l with
  | tau =>
    obtain ⟨t, c, k, a, hp, -, hk⟩ := h
    exact ⟨t, _, k, a, hp, hk⟩
  | send f delivered =>
    obtain ⟨t, k, a, hp, hk, -⟩ := h
    exact ⟨t, _, k, a, hp, hk⟩
  | recv r f =>
    obtain ⟨t, k, hp, -, hk, -⟩ := h
    exact ⟨t, _, k, _, hp, hk⟩
  | broken r =>
    obtain ⟨-, t, k, a, hp, -, hk, -⟩ := h
    exact ⟨t, _, k, a, hp, hk⟩

/-- A thread comes to an end: over what it has still to do. -/
theorem acc_party (s : (party α mayBreak LE).State) :
    Acc (fun s' s => ∃ l, (party α mayBreak LE).step s l s') s := by
  obtain ⟨p, w⟩ := s
  induction p generalizing w with
  | ret a t =>
    refine ⟨_, fun s' hs => ?_⟩
    obtain ⟨l, hs⟩ := hs
    obtain ⟨t, c, k, a, hcall, -⟩ := party_step hs
    cases hcall
  | fail e t =>
    refine ⟨_, fun s' hs => ?_⟩
    obtain ⟨l, hs⟩ := hs
    obtain ⟨t, c, k, a, hcall, -⟩ := party_step hs
    cases hcall
  | call t c k ih =>
    refine ⟨_, fun s' hs => ?_⟩
    obtain ⟨p', w'⟩ := s'
    obtain ⟨l, hs⟩ := hs
    obtain ⟨t', c', k', a, hcall, hk⟩ := party_step hs
    cases hcall
    obtain rfl : p' = k a := hk
    exact ih a w'

/-- **Two threads on a connection come to an end.** -/
theorem acc_link (s : Link (party α mayBreak LE) (party α' mayBreak LE')) :
    Acc (fun s' s => Link.Step fits s s') s :=
  acc_step (acc_party s.left) (acc_party s.right)

end Ends

/-! ## 4. Playing a thread -/

section Played

variable {T L W α : Type} {LA : L → Type} {LE : Env (Thread T) L LA W}

instance (r : Nat × Nat) (f : Frame) : Decidable (fits r f) := inferInstanceAs (Decidable (_ ∧ _))

/-- A thread whose own commands are answered by `answer`. It reads what is at the front if it fits; once
    the connection is lost, the next frame fails. -/
def playThread (answer : W → (c : L) → Option (LA c × W))
    (hanswer : ∀ w t c a w', answer w c = some (a, w') → LE.step w t c a w') :
    Player fits (party α True LE) where
  next holds s queue :=
    match s.1 with
    | .call _ (.inr c) k => (answer s.2 c).map fun r => (.tau, k r.1, r.2)
    | .call _ (.inl (.seal n plain)) k =>
      if holds then some (.send (n, plain) true, k Sealed.done, s.2)
      else some (.send (n, plain) false, k (Sealed.io []), s.2)
    | .call _ (.inl (.unseal n size)) k =>
      if holds then
        queue.head?.bind fun f =>
          if fits (n, size) f then some (.recv (n, size) f, k (Unsealed.plain f.2), s.2) else none
      else some (.broken (n, size), k (Unsealed.io []), s.2)
    | _ => none
  step holds s queue l s' h := by
    obtain ⟨p, w⟩ := s
    match p with
    | .ret a t => cases h
    | .fail e t => cases h
    | .call t (.inr c) k =>
      obtain ⟨⟨a, w'⟩, ha, heq⟩ := Option.map_eq_some_iff.mp h
      cases heq
      exact ⟨t, c, k, a, rfl, hanswer w t c a w' ha, rfl⟩
    | .call t (.inl (.seal n plain)) k =>
      cases holds with
      | true =>
        cases h
        exact ⟨t, k, Sealed.done, rfl, rfl, rfl, .inl ⟨rfl, rfl⟩⟩
      | false =>
        cases h
        exact ⟨t, k, Sealed.io [], rfl, rfl, rfl, .inr ⟨Sealed.noConfusion, trivial⟩⟩
    | .call t (.inl (.unseal n size)) k =>
      cases holds with
      | true =>
        obtain ⟨f, -, hf⟩ := Option.bind_eq_some_iff.mp h
        split at hf
        · rename_i hfits
          cases hf
          exact ⟨t, k, rfl, hfits.1, rfl, rfl⟩
        · cases hf
      | false =>
        cases h
        exact ⟨trivial, t, k, Unsealed.io [], rfl, fun bytes => Unsealed.noConfusion, rfl, rfl⟩
  reads holds s queue r f s' h := by
    obtain ⟨p, w⟩ := s
    match p with
    | .ret a t => cases h
    | .fail e t => cases h
    | .call t (.inr c) k =>
      obtain ⟨⟨a, w'⟩, ha, heq⟩ := Option.map_eq_some_iff.mp h
      cases heq
    | .call t (.inl (.seal n plain)) k =>
      cases holds with
      | true => cases h
      | false => cases h
    | .call t (.inl (.unseal n size)) k =>
      cases holds with
      | true =>
        obtain ⟨g, hg, hf⟩ := Option.bind_eq_some_iff.mp h
        split at hf
        · rename_i hfits
          cases hf
          exact ⟨queue.tail, (List.cons_head?_tail hg).symm, hfits⟩
        · cases hf
      | false => cases h

/-- The read a thread is about to make. -/
def readsNext (s : (party α True LE).State) : Option (Nat × Nat) :=
  match s.1 with
  | .call _ (.inl (.unseal n size)) _ => some (n, size)
  | _ => none

end Played

end Transmitic
