/-
  File:      Transmitic/Lib/Runs.lean
  Subject:   THE LONGEST RUN OF AN ELEMENT IN A LIST. Nothing here knows a particular program.

  * `longestRun` -- its length, counted in one pass;
  * `le_longestRun_iff` -- it is at least `n` where `n` copies of the element stand side by side.
-/
import Mathlib

namespace Transmitic.Lib

variable {α : Type} [DecidableEq α]

/-- The longest run of `a` in the list, where `current` of it stand in front of the list. -/
def longestRunFrom (a : α) : Nat → List α → Nat
  | current, [] => current
  | current, b :: l =>
    if b = a then longestRunFrom a (current + 1) l else max current (longestRunFrom a 0 l)

/-- The length of the longest run of `a`. -/
def longestRun (a : α) (l : List α) : Nat := longestRunFrom a 0 l

section Count

variable {a b : α} {l : List α} {current n : Nat}

@[simp] theorem longestRunFrom_nil : longestRunFrom a current [] = current := rfl

@[simp] theorem longestRunFrom_self :
    longestRunFrom a current (a :: l) = longestRunFrom a (current + 1) l := if_pos rfl

theorem longestRunFrom_ne (h : b ≠ a) :
    longestRunFrom a current (b :: l) = max current (longestRunFrom a 0 l) := if_neg h

omit [DecidableEq α] in
/-- A run that begins another element is empty. -/
theorem replicate_prefix_ne (h : b ≠ a) : List.replicate n a <+: b :: l ↔ n = 0 := by
  cases n with
  | zero => simp
  | succ n => simp [List.replicate_succ, h.symm]

omit [DecidableEq α] in
/-- No run goes over another element. -/
theorem replicate_infix_ne (h : b ≠ a) : List.replicate n a <:+: List.replicate current a ++ b :: l ↔
    n ≤ current ∨ List.replicate n a <:+: l := by
  constructor
  · intro hr
    rcases List.infix_append_iff.mp hr with hfront | hback | ⟨front, back, hsplit, hfront, hback⟩
    · exact .inl (by simpa using hfront.length_le)
    · rcases List.infix_cons_iff.mp hback with hprefix | hinfix
      · exact .inl ((replicate_prefix_ne h).mp hprefix ▸ Nat.zero_le _)
      · exact .inr hinfix
    · obtain ⟨hlength, hf, hb⟩ := List.append_eq_replicate_iff.mp hsplit.symm
      rw [hb] at hback
      have hnone := (replicate_prefix_ne h).mp hback
      have hle := hfront.length_le
      rw [List.length_replicate] at hle
      exact .inl (by omega)
  · rintro (hle | hinfix)
    · have hrun : List.replicate n a <+: List.replicate current a := by
        rw [List.prefix_replicate_iff]
        simpa using hle
      exact List.infix_append_of_infix_left hrun.isInfix
    · exact List.infix_append_of_infix_right (List.infix_cons hinfix)

theorem le_longestRunFrom_iff : ∀ (l : List α) (current : Nat), n ≤ longestRunFrom a current l ↔
    List.replicate n a <:+: List.replicate current a ++ l
  | [], current => by
    rw [longestRunFrom_nil, List.append_nil]
    constructor
    · intro h
      have hrun : List.replicate n a <+: List.replicate current a := by
        rw [List.prefix_replicate_iff]
        simpa using h
      exact hrun.isInfix
    · intro h
      simpa using h.length_le
  | b :: l, current => by
    by_cases hb : b = a
    · rw [hb, longestRunFrom_self, le_longestRunFrom_iff l (current + 1), List.replicate_succ',
        List.append_assoc, List.singleton_append]
    · rw [longestRunFrom_ne hb, le_max_iff, replicate_infix_ne hb, le_longestRunFrom_iff l 0]
      rfl

/-- **What the longest run is.** -/
theorem le_longestRun_iff : n ≤ longestRun a l ↔ List.replicate n a <:+: l :=
  le_longestRunFrom_iff l 0

end Count

end Transmitic.Lib
