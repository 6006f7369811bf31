/-
  File:      Transmitic/Lib/Bytes.lean
  Subject:   BYTE STRINGS: big-endian numbers and the slices of a fixed buffer.

  * `beBytes`, `ofBe` -- a number as `k` bytes, most significant first, and back
    (`ofBe_beBytes`: back to the number modulo `256 ^ k`);
  * `slice`, `copyFromSlice` -- reading and writing a range of a buffer; `none` where a range
    reaches outside of it (`copyFromSlice_isSome`, `slice_append`: the cases where it does not).
-/
import Mathlib

namespace Transmitic.Lib

/-! ## 1. Big-endian numbers -/

/-- The `k` low bytes of `n`, most significant first. -/
def beBytes : Nat → Nat → List UInt8
  | 0, _ => []
  | k + 1, n => beBytes k (n / 256) ++ [UInt8.ofNat (n % 256)]

/-- The number a byte string spells, most significant byte first. -/
def ofBe (bs : List UInt8) : Nat := bs.foldl (fun n b => n * 256 + b.toNat) 0

@[simp] theorem length_beBytes (k n : Nat) : (beBytes k n).length = k := by
  induction k generalizing n with
  | zero => rfl
  | succ k ih => simp [beBytes, ih]

theorem ofBe_append_singleton (bs : List UInt8) (b : UInt8) :
    ofBe (bs ++ [b]) = ofBe bs * 256 + b.toNat := by
  simp [ofBe]

/-- **Reading back the bytes of a number** gives it modulo their range. -/
theorem ofBe_beBytes (k n : Nat) : ofBe (beBytes k n) = n % 256 ^ k := by
  induction k generalizing n with
  | zero => simp [beBytes, ofBe, Nat.mod_one]
  | succ k ih =>
    have hb : (UInt8.ofNat (n % 256)).toNat = n % 256 := by simp
    rw [beBytes, ofBe_append_singleton, ih, hb, Nat.pow_succ, Nat.mul_comm (256 ^ k) 256,
      Nat.mod_mul]
    omega

theorem ofBe_beBytes_of_lt {k n : Nat} (h : n < 256 ^ k) : ofBe (beBytes k n) = n := by
  rw [ofBe_beBytes, Nat.mod_eq_of_lt h]

/-! ## 2. Slices of a buffer -/

/-- A buffer of `n` bytes or more: the bytes behind them are not counted. -/
def longEnough {α : Type} : Nat → List α → Bool
  | 0, _ => true
  | _ + 1, [] => false
  | n + 1, _ :: buffer => longEnough n buffer

theorem longEnough_iff {α : Type} : ∀ {n : Nat} {buffer : List α}, longEnough n buffer = true ↔ n ≤ buffer.length
  | 0, buffer => by simp [longEnough]
  | n + 1, [] => by simp [longEnough]
  | n + 1, b :: buffer => by
    rw [longEnough, longEnough_iff, List.length_cons]
    omega

/-- The ranges of a large buffer are checked from its front, so that short ones can be computed. -/
local instance (priority := high) decidableLeLength {α : Type} (n : Nat) (buffer : List α) :
    Decidable (n ≤ buffer.length) :=
  decidable_of_iff _ longEnough_iff

/-- `buffer[i..j]`; `none` where the range is outside the buffer. -/
def slice (buffer : List UInt8) (i j : Nat) : Option (List UInt8) :=
  if i ≤ j ∧ j ≤ buffer.length then some ((buffer.drop i).take (j - i)) else none

/-- `buffer[i..i + src.len()].copy_from_slice(src)`; `none` where the range is outside. -/
def copyFromSlice (buffer : List UInt8) (i : Nat) (src : List UInt8) : Option (List UInt8) :=
  if i + src.length ≤ buffer.length then
    some (buffer.take i ++ (src ++ buffer.drop (i + src.length)))
  else none

theorem copyFromSlice_length {buffer src buffer' : List UInt8} {i : Nat}
    (h : copyFromSlice buffer i src = some buffer') : buffer'.length = buffer.length := by
  unfold copyFromSlice at h
  split at h
  · cases h
    simp only [List.length_append, List.length_take, List.length_drop]
    omega
  · cases h

/-- A write inside the buffer succeeds. -/
theorem copyFromSlice_isSome {buffer src : List UInt8} {i : Nat}
    (h : i + src.length ≤ buffer.length) :
    copyFromSlice buffer i src = some (buffer.take i ++ (src ++ buffer.drop (i + src.length))) :=
  if_pos h

theorem length_slice {buffer bytes : List UInt8} {i j : Nat} (h : slice buffer i j = some bytes) :
    bytes.length = j - i := by
  unfold slice at h
  split at h
  · cases h
    simp only [List.length_take, List.length_drop]
    omega
  · cases h

/-- Reading `buffer[i..j]` out of a buffer that splits there. -/
theorem slice_append {a b c : List UInt8} {i j : Nat} (hi : a.length = i)
    (hj : a.length + b.length = j) : slice (a ++ (b ++ c)) i j = some b := by
  have h1 : i ≤ j ∧ j ≤ (a ++ (b ++ c)).length := by simp only [List.length_append]; omega
  have h2 : (a ++ (b ++ c)).drop i = b ++ c := by rw [← hi, List.drop_left]
  have h3 : j - i = b.length := by omega
  rw [slice, if_pos h1, h2, h3, List.take_left]

/-- A range read from the front of the buffer. -/
theorem slice_front {a c : List UInt8} {j : Nat} (hj : a.length = j) :
    slice (a ++ c) 0 j = some a :=
  slice_append (a := []) rfl (by simpa using hj)

end Transmitic.Lib
