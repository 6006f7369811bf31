/-
  File:      Transmitic/Lib/Text.lean
  Subject:   STRINGS. A string is the list of its Unicode scalar values; the operations of the
             standard string type that line formats and path checks are written with.

  * `trim` and its two halves, with their fixed points (`trim_eq_self_iff`, `trim_trim`);
  * `lines` -- the lines of a text; `lines_line`: a line without a line break comes back as it
    was put in, up to a carriage return at its end; `lines_noBreak`: no line holds a line break;
  * `natText`, `parseNat` -- decimal numbers, printed and read (`parseNat_natText`);
  * `utf8`, `fromUtf8` -- the bytes of a string and back (`fromUtf8_utf8`);
  * `find_some`, `find_unique` -- what a search in a list finds.
-/
import Mathlib

namespace Transmitic.Lib

/-- A string: its Unicode scalar values in order. -/
abbrev Str := List Char

/-- Strings are compared by one test everywhere. -/
instance instLawfulBEqStr : LawfulBEq Str := inferInstance

/-! ## 1. White space -/

/-- The characters with the Unicode property `White_Space`. -/
def isWhitespace (c : Char) : Bool :=
  let n := c.toNat
  (0x09 ≤ n && n ≤ 0x0D) || n == 0x20 || n == 0x85 || n == 0xA0 || n == 0x1680 ||
    (0x2000 ≤ n && n ≤ 0x200A) || n == 0x2028 || n == 0x2029 || n == 0x202F || n == 0x205F ||
    n == 0x3000

def trimStart (s : Str) : Str := s.dropWhile isWhitespace

def trimEnd (s : Str) : Str := s.rdropWhile isWhitespace

/-- The string without the white space at its two ends. -/
def trim (s : Str) : Str := trimEnd (trimStart s)

/-- No white space at the front. -/
def FrontClean (s : Str) : Prop := ∀ c ∈ s.head?, isWhitespace c = false

/-- No white space at the end. -/
def EndClean (s : Str) : Prop := ∀ c ∈ s.getLast?, isWhitespace c = false

instance (s : Str) : Decidable (FrontClean s) := by unfold FrontClean; infer_instance

instance (s : Str) : Decidable (EndClean s) := by unfold EndClean; infer_instance

theorem trimStart_eq_self_iff {s : Str} : trimStart s = s ↔ FrontClean s := by
  unfold trimStart FrontClean
  cases s with
  | nil => simp
  | cons c cs =>
    have hlen : (cs.dropWhile isWhitespace).length ≤ cs.length :=
      (List.dropWhile_suffix _).length_le
    rw [List.dropWhile_cons]
    cases h : isWhitespace c with
    | false => simp [h]
    | true =>
      have hne : cs.dropWhile isWhitespace ≠ c :: cs := by
        intro e
        rw [e, List.length_cons] at hlen
        omega
      simp [h, hne]

theorem trimEnd_eq_self_iff {s : Str} : trimEnd s = s ↔ EndClean s := by
  unfold trimEnd EndClean
  rw [List.rdropWhile_eq_self_iff]
  constructor
  · intro h c hc
    obtain ⟨hs, rfl⟩ := List.mem_getLast?_eq_getLast hc
    simpa using h hs
  · intro h hs
    simpa using h _ (List.getLast?_eq_getLast_of_ne_nil hs ▸ rfl)

theorem endClean_trimEnd (s : Str) : EndClean (trimEnd s) :=
  trimEnd_eq_self_iff.mp (List.rdropWhile_idempotent _ _)

theorem frontClean_trimStart (s : Str) : FrontClean (trimStart s) :=
  trimStart_eq_self_iff.mp (List.dropWhile_idempotent _ _)

/-- The front of a string does not change when its end is cut off. -/
theorem FrontClean.cut {s t : Str} (h : FrontClean t) (hp : s <+: t) : FrontClean s := by
  intro c hc
  obtain ⟨r, rfl⟩ := hp
  cases s with
  | nil => cases hc
  | cons d ds => exact h c hc

/-- The end of a string does not change when its front is cut off. -/
theorem EndClean.cut {s t : Str} (h : EndClean t) (hs : s <:+ t) : EndClean s := by
  intro c hc
  obtain ⟨r, rfl⟩ := hs
  refine h c ?_
  rw [List.getLast?_append, hc]
  rfl

theorem endClean_trim (s : Str) : EndClean (trim s) := endClean_trimEnd _

theorem frontClean_trim (s : Str) : FrontClean (trim s) :=
  (frontClean_trimStart s).cut ( List.rdropWhile_prefix _ _)

theorem trim_eq_self_iff {s : Str} : trim s = s ↔ FrontClean s ∧ EndClean s := by
  constructor
  · intro h
    exact h ▸ ⟨frontClean_trim s, endClean_trim s⟩
  · rintro ⟨hf, he⟩
    rw [trim, trimStart_eq_self_iff.mpr hf, trimEnd_eq_self_iff.mpr he]

@[simp] theorem trim_trim (s : Str) : trim (trim s) = trim s :=
  trim_eq_self_iff.mpr ⟨frontClean_trim s, endClean_trim s⟩

theorem trim_sublist (s : Str) : (trim s).Sublist s :=
  ( List.rdropWhile_prefix _ _).sublist.trans (List.dropWhile_suffix _).sublist

/-- Cutting white space at the end stops at a character that is none. -/
theorem trimEnd_append_cons {c : Char} (h : isWhitespace c = false) (s t : Str) :
    trimEnd (s ++ c :: t) = s ++ c :: trimEnd t := by
  induction t using List.reverseRecOn with
  | nil =>
    have hc : trimEnd (s ++ [c]) = s ++ [c] := List.rdropWhile_concat_neg _ _ _ (by simp [h])
    exact hc
  | append_singleton t d ih =>
    have e : s ++ c :: (t ++ [d]) = (s ++ c :: t) ++ [d] := by simp
    rw [e]
    unfold trimEnd at ih ⊢
    by_cases hd : isWhitespace d = true
    · rw [List.rdropWhile_concat_pos _ _ _ hd, List.rdropWhile_concat_pos _ _ _ hd, ih]
    · rw [List.rdropWhile_concat_neg _ _ _ hd, List.rdropWhile_concat_neg _ _ _ hd]
      simp

/-! ## 2. Lines -/

/-- A line without the carriage return at its end, if it has one. -/
def stripCr (line : Str) : Str := if line.getLast? = some '\r' then line.dropLast else line

/-- The lines of a text: what stands before each line break, without a carriage return at the
    end, and what stands after the last line break unless it is empty. -/
def lines (text : Str) : List Str :=
  let pieces := text.splitOn '\n'
  pieces.dropLast.map stripCr ++ (pieces.getLast?.filter (· ≠ [])).toList

@[simp] theorem lines_nil : lines [] = [] := by simp [lines]

theorem stripCr_sublist (line : Str) : (stripCr line).Sublist line := by
  unfold stripCr
  split
  · exact List.dropLast_sublist _
  · exact List.Sublist.refl _

/-- **A line comes back**: what stands before the first line break is the first line. -/
theorem lines_line {line : Str} (h : '\n' ∉ line) (rest : Str) :
    lines (line ++ '\n' :: rest) = stripCr line :: lines rest := by
  have hne := List.splitOn_ne_nil '\n' rest
  simp only [lines, List.splitOn_append_cons_self_of_not_mem h]
  rw [List.dropLast_cons_of_ne_nil hne, List.getLast?_cons]
  cases hl : (rest.splitOn '\n').getLast? with
  | none => exact absurd (List.getLast?_eq_none_iff.mp hl) hne
  | some p => simp

/-- The pieces a list is cut into at `a` do not hold `a`. -/
theorem not_mem_of_mem_splitOn {α : Type} [DecidableEq α] (a : α) :
    ∀ (l piece : List α), piece ∈ l.splitOn a → a ∉ piece
  | [], piece, h => by simp at h; simp [h]
  | x :: xs, piece, h => by
    rw [List.splitOn_cons_eq_if_modifyHead] at h
    split at h
    · rcases List.mem_cons.mp h with rfl | h
      · simp
      · exact not_mem_of_mem_splitOn a xs piece h
    · rename_i hx
      cases hs : xs.splitOn a with
      | nil => exact absurd hs (List.splitOn_ne_nil a xs)
      | cons p ps =>
        rw [hs, List.modifyHead_cons] at h
        rcases List.mem_cons.mp h with rfl | h
        · have hp := not_mem_of_mem_splitOn a xs p (hs ▸ List.mem_cons_self)
          simp only [beq_iff_eq] at hx
          simp [Ne.symm hx, hp]
        · exact not_mem_of_mem_splitOn a xs piece (hs ▸ List.mem_cons_of_mem _ h)

/-- The characters of a piece are characters of the whole. -/
theorem mem_of_mem_splitOn {α : Type} [DecidableEq α] {a b : α} {l s : List α}
    (hs : s ∈ l.splitOn a) (hb : b ∈ s) : b ∈ l := by
  have hall : ∀ segments : List (List α), s ∈ segments → b ∈ [a].intercalate segments := by
    intro segments
    induction segments with
    | nil => exact fun h => absurd h List.not_mem_nil
    | cons t rest ih =>
      intro h
      cases rest with
      | nil =>
        rw [List.intercalate_singleton, ← List.mem_singleton.mp h]
        exact hb
      | cons u rest =>
        rw [List.intercalate_cons_cons]
        rcases List.mem_cons.mp h with rfl | h
        · simp [hb]
        · simp [ih h]
  have hl : [a].intercalate (l.splitOn a) = l := List.intercalate_splitOn a
  rw [← hl]
  exact hall _ hs


/-- No line holds a line break. -/
theorem lines_noBreak {text line : Str} (h : line ∈ lines text) : '\n' ∉ line := by
  unfold lines at h
  rcases List.mem_append.mp h with h | h
  · obtain ⟨piece, hp, rfl⟩ := List.mem_map.mp h
    exact fun hm => not_mem_of_mem_splitOn '\n' text piece (List.mem_of_mem_dropLast hp)
      ((stripCr_sublist piece).subset hm)
  · rw [Option.mem_toList, Option.filter_eq_some_iff] at h
    exact not_mem_of_mem_splitOn '\n' text line (List.mem_of_getLast? h.1)

/-! ## 3. Decimal numbers -/

/-- A number in decimal digits. -/
def natText (n : Nat) : Str := Nat.toDigits 10 n

/-- The digits behind an optional plus sign. -/
def stripPlus : Str → Str
  | [] => []
  | c :: cs => if c = '+' then cs else c :: cs

/-- A number read from decimal digits. -/
def parseDigits (s : Str) : Option Nat :=
  if s ≠ [] ∧ s.all Char.isDigit then some (Nat.ofDigitChars 10 s 0) else none

/-- A number read from decimal digits, with an optional plus sign before them. -/
def parseNat (s : Str) : Option Nat := parseDigits (stripPlus s)

theorem isDigit_of_mem_natText {n : Nat} {c : Char} (h : c ∈ natText n) : c.isDigit = true :=
  Nat.isDigit_of_mem_toDigits (by decide) (by decide) h

theorem natText_ne_nil (n : Nat) : natText n ≠ [] := Nat.toDigits_ne_nil

theorem not_mem_natText {n : Nat} {c : Char} (hc : c.isDigit = false) : c ∉ natText n := by
  intro h
  rw [isDigit_of_mem_natText h] at hc
  cases hc

/-- **A printed number reads back as itself.** -/
theorem parseNat_natText (n : Nat) : parseNat (natText n) = some n := by
  have hall : (natText n).all Char.isDigit = true :=
    List.all_eq_true.mpr fun c hc => isDigit_of_mem_natText hc
  have hplus : stripPlus (natText n) = natText n := by
    cases h : natText n with
    | nil => rfl
    | cons c cs =>
      have hc : c ≠ '+' := by
        rintro rfl
        exact not_mem_natText (by decide) (h ▸ List.mem_cons_self : '+' ∈ natText n)
      exact if_neg hc
  rw [parseNat, parseDigits, hplus, if_pos ⟨natText_ne_nil n, hall⟩, natText,
    Nat.ofDigitChars_toDigits (by decide) (by decide)]

theorem isWhitespace_of_isDigit {c : Char} (h : c.isDigit = true) : isWhitespace c = false := by
  have h48 : 48 ≤ c.toNat ∧ c.toNat ≤ 57 := by
    simp only [Char.isDigit, Bool.and_eq_true, decide_eq_true_eq] at h
    exact ⟨h.1, h.2⟩
  simp only [isWhitespace, Bool.or_eq_false_iff, Bool.and_eq_false_iff, decide_eq_false_iff_not,
    beq_eq_false_iff_ne]
  omega

/-! ## 4. Bytes of a string -/

/-- The UTF-8 bytes of a string. -/
def utf8 (s : Str) : List UInt8 := s.flatMap String.utf8EncodeChar

/-- The string a byte sequence spells in UTF-8; `none` where it is not valid UTF-8. -/
def fromUtf8 (bytes : List UInt8) : Option Str :=
  bytes.toByteArray.utf8Decode?.map Array.toList

theorem fromUtf8_utf8 (s : Str) : fromUtf8 (utf8 s) = some s := by
  have h : (utf8 s).toByteArray = s.utf8Encode := rfl
  rw [fromUtf8, h, List.utf8Decode?_utf8Encode]
  simp

/-! ## 5. Searching a list -/

theorem find_some {α : Type} {P : α → Prop} [DecidablePred P] {a : α} {l : List α}
    (h : l.find? (fun b => decide (P b)) = some a) : a ∈ l ∧ P a := by
  have hp := List.find?_some h
  exact ⟨List.mem_of_find?_eq_some h, of_decide_eq_true hp⟩

/-- The only element with `P` is the one the search finds. -/
theorem find_unique {α : Type} {P : α → Prop} [DecidablePred P] {a : α} {l : List α} (ha : a ∈ l)
    (hp : P a) (hu : ∀ b ∈ l, P b → b = a) : l.find? (fun b => decide (P b)) = some a := by
  cases h : l.find? (fun b => decide (P b)) with
  | none => exact absurd (decide_eq_true hp) (List.find?_eq_none.mp h a ha)
  | some b => rw [hu b (find_some h).1 (find_some h).2]

end Transmitic.Lib
