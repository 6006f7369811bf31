/-
  File:      Transmitic/SanitizedPaths.lean
  Subject:   WHICH PATHS CAN BE SANITIZED (outgoing_downloader.rs, `sanitize_disk_path`).

  A pass of the loop repairs one kind of defect: it replaces the NULs, or halves the runs of backslashes.
  There are ten passes, and the last one must find nothing to repair.

  * `CleanPath` -- neither a NUL nor two adjacent backslashes;
  * `longestRun_replaceBackslashes` -- **a pass halves the longest run of backslashes**, rounded up;
  * `sanitizeLoop_ok_iff` -- the loop ends well where that run is not longer than a power of two;
  * `sanitizeDiskPath_fixedPoint` -- **what comes out is clean and comes out again**, and which paths are
    refused, on either family of targets.
-/
import Transmitic.OutgoingDownloader
import Transmitic.Lib.Runs

namespace Transmitic

open Lib

/-! ## 1. Both families of targets -/

/-- `sanitize_disk_path`, on a Unix target or on another one. -/
def sanitizeDiskPathOn (unix : Bool) (path : Str) : Except Exc Str :=
  sanitizeLoop path 10 (if unix then replaceChar path '\\' '/' else path)

/-- Elsewhere the target is a Unix one. -/
example (path : Str) : sanitizeDiskPathOn true path = sanitizeDiskPath path := rfl

/-- Neither a NUL nor two adjacent backslashes. -/
structure CleanPath (s : Str) : Prop where
  noNul : '\x00' ∉ s
  noPair : ¬ ['\\', '\\'] <:+: s

/-! ## 2. What a pass does -/

section Passes

variable {s : Str} {current : Nat}

theorem replaceChar_eq_self {c d : Char} (h : c ≠ d) : replaceChar s c d = s ↔ c ∉ s := by
  unfold replaceChar
  induction s with
  | nil => simp
  | cons e s ih =>
    rw [List.map_cons, List.cons_eq_cons, ih, List.mem_cons, not_or]
    refine and_congr_left fun _ => ?_
    split
    · simp [*, h.symm]
    · simp [*, Ne.symm]

theorem not_mem_replaceChar {c d : Char} (h : c ≠ d) : c ∉ replaceChar s c d := by
  unfold replaceChar
  intro hc
  obtain ⟨e, -, he⟩ := List.mem_map.mp hc
  split at he
  · exact h he.symm
  · exact absurd he ‹_›

/-- The NULs are in no run of backslashes. -/
theorem longestRunFrom_replaceNul : ∀ (s : Str) (current : Nat),
    longestRunFrom '\\' current (replaceChar s '\x00' '0') = longestRunFrom '\\' current s
  | [], _ => rfl
  | c :: s, current => by
    show longestRunFrom '\\' current ((if c = '\x00' then '0' else c) :: replaceChar s '\x00' '0') = _
    by_cases hc : c = '\\'
    · rw [hc, if_neg (by decide), longestRunFrom_self, longestRunFrom_self, longestRunFrom_replaceNul s]
    · have hother : (if c = '\x00' then '0' else c) ≠ '\\' := by
        split
        · decide
        · exact hc
      rw [longestRunFrom_ne hother, longestRunFrom_ne hc, longestRunFrom_replaceNul s]

/-- Of an even number of backslashes in front half are left, and of what follows as well. -/
theorem longestRunFrom_replaceBackslashes (s : Str) : ∀ current,
    longestRunFrom '\\' current (replaceBackslashes s) = (longestRunFrom '\\' (2 * current) s + 1) / 2 := by
  induction s using replaceBackslashes.induct with
  | case1 s ih =>
    intro current
    rw [replaceBackslashes, longestRunFrom_self, ih, longestRunFrom_self, longestRunFrom_self]
    rfl
  | case2 c s hpair ih =>
    intro current
    rw [replaceBackslashes.eq_2 c s hpair]
    by_cases hc : c = '\\'
    · subst hc
      rw [longestRunFrom_self, longestRunFrom_self]
      -- the run ends behind an odd backslash
      cases s with
      | nil =>
        rw [replaceBackslashes, longestRunFrom_nil, longestRunFrom_nil]
        omega
      | cons d s =>
        have hd : d ≠ '\\' := fun hd => hpair s rfl (hd ▸ rfl)
        rw [ih, longestRunFrom_ne hd, longestRunFrom_ne hd]
        omega
    · rw [longestRunFrom_ne hc, longestRunFrom_ne hc, ih, Nat.mul_zero]
      omega
  | case3 =>
    intro current
    rw [replaceBackslashes, longestRunFrom_nil, longestRunFrom_nil]
    omega

/-- **A pass halves the longest run**, rounded up. -/
theorem longestRun_replaceBackslashes (s : Str) :
    longestRun '\\' (replaceBackslashes s) = (longestRun '\\' s + 1) / 2 :=
  longestRunFrom_replaceBackslashes s 0

/-- A pass puts no new characters in. -/
theorem mem_of_mem_replaceBackslashes {c : Char} (s : Str) (h : c ∈ replaceBackslashes s) : c ∈ s := by
  induction s using replaceBackslashes.induct with
  | case1 s ih =>
    rw [replaceBackslashes, List.mem_cons] at h
    rcases h with rfl | h
    · exact List.mem_cons_self
    · exact List.mem_cons_of_mem _ (List.mem_cons_of_mem _ (ih h))
  | case2 d s hpair ih =>
    rw [replaceBackslashes.eq_2 d s hpair, List.mem_cons] at h
    rcases h with rfl | h
    · exact List.mem_cons_self
    · exact List.mem_cons_of_mem _ (ih h)
  | case3 => exact h

theorem two_le_longestRun : 2 ≤ longestRun '\\' s ↔ ['\\', '\\'] <:+: s := le_longestRun_iff

/-- A pass leaves the path alone where it has no two adjacent backslashes. -/
theorem replaceBackslashes_eq_self (s : Str) :
    replaceBackslashes s = s ↔ longestRun '\\' s ≤ 1 := by
  constructor
  · intro h
    have hhalf : longestRun '\\' s = (longestRun '\\' s + 1) / 2 := by
      conv_lhs => rw [← h]
      exact longestRun_replaceBackslashes s
    omega
  · intro h
    have hpair : ¬ ['\\', '\\'] <:+: s := fun hpair => by
      have := two_le_longestRun.mpr hpair
      omega
    clear h
    induction s using replaceBackslashes.induct with
    | case1 s ih => exact absurd ⟨[], s, rfl⟩ hpair
    | case2 c s hno ih =>
      rw [replaceBackslashes.eq_2 c s hno, ih fun h => hpair (List.infix_cons h)]
    | case3 => rfl

/-- Without a backslash there is no run. -/
theorem longestRun_of_not_mem (h : '\\' ∉ s) : longestRun '\\' s = 0 := by
  by_contra hrun
  have hone : ['\\'] <:+: s := le_longestRun_iff.mp (Nat.one_le_iff_ne_zero.mpr hrun)
  exact h (hone.subset List.mem_cons_self)

theorem cleanPath_iff : CleanPath s ↔ '\x00' ∉ s ∧ longestRun '\\' s ≤ 1 := by
  constructor
  · intro h
    refine ⟨h.noNul, ?_⟩
    have hpair : ¬ 2 ≤ longestRun '\\' s := fun h2 => h.noPair (two_le_longestRun.mp h2)
    omega
  · intro h
    exact ⟨h.1, fun hpair => absurd (two_le_longestRun.mpr hpair) (by omega)⟩

end Passes

/-! ## 3. The loop -/

section Loop

variable {originalPath s r : Str}

/-- What the loop ends with is clean. -/
theorem sanitizeLoop_clean (counter : Nat) : ∀ s : Str,
    sanitizeLoop originalPath counter s = .ok r → CleanPath r := by
  induction counter with
  | zero =>
    intro s h
    cases h
  | succ counter ih =>
    intro s h
    unfold sanitizeLoop at h
    split at h
    · exact ih _ h
    rename_i hnul
    split at h
    · exact ih _ h
    rename_i hpair
    cases h
    exact cleanPath_iff.mpr ⟨(replaceChar_eq_self (by decide)).mp (not_not.mp hnul),
      (replaceBackslashes_eq_self _).mp (not_not.mp hpair)⟩

/-- A clean path is left alone. -/
theorem sanitizeLoop_of_clean {counter : Nat} (h : CleanPath s) :
    sanitizeLoop originalPath (counter + 1) s = .ok s := by
  obtain ⟨hnul, hrun⟩ := cleanPath_iff.mp h
  unfold sanitizeLoop
  rw [if_neg (not_not.mpr ((replaceChar_eq_self (by decide)).mpr hnul)),
    if_neg (not_not.mpr ((replaceBackslashes_eq_self s).mpr hrun))]

/-- **Without NULs the loop ends well** where the longest run comes down to one backslash in time. -/
theorem sanitizeLoop_ok_iff (counter : Nat) : ∀ s : Str, '\x00' ∉ s →
    ((∃ r, sanitizeLoop originalPath (counter + 1) s = .ok r) ↔ longestRun '\\' s ≤ 2 ^ counter) := by
  induction counter with
  | zero =>
    intro s hnul
    unfold sanitizeLoop
    rw [if_neg (not_not.mpr ((replaceChar_eq_self (by decide)).mpr hnul))]
    by_cases hrun : longestRun '\\' s ≤ 1
    · rw [if_neg (not_not.mpr ((replaceBackslashes_eq_self s).mpr hrun))]
      exact ⟨fun _ => hrun, fun _ => ⟨s, rfl⟩⟩
    · rw [if_pos fun h => hrun ((replaceBackslashes_eq_self s).mp h)]
      simpa [sanitizeLoop] using hrun
  | succ counter ih =>
    intro s hnul
    unfold sanitizeLoop
    rw [if_neg (not_not.mpr ((replaceChar_eq_self (by decide)).mpr hnul))]
    by_cases hrun : longestRun '\\' s ≤ 1
    · rw [if_neg (not_not.mpr ((replaceBackslashes_eq_self s).mpr hrun))]
      exact ⟨fun _ => hrun.trans Nat.one_le_two_pow, fun _ => ⟨s, rfl⟩⟩
    · rw [if_pos fun h => hrun ((replaceBackslashes_eq_self s).mp h),
        ih _ fun h => hnul (mem_of_mem_replaceBackslashes s h), longestRun_replaceBackslashes, Nat.pow_succ]
      omega

/-- On a Unix target no backslash is left from the start, so that the loop keeps it so. -/
theorem sanitizeLoop_noBackslash (counter : Nat) : ∀ s : Str, '\\' ∉ s →
    sanitizeLoop originalPath counter s = .ok r → '\\' ∉ r := by
  induction counter with
  | zero =>
    intro s _ h
    cases h
  | succ counter ih =>
    intro s hs h
    unfold sanitizeLoop at h
    split at h
    · refine ih _ (fun hmem => hs ?_) h
      unfold replaceChar at hmem
      obtain ⟨c, hc, heq⟩ := List.mem_map.mp hmem
      split at heq
      · exact absurd heq (by decide)
      · exact heq ▸ hc
    split at h
    · exact ih _ (fun hmem => hs (mem_of_mem_replaceBackslashes s hmem)) h
    · cases h
      exact hs

/-- **The loop ends well** where that is so, and one pass is spent on the NULs. -/
theorem sanitizeLoop_ten_iff : (∃ r, sanitizeLoop originalPath 10 s = .ok r) ↔
    longestRun '\\' s ≤ if '\x00' ∈ s then 256 else 512 := by
  split
  · rename_i hnul
    unfold sanitizeLoop
    rw [if_pos fun h => (replaceChar_eq_self (by decide)).mp h hnul,
      sanitizeLoop_ok_iff 8 _ (not_mem_replaceChar (by decide))]
    show longestRunFrom '\\' 0 _ ≤ _ ↔ _
    rw [longestRunFrom_replaceNul]
    exact Iff.rfl
  · rename_i hnul
    exact sanitizeLoop_ok_iff 9 s hnul

end Loop

/-! ## 4. `sanitize_disk_path` -/

theorem error_iff_not_ok {ε α : Type} {x : Except ε α} : (∃ e, x = .error e) ↔ ¬ ∃ a, x = .ok a := by
  cases x <;> simp

theorem sanitizeDiskPathOn_false (path : Str) :
    sanitizeDiskPathOn false path = sanitizeLoop path 10 path := rfl

/-- **`sanitize_disk_path` comes to a clean fixed point**, on either family of targets. On a Unix target
    it refuses no path; elsewhere it refuses those with too long a run of backslashes. -/
theorem sanitizeDiskPath_fixedPoint (path : Str) :
    (∀ unix r, sanitizeDiskPathOn unix path = .ok r → CleanPath r ∧ sanitizeDiskPathOn unix r = .ok r) ∧
    (∃ r, sanitizeDiskPathOn true path = .ok r) ∧
    ((∃ e, sanitizeDiskPathOn false path = .error e) ↔
      512 < longestRun '\\' path ∨ 256 < longestRun '\\' path ∧ '\x00' ∈ path) := by
  refine ⟨fun unix r h => ?_, ?_, ?_⟩
  · have hclean := sanitizeLoop_clean 10 _ h
    refine ⟨hclean, ?_⟩
    unfold sanitizeDiskPathOn
    cases unix with
    | false => exact sanitizeLoop_of_clean hclean
    | true =>
      have hnone : '\\' ∉ r := sanitizeLoop_noBackslash 10 _ (not_mem_replaceChar (by decide)) h
      rw [if_pos rfl, (replaceChar_eq_self (by decide)).mpr hnone]
      exact sanitizeLoop_of_clean hclean
  · refine sanitizeLoop_ten_iff.mpr ?_
    rw [if_pos rfl, longestRun_of_not_mem (not_mem_replaceChar (by decide))]
    exact Nat.zero_le _
  · rw [sanitizeDiskPathOn_false, error_iff_not_ok, sanitizeLoop_ten_iff]
    split
    · simp [*]
      omega
    · simp [*]

end Transmitic
