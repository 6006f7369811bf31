/-
  File:      Transmitic/PathSegments.lean
  Subject:   WHAT THE PATH CHECK ACCEPTS (config.rs, `file_contains_only_valid_chars`), read off the text.

  The check goes over the components of a path. A segment `.` is none, but at the front of a relative path.

  * `Promised` -- what an accepted path is to be: no blocked character, no segment of periods, and a colon
    only in a drive;
  * `components_text` -- the components of a path are its segments, but the empty ones and the single periods;
  * `valid_iff_segments` -- **the check, segment by segment**;
  * `Overlooked` -- the strings that pass nevertheless: with a segment `.` behind the first, or `::` for a
    drive;
  * `valid_promised_iff` -- **exactly** for these the check accepts what it does not promise.
-/
import Transmitic.ConfigPaths

namespace Transmitic

open Lib

/-! ## 1. The promise -/

/-- The segments, after every backslash is read as a slash. -/
def segmentsOf (path : Str) : List Str := (replaceChar path '\\' '/').splitOn '/'

/-- One or more periods. -/
def OnlyPeriods (seg : Str) : Prop := seg ≠ [] ∧ ∀ c ∈ seg, c = '.'

instance (seg : Str) : Decidable (OnlyPeriods seg) := by unfold OnlyPeriods; infer_instance

/-- A colon is the second of two bytes. -/
def ColonOfDrive (seg : Str) : Prop := ∀ i, seg[i]? = some ':' → i = 1 ∧ (utf8 seg).length = 2

/-- **What an accepted path is to be.** -/
structure Promised (path : Str) : Prop where
  chars : ∀ c ∈ getBlockedFilePathChars, c ∉ path
  periods : ∀ seg ∈ segmentsOf path, ¬ OnlyPeriods seg
  drive : ∀ seg ∈ (segmentsOf path).head?, ColonOfDrive seg
  colons : ∀ seg ∈ (segmentsOf path).tail, ':' ∉ seg

/-! ## 2. Components and segments -/

/-- The parts a path has behind the front. -/
theorem filterMap_segment_text (rest : List Str) :
    (rest.filterMap Lib.segment).map Component.text = rest.filter fun s => s ≠ [] ∧ s ≠ ['.'] := by
  induction rest with
  | nil => rfl
  | cons s rest ih =>
    rw [List.filterMap_cons, List.filter_cons]
    by_cases hskip : s = [] ∨ s = ['.']
    · have hno : ¬ (s ≠ [] ∧ s ≠ ['.']) := fun h => hskip.elim h.1 h.2
      simp only [Lib.segment, if_pos hskip, ih, hno, decide_false, Bool.false_eq_true, if_false]
    · have hyes : s ≠ [] ∧ s ≠ ['.'] := ⟨fun h => hskip (.inl h), fun h => hskip (.inr h)⟩
      by_cases hparent : s = ['.', '.']
      · subst hparent
        simp [Lib.segment, ih, Component.text]
      · have hsegment : Lib.segment s = some (.normal s) := by
          rw [Lib.segment, if_neg hskip, if_neg hparent]
        rw [hsegment, if_pos (decide_eq_true hyes), List.map_cons, ih]
        rfl

theorem frontSegment_text (sep : Bool) (s : Str) : (frontSegment sep s).map Component.text =
    if s = [] then (if sep then [['/']] else []) else [s] := by
  unfold frontSegment
  by_cases hnil : s = []
  · rw [if_pos hnil, if_pos hnil]
    cases sep <;> rfl
  · rw [if_neg hnil, if_neg hnil]
    by_cases hdot : s = ['.']
    · rw [if_pos hdot, hdot]
      rfl
    · rw [if_neg hdot, Lib.segment, if_neg (fun h => h.elim hnil hdot)]
      by_cases hparent : s = ['.', '.']
      · rw [if_pos hparent, hparent]
        rfl
      · rw [if_neg hparent]
        rfl

/-- **The components of a path**: its segments, but the empty ones and the single periods behind the front. -/
theorem components_text {path first : Str} {rest : List Str} (h : path.splitOn '/' = first :: rest) :
    (components path).map Component.text =
      (if first = [] then (if !rest.isEmpty then [['/']] else []) else [first]) ++
        rest.filter fun s => s ≠ [] ∧ s ≠ ['.'] := by
  unfold components
  rw [h]
  simp only [List.map_append, frontSegment_text, filterMap_segment_text]

/-! ## 3. The check -/

/-- The parts behind the first. -/
theorem partsHaveOnlyValidChars_succ (index : Nat) (parts : List Str) :
    partsHaveOnlyValidChars (index + 1) parts =
      parts.all fun s => partHasOnlyValidChars 1 s := by
  induction parts generalizing index with
  | nil => rfl
  | cons s parts ih =>
    rw [partsHaveOnlyValidChars, List.all_cons, ih]
    rfl

section Parts

variable {seg : Str}

/-- A segment has no separator and none of the characters that a path must not have. -/
def PlainSegment (seg : Str) : Prop :=
  '/' ∉ seg ∧ '\\' ∉ seg ∧ ∀ c ∈ getBlockedFilePathChars, c ∉ seg

theorem noBlocked_iff (h : PlainSegment seg) :
    (getBlockedFileNameChars.all fun c => !containsChar seg c) = true ↔ ':' ∉ seg := by
  obtain ⟨hslash, hback, hchars⟩ := h
  have hpath : (getBlockedFilePathChars.all fun c => !containsChar seg c) = true := by
    simp only [List.all_eq_true, containsChar, Bool.not_eq_true', List.contains_eq_mem, decide_eq_false_iff_not]
    exact hchars
  rw [getBlockedFileNameChars, List.all_append, hpath]
  simp [containsChar, hslash, hback]

theorem notSeparator (h : PlainSegment seg) : ¬ (seg = ['/'] ∨ seg = ['\\']) := by
  rintro (rfl | rfl)
  · exact h.1 List.mem_cons_self
  · exact h.2.1 List.mem_cons_self

/-- A part behind the first has no colon. -/
theorem partHasOnlyValidChars_one (h : PlainSegment seg) : partHasOnlyValidChars 1 seg = true ↔ ':' ∉ seg := by
  unfold partHasOnlyValidChars
  rw [if_neg (fun hzero => absurd hzero.1 (by decide)), if_neg (notSeparator h)]
  exact noBlocked_iff h

/-- The first part has none, or is a drive. -/
theorem partHasOnlyValidChars_zero (h : PlainSegment seg) :
    partHasOnlyValidChars 0 seg = true ↔ isDrivePart seg = true ∨ ':' ∉ seg := by
  unfold partHasOnlyValidChars
  by_cases hdrive : isDrivePart seg = true
  · rw [if_pos ⟨rfl, hdrive⟩]
    exact iff_of_true rfl (.inl hdrive)
  · rw [if_neg (fun hzero => hdrive hzero.2), if_neg (notSeparator h), noBlocked_iff h]
    exact (or_iff_right hdrive).symm

theorem partIsKept_iff : partIsKept seg = true ↔ ¬ (∀ c ∈ seg, c = '.') := by
  simp [partIsKept]

/-- **A drive** is two bytes with a colon second: the first byte may be a colon as well. -/
theorem isDrivePart_iff : isDrivePart seg = true ↔ seg = "::".toList ∨ ':' ∈ seg ∧ ColonOfDrive seg := by
  have hsize : ∀ c : Char, 0 < (String.utf8EncodeChar c).length := by
    intro c
    rw [String.length_utf8EncodeChar]
    exact Char.utf8Size_pos c
  unfold isDrivePart
  simp only [Bool.and_eq_true, beq_iff_eq]
  constructor
  · rintro ⟨hlen, hcolon⟩
    match seg, hlen, hcolon with
    | [c, d], hlen, hcolon =>
      cases Option.some.inj hcolon
      by_cases hc : c = ':'
      · left
        rw [hc]
        rfl
      · right
        refine ⟨List.mem_cons_of_mem _ List.mem_cons_self, fun i hi => ?_⟩
        match i, hi with
        | 0, hi => exact absurd (Option.some.inj hi) hc
        | 1, _ => exact ⟨rfl, hlen⟩
    | c :: d :: e :: t, hlen, _ =>
      have h1 := hsize c
      have h2 := hsize d
      have h3 := hsize e
      simp only [utf8, List.flatMap_cons, List.length_append] at hlen
      omega
  · rintro (rfl | ⟨hmem, hdrive⟩)
    · decide
    · obtain ⟨i, hi, hget⟩ := List.getElem_of_mem hmem
      have hsome : seg[i]? = some ':' := by rw [List.getElem?_eq_getElem hi, hget]
      obtain ⟨rfl, hlen⟩ := hdrive i hsome
      exact ⟨hlen, hsome⟩

/-- A colon where none is allowed. -/
theorem colonOfDrive_none (h : ':' ∉ seg) : ColonOfDrive seg :=
  fun _ hi => absurd (List.mem_of_getElem? hi) h

end Parts

/-! ## 4. Segment by segment -/

section Segments

variable {path first : Str} {rest : List Str}

theorem mem_replaceChar {c : Char} (hback : c ≠ '\\') (hslash : c ≠ '/') :
    c ∈ replaceChar path '\\' '/' ↔ c ∈ path := by
  unfold replaceChar
  constructor
  · intro h
    obtain ⟨d, hd, hc⟩ := List.mem_map.mp h
    split at hc
    · exact absurd hc.symm hslash
    · exact hc ▸ hd
  · intro h
    exact List.mem_map.mpr ⟨c, h, if_neg hback⟩

theorem back_not_mem_replaceChar : '\\' ∉ replaceChar path '\\' '/' := by
  intro h
  obtain ⟨d, hd, hc⟩ := List.mem_map.mp h
  split at hc
  · cases hc
  · rename_i hne
    exact hne hc

/-- The blocked characters are neither of the two separators. -/
theorem blocked_other : ∀ c ∈ getBlockedFilePathChars, c ≠ '\\' ∧ c ≠ '/' := by
  simp [getBlockedFilePathChars]

theorem plainSegment_of_mem (hchars : ∀ c ∈ getBlockedFilePathChars, c ∉ path) {seg : Str}
    (h : seg ∈ segmentsOf path) : PlainSegment seg := by
  have hsub : ∀ c ∈ seg, c ∈ replaceChar path '\\' '/' := fun c hc => mem_of_mem_splitOn h hc
  refine ⟨not_mem_of_mem_splitOn '/' _ seg h, fun hback => back_not_mem_replaceChar (hsub _ hback), ?_⟩
  intro c hc hmem
  obtain ⟨hback, hslash⟩ := blocked_other c hc
  exact hchars c hc ((mem_replaceChar hback hslash).mp (hsub c hmem))

theorem blockedChars_iff : (getBlockedFilePathChars.all fun c =>
    !containsChar (replaceChar path '\\' '/') c) = true ↔ ∀ c ∈ getBlockedFilePathChars, c ∉ path := by
  simp only [List.all_eq_true, containsChar, Bool.not_eq_true', List.contains_eq_mem, decide_eq_false_iff_not]
  refine forall_congr' fun c => forall_congr' fun hc => ?_
  obtain ⟨hback, hslash⟩ := blocked_other c hc
  rw [mem_replaceChar hback hslash]

/-- The first loop, on the segments. -/
theorem partsHaveOnlyValidChars_segments (h : segmentsOf path = first :: rest) :
    partsHaveOnlyValidChars 0 ((components (replaceChar path '\\' '/')).map Component.text) = true ↔
      (first ≠ [] → partHasOnlyValidChars 0 first = true) ∧
        ∀ seg ∈ rest, seg ≠ [] → seg ≠ ['.'] → partHasOnlyValidChars 1 seg = true := by
  have hbehind : ∀ index, partsHaveOnlyValidChars (index + 1) (rest.filter fun s => s ≠ [] ∧ s ≠ ['.']) = true ↔
      ∀ seg ∈ rest, seg ≠ [] → seg ≠ ['.'] → partHasOnlyValidChars 1 seg = true := by
    intro index
    rw [partsHaveOnlyValidChars_succ]
    simp only [List.all_eq_true, List.mem_filter, decide_eq_true_eq, and_imp]
  rw [components_text h]
  by_cases hnil : first = []
  · rw [if_pos hnil]
    cases rest with
    | nil => simp [hnil, partsHaveOnlyValidChars]
    | cons seg rest =>
      have hslash : partHasOnlyValidChars 0 ['/'] = true := by decide
      have hfirst : (first ≠ [] → partHasOnlyValidChars 0 first = true) := fun hne => absurd hnil hne
      simp only [List.isEmpty_cons, Bool.not_false, if_true, List.cons_append, List.nil_append,
        partsHaveOnlyValidChars, hslash, Bool.true_and]
      rw [hbehind 0, and_iff_right hfirst]
  · rw [if_neg hnil, List.cons_append, List.nil_append, partsHaveOnlyValidChars, Bool.and_eq_true, hbehind 0]
    exact and_congr_left fun _ => ⟨fun h _ => h, fun h => h hnil⟩

/-- The second loop. -/
theorem partsAreKept_segments (h : segmentsOf path = first :: rest) :
    ((components (replaceChar path '\\' '/')).map Component.text).all partIsKept = true ↔
      (first ≠ [] → partIsKept first = true) ∧
        ∀ seg ∈ rest, seg ≠ [] → seg ≠ ['.'] → partIsKept seg = true := by
  have hbehind : (rest.filter fun s => s ≠ [] ∧ s ≠ ['.']).all partIsKept = true ↔
      ∀ seg ∈ rest, seg ≠ [] → seg ≠ ['.'] → partIsKept seg = true := by
    simp only [List.all_eq_true, List.mem_filter, decide_eq_true_eq, and_imp]
  rw [components_text h, List.all_append, Bool.and_eq_true, hbehind]
  refine and_congr_left fun _ => ?_
  by_cases hnil : first = []
  · have hfirst : (first ≠ [] → partIsKept first = true) := fun hne => absurd hnil hne
    rw [if_pos hnil, iff_true_right hfirst]
    cases rest <;> rfl
  · rw [if_neg hnil, List.all_cons, List.all_nil, Bool.and_true]
    exact ⟨fun h _ => h, fun h => h hnil⟩

/-- **The check, segment by segment.** A single period is looked at in front only. -/
theorem valid_iff_segments (h : segmentsOf path = first :: rest) :
    fileContainsOnlyValidChars path = true ↔ (∀ c ∈ getBlockedFilePathChars, c ∉ path) ∧
      (¬ OnlyPeriods first ∧ (first = "::".toList ∨ ColonOfDrive first)) ∧
        ∀ seg ∈ rest, ':' ∉ seg ∧ (OnlyPeriods seg → seg = ['.']) := by
  unfold fileContainsOnlyValidChars
  rw [Bool.and_eq_true, Bool.and_eq_true, blockedChars_iff, partsHaveOnlyValidChars_segments h,
    partsAreKept_segments h, and_assoc]
  refine and_congr_right fun hchars => ?_
  have hplain : ∀ seg ∈ first :: rest, PlainSegment seg := fun seg hseg => plainSegment_of_mem hchars (h ▸ hseg)
  have hfirst : ((first ≠ [] → partHasOnlyValidChars 0 first = true) ∧ (first ≠ [] → partIsKept first = true)) ↔
      ¬ OnlyPeriods first ∧ (first = "::".toList ∨ ColonOfDrive first) := by
    rw [partHasOnlyValidChars_zero (hplain first List.mem_cons_self), isDrivePart_iff, partIsKept_iff]
    by_cases hnil : first = []
    · subst hnil
      simp [OnlyPeriods, ColonOfDrive]
    · by_cases hcolon : ':' ∈ first
      · simp [hnil, OnlyPeriods, hcolon, and_comm]
      · simp [hnil, OnlyPeriods, hcolon, colonOfDrive_none hcolon]
  have hrest : ∀ seg ∈ rest, ((seg ≠ [] → seg ≠ ['.'] → partHasOnlyValidChars 1 seg = true) ∧
      (seg ≠ [] → seg ≠ ['.'] → partIsKept seg = true)) ↔ ':' ∉ seg ∧ (OnlyPeriods seg → seg = ['.']) := by
    intro seg hseg
    rw [partHasOnlyValidChars_one (hplain seg (List.mem_cons_of_mem _ hseg)), partIsKept_iff]
    by_cases hnil : seg = []
    · simp [hnil, OnlyPeriods]
    · by_cases hdot : seg = ['.']
      · simp [hdot]
      · simp [hnil, hdot, OnlyPeriods]
  constructor
  · rintro ⟨⟨hf, hr⟩, hkf, hkr⟩
    exact ⟨hfirst.mp ⟨hf, hkf⟩, fun seg hseg => (hrest seg hseg).mp ⟨hr seg hseg, hkr seg hseg⟩⟩
  · rintro ⟨hf, hr⟩
    obtain ⟨hf, hkf⟩ := hfirst.mpr hf
    exact ⟨⟨hf, fun seg hseg => ((hrest seg hseg).mpr (hr seg hseg)).1⟩, hkf,
      fun seg hseg => ((hrest seg hseg).mpr (hr seg hseg)).2⟩

/-! ## 5. What is overlooked -/

/-- Strings that are as promised but for a segment `.` behind the first, or for `::` in front. -/
structure OverlookedIn (path first : Str) (rest : List Str) : Prop where
  chars : ∀ c ∈ getBlockedFilePathChars, c ∉ path
  front : ¬ OnlyPeriods first ∧ (first = "::".toList ∨ ColonOfDrive first)
  behind : ∀ seg ∈ rest, ':' ∉ seg ∧ (OnlyPeriods seg → seg = ['.'])
  overlooked : first = "::".toList ∨ ['.'] ∈ rest

def Overlooked (path : Str) : Prop :=
  ∃ first rest, segmentsOf path = first :: rest ∧ OverlookedIn path first rest

theorem promised_iff_segments (h : segmentsOf path = first :: rest) : Promised path ↔
    (∀ c ∈ getBlockedFilePathChars, c ∉ path) ∧ (¬ OnlyPeriods first ∧ ColonOfDrive first) ∧
      ∀ seg ∈ rest, ':' ∉ seg ∧ ¬ OnlyPeriods seg := by
  constructor
  · rintro ⟨hchars, hperiods, hdrive, hcolons⟩
    rw [h] at hperiods hdrive hcolons
    exact ⟨hchars, ⟨hperiods first List.mem_cons_self, hdrive first rfl⟩, fun seg hseg =>
      ⟨hcolons seg hseg, hperiods seg (List.mem_cons_of_mem _ hseg)⟩⟩
  · rintro ⟨hchars, ⟨hfirst, hdrive⟩, hrest⟩
    refine ⟨hchars, ?_, ?_, ?_⟩
    · rw [h]
      intro seg hseg
      rcases List.mem_cons.mp hseg with rfl | hseg
      · exact hfirst
      · exact (hrest seg hseg).2
    · rw [h]
      intro seg hseg
      cases hseg
      exact hdrive
    · rw [h]
      exact fun seg hseg => (hrest seg hseg).1

/-- **Every string that is as promised is accepted.** -/
theorem valid_of_promised (h : Promised path) : fileContainsOnlyValidChars path = true := by
  obtain ⟨first, rest, hsegments⟩ := List.exists_cons_of_ne_nil
    (show segmentsOf path ≠ [] from List.splitOn_ne_nil _ _)
  obtain ⟨hchars, hfirst, hrest⟩ := (promised_iff_segments hsegments).mp h
  exact (valid_iff_segments hsegments).mpr ⟨hchars, ⟨hfirst.1, .inr hfirst.2⟩, fun seg hseg =>
    ⟨(hrest seg hseg).1, fun hperiods => absurd hperiods (hrest seg hseg).2⟩⟩

theorem doubleColon_noDrive : ¬ ColonOfDrive "::".toList := fun h => absurd (h 0 rfl).1 (by decide)

/-- **The check accepts just what it promises** but for the strings it overlooks. -/
theorem valid_promised_iff (path : Str) :
    (fileContainsOnlyValidChars path = true ↔ Promised path) ↔ ¬ Overlooked path := by
  obtain ⟨first, rest, hsegments⟩ := List.exists_cons_of_ne_nil
    (show segmentsOf path ≠ [] from List.splitOn_ne_nil _ _)
  constructor
  · rintro hiff ⟨first', rest', hsegments', hover⟩
    have hvalid := (valid_iff_segments hsegments').mpr ⟨hover.chars, hover.front, hover.behind⟩
    obtain ⟨-, hfirst, hrest⟩ := (promised_iff_segments hsegments').mp (hiff.mp hvalid)
    rcases hover.overlooked with rfl | hdot
    · exact doubleColon_noDrive hfirst.2
    · exact (hrest _ hdot).2 (by simp [OnlyPeriods])
  · intro hno
    refine ⟨fun hvalid => ?_, valid_of_promised⟩
    obtain ⟨hchars, hfirst, hrest⟩ := (valid_iff_segments hsegments).mp hvalid
    have hclear : ¬ (first = "::".toList ∨ ['.'] ∈ rest) := fun hover =>
      hno ⟨first, rest, hsegments, hchars, hfirst, hrest, hover⟩
    refine (promised_iff_segments hsegments).mpr ⟨hchars, ⟨hfirst.1, ?_⟩, fun seg hseg => ⟨(hrest seg hseg).1, ?_⟩⟩
    · exact hfirst.2.resolve_left fun h => hclear (.inl h)
    · intro hperiods
      have hdot := (hrest seg hseg).2 hperiods
      exact hclear (.inr (hdot ▸ hseg))

/-- A single period between two names, and a drive of two colons. -/
theorem interiorPeriod_accepted :
    fileContainsOnlyValidChars "/srv/./share".toList = true ∧ ¬ Promised "/srv/./share".toList ∧
      fileContainsOnlyValidChars "./share".toList = false ∧
      fileContainsOnlyValidChars "::/share".toList = true ∧ ¬ Promised "::/share".toList := by
  refine ⟨by decide, fun h => h.periods ['.'] (by decide) (by simp [OnlyPeriods]), by decide, by decide,
    fun h => ?_⟩
  exact doubleColon_noDrive (h.drive _ (by decide +kernel))

end Segments

end Transmitic
