/-
  File:      Transmitic/LocalDisk.lean
  Subject:   A DOWNLOADER AND ITS LOCAL DISK.

  Surroundings in which the commands on local files act on a disk, and everything else may be
  answered in any way: the frames, the messages, the cache, the queue file. Nobody else writes the
  local files.

  * `LocalDisk` -- what stands where, how many bytes were written, and what was reported to the app;
  * `LocalDisk.Step` -- what a command does to it. A write that fails may have written a part; a
    directory that is created brings the directories above it with it;
  * `Grew` -- **files only grow, in certain places, by the bytes written**;
  * `Calm`, `wp_calm` -- what is done besides the local files leaves the disk alone;
  * `wp_completeQueueItem` -- the end of a download;
  * `wp_localFileLength`, `wp_createEmptyFile`, `wp_openDestination`, `wp_fileWrite` -- the methods
    that act on a local file.
-/
import Transmitic.DownloaderSession

namespace Transmitic

open Lib

/-! ## 1. The disk -/

/-- What stands at a path: a file, or a directory with the length the file system reports for it. -/
inductive DiskEntry where
  | file (bytes : List UInt8)
  | dir (length : Nat)

/-- `metadata.len()`. -/
def DiskEntry.length : DiskEntry → Nat
  | .file bytes => bytes.length
  | .dir length => length

structure LocalDisk where
  entry : Str → Option DiskEntry
  /-- How many bytes were written to local files. -/
  written : Nat
  reports : List AppAggMessage

/-- A disk with nothing on it: no byte was written, and nothing reported. -/
def emptyDisk : LocalDisk := { entry := fun _ => none, written := 0, reports := [] }

namespace LocalDisk

def put (w : LocalDisk) (path : Str) (bytes : List UInt8) : LocalDisk :=
  { w with entry := Function.update w.entry path (some (.file bytes)) }

/-- `bytes` are behind the bytes `old` of the file `path`. -/
def wrote (w : LocalDisk) (path : Str) (old bytes : List UInt8) : LocalDisk :=
  { w.put path (old ++ bytes) with written := w.written + bytes.length }

/-- The bytes of the file at `path`, if there is one. -/
def size (w : LocalDisk) (path : Str) : Nat :=
  match w.entry path with
  | some (.file bytes) => bytes.length
  | _ => 0

/-- The downloads reported as completed. -/
def completions (w : LocalDisk) : List CompletedMessage :=
  w.reports.filterMap fun m =>
    match m with
    | .completed m => some m
    | _ => none

/-- A write of `bytes` at the end of the file `path` succeeds; `limit` is the longest the file may
    get. -/
def Appends (limit : Str → UInt64) (path : Str) (bytes : List UInt8) (w w' : LocalDisk) : Prop :=
  ∃ old, w.entry path = some (.file old) ∧ old.length + bytes.length ≤ (limit path).toNat ∧
    w' = w.wrote path old bytes

/-- Directories have come where nothing was. -/
def MakesDirs (w w' : LocalDisk) : Prop :=
  w'.written = w.written ∧ w'.reports = w.reports ∧
    ∀ p, w'.entry p = w.entry p ∨ w.entry p = none ∧ ∃ n, w'.entry p = some (.dir n)

/-- The answers to a command, and what it does to the disk. -/
def Step (limit : Str → UInt64) (w : LocalDisk) :
    (c : DownloaderCmd) → c.Ans → LocalDisk → Prop
  | .pathExists path, a, w' => a = (w.entry path).isSome ∧ w' = w
  | .metadataLen path, .ok n, w' => (∃ e, w.entry path = some e ∧ n.toNat = e.length) ∧ w' = w
  | .createDirAll _, _, w' => w.MakesDirs w'
  | .fileCreate path, .ok (), w' => (∀ n, w.entry path ≠ some (.dir n)) ∧ w' = w.put path []
  | .fileOpenEnd path, .ok (), w' => (∃ bytes, w.entry path = some (.file bytes)) ∧ w' = w
  | .fileWrite path bytes, .ok (), w' => w.Appends limit path bytes w'
  | .fileWrite path bytes, .error _, w' => w' = w ∨ ∃ part, part <+: bytes ∧
      w.Appends limit path part w'
  | .app m, (), w' => w' = { w with reports := w.reports ++ [m] }
  | _, _, w' => w' = w

end LocalDisk

/-- A downloader on its local disk; `watch` says when a download may be reported as completed. -/
def onDisk (limit : Str → UInt64) (watch : LocalDisk → CompletedMessage → Prop) :
    DlEnv LocalDisk where
  ok w _ c :=
    match c with
    | .inr (.app (.completed m)) => watch w m
    | _ => True
  step w _ c a w' :=
    match c, a with
    | .inl _, _ => w' = w
    | .inr c, a => w.Step limit c a w'

/-! ## 2. Files grow -/

/-- What stood there still stands there, and a file begins with what it was. -/
inductive Extends : Option DiskEntry → Option DiskEntry → Prop where
  | new (e : Option DiskEntry) : Extends none e
  | dir (n : Nat) : Extends (some (.dir n)) (some (.dir n))
  | file (bytes more : List UInt8) : Extends (some (.file bytes)) (some (.file (bytes ++ more)))

theorem Extends.refl (e : Option DiskEntry) : Extends e e := by
  cases e with
  | none => exact .new none
  | some e =>
    cases e with
    | dir n => exact .dir n
    | file bytes =>
      have h := Extends.file bytes []
      rw [List.append_nil] at h
      exact h

theorem Extends.trans {e e' e'' : Option DiskEntry} (h : Extends e e') (h' : Extends e' e'') :
    Extends e e'' := by
  cases h with
  | new e => exact .new _
  | dir n => exact h'
  | file bytes more =>
    cases h' with
    | file _ more' =>
      rw [List.append_assoc]
      exact .file bytes (more ++ more')

theorem Extends.length_le {e : DiskEntry} {x : Option DiskEntry} (h : Extends (some e) x) :
    ∃ e', x = some e' ∧ e.length ≤ e'.length := by
  cases h with
  | dir n => exact ⟨_, rfl, le_rfl⟩
  | file bytes more => exact ⟨_, rfl, by simp [DiskEntry.length]⟩

/-- From `w` to `w'`, files have grown at places with `P`, new files are at such places, and as much
    was written as they have grown; elsewhere there are new directories at most. -/
structure Grew (limit : Str → UInt64) (P : Str → Prop) (w w' : LocalDisk) : Prop where
  elsewhere : ∀ p, ¬ P p → w'.entry p = w.entry p ∨
    w.entry p = none ∧ ∃ n, w'.entry p = some (.dir n)
  extend : ∀ p, Extends (w.entry p) (w'.entry p)
  count : ∀ D : Finset Str, (∀ p, P p → p ∈ D) →
    w'.written + ∑ p ∈ D, w.size p = w.written + ∑ p ∈ D, w'.size p
  limited : ∀ p, w'.size p ≤ max (w.size p) (limit p).toNat
  reports : w.reports <+: w'.reports

namespace Grew

variable {limit : Str → UInt64} {P P' : Str → Prop} {w w' w'' : LocalDisk}

theorem refl (w : LocalDisk) : Grew limit P w w where
  elsewhere _ _ := .inl rfl
  extend _ := .refl _
  count _ _ := rfl
  limited _ := le_max_left _ _
  reports := List.prefix_rfl

theorem trans (h : Grew limit P w w') (h' : Grew limit P w' w'') : Grew limit P w w'' where
  elsewhere p hp := by
    rcases h.elsewhere p hp with he | ⟨he, n, hn⟩
    · rw [← he]
      exact h'.elsewhere p hp
    · rcases h'.elsewhere p hp with he' | ⟨he', -⟩
      · exact .inr ⟨he, n, he'.trans hn⟩
      · rw [hn] at he'
        cases he'
  extend p := (h.extend p).trans (h'.extend p)
  count D hD := by
    have h₁ := h.count D hD
    have h₂ := h'.count D hD
    omega
  limited p := by
    have h₁ := h.limited p
    have h₂ := h'.limited p
    omega
  reports := h.reports.trans h'.reports

theorem mono (h : Grew limit P w w') (hP : ∀ p, P p → P' p) : Grew limit P' w w' where
  elsewhere p hp := h.elsewhere p fun hp' => hp (hP p hp')
  extend := h.extend
  count D hD := h.count D fun p hp => hD p (hP p hp)
  limited := h.limited
  reports := h.reports

/-- What stood at a place is still there, and not shorter. -/
theorem length_le (h : Grew limit P w w') {p : Str} {e : DiskEntry} (he : w.entry p = some e) :
    ∃ e', w'.entry p = some e' ∧ e.length ≤ e'.length := by
  have hext := h.extend p
  rw [he] at hext
  exact hext.length_le

end Grew

section Steps

variable {limit : Str → UInt64} {P : Str → Prop} {w w' : LocalDisk} {path : Str}

theorem size_of_entry {w w' : LocalDisk} {p : Str} (h : w'.entry p = w.entry p) :
    w'.size p = w.size p := by
  unfold LocalDisk.size
  rw [h]

/-- Directories do not count. -/
theorem grew_makesDirs (h : w.MakesDirs w') : Grew limit P w w' := by
  have hsize : ∀ p, w'.size p = w.size p := by
    intro p
    rcases h.2.2 p with he | ⟨he, n, hn⟩
    · exact size_of_entry he
    · simp [LocalDisk.size, he, hn]
  constructor
  · exact fun p _ => h.2.2 p
  · intro p
    rcases h.2.2 p with he | ⟨he, -⟩
    · rw [he]
      exact .refl _
    · rw [he]
      exact .new _
  · intro D _
    rw [h.1, Finset.sum_congr rfl fun p _ => hsize p]
  · intro p
    rw [hsize p]
    exact le_max_left _ _
  · rw [h.2.1]

theorem entry_put_self (w : LocalDisk) (path : Str) (bytes : List UInt8) :
    (w.put path bytes).entry path = some (.file bytes) := Function.update_self ..

theorem entry_put_of_ne {p : Str} (h : p ≠ path) (w : LocalDisk) (bytes : List UInt8) :
    (w.put path bytes).entry p = w.entry p := Function.update_of_ne h ..

/-- A new file is empty. -/
theorem grew_create (hp : P path) (h : w.entry path = none) : Grew limit P w (w.put path []) := by
  have hsize : ∀ p, (w.put path []).size p = w.size p := by
    intro p
    by_cases hpp : p = path
    · rw [hpp]
      simp [LocalDisk.size, entry_put_self, h]
    · exact size_of_entry (entry_put_of_ne hpp w [])
  constructor
  · intro p hp'
    have hpp : p ≠ path := fun e => hp' (e ▸ hp)
    exact .inl (entry_put_of_ne hpp w [])
  · intro p
    by_cases hpp : p = path
    · rw [hpp, h]
      exact .new _
    · rw [entry_put_of_ne hpp]
      exact .refl _
  · intro D _
    rw [Finset.sum_congr rfl fun p _ => hsize p]
    rfl
  · intro p
    rw [hsize p]
    exact le_max_left _ _
  · exact List.prefix_rfl

/-- **A write makes the file longer by what is written.** -/
theorem grew_wrote {old bytes : List UInt8} (hp : P path) (h : w.entry path = some (.file old))
    (hlimit : old.length + bytes.length ≤ (limit path).toNat) :
    Grew limit P w (w.wrote path old bytes) := by
  have hother : ∀ p, p ≠ path → (w.wrote path old bytes).entry p = w.entry p :=
    fun p hpp => entry_put_of_ne hpp w _
  have hself : (w.wrote path old bytes).size path = w.size path + bytes.length := by
    simp [LocalDisk.size, LocalDisk.wrote, entry_put_self, h]
  constructor
  · intro p hp'
    exact .inl (hother p fun e => hp' (e ▸ hp))
  · intro p
    by_cases hpp : p = path
    · rw [hpp, h, show (w.wrote path old bytes).entry path = _ from entry_put_self ..]
      exact .file old bytes
    · rw [hother p hpp]
      exact .refl _
  · intro D hD
    have hmem := hD path hp
    rw [← Finset.add_sum_erase D _ hmem, ← Finset.add_sum_erase D _ hmem, hself]
    have hrest : ∑ p ∈ D.erase path, (w.wrote path old bytes).size p =
        ∑ p ∈ D.erase path, w.size p :=
      Finset.sum_congr rfl fun p hpD => size_of_entry (hother p (Finset.ne_of_mem_erase hpD))
    rw [hrest]
    show w.written + bytes.length + _ = _
    omega
  · intro p
    by_cases hpp : p = path
    · have hsize : w.size path = old.length := by simp [LocalDisk.size, h]
      rw [hpp, hself]
      omega
    · rw [size_of_entry (hother p hpp)]
      exact le_max_left _ _
  · exact List.prefix_rfl

theorem grew_appends {bytes : List UInt8} (hp : P path) (h : w.Appends limit path bytes w') :
    Grew limit P w w' := by
  obtain ⟨old, hold, hlimit, rfl⟩ := h
  exact grew_wrote hp hold hlimit

/-- A report changes no file. -/
theorem grew_report (m : AppAggMessage) :
    Grew limit P w { w with reports := w.reports ++ [m] } where
  elsewhere _ _ := .inl rfl
  extend _ := .refl _
  count _ _ := rfl
  limited _ := le_max_left _ _
  reports := List.prefix_append _ _

end Steps

/-! ## 3. What is done besides the local files -/

/-- The files are as they were, and no download was reported as completed. -/
structure Calm (w w' : LocalDisk) : Prop where
  entry : w'.entry = w.entry
  written : w'.written = w.written
  reports : w.reports <+: w'.reports
  completions : w'.completions = w.completions

/-- Files have grown at places with `P`, and no download was reported as completed. -/
def GrewOnly (limit : Str → UInt64) (P : Str → Prop) (w w' : LocalDisk) : Prop :=
  Grew limit P w w' ∧ w'.completions = w.completions

section Calm

variable {limit : Str → UInt64} {watch : LocalDisk → CompletedMessage → Prop}
  {P P' : Str → Prop} {w w' w'' : LocalDisk}

theorem Calm.refl (w : LocalDisk) : Calm w w := ⟨rfl, rfl, List.prefix_rfl, rfl⟩

theorem Calm.trans (h : Calm w w') (h' : Calm w' w'') : Calm w w'' where
  entry := h'.entry.trans h.entry
  written := h'.written.trans h.written
  reports := h.reports.trans h'.reports
  completions := h'.completions.trans h.completions

theorem Calm.grewOnly (h : Calm w w') : GrewOnly limit P w w' := by
  have hentry : ∀ p, w'.entry p = w.entry p := fun p => congrFun h.entry p
  refine ⟨⟨fun p _ => .inl (hentry p), fun p => ?_, fun D _ => ?_, fun p => ?_, h.reports⟩,
    h.completions⟩
  · rw [hentry p]
    exact .refl _
  · rw [h.written, Finset.sum_congr rfl fun p _ => size_of_entry (hentry p)]
  · rw [size_of_entry (hentry p)]
    exact le_max_left _ _

theorem GrewOnly.refl (w : LocalDisk) : GrewOnly limit P w w := ⟨.refl w, rfl⟩

theorem GrewOnly.trans (h : GrewOnly limit P w w') (h' : GrewOnly limit P w' w'') :
    GrewOnly limit P w w'' := ⟨h.1.trans h'.1, h'.2.trans h.2⟩

theorem GrewOnly.mono (h : GrewOnly limit P w w') (hP : ∀ p, P p → P' p) :
    GrewOnly limit P' w w' := ⟨h.1.mono hP, h.2⟩

theorem grewOnly_makesDirs (h : w.MakesDirs w') : GrewOnly limit P w w' := by
  refine ⟨grew_makesDirs h, ?_⟩
  rw [LocalDisk.completions, h.2.1, LocalDisk.completions]

theorem grewOnly_appends {path : Str} {bytes : List UInt8} (hp : P path)
    (h : w.Appends limit path bytes w') : GrewOnly limit P w w' := by
  refine ⟨grew_appends hp h, ?_⟩
  obtain ⟨old, -, -, rfl⟩ := h
  rfl

/-- A report other than of a completed download. -/
theorem calm_report {m : AppAggMessage} (hm : ∀ c, m ≠ .completed c) :
    Calm w { w with reports := w.reports ++ [m] } := by
  refine ⟨rfl, rfl, List.prefix_append _ _, ?_⟩
  unfold LocalDisk.completions
  rw [List.filterMap_append]
  cases m with
  | completed c => exact absurd rfl (hm c)
  | _ => exact List.append_nil _

/-- A command that is not on a local file changes none. -/
theorem quiet_step {c : DownloaderCmd} {a : c.Ans} (hc : quiet c) (h : w.Step limit c a w') :
    w'.entry = w.entry := by
  cases c with
  | app m =>
    rw [show w' = _ from h]
  | pathExists path => rw [h.2]
  | metadataLen path =>
    cases a with
    | ok n => rw [h.2]
    | error e => rw [show w' = w from h]
  | createDirAll path => exact nomatch hc.2
  | fileCreate path => exact nomatch hc.1
  | fileOpenEnd path => exact nomatch hc.1
  | fileWrite path bytes => exact nomatch hc.1
  | _ => rw [show w' = w from h]

theorem calm_step {c : DownloaderCmd} {a : c.Ans} (hc : hushed c) (h : w.Step limit c a w') :
    Calm w w' := by
  have hsame : w' = w → Calm w w' := fun e => e ▸ Calm.refl w
  cases c with
  | app m =>
    rw [show w' = _ from h]
    exact calm_report fun c e => hc.2 c (e ▸ rfl)
  | pathExists path => exact hsame h.2
  | metadataLen path =>
    cases a with
    | ok n => exact hsame h.2
    | error e => exact hsame h
  | createDirAll path => exact nomatch hc.1.2
  | fileCreate path => exact nomatch hc.1.1
  | fileOpenEnd path => exact nomatch hc.1.1
  | fileWrite path bytes => exact nomatch hc.1.1
  | _ => exact hsame h

/-- **What is done besides the local files** does the same on every disk, and leaves it alone. -/
theorem wp_calm {α : Type} {C : Wire ⊕ DownloaderCmd → Prop} {m : Dl α}
    {Q : α → Thread SingleDownloader → Unit → Prop}
    {R : Exc → Thread SingleDownloader → Unit → Prop} {t : Thread SingleDownloader}
    (h : wp (anyAnswers C) m Q R t ()) (hC : ∀ c, C c → wireAnd hushed c) :
    wp (onDisk limit watch) m (fun a t' w' => Q a t' () ∧ Calm w w')
      (fun x t' w' => R x t' () ∧ Calm w w') t w := by
  refine wp_of_any h (fun w₁ t₁ c _ hc => ?_) (fun w₁ t₁ c a w₂ h₁ hc hstep => ?_) (Calm.refl w)
  · cases c with
    | inl c => exact trivial
    | inr c =>
      have hnot := (hC _ hc).2
      cases c with
      | app m =>
        cases m with
        | completed m => exact absurd rfl (hnot m)
        | _ => exact trivial
      | _ => exact trivial
  · cases c with
    | inl c => exact h₁.trans ((show w₂ = w₁ from hstep) ▸ Calm.refl w₁)
    | inr c => exact h₁.trans (calm_step (hC _ hc) hstep)

/-- The same for a method that keeps a part of the thread. -/
theorem wp_calm_keeps {α V : Type} {P : DownloaderCmd → Prop} {r : Thread SingleDownloader → V}
    {m : Dl α} (h : Keeps (wireAnd P) r m) (hP : ∀ c, P c → hushed c)
    (t : Thread SingleDownloader) (w : LocalDisk) :
    wp (onDisk limit watch) m (fun _ t' w' => r t' = r t ∧ Calm w w')
      (fun _ t' w' => r t' = r t ∧ Calm w w') t w := by
  refine wp_calm (h t) fun c hc => ?_
  cases c with
  | inl c => exact trivial
  | inr c => exact hP c hc

/-- A method that leaves the thread alone. -/
theorem wp_still {α : Type} {P : DownloaderCmd → Prop} {m : Dl α} (h : Still P m)
    (hP : ∀ c, P c → hushed c) (t : Thread SingleDownloader) (w : LocalDisk) :
    wp (onDisk limit watch) m (fun _ t' w' => t' = t ∧ Calm w w')
      (fun _ t' w' => t' = t ∧ Calm w w') t w :=
  wp_calm_keeps (r := fun t => t) (Keeps.mono h.keeps (wireAnd_of_own fun _ hc => hc)) hP t w

end Calm

/-- The thread when the active download has ended. -/
def finished (t : Thread SingleDownloader) : Thread SingleDownloader :=
  { t with
    self := { t.self with downloadQueue := t.self.downloadQueue.tail, activeDownloadPath := none } }

section Finish

variable {limit : Str → UInt64} {watch : LocalDisk → CompletedMessage → Prop}
  {t : Thread SingleDownloader} {w : LocalDisk}

theorem wp_setActiveDownloadFinished :
    wp (onDisk limit watch) setActiveDownloadFinished (fun _ t' w' => t' = finished t ∧ Calm w w')
      (fun _ _ w' => Calm w w') t w := by
  refine (wp_bind _ _).mpr ((wp_modifySelf _).mpr ?_)
  refine wp_seq (wp_still still_writeQueue (fun _ => hushed_of_onQueueFile) _ w)
    (fun _ t' w' h => ?_) fun _ _ _ h => h.2
  rw [h.1]
  exact ⟨rfl, h.2⟩

theorem wp_invalidateQueueItem (path message : Str) :
    wp (onDisk limit watch) (invalidateQueueItem path message)
      (fun _ t' w' => t' = finished t ∧ Calm w w') (fun _ _ w' => Calm w w') t w := by
  refine wp_seq wp_setActiveDownloadFinished (fun _ t₁ w₁ h₁ => ?_) fun _ _ _ h => h
  rw [h₁.1]
  refine wp_conseq (wp_still (still_appUpdateInvalidFile path message)
    (fun _ => hushed_of_reporting) _ w₁) (fun _ t' w' h => ?_) fun _ t' w' h => ?_
  · exact ⟨h.1, h₁.2.trans h.2⟩
  · exact h₁.2.trans h.2

/-- **An item is reported as completed** where it may be. -/
theorem wp_completeQueueItem {Q : Thread SingleDownloader → LocalDisk → Prop}
    {R : Exc → Thread SingleDownloader → LocalDisk → Prop} (path destinationPath : Str)
    (hwatch : ∀ w₁ m, Calm w w₁ → m.path = path → m.pathLocalDisk = destinationPath → watch w₁ m)
    (hQ : ∀ w₁ m, Calm w w₁ → m.path = path → m.pathLocalDisk = destinationPath →
      Q (finished t) { w₁ with reports := w₁.reports ++ [.completed m] })
    (hR : ∀ e t' w', Calm w w' → R e t' w') :
    wp (onDisk limit watch) (completeQueueItem path destinationPath) (fun _ => Q) R t w := by
  refine wp_seq wp_setActiveDownloadFinished (fun _ t₁ w₁ h₁ => ?_) hR
  rw [h₁.1]
  refine ⟨hwatch w₁ _ h₁.2 rfl rfl, fun _ w' hs => ?_⟩
  rw [show w' = _ from hs]
  exact hQ w₁ _ h₁.2 rfl rfl

end Finish

/-! ## 4. The methods that act on a local file -/

/-- The length of what stands at `path`; zero where nothing does. -/
def LocalDisk.lengthAt (w : LocalDisk) (path : Str) : Nat :=
  (w.entry path).elim 0 DiskEntry.length

section Files

variable {limit : Str → UInt64} {watch : LocalDisk → CompletedMessage → Prop}
  {t : Thread SingleDownloader} {w : LocalDisk}

theorem wp_localFileLength (path : Str) :
    wp (onDisk limit watch) (localFileLength path (w.entry path).isSome)
      (fun n t' w' => t' = t ∧ w' = w ∧ n.toNat = w.lengthAt path) (fun _ _ w' => w' = w) t w := by
  unfold localFileLength
  cases he : w.entry path with
  | none => exact ⟨rfl, rfl, by simp [LocalDisk.lengthAt, he]⟩
  | some e =>
    refine ⟨trivial, fun a w' hs => ?_⟩
    cases a with
    | error x => exact hs
    | ok n =>
      obtain ⟨⟨e', he', hn⟩, rfl⟩ := hs
      rw [he] at he'
      cases he'
      exact ⟨rfl, rfl, by simp [LocalDisk.lengthAt, he, hn]⟩

/-- A command whose answer is an error or nothing. -/
theorem wp_tryCommand {c : DownloaderCmd} {Q : Thread SingleDownloader → LocalDisk → Prop}
    {R : Exc → Thread SingleDownloader → LocalDisk → Prop} (f : c.Ans → Except Str Unit)
    (hc : ∀ m, c ≠ .app (.completed m))
    (hQ : ∀ a w', f a = .ok () → w.Step limit c a w' → Q t w')
    (hR : ∀ a w' e, f a = .error e → w.Step limit c a w' → R (.err e) t w') :
    wp (onDisk limit watch) (command c >>= fun a => tryIo (f a)) (fun _ => Q) R t w := by
  refine (wp_bind _ _).mpr ⟨?_, fun a w' hs => ?_⟩
  · cases c with
    | app m =>
      cases m with
      | completed m => exact absurd rfl (hc m)
      | _ => exact trivial
    | _ => exact trivial
  · show wp (onDisk limit watch) (tryIo (f a)) (fun _ => Q) R t w'
    cases hf : f a with
    | error e => exact hR a w' e hf hs
    | ok u => exact hQ a w' hf hs

variable (tr : Transfer)

/-- The place of the local file of a transfer. -/
def atDestination (p : Str) : Prop := p = tr.destinationPath

theorem wp_createDirAll {Q : Thread SingleDownloader → LocalDisk → Prop}
    {R : Exc → Thread SingleDownloader → LocalDisk → Prop} (path : Str)
    (hQ : ∀ w', w.MakesDirs w' → Q t w') (hR : ∀ w' e, w.MakesDirs w' → R e t w') :
    wp (onDisk limit watch) (command (.createDirAll path) >>= fun a => tryIo a) (fun _ => Q) R t w :=
  wp_tryCommand (c := .createDirAll path) id (by nofun) (fun _ w' _ hs => hQ w' hs)
    fun _ w' e _ hs => hR w' (.err e) hs

/-- What is at the destination where a file is created: nothing before, an empty file then. -/
theorem wp_fileCreate {Q : Thread SingleDownloader → LocalDisk → Prop}
    {R : Exc → Thread SingleDownloader → LocalDisk → Prop}
    (hnew : w.entry tr.destinationPath = none ∨ ∃ n, w.entry tr.destinationPath = some (.dir n))
    (hQ : GrewOnly limit (atDestination tr) w (w.put tr.destinationPath []) →
      Q t (w.put tr.destinationPath [])) (hR : ∀ e, R e t w) :
    wp (onDisk limit watch) (command (.fileCreate tr.destinationPath) >>= fun a => tryIo a)
      (fun _ => Q) R t w := by
  refine wp_tryCommand (c := .fileCreate tr.destinationPath) id (by nofun)
    (fun a w' ha hs => ?_) fun a w' e ha hs => ?_
  · obtain rfl : a = .ok () := ha
    obtain ⟨hdir, rfl⟩ := hs
    rcases hnew with hnone | ⟨n, hn⟩
    · exact hQ ⟨grew_create rfl hnone, rfl⟩
    · exact absurd hn (hdir n)
  · obtain rfl : a = .error e := ha
    rw [show w' = w from hs]
    exact hR _

/-- What stands at a path has the length `lengthAt`. -/
theorem lengthAt_of_entry {path : Str} {e : DiskEntry} (h : w.entry path = some e) :
    w.lengthAt path = e.length := by
  rw [LocalDisk.lengthAt, h]
  rfl

/-- The valid, empty file is there afterwards; another file of the listed length is there before. -/
theorem wp_createEmptyFile
    (h : w.lengthAt tr.destinationPath = tr.sharedFile.fileSize.toNat) :
    wp (onDisk limit watch) (createEmptyFile tr (w.entry tr.destinationPath).isSome)
      (fun _ t' w' => t' = t ∧ GrewOnly limit (atDestination tr) w w' ∧
        ∃ e, w'.entry tr.destinationPath = some e ∧ e.length = tr.sharedFile.fileSize.toNat)
      (fun _ _ w' => GrewOnly limit (atDestination tr) w w') t w := by
  unfold createEmptyFile
  cases he : w.entry tr.destinationPath with
  | some e =>
    rw [if_neg (by simp)]
    exact ⟨rfl, .refl w, e, he, (lengthAt_of_entry he).symm.trans h⟩
  | none =>
    have hzero : tr.sharedFile.fileSize.toNat = 0 := by
      rw [← h, LocalDisk.lengthAt, he]
      rfl
    have hsize : tr.sharedFile.fileSize = 0 := UInt64.toNat.inj hzero
    rw [if_pos (by simp [hsize])]
    refine wp_bind_assoc.mp ((wp_bind _ _).mpr ?_)
    refine wp_createDirAll _ (fun w₁ h₁ => ?_) fun w₁ e h₁ => grewOnly_makesDirs h₁
    have hnew : w₁.entry tr.destinationPath = none ∨
        ∃ n, w₁.entry tr.destinationPath = some (.dir n) := by
      rcases h₁.2.2 tr.destinationPath with h | ⟨-, h⟩
      · exact .inl (h.trans he)
      · exact .inr h
    refine wp_fileCreate tr hnew (fun h => ?_) fun e => grewOnly_makesDirs h₁
    exact ⟨rfl, (grewOnly_makesDirs h₁).trans h, _, entry_put_self _ _ _, hzero.symm⟩

theorem wp_openDestination :
    wp (onDisk limit watch) (openDestination tr)
      (fun _ t' w' => t' = t ∧ GrewOnly limit (atDestination tr) w w' ∧
        ∃ bytes, w'.entry tr.destinationPath = some (.file bytes) ∧
          bytes.length = w.lengthAt tr.destinationPath)
      (fun _ _ w' => GrewOnly limit (atDestination tr) w w') t w := by
  unfold openDestination
  refine wp_bind_assoc.mp ((wp_bind _ _).mpr ?_)
  refine wp_createDirAll _ (fun w₁ h₁ => ?_) fun w₁ e h₁ => grewOnly_makesDirs h₁
  have hgrew : GrewOnly limit (atDestination tr) w w₁ := grewOnly_makesDirs h₁
  refine (wp_bind _ _).mpr ⟨trivial, fun a w₂ hs => ?_⟩
  obtain ⟨rfl, hw₂⟩ := hs
  rw [hw₂]
  refine (wp_ite _ _ _).mpr ?_
  cases he : w₁.entry tr.destinationPath with
  | none =>
    rw [if_neg (by simp)]
    refine wp_fileCreate tr (.inl he) (fun h => ?_) fun e => hgrew
    refine ⟨rfl, hgrew.trans h, [], entry_put_self _ _ _, ?_⟩
    rcases h₁.2.2 tr.destinationPath with h | ⟨-, n, h⟩
    · rw [LocalDisk.lengthAt, ← h, he]
      rfl
    · rw [he] at h
      cases h
  | some e =>
    rw [if_pos (by simp)]
    refine wp_tryCommand (c := .fileOpenEnd tr.destinationPath) id (by nofun)
      (fun a w' ha hs => ?_) fun a w' x ha hs => ?_
    · obtain rfl : a = .ok () := ha
      obtain ⟨⟨bytes, hbytes⟩, rfl⟩ := hs
      refine ⟨rfl, hgrew, bytes, hbytes, ?_⟩
      rcases h₁.2.2 tr.destinationPath with h | ⟨-, n, h⟩
      · rw [LocalDisk.lengthAt, ← h, hbytes]
        rfl
      · rw [hbytes] at h
        cases h
    · obtain rfl : a = .error x := ha
      rw [show w' = w₁ from hs]
      exact hgrew

/-- A write at the end of the local file: it succeeds, or it fails and has written a part at most. -/
theorem wp_fileWrite {Q : Thread SingleDownloader → LocalDisk → Prop}
    {R : Exc → Thread SingleDownloader → LocalDisk → Prop} (bytes : List UInt8)
    (hQ : ∀ w', w.Appends limit tr.destinationPath bytes w' → Q t w')
    (hR : ∀ w' e, GrewOnly limit (atDestination tr) w w' → R e t w') :
    wp (onDisk limit watch)
      (command (.fileWrite tr.destinationPath bytes) >>= fun a => tryIo a) (fun _ => Q) R t w := by
  refine wp_tryCommand (c := .fileWrite tr.destinationPath bytes) id (by nofun)
    (fun a w' ha hs => ?_) fun a w' e ha hs => ?_
  · obtain rfl : a = .ok () := ha
    exact hQ w' hs
  · obtain rfl : a = .error e := ha
    rcases hs with rfl | ⟨part, -, hpart⟩
    · exact hR w' _ (.refl w')
    · exact hR w' _ (grewOnly_appends rfl hpart)

end Files

/-! ## 5. A disk to run on -/

/-- The length of what stands at a path, if it is a length. -/
def lengthAnswer : Option DiskEntry → Except Str UInt64
  | some e => if e.length < 2 ^ 64 then .ok (UInt64.ofNat e.length) else .error []
  | none => .error []

theorem lengthAnswer_ok {x : Option DiskEntry} {n : UInt64} (h : lengthAnswer x = .ok n) :
    ∃ e, x = some e ∧ n.toNat = e.length := by
  cases x with
  | none => cases h
  | some e =>
    by_cases hlt : e.length < 2 ^ 64
    · rw [lengthAnswer, if_pos hlt] at h
      obtain rfl := Except.ok.inj h
      refine ⟨e, rfl, ?_⟩
      rw [UInt64.toNat_ofNat']
      exact Nat.mod_eq_of_lt hlt
    · rw [lengthAnswer, if_neg hlt] at h
      exact nomatch h

/-- A disk on which everything succeeds that may; `wire` answers the commands on the stream. -/
def runDisk (limit : Str → UInt64) (wire : (c : Wire) → c.Ans) :
    (c : Wire ⊕ DownloaderCmd) → LocalDisk → Ans DownloaderCmd.Ans c × LocalDisk
  | .inl c, w => (wire c, w)
  | .inr (.pathExists path), w => ((w.entry path).isSome, w)
  | .inr (.metadataLen path), w => (lengthAnswer (w.entry path), w)
  | .inr (.fileCreate path), w =>
    match w.entry path with
    | some (.dir _) => (.error [], w)
    | _ => (.ok (), w.put path [])
  | .inr (.fileOpenEnd path), w =>
    match w.entry path with
    | some (.file _) => (.ok (), w)
    | _ => (.error [], w)
  | .inr (.fileWrite path bytes), w =>
    match w.entry path with
    | some (.file old) =>
      if old.length + bytes.length ≤ (limit path).toNat then (.ok (), w.wrote path old bytes)
      else (.error [], w)
    | _ => (.error [], w)
  | .inr (.app m), w => ((), { w with reports := w.reports ++ [m] })
  | .inr c, w => (restAnswers (.inr c), w)

theorem runDisk_step {limit : Str → UInt64} {watch : LocalDisk → CompletedMessage → Prop}
    (wire : (c : Wire) → c.Ans) (w : LocalDisk) (t : Thread SingleDownloader)
    (c : Wire ⊕ DownloaderCmd) :
    (onDisk limit watch).step w t c (runDisk limit wire c w).1 (runDisk limit wire c w).2 := by
  cases c with
  | inl c => exact rfl
  | inr c =>
    cases c with
    | metadataLen path =>
      show w.Step limit (.metadataLen path) (lengthAnswer (w.entry path)) w
      cases h : lengthAnswer (w.entry path) with
      | error e => exact rfl
      | ok n => exact ⟨lengthAnswer_ok h, rfl⟩
    | pathExists path => exact ⟨rfl, rfl⟩
    | createDirAll path => exact ⟨rfl, rfl, fun _ => .inl rfl⟩
    | fileCreate path =>
      simp only [runDisk]
      cases he : w.entry path with
      | none => exact ⟨fun n => by rw [he]; nofun, rfl⟩
      | some e =>
        cases e with
        | dir n => exact rfl
        | file bytes => exact ⟨fun n => by rw [he]; nofun, rfl⟩
    | fileOpenEnd path =>
      simp only [runDisk]
      cases he : w.entry path with
      | none => exact rfl
      | some e =>
        cases e with
        | dir n => exact rfl
        | file bytes => exact ⟨⟨bytes, he⟩, rfl⟩
    | fileWrite path bytes =>
      simp only [runDisk]
      cases he : w.entry path with
      | none => exact .inl rfl
      | some e =>
        cases e with
        | dir n => exact .inl rfl
        | file old =>
          by_cases hle : old.length + bytes.length ≤ (limit path).toNat
          · simp only [if_pos hle]
            exact ⟨old, he, hle, rfl⟩
          · simp only [if_neg hle]
            exact .inl rfl
    | queueRead path => exact rfl
    | queueRemove path => exact rfl
    | queueWrite path bytes => exact rfl
    | app m => exact rfl
    | _ => exact rfl

end Transmitic
