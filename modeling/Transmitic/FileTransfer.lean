/-
  File:      Transmitic/FileTransfer.lean
  Subject:   ONE FILE ON THE LOCAL DISK, from the first look at it to the last chunk.

  The length of the local file is kept in a counter. The proofs go along with the code: what stands at
  the destination when a part of `download_shared_file` starts, and what stands there when it ends.

  * `ExactFile` -- what has to be true of the disk when a file is reported as completed;
  * `Transferred`, `wp_transferLoop` -- **the loop over the chunks ends with the listed length, unless
    it is told to stop**;
  * `Visited`, `wp_downloadFile` -- one file, from the first look at it on.
-/
import Transmitic.LocalDisk

namespace Transmitic

open Lib

/-! ## 1. Lengths -/

/-- A counter that does not overflow. -/
theorem toNat_add_ofNat {a : UInt64} {n : Nat} (h : a.toNat + n < 2 ^ 64) :
    (a + UInt64.ofNat n).toNat = a.toNat + n := by
  have hn : n % 2 ^ 64 = n := Nat.mod_eq_of_lt (by omega)
  rw [UInt64.toNat_add, UInt64.toNat_ofNat', hn]
  exact Nat.mod_eq_of_lt h

/-! ## 2. What is true when a file is reported as completed -/

/-- The report `m` is about the file `f` of the queue item `q` at `path`: the sizes agree, and what
    stands there is as long. -/
structure ExactFile (q : DownloadQueueItem) (f : SharedFile) (path : Str) (w : LocalDisk)
    (m : CompletedMessage) : Prop where
  isQueueFile : f.path = q.path
  path_eq : m.path = q.path
  pathLocalDisk : m.pathLocalDisk = path
  fileSize : q.fileSize = f.fileSize
  length : ∃ e, w.entry path = some e ∧ e.length = q.fileSize.toNat

/-- No download of this kind was reported as completed on the way from `w` to `w'`, or one was, and
    `Exact` is true of it. -/
def CompletedOnce (Exact : CompletedMessage → Prop) (w w' : LocalDisk) : Prop :=
  w'.completions = w.completions ∨ ∃ m, Exact m ∧ w'.completions = w.completions ++ [m]

section Transfer

variable {limit : Str → UInt64} {watch : LocalDisk → CompletedMessage → Prop}
  {t t' t₁ : Thread SingleDownloader} {w w' w₁ : LocalDisk} {tr : Transfer}

/-- What a thread is left with: it has the active download it had, or none, and goes on only where it
    was not told to stop. -/
structure Onward (t t' : Thread SingleDownloader) : Prop where
  active : t'.self.activeDownloadPath = t.self.activeDownloadPath ∨
    t'.self.activeDownloadPath = none
  stop : t.self.stopDownloading = true → t'.self.stopDownloading = true

theorem Onward.refl (t : Thread SingleDownloader) : Onward t t := ⟨.inl rfl, id⟩

theorem Onward.trans (h : Onward t t₁) (h' : Onward t₁ t') : Onward t t' where
  active := by
    rcases h'.active with ha | ha
    · rw [ha]
      exact h.active
    · exact .inr ha
  stop hs := h'.stop (h.stop hs)

theorem onward_finished (t : Thread SingleDownloader) : Onward t (finished t) := ⟨.inr rfl, id⟩

theorem Polled.onward (h : Polled t t') : Onward t t' := ⟨h.active, h.stop⟩

/-! ## 3. The loop over the chunks -/

/-- What the loop over the chunks leaves: where it was not told to stop, the local file has the
    expected length. -/
structure Transferred (limit : Str → UInt64) (tr : Transfer) (t : Thread SingleDownloader)
    (w : LocalDisk) (t' : Thread SingleDownloader) (w' : LocalDisk) : Prop where
  grew : Grew limit (atDestination tr) w w'
  onward : Onward t t'
  completed : CompletedOnce (ExactFile tr.queueDownload tr.sharedFile tr.destinationPath w') w w'
  length : t'.self.stopDownloading = false →
    ∃ e, w'.entry tr.destinationPath = some e ∧ e.length = tr.sharedFile.fileSize.toNat

/-- Steps before the loop. -/
theorem Transferred.after (ht : Onward t t₁) (hw : GrewOnly limit (atDestination tr) w w₁)
    (h : Transferred limit tr t₁ w₁ t' w') : Transferred limit tr t w t' w' where
  grew := hw.1.trans h.grew
  onward := ht.trans h.onward
  completed := by
    rcases h.completed with hc | ⟨m, hm, hc⟩
    · exact .inl (hc.trans hw.2)
    · exact .inr ⟨m, hm, by rw [hc, hw.2]⟩
  length := h.length

/-- A report of a completed download changes the reports only. -/
theorem completions_report (w : LocalDisk) (m : CompletedMessage) :
    LocalDisk.completions { w with reports := w.reports ++ [.completed m] } =
      w.completions ++ [m] := by
  unfold LocalDisk.completions
  rw [List.filterMap_append]
  rfl

/-- The download may be reported as completed where the local file is exact. -/
def WatchesExact (watch : LocalDisk → CompletedMessage → Prop) (tr : Transfer) : Prop :=
  ∀ w m, ExactFile tr.queueDownload tr.sharedFile tr.destinationPath w m → watch w m

/-- Both sides agree that the file is finished. -/
theorem wp_finishTransfer (hwatch : WatchesExact watch tr)
    (hsize : tr.isQueueFileDownloading = true → tr.queueDownload.fileSize = tr.sharedFile.fileSize)
    {e : DiskEntry} (he : w.entry tr.destinationPath = some e)
    (hlength : e.length = tr.sharedFile.fileSize.toNat) :
    wp (onDisk limit watch) (finishTransfer tr) (fun _ t' w' => Transferred limit tr t w t' w')
      (fun _ _ w' => GrewOnly limit (atDestination tr) w w') t w := by
  unfold finishTransfer
  refine (wp_ite _ _ _).mpr ?_
  by_cases hq : tr.isQueueFileDownloading = true
  · rw [if_pos hq]
    have hpath : tr.sharedFile.path = tr.queueDownload.path := by
      simpa [Transfer.isQueueFileDownloading] using hq
    have hexact : ∀ (w₁ : LocalDisk) (m : CompletedMessage), w₁.entry = w.entry →
        m.path = tr.queueDownload.path → m.pathLocalDisk = tr.destinationPath →
        ExactFile tr.queueDownload tr.sharedFile tr.destinationPath w₁ m := by
      intro w₁ m hentry hm hd
      refine ⟨hpath, hm, hd, hsize hq, e, ?_, ?_⟩
      · rw [hentry, he]
      · rw [hsize hq, hlength]
    refine wp_completeQueueItem _ _ (fun w₁ m h₁ hm hd => hwatch w₁ m (hexact w₁ m h₁.entry hm hd))
      (fun w₁ m h₁ hm hd => ?_) fun _ _ w' h => h.grewOnly
    refine ⟨?_, onward_finished t, .inr ⟨m, hexact _ m h₁.entry hm hd, ?_⟩, fun _ => ⟨e, ?_, hlength⟩⟩
    · exact h₁.grewOnly.1.trans (grew_report _)
    · rw [completions_report, h₁.completions]
    · show w₁.entry tr.destinationPath = some e
      rw [h₁.entry, he]
  · rw [if_neg hq]
    exact ⟨.refl w, .refl t, .inl rfl, fun _ => ⟨e, he, hlength⟩⟩

/-- The two sides disagree: nothing is reported as completed. -/
theorem wp_failTransfer (isLocalFinished isRemoteFinished : Bool)
    {Q : Unit → Thread SingleDownloader → LocalDisk → Prop} :
    wp (onDisk limit watch) (failTransfer tr isLocalFinished isRemoteFinished) Q
      (fun _ _ w' => GrewOnly limit (atDestination tr) w w') t w := by
  have hinvalid : ∀ err t₁ w₁, Calm w w₁ → wp (onDisk limit watch)
      (appUpdateInvalidFile tr.sharedFile.path err >>= fun _ => throw (.err err)) Q
      (fun _ _ w' => GrewOnly limit (atDestination tr) w w') t₁ w₁ := by
    intro err t₁ w₁ h₁
    refine wp_seq (wp_still (still_appUpdateInvalidFile _ _) (fun _ => hushed_of_reporting) t₁ w₁)
      (fun _ t₂ w₂ h₂ => ?_) fun _ t₂ w₂ h₂ => ?_
    · exact (h₁.trans h₂.2).grewOnly
    · exact (h₁.trans h₂.2).grewOnly
  unfold failTransfer
  refine (wp_bind _ _).mpr ((wp_ite _ _ _).mpr ?_)
  split
  · refine wp_conseq wp_setActiveDownloadFinished (fun _ t₁ w₁ h₁ => hinvalid _ t₁ w₁ h₁.2) ?_
    exact fun _ _ w' h => h.grewOnly
  · exact hinvalid _ t w (Calm.refl w)

theorem wp_getPayload [Crates] {T L W : Type} {LA : L → Type} {E : Env (Thread T) (Wire ⊕ L) (Ans LA) W}
    {Q : List UInt8 → Thread T → W → Prop} {R : Exc → Thread T → W → Prop} {t : Thread T} {w : W}
    (hQ : ∀ payload, t.encryptedStream.getPayload = .ok payload → Q payload t w)
    (hR : ∀ e, R e t w) : wp E (getPayload : Method T LA (List UInt8)) Q R t w := by
  show wp E (orThrow t.encryptedStream.getPayload) Q R t w
  cases h : t.encryptedStream.getPayload with
  | error e => exact hR e
  | ok payload => exact hQ payload h

/-- Reading a message leaves the disk alone, and the thread's own state. -/
theorem wp_readAnything (t : Thread SingleDownloader) (w : LocalDisk) :
    wp (onDisk limit watch) read (fun _ t' w' => t'.self = t.self ∧ Calm w w')
      (fun _ t' w' => t'.self = t.self ∧ Calm w w') t w :=
  wp_calm_keeps (P := fun _ => False) keeps_read (fun _ hc => hc.elim) t w

theorem onward_of_self (h : t'.self = t.self) : Onward t t' :=
  ⟨.inl (by rw [h]), fun hs => by rw [h, hs]⟩

/-- **The loop over the chunks**, from any length of the local file on. -/
theorem wp_transferLoop [Crates] (hwatch : WatchesExact watch tr)
    (hsize : tr.isQueueFileDownloading = true → tr.queueDownload.fileSize = tr.sharedFile.fileSize) :
    ∀ (fuel : Nat) (remoteMessage : UInt16) (currentDownloadedBytes : UInt64)
      (t : Thread SingleDownloader) (w : LocalDisk) (bytes : List UInt8),
      w.entry tr.destinationPath = some (.file bytes) →
      currentDownloadedBytes.toNat = bytes.length →
      wp (onDisk limit watch) (transferLoop tr fuel remoteMessage currentDownloadedBytes)
        (fun _ t' w' => Transferred limit tr t w t' w')
        (fun _ _ w' => GrewOnly limit (atDestination tr) w w') t w
  | 0, _, _, t, w, _, _, _ => .refl w
  | fuel + 1, remoteMessage, currentDownloadedBytes, t, w, bytes, hentry, hcurrent => by
    refine (wp_bind _ _).mpr (wp_getPayload (fun payload _ => ?_) fun _ => .refl w)
    refine (wp_bind _ _).mpr ((wp_modifySelf _).mpr ?_)
    generalize ht₁ : Thread.mk _ _ = t₁
    have h₁ : Onward t t₁ := by
      rw [← ht₁]
      exact ⟨.inl rfl, id⟩
    refine wp_bind_assoc.mp ((wp_bind _ _).mpr (wp_fileWrite tr payload (fun w₂ happ => ?_) ?_))
    rotate_left
    · exact fun w' _ h => h
    have hgrew : GrewOnly limit (atDestination tr) w w₂ := grewOnly_appends rfl happ
    -- the file is now as long as the counter says
    obtain ⟨old, hold, hlimit, hw₂⟩ := happ
    rw [hentry] at hold
    cases hold
    have hentry₂ : w₂.entry tr.destinationPath = some (.file (bytes ++ payload)) := by
      rw [hw₂]
      exact entry_put_self _ _ _
    have hcurrent₂ : (currentDownloadedBytes + UInt64.ofNat payload.length).toNat =
        (bytes ++ payload).length := by
      rw [toNat_add_ofNat, hcurrent, List.length_append]
      have hlt := (limit tr.destinationPath).toNat_lt
      omega
    refine wp_seq (wp_still still_updateProgress (fun _ => hushed_of_reporting) t₁ w₂)
      (fun _ t₃ w₃ h₃ => ?_) fun _ _ w₃ h₃ => hgrew.trans h₃.2.grewOnly
    rw [h₃.1]
    have hgrew₃ := hgrew.trans h₃.2.grewOnly
    have hentry₃ : w₃.entry tr.destinationPath = some (.file (bytes ++ payload)) := by
      rw [h₃.2.entry, hentry₂]
    refine (wp_ite _ _ _).mpr ?_
    split
    · rename_i hboth
      refine wp_conseq (wp_finishTransfer hwatch hsize hentry₃ ?_) (fun _ t' w' h => ?_) ?_
      · simp only [Bool.and_eq_true, decide_eq_true_eq] at hboth
        rw [DiskEntry.length, ← hcurrent₂, hboth.2, Transfer.expectedSize]
        split
        · rw [hsize ‹_›]
        · rfl
      · exact h.after h₁ hgrew₃
      · exact fun _ _ w' h => hgrew₃.trans h
    · refine (wp_ite _ _ _).mpr ?_
      split
      · exact wp_conseq (wp_failTransfer _ _) (fun _ _ _ h => h) fun _ _ w' h => hgrew₃.trans h
      · refine wp_seq (wp_readAnything t₁ w₃) (fun _ t₄ w₄ h₄ => ?_)
          fun _ _ w₄ h₄ => hgrew₃.trans h₄.2.grewOnly
        have hgrew₄ := hgrew₃.trans h₄.2.grewOnly
        show wp (onDisk limit watch) (throwIf _ _ >>= _) _ _ t₄ w₄
        refine (wp_bind _ _).mpr ((wp_throwIf _ _).mpr ?_)
        split
        · exact hgrew₄
        refine wp_seq (wp_calm (wp_readReceiver fuel t₄) (wireAnd_of_own fun _ hc => hc))
          (fun _ t₅ w₅ h₅ => ?_) fun _ _ w₅ h₅ => hgrew₄.trans h₅.2.grewOnly
        have hgrew₅ := hgrew₄.trans h₅.2.grewOnly
        have honward : Onward t t₅ :=
          (h₁.trans (onward_of_self h₄.1)).trans h₅.1.onward
        show wp (onDisk limit watch) (if t₅.self.stopDownloading = true then pure () else _) _ _ t₅ w₅
        refine (wp_ite _ _ _).mpr ?_
        split
        · rename_i hstop
          refine ⟨hgrew₅.1, honward, .inl hgrew₅.2, fun hs => ?_⟩
          rw [hstop] at hs
          cases hs
        · have hentry₅ : w₅.entry tr.destinationPath = some (.file (bytes ++ payload)) := by
            rw [h₅.2.entry, h₄.2.entry, hentry₃]
          refine wp_conseq (wp_transferLoop hwatch hsize fuel _ _ t₅ w₅ _ hentry₅ hcurrent₂)
            (fun _ t' w' h => h.after honward hgrew₅) fun _ _ w' h => hgrew₅.trans h

theorem wp_transferFile [Crates] (hwatch : WatchesExact watch tr)
    (hsize : tr.isQueueFileDownloading = true → tr.queueDownload.fileSize = tr.sharedFile.fileSize)
    (fuel : Nat) {fileLength : UInt64} (hlength : fileLength.toNat = w.lengthAt tr.destinationPath) :
    wp (onDisk limit watch) (transferFile fuel tr fileLength)
      (fun _ t' w' => Transferred limit tr t w t' w')
      (fun _ _ w' => GrewOnly limit (atDestination tr) w w') t w := by
  refine wp_seq (wp_calm_keeps (P := fun _ => False) (keeps_write _ _) (fun _ hc => hc.elim) t w)
    (fun _ t₁ w₁ h₁ => ?_) fun _ _ w₁ h₁ => h₁.2.grewOnly
  refine wp_seq (wp_readAnything t₁ w₁) (fun _ t₂ w₂ h₂ => ?_)
    fun _ _ w₂ h₂ => (h₁.2.trans h₂.2).grewOnly
  have hcalm := h₁.2.trans h₂.2
  show wp (onDisk limit watch) (if t₂.encryptedStream.getMessage = msgFileInvalidFile then _ else _)
    _ _ t₂ w₂
  refine (wp_ite _ _ _).mpr ?_
  split
  · refine wp_seq (wp_calm_keeps (keeps_setEverythingFile fuel true)
      (fun _ hc => hushed_of_onCache hc) t₂ w₂) (fun _ t₃ w₃ h₃ => ?_)
      fun _ _ w₃ h₃ => (hcalm.trans h₃.2).grewOnly
    exact (hcalm.trans h₃.2).grewOnly
  · show wp (onDisk limit watch) (throwIf _ _ >>= _) _ _ t₂ w₂
    refine (wp_bind _ _).mpr ((wp_throwIf _ _).mpr ?_)
    split
    · exact hcalm.grewOnly
    refine wp_seq (wp_openDestination tr) (fun _ t₃ w₃ h₃ => ?_)
      fun _ _ w₃ h₃ => hcalm.grewOnly.trans h₃
    obtain ⟨rfl, hgrew, bytes, hentry, hbytes⟩ := h₃
    have hcurrent : fileLength.toNat = bytes.length := by
      rw [hlength, hbytes, LocalDisk.lengthAt, LocalDisk.lengthAt, hcalm.entry]
    have hself : t₃.self = t.self := h₂.1.trans h₁.1
    refine wp_conseq (wp_transferLoop hwatch hsize fuel _ _ t₃ w₃ bytes hentry hcurrent)
      (fun _ t' w' h => ?_) fun _ _ w' h => ?_
    · exact h.after (onward_of_self hself) (hcalm.grewOnly.trans hgrew)
    · exact (hcalm.grewOnly.trans hgrew).trans h

/-! ## 4. One file -/

/-- From `w` to `w'` the file `path` of the listing was reported as invalid. -/
def Reported (w w' : LocalDisk) (path : Str) : Prop :=
  ∃ m, .invalidFile m ∈ w'.reports.drop w.reports.length ∧ m.invalidPath = path

theorem reported_now (w : LocalDisk) (m : InvalidFileMessage) :
    Reported w { w with reports := w.reports ++ [.invalidFile m] } m.invalidPath := by
  refine ⟨m, ?_, rfl⟩
  show _ ∈ (w.reports ++ [AppAggMessage.invalidFile m]).drop w.reports.length
  rw [List.drop_left]
  exact List.mem_cons_self

/-- A report stays a report. -/
theorem Reported.mono {w₀ w w' w'' : LocalDisk} {path : Str} (h : Reported w w' path)
    (h₀ : w₀.reports <+: w.reports) (h₁ : w.reports <+: w'.reports)
    (h₂ : w'.reports <+: w''.reports) : Reported w₀ w'' path := by
  obtain ⟨m, hm, hpath⟩ := h
  obtain ⟨r₀, h₀⟩ := h₀
  obtain ⟨r₁, h₁⟩ := h₁
  obtain ⟨r₂, h₂⟩ := h₂
  refine ⟨m, ?_, hpath⟩
  rw [← h₁, List.drop_left] at hm
  rw [← h₂, ← h₁, ← h₀, List.append_assoc, List.append_assoc, List.drop_left]
  exact List.mem_append_right _ (List.mem_append_left _ hm)

/-- What a download of one file leaves: the local file has only grown, and if it was not told to stop,
    to the listed length at once; it has this length, or is longer and was reported. -/
structure Visited (limit : Str → UInt64) (tr : Transfer) (t : Thread SingleDownloader)
    (w : LocalDisk) (t' : Thread SingleDownloader) (w' : LocalDisk) : Prop where
  grew : Grew limit (atDestination tr) w w'
  onward : Onward t t'
  completed : CompletedOnce (ExactFile tr.queueDownload tr.sharedFile tr.destinationPath w') w w'
  lengths : t'.self.stopDownloading = false → ∀ e, w.entry tr.destinationPath = some e →
    ∃ e', w'.entry tr.destinationPath = some e' ∧ (e'.length = e.length ∨
      e.length < tr.sharedFile.fileSize.toNat ∧ e'.length = tr.sharedFile.fileSize.toNat)
  settled : t'.self.stopDownloading = false → tr.isQueueFileDownloading = false →
    ∃ e, w'.entry tr.destinationPath = some e ∧ (e.length = tr.sharedFile.fileSize.toNat ∨
      tr.sharedFile.fileSize.toNat < e.length ∧ Reported w w' tr.sharedFile.path)

/-- A file that was shorter than it is listed. -/
theorem Transferred.visited (h : Transferred limit tr t w t' w')
    (hlt : w.lengthAt tr.destinationPath < tr.sharedFile.fileSize.toNat) :
    Visited limit tr t w t' w' where
  grew := h.grew
  onward := h.onward
  completed := h.completed
  lengths hs e he := by
    obtain ⟨e', he', hlength⟩ := h.length hs
    exact ⟨e', he', .inr ⟨lengthAt_of_entry he ▸ hlt, hlength⟩⟩
  settled hs _ := by
    obtain ⟨e', he', hlength⟩ := h.length hs
    exact ⟨e', he', .inl hlength⟩

/-- A step of the thread before. -/
theorem Visited.after (ht : Onward t t₁) (h : Visited limit tr t₁ w t' w') :
    Visited limit tr t w t' w' where
  grew := h.grew
  onward := ht.trans h.onward
  completed := h.completed
  lengths := h.lengths
  settled := h.settled

/-- What the checks on a file leave. -/
def Checked (limit : Str → UInt64) (tr : Transfer) (t : Thread SingleDownloader) (w : LocalDisk)
    (needed : Bool) (t' : Thread SingleDownloader) (w' : LocalDisk) : Prop :=
  if needed then t' = t ∧ w' = w ∧ w.lengthAt tr.destinationPath < tr.sharedFile.fileSize.toNat ∧
    (tr.isQueueFileDownloading = true → tr.queueDownload.fileSize = tr.sharedFile.fileSize)
  else Visited limit tr t w t' w'

/-- The item is taken off the queue as invalid; the local file is left alone. -/
theorem visited_invalid (hq : tr.isQueueFileDownloading = true) (h : Calm w w') :
    Visited limit tr t w (finished t) w' where
  grew := h.grewOnly.1
  onward := onward_finished t
  completed := .inl h.completions
  lengths _ e he := ⟨e, by rw [h.entry, he], .inl rfl⟩
  settled _ hne := by
    rw [hq] at hne
    cases hne

theorem lt_of_length {fileLength size : UInt64} (h : fileLength < size) {n : Nat}
    (hn : fileLength.toNat = n) : n < size.toNat := by
  rw [← hn]
  exact UInt64.lt_iff_toNat_lt.mp h

theorem wp_checkQueueFile (hwatch : WatchesExact watch tr) (hq : tr.isQueueFileDownloading = true)
    {fileLength : UInt64} (hlength : fileLength.toNat = w.lengthAt tr.destinationPath) :
    wp (onDisk limit watch) (checkQueueFile tr (w.entry tr.destinationPath).isSome fileLength)
      (Checked limit tr t w) (fun _ _ w' => GrewOnly limit (atDestination tr) w w') t w := by
  have hpath : tr.sharedFile.path = tr.queueDownload.path := by
    simpa [Transfer.isQueueFileDownloading] using hq
  have hinvalid : ∀ path message, wp (onDisk limit watch)
      (invalidateQueueItem path message >>= fun _ => pure false) (Checked limit tr t w)
      (fun _ _ w' => GrewOnly limit (atDestination tr) w w') t w := by
    intro path message
    refine wp_seq (wp_invalidateQueueItem path message) (fun _ t₁ w₁ h => ?_)
      fun _ _ w₁ h => h.grewOnly
    rw [h.1]
    exact visited_invalid hq h.2
  unfold checkQueueFile
  by_cases hsize : tr.queueDownload.fileSize ≠ tr.sharedFile.fileSize
  · rw [if_pos hsize]
    exact hinvalid _ _
  rw [if_neg hsize]
  have hsize : tr.queueDownload.fileSize = tr.sharedFile.fileSize := not_not.mp hsize
  by_cases hlt : fileLength < tr.queueDownload.fileSize
  · rw [if_pos hlt]
    exact ⟨rfl, rfl, lt_of_length (hsize ▸ hlt) hlength, fun _ => hsize⟩
  rw [if_neg hlt]
  by_cases heq : fileLength = tr.queueDownload.fileSize
  · rw [if_pos heq]
    have hexact : w.lengthAt tr.destinationPath = tr.sharedFile.fileSize.toNat := by
      rw [← hlength, heq, hsize]
    refine wp_seq (wp_createEmptyFile tr hexact) (fun _ t₁ w₁ h₁ => ?_) fun _ _ w₁ h => h
    obtain ⟨rfl, hgrew, e, he, hlen⟩ := h₁
    refine (wp_bind _ _).mpr ?_
    have hreport : ∀ (w₂ : LocalDisk) (m : CompletedMessage), w₂.entry = w₁.entry →
        m.path = tr.queueDownload.path → m.pathLocalDisk = tr.destinationPath →
        ExactFile tr.queueDownload tr.sharedFile tr.destinationPath w₂ m := by
      intro w₂ m hentry hm hd
      refine ⟨hpath, hm, hd, hsize, e, ?_, ?_⟩
      · rw [hentry, he]
      · rw [hsize, hlen]
    refine wp_completeQueueItem _ _ (fun w₂ m h₂ hm hd => hwatch w₂ m (hreport w₂ m h₂.entry hm hd))
      (fun w₂ m h₂ hm hd => ?_) fun _ _ w' h => hgrew.trans h.grewOnly
    have hentry₂ : w₂.entry tr.destinationPath = some e := by rw [h₂.entry, he]
    refine ⟨?_, onward_finished _, .inr ⟨m, hreport _ m h₂.entry hm hd, ?_⟩, fun _ e₀ he₀ => ?_,
      fun _ hne => ?_⟩
    · exact (hgrew.trans h₂.grewOnly).1.trans (grew_report _)
    · rw [completions_report, h₂.completions, hgrew.2]
    · exact ⟨e, hentry₂, .inl (by rw [hlen, ← hexact, lengthAt_of_entry he₀])⟩
    · rw [hq] at hne
      cases hne
  · rw [if_neg heq]
    exact hinvalid _ _

theorem wp_checkSubfile (hq : tr.isQueueFileDownloading = false)
    {fileLength : UInt64} (hlength : fileLength.toNat = w.lengthAt tr.destinationPath) :
    wp (onDisk limit watch) (checkSubfile tr (w.entry tr.destinationPath).isSome fileLength)
      (Checked limit tr t w) (fun _ _ w' => GrewOnly limit (atDestination tr) w w') t w := by
  unfold checkSubfile
  show wp (onDisk limit watch) (if _ then _ else _) _ _ t w
  refine (wp_ite _ _ _).mpr ?_
  split
  · refine wp_seq (wp_invalidateQueueItem _ _) (fun _ t₁ w₁ h => ?_) fun _ _ w₁ h => h.grewOnly
    exact h.2.grewOnly
  refine (wp_ite _ _ _).mpr ?_
  split
  · rename_i hlt
    refine ⟨rfl, rfl, lt_of_length hlt hlength, fun hq' => ?_⟩
    rw [hq] at hq'
    cases hq'
  rename_i hlt
  refine (wp_ite _ _ _).mpr ?_
  split
  · rename_i heq
    have hexact : w.lengthAt tr.destinationPath = tr.sharedFile.fileSize.toNat := by
      rw [← hlength, heq]
    refine wp_seq (wp_createEmptyFile tr hexact) (fun _ t₁ w₁ h₁ => ?_) fun _ _ w₁ h => h
    obtain ⟨rfl, hgrew, e, he, hlen⟩ := h₁
    refine ⟨hgrew.1, .refl _, .inl hgrew.2, fun _ e₀ he₀ => ⟨e, he, .inl ?_⟩,
      fun _ _ => ⟨e, he, .inl hlen⟩⟩
    rw [hlen, ← hexact, lengthAt_of_entry he₀]
  · rename_i hne
    have hgt : tr.sharedFile.fileSize.toNat < w.lengthAt tr.destinationPath := by
      rw [← hlength]
      refine Nat.lt_of_le_of_ne ?_ fun e => hne (UInt64.toNat.inj e.symm)
      exact UInt64.le_iff_toNat_le.mp (UInt64.not_lt.mp hlt)
    refine (wp_bind _ _).mpr ⟨trivial, fun _ w' hs => ?_⟩
    rw [show w' = _ from hs]
    have hcalm : ∀ m, Calm w { w with reports := w.reports ++ [.invalidFile m] } :=
      fun m => calm_report (by nofun)
    refine ⟨(hcalm _).grewOnly.1, .refl t, .inl (hcalm _).completions, fun _ e he =>
      ⟨e, he, .inl rfl⟩, fun _ _ => ?_⟩
    obtain ⟨e, he⟩ : ∃ e, w.entry tr.destinationPath = some e := by
      cases he : w.entry tr.destinationPath with
      | none => simp [LocalDisk.lengthAt, he] at hgt
      | some e => exact ⟨e, rfl⟩
    exact ⟨e, he, .inr ⟨lengthAt_of_entry he ▸ hgt, reported_now w _⟩⟩

/-- The checks, and the transfer where it is needed. -/
theorem wp_checkAndTransfer [Crates] (hwatch : WatchesExact watch tr) (fuel : Nat)
    {fileLength : UInt64} (hlength : fileLength.toNat = w.lengthAt tr.destinationPath)
    {doesFileExist : Bool} (hexists : doesFileExist = (w.entry tr.destinationPath).isSome) :
    wp (onDisk limit watch) (do
      if ← (if tr.isQueueFileDownloading then checkQueueFile tr doesFileExist fileLength
        else checkSubfile tr doesFileExist fileLength) then transferFile fuel tr fileLength)
      (fun _ t' w' => Visited limit tr t w t' w')
      (fun _ _ w' => GrewOnly limit (atDestination tr) w w') t w := by
  have hcheck : wp (onDisk limit watch) (if tr.isQueueFileDownloading then
      checkQueueFile tr doesFileExist fileLength else checkSubfile tr doesFileExist fileLength)
      (Checked limit tr t w) (fun _ _ w' => GrewOnly limit (atDestination tr) w w') t w := by
    rw [hexists]
    refine (wp_ite _ _ _).mpr ?_
    split
    · exact wp_checkQueueFile hwatch ‹_› hlength
    · rename_i hq
      exact wp_checkSubfile (by simpa using hq) hlength
  refine wp_seq hcheck (fun needed t₁ w₁ h₁ => ?_) fun _ _ _ h => h
  cases needed with
  | true =>
    obtain ⟨rfl, rfl, hlt, hsize⟩ := h₁
    exact wp_conseq (wp_transferFile hwatch hsize fuel hlength) (fun _ t' w' h => h.visited hlt)
      fun _ _ _ h => h
  | false => exact h₁

/-- **One file**, from the first look at it on. -/
theorem wp_downloadFile [Crates] {q : DownloadQueueItem} (fuel : Nat)
    (downloadDir destinationPath : Str) (sharedFile : SharedFile)
    (hactive : ∀ a, t.self.activeDownloadPath = some a → a = q)
    (hwatch : WatchesExact watch ⟨downloadDir, destinationPath, sharedFile, q⟩) :
    wp (onDisk limit watch) (downloadFile fuel downloadDir destinationPath sharedFile)
      (fun _ t' w' => Visited limit ⟨downloadDir, destinationPath, sharedFile, q⟩ t w t' w')
      (fun _ _ w' => GrewOnly limit (fun p => p = destinationPath) w w') t w := by
  refine (wp_bind _ _).mpr ⟨trivial, fun doesFileExist w₁ hs => ?_⟩
  obtain ⟨hexists, rfl⟩ := hs
  have hfile : wp (onDisk limit watch) (localFileLength destinationPath doesFileExist)
      (fun n t' w' => t' = t ∧ w' = w₁ ∧ n.toNat = w₁.lengthAt destinationPath)
      (fun _ _ w' => w' = w₁) t w₁ := by
    rw [hexists]
    exact wp_localFileLength destinationPath
  refine wp_seq hfile (fun fileLength t₁ w₂ h₁ => ?_) fun _ _ w₁ h => h ▸ .refl w₁
  obtain ⟨rfl, rfl, hlength⟩ := h₁
  refine (wp_bind _ _).mpr ((wp_modifySelf _).mpr ?_)
  generalize ht₂ : Thread.mk _ _ = t₂
  have h₂ : Onward t₁ t₂ := by
    rw [← ht₂]
    exact ⟨.inl rfl, id⟩
  have hsame : t₂.self.activeDownloadPath = t₁.self.activeDownloadPath := by rw [← ht₂]
  show wp (onDisk limit watch) (orPanic t₂.self.activeDownloadPath >>= _) _ _ t₂ w₂
  cases ha : t₂.self.activeDownloadPath with
  | none => exact .refl w₂
  | some a =>
    obtain rfl := hactive a (hsame ▸ ha)
    exact wp_conseq (wp_checkAndTransfer hwatch fuel hlength hexists)
      (fun _ t' w' h => h.after h₂) fun _ _ _ h => h

end Transfer

end Transmitic
