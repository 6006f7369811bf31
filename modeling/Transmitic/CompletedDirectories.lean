/-
  File:      Transmitic/CompletedDirectories.lean
  Subject:   A DIRECTORY REPORTED AS COMPLETED, and the size its item was accepted with.

  A directory is reported as completed where the walk along its listed tree has ended and was not told
  to stop. What the visits have left is then true of all its files.

  * `completed_directory` -- **each listed file below it is there, exactly as long as listed**; or it
    is longer, and was reported as invalid, or another listed file goes to the same place;
  * `longer_file_completed` -- such a longer file does not keep the directory from being reported.
-/
import Transmitic.CompletedFiles

namespace Transmitic

open Lib

/-! ## 1. The files below a directory -/

mutual

theorem leaf_of_fileNode {dir p : Str} {g : SharedFile} : ∀ f : SharedFile,
    (p, g) ∈ fileNodes dir f → g ∈ leaves f
  | ⟨path, isDirectory, files, fileSize, sizeString⟩, h => by
    rw [fileNodes] at h
    rw [leaves]
    cases hname : getSanitizedDiskFileName ⟨path, isDirectory, files, fileSize, sizeString⟩ with
    | error e =>
      rw [hname] at h
      exact absurd h List.not_mem_nil
    | ok name =>
      rw [hname] at h
      cases isDirectory with
      | true => exact leaf_of_fileNodeIn files h
      | false => exact List.mem_singleton.mpr (Prod.mk.inj (List.mem_singleton.mp h)).2

theorem leaf_of_fileNodeIn {dir p : Str} {g : SharedFile} : ∀ files : List SharedFile,
    (p, g) ∈ fileNodesIn dir files → g ∈ leavesIn files
  | [], h => absurd h List.not_mem_nil
  | f :: files, h => by
    rcases List.mem_append.mp h with h | h
    · exact List.mem_append_left _ (leaf_of_fileNode f h)
    · exact List.mem_append_right _ (leaf_of_fileNodeIn files h)

end

/-! ## 2. The item of a directory -/

/-- From `w` on, all files below `f` have been settled in `root`. -/
structure Complete (root : Str) (f : SharedFile) (w w' : LocalDisk) : Prop where
  placed : ∀ g ∈ leaves f, ∃ path, (path, g) ∈ fileNodes root f
  settled : ∀ path g, (path, g) ∈ fileNodes root f → Settled (fileNodes root f) w w' path g

section Item

variable {limit : Str → UInt64} {watch : LocalDisk → CompletedMessage → Prop} {fuel : Nat}
  {root : Str} {item : DownloadQueueItem} {f : SharedFile} {t : Thread SingleDownloader}
  {w w' : LocalDisk}

/-- Making an item the active one touches nothing on the disk. -/
theorem wp_startItem :
    wp (onDisk limit watch) (startItem root item f)
      (fun _ t' w' => t'.self.activeDownloadPath = some item ∧ w' = w) (fun _ _ w' => w' = w) t w := by
  show wp (onDisk limit watch) (orThrow (getSanitizedDiskFileName f) >>= _) _ _ _ w
  cases getSanitizedDiskFileName f with
  | error e => exact rfl
  | ok name => exact ⟨rfl, rfl⟩

variable [Crates]

/-- No file below `f` is the item itself. -/
def NotOwn (item : DownloadQueueItem) (f : SharedFile) : Prop := ∀ g ∈ leaves f, g.path ≠ item.path

/-- **Processing a directory item.** Where the item is reported as completed, the walk along its tree
    was not told to stop. -/
theorem wp_downloadItem (hfiles : WatchesFiles watch item (fileNodes root f))
    (hwatch : ∀ w' m, m.path = item.path → Grew limit (placeOf (fileNodes root f)) w w' →
      (NotOwn item f → Complete root f w w') → watch w' m) :
    wp (onDisk limit watch) (downloadItem fuel root item f)
      (fun _ _ w' => Grew limit (placeOf (fileNodes root f)) w w')
      (fun _ _ w' => Grew limit (placeOf (fileNodes root f)) w w') t w := by
  refine wp_seq wp_startItem (fun destinationPath t₁ w₁ h₁ => ?_) fun _ _ w₁ h => ?_
  rotate_left
  · rw [show w₁ = w from h]
    exact .refl w
  obtain ⟨hactive, rfl⟩ := h₁
  have hreport : ∀ t w, wp (onDisk limit watch) appUpdateInProgress
      (fun _ t' w' => t' = t ∧ Calm w w') (fun _ t' w' => t' = t ∧ Calm w w') t w :=
    wp_still still_appUpdateInProgress fun _ => hushed_of_reporting
  refine wp_seq (hreport t₁ w₁) (fun _ t₂ w₂ h₂ => ?_) fun _ _ w₂ h => h.2.grewOnly.1
  rw [h₂.1]
  refine wp_seq (wp_downloadSharedFile fuel root f t₁ w₂ (active_eq hactive) hfiles)
    (fun _ t₃ w₃ h₃ => ?_) fun _ _ w₃ h => h₂.2.grewOnly.1.trans h
  have hgrew := h₂.2.grewOnly.1.trans h₃.1.grew
  refine (wp_bind _ _).mpr ?_
  show wp (onDisk limit watch) (if (!t₃.self.stopDownloading && f.isDirectory) = true then _ else _)
    _ _ t₃ w₃
  refine (wp_ite _ _ _).mpr ?_
  split
  · rename_i hgo
    have hstop : t₃.self.stopDownloading = false := by
      simp only [Bool.and_eq_true, Bool.not_eq_true'] at hgo
      exact hgo.1
    -- every file below the directory was visited
    have hcomplete : ∀ w₄, Calm w₃ w₄ → NotOwn item f → Complete root f w₁ w₄ := by
      intro w₄ h₄ hown
      refine ⟨fun g hg => ?_, fun p g hpg => ?_⟩
      · rw [← h₃.2 hstop] at hg
        obtain ⟨⟨p, g⟩, hpg, rfl⟩ := List.mem_map.mp hg
        exact ⟨p, hpg⟩
      exact (h₃.1.settled hstop p g hpg (hown g (leaf_of_fileNode f hpg))).later
        (List.Subset.refl _) (.of_entry h₄.entry) h₂.2.reports h₃.1.grew.reports h₄.reports
    refine wp_completeQueueItem _ _
      (fun w₄ m h₄ hm _ => hwatch w₄ m hm (hgrew.trans h₄.grewOnly.1) (hcomplete w₄ h₄))
      (fun w₄ m h₄ _ _ => ?_) fun _ _ w₄ h => hgrew.trans h.grewOnly.1
    have hgrew₄ := (hgrew.trans h₄.grewOnly.1).trans (grew_report (.completed m))
    refine wp_conseq (hreport _ _) (fun _ _ w₅ h => ?_) fun _ _ w₅ h => ?_
    · exact hgrew₄.trans h.2.grewOnly.1
    · exact hgrew₄.trans h.2.grewOnly.1
  · show wp (onDisk limit watch) appUpdateInProgress _ _ t₃ w₃
    refine wp_conseq (hreport t₃ w₃) (fun _ _ w₄ h => ?_) fun _ _ w₄ h => ?_
    · exact hgrew.trans h.2.grewOnly.1
    · exact hgrew.trans h.2.grewOnly.1

/-- **A directory reported as completed is complete.** When a completed download is reported while
    the item of a directory is processed, it is this item, and every file listed below the directory
    has a local path at which something as long as listed stands; or something longer, and then the
    file was reported as invalid while the item was processed, or another file listed below the
    directory has the same local path and that length. -/
theorem completed_directory (hown : ∀ g ∈ leaves f, g.path ≠ item.path)
    {p : Prog (Thread SingleDownloader) (Wire ⊕ DownloaderCmd) (Ans DownloaderCmd.Ans) Exc Unit}
    {m : CompletedMessage}
    (hr : Reach (anyDisk limit) (downloadItem fuel root item f t, w) (p, w'))
    (hp : asked p = some (.app (.completed m))) :
    m.path = item.path ∧ ∀ g ∈ leaves f, ∃ path e, (path, g) ∈ fileNodes root f ∧
      w'.entry path = some e ∧ (e.length = g.fileSize.toNat ∨ g.fileSize.toNat < e.length ∧
        (Reported w w' g.path ∨
          ∃ g', (path, g') ∈ fileNodes root f ∧ e.length = g'.fileSize.toNat)) := by
  let watch : LocalDisk → CompletedMessage → Prop := fun w' m =>
    m.path = item.path ∧ Complete root f w w'
  have hwp : wp (onDisk limit watch) (downloadItem fuel root item f)
      (fun _ _ w' => Grew limit (placeOf (fileNodes root f)) w w')
      (fun _ _ w' => Grew limit (placeOf (fileNodes root f)) w w') t w :=
    wp_downloadItem (fun p g hg w m hm => absurd hm.isQueueFile (hown g (leaf_of_fileNode f hg)))
      fun w' m hm _ hc => ⟨hm, hc hown⟩
  have hwatch : watch w' m := by
    have hissued := issued_of_asked hp
    cases p with
    | ret a s => cases hissued
    | fail x s => cases hissued
    | call s c k =>
      cases hissued
      exact reach_ok hwp hr.admitting
  refine ⟨hwatch.1, fun g hg => ?_⟩
  obtain ⟨path, hpath⟩ := hwatch.2.placed g hg
  obtain ⟨e, he, hlen⟩ := hwatch.2.settled path g hpath
  exact ⟨path, e, hpath, he, hlen⟩

end Item

/-! ## 3. A longer file -/

/-- A directory with one empty file. -/
def oneFileDir : SharedFile := SharedFile.new "/s".toList true [emptyFile "/s/x".toList] 0

/-- Where the file goes, there is a file of one byte. -/
def oneByteDisk : LocalDisk := { emptyDisk.put "/d/s/x".toList [0] with written := 0 }

/-- The run that completes the directory, up to the report. -/
def longerRun : Prog (Thread SingleDownloader) (Wire ⊕ DownloaderCmd) (Ans DownloaderCmd.Ans) Exc
    Unit × LocalDisk :=
  (@downloadItem idleCrates 1 "/d/".toList { path := "/s".toList, fileSize := 5 } oneFileDir
    (idleThread [] [])).playIn idleDisk 7 oneByteDisk

theorem longerRun_reached : Reach (anyDisk fun _ => 0) (@downloadItem idleCrates 1 "/d/".toList
    { path := "/s".toList, fileSize := 5 } oneFileDir (idleThread [] []), oneByteDisk)
      (longerRun.1, longerRun.2) :=
  reach_playIn (runDisk_step _) 7 _ oneByteDisk

theorem longerRun_completed :
    ((asked longerRun.1).bind DownloaderCmd.completion).isSome = true := by decide +kernel

theorem longerRun_length : longerRun.2.lengthAt "/d/s/x".toList = 1 := by decide +kernel

theorem oneFileDir_files : fileNodes "/d/".toList oneFileDir =
    [("/d/s/x".toList, emptyFile "/s/x".toList)] := by rfl

/-- **A longer file does not keep the directory from being reported**: the listed file is empty, the
    local one is not. -/
theorem longer_file_completed :
    ∃ (t : Thread SingleDownloader) (w w' : LocalDisk) (p : Prog (Thread SingleDownloader)
      (Wire ⊕ DownloaderCmd) (Ans DownloaderCmd.Ans) Exc Unit) (m : CompletedMessage),
      Reach (anyDisk fun _ => 0) (@downloadItem idleCrates 1 "/d/".toList
        { path := "/s".toList, fileSize := 5 } oneFileDir t, w) (p, w') ∧
      asked p = some (.app (.completed m)) ∧ ∃ g ∈ leaves oneFileDir,
        ∀ path, (path, g) ∈ fileNodes "/d/".toList oneFileDir →
          ¬ ∃ bytes, w'.entry path = some (.file bytes) ∧ bytes.length = g.fileSize.toNat := by
  obtain ⟨m, hm⟩ := asked_of_completion longerRun_completed
  refine ⟨idleThread [] [], oneByteDisk, longerRun.2, longerRun.1, m, longerRun_reached, hm,
    emptyFile "/s/x".toList, List.mem_singleton.mpr rfl, fun path hpath ⟨bytes, hentry, hlen⟩ => ?_⟩
  rw [oneFileDir_files] at hpath
  obtain ⟨rfl, -⟩ := Prod.mk.inj (List.mem_singleton.mp hpath)
  have hone := longerRun_length
  rw [lengthAt_of_entry hentry] at hone
  rw [show bytes.length = 1 from hone] at hlen
  cases hlen

/-- In the run with the longer file. -/
theorem completed_directory_longer : ∃ path e,
    (path, emptyFile "/s/x".toList) ∈ fileNodes "/d/".toList oneFileDir ∧
      longerRun.2.entry path = some e ∧ (e.length = 0 ∨ 0 < e.length ∧
        (Reported oneByteDisk longerRun.2 "/s/x".toList ∨
          ∃ g', (path, g') ∈ fileNodes "/d/".toList oneFileDir ∧
            e.length = g'.fileSize.toNat)) := by
  obtain ⟨m, hm⟩ := asked_of_completion longerRun_completed
  have hown : ∀ g ∈ leaves oneFileDir, g.path ≠ "/s".toList := by
    intro g hg
    rw [List.mem_singleton.mp (show g ∈ [emptyFile "/s/x".toList] from hg)]
    decide
  exact (@completed_directory _ _ _ { path := "/s".toList, fileSize := 5 } _ _ _ _ idleCrates hown
    _ _ longerRun_reached hm).2 _ (List.mem_singleton.mpr rfl)

end Transmitic
