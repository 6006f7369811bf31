/-
  File:      Transmitic/DirectoryBudget.lean
  Subject:   THE SIZE A DIRECTORY WAS ACCEPTED WITH, and what is written for it.

  Before a file below a directory is fetched, the bytes so far are compared with the size the directory
  was accepted with. What is still missing of the file is not among them.

  * `needed` -- what the files of a directory take in the end;
  * `budget_kept` -- **where that is within the accepted size, no run writes more**; and a run that
    completes the directory has written all of it;
  * `budget_exceeded` -- a run that writes more than was accepted.
-/
import Transmitic.CompletedDirectories
import Transmitic.TransferBound

namespace Transmitic

open Lib

/-! ## 1. What a directory takes -/

/-- The local files of a directory. -/
def places (files : List (Str × SharedFile)) : Finset Str := (files.map Prod.fst).toFinset

/-- The size listed for the local file `p`; where several files go to it, the largest. -/
def listedSize (files : List (Str × SharedFile)) (p : Str) : Nat :=
  (files.map fun q => if q.1 = p then q.2.fileSize.toNat else 0).foldr max 0

/-- The bytes that are there. -/
def present (files : List (Str × SharedFile)) (w : LocalDisk) : Nat := ∑ p ∈ places files, w.size p

/-- The bytes that are there in the end, if every file gets its listed size. -/
def needed (files : List (Str × SharedFile)) (w : LocalDisk) : Nat :=
  ∑ p ∈ places files, max (w.size p) (listedSize files p)

/-- No transfer makes a file longer than listed. -/
def EndsAsListed (limit : Str → UInt64) (files : List (Str × SharedFile)) : Prop :=
  ∀ p ∈ places files, (limit p).toNat ≤ listedSize files p

section Sizes

variable {files : List (Str × SharedFile)} {p : Str} {w w' : LocalDisk} {limit : Str → UInt64}

theorem mem_places : p ∈ places files ↔ placeOf files p := by
  simp [places, placeOf]

theorem le_listedSize {g : SharedFile} (h : (p, g) ∈ files) :
    g.fileSize.toNat ≤ listedSize files p := by
  induction files with
  | nil => exact absurd h List.not_mem_nil
  | cons q files ih =>
    rcases List.mem_cons.mp h with rfl | h
    · simp [listedSize]
    · exact Nat.le_trans (ih h) (le_max_right _ _)

/-- The listed size is the size of a file. -/
theorem listedSize_le {n : Nat} (h : ∀ g, (p, g) ∈ files → g.fileSize.toNat ≤ n) :
    listedSize files p ≤ n := by
  induction files with
  | nil => exact Nat.zero_le n
  | cons q files ih =>
    have hrest := ih fun g hg => h g (List.mem_cons_of_mem q hg)
    have hhead : (if q.1 = p then q.2.fileSize.toNat else 0) ≤ n := by
      by_cases hq : q.1 = p
      · rw [if_pos hq]
        exact h q.2 (List.mem_cons.mpr (.inl (by rw [← hq])))
      · rw [if_neg hq]
        exact Nat.zero_le n
    exact max_le hhead hrest

/-- What was written is what the files have grown. -/
theorem written_of_grew (h : Grew limit (placeOf files) w w') :
    w'.written + present files w = w.written + present files w' :=
  h.count (places files) fun _ hp => mem_places.mpr hp

/-- No file gets longer than it was, or than it is listed. -/
theorem present_le_needed (h : Grew limit (placeOf files) w w') (hlimit : EndsAsListed limit files) :
    present files w' ≤ needed files w := by
  refine Finset.sum_le_sum fun p hp => ?_
  have hgrown := h.limited p
  have hlisted := hlimit p hp
  omega

theorem size_le_of_extends (h : Extends (w.entry p) (w'.entry p)) : w.size p ≤ w'.size p := by
  unfold LocalDisk.size
  generalize w.entry p = e at h ⊢
  generalize w'.entry p = e' at h ⊢
  cases h with
  | new e => exact Nat.zero_le _
  | dir n => exact le_rfl
  | file bytes more => simp

/-- Where all files are settled, each of them is as long as it was, or as it is listed. -/
theorem needed_le_present (h : Grew limit (placeOf files) w w')
    (hfile : ∀ p ∈ places files, ∀ n, w'.entry p ≠ some (.dir n))
    (hsettled : ∀ p g, (p, g) ∈ files → Settled files w w' p g) : needed files w ≤ present files w' := by
  refine Finset.sum_le_sum fun p hp => max_le ?_ (listedSize_le fun g hg => ?_)
  · exact size_le_of_extends (h.extend p)
  · obtain ⟨e, he, hlen⟩ := hsettled p g hg
    cases e with
    | dir n => exact absurd he (hfile p hp n)
    | file bytes =>
      rw [size_of_file he]
      rcases hlen with hlen | ⟨hlen, -⟩
      · exact Nat.le_of_eq hlen.symm
      · exact Nat.le_of_lt hlen

end Sizes

/-! ## 2. The item of a directory -/

section Item

variable [Crates] {limit : Str → UInt64} {root : Str} {item : DownloadQueueItem} {f : SharedFile}
  {t : Thread SingleDownloader} {w : LocalDisk}

/-- In every run that processes the item, whichever way it ends, what was written and what was there
    are together within the size the directory was accepted with. -/
def WithinBudget (limit : Str → UInt64) (root : Str) (item : DownloadQueueItem) (f : SharedFile)
    (t : Thread SingleDownloader) (w : LocalDisk) : Prop :=
  ∀ fuel p w', Reach (anyDisk limit) (downloadItem fuel root item f t, w) (p, w') →
    p.issued = none → w'.written + present (fileNodes root f) w ≤ w.written + item.fileSize.toNat

/-- In every run that reports the directory as completed, what was written and what was there are
    together what the directory takes. -/
def TakesNeeded (limit : Str → UInt64) (root : Str) (item : DownloadQueueItem) (f : SharedFile)
    (t : Thread SingleDownloader) (w : LocalDisk) : Prop :=
  ∀ fuel p w' m, Reach (anyDisk limit) (downloadItem fuel root item f t, w) (p, w') →
    asked p = some (.app (.completed m)) →
    (∀ path ∈ places (fileNodes root f), ∀ n, w'.entry path ≠ some (.dir n)) →
    w'.written + present (fileNodes root f) w = w.written + needed (fileNodes root f) w

/-- **The accepted size is respected where the files of the directory do not take more**, counting
    each local file with what is there or what is listed, whichever is more; and a run that completes
    the directory has written all the files take, so it respects the accepted size then only. -/
theorem budget_kept (hlimit : EndsAsListed limit (fileNodes root f)) :
    (needed (fileNodes root f) w ≤ item.fileSize.toNat → WithinBudget limit root item f t w) ∧
      (NotOwn item f → TakesNeeded limit root item f t w) := by
  constructor
  · intro hneeded fuel p w' hr hend
    have hwp : wp (anyDisk limit) (downloadItem fuel root item f)
        (fun _ _ w' => Grew limit (placeOf (fileNodes root f)) w w')
        (fun _ _ w' => Grew limit (placeOf (fileNodes root f)) w w') t w :=
      wp_downloadItem (fun _ _ _ _ _ _ => trivial) fun _ _ _ _ _ => trivial
    have hgrew : Grew limit (placeOf (fileNodes root f)) w w' := by
      rcases reach_end hwp hr hend with ⟨_, _, _, h⟩ | ⟨_, _, _, h⟩
      · exact h
      · exact h
    have hcount := written_of_grew hgrew
    have hle := present_le_needed hgrew hlimit
    omega
  · intro hown fuel p w' m hr hp hfile
    let watch : LocalDisk → CompletedMessage → Prop := fun w' _ =>
      Grew limit (placeOf (fileNodes root f)) w w' ∧ Complete root f w w'
    have hwp : wp (onDisk limit watch) (downloadItem fuel root item f)
        (fun _ _ w' => Grew limit (placeOf (fileNodes root f)) w w')
        (fun _ _ w' => Grew limit (placeOf (fileNodes root f)) w w') t w :=
      wp_downloadItem (fun p g hg w m hm => absurd hm.isQueueFile (hown g (leaf_of_fileNode f hg)))
        fun w' m _ hgrew hc => ⟨hgrew, hc hown⟩
    obtain ⟨hgrew, hcomplete⟩ : watch w' m := by
      have hissued := issued_of_asked hp
      cases p with
      | ret a s => cases hissued
      | fail x s => cases hissued
      | call s c k =>
        cases hissued
        exact reach_ok hwp hr.admitting
    have hcount := written_of_grew hgrew
    have hle := present_le_needed hgrew hlimit
    have hge := needed_le_present hgrew hfile hcomplete.settled
    omega

end Item

/-! ## 3. A directory that is larger -/

/-- One file is asked for, and its one byte comes. -/
def oneByteExchange : Nat → Option (UInt16 × Nat)
  | 0 => some (msgFileSelectionContinue, 12)
  | 1 => some (msgFileFinished, 1)
  | _ => none

def oneByteScript : MessageProtocol Nat where
  turn i := if i = 0 then .left else .right
  opens i msg size := oneByteExchange i = some (msg, size)
  deliver i msg payload :=
    if oneByteExchange i = some (msg, payload.length) then some (i + 1) else none
  delivers i msg size h := by
    refine ⟨List.replicate size 0, i + 1, List.length_replicate, if_pos ?_⟩
    rw [List.length_replicate]
    exact of_decide_eq_true h
  small i msg size h := by
    have h := of_decide_eq_true h
    unfold oneByteExchange at h
    split at h
    · cases h
      decide
    · cases h
      decide
    · cases h

/-- The local files are as they were. -/
def SameFiles (w w' : LocalDisk) : Prop := w'.entry = w.entry ∧ w'.written = w.written

section OneByte

variable [Crates] {limit : Str → UInt64} {t : Thread SingleDownloader} {w : LocalDisk}

theorem wp_appUpdateInProgress_obliging {σ : Type} {Γ : MessageProtocol σ} {v : Option (View σ)} :
    wp (onObliging Γ limit) appUpdateInProgress
      (fun _ t' w' => t' = t ∧ SameFiles w w'.1 ∧ w'.2 = v) (fun _ _ _ => False) t (w, v) := by
  refine (wp_bind _ _).mpr (wp_obliging ?_)
  exact ⟨rfl, ⟨rfl, rfl⟩, rfl⟩

/-- A directory item is finished, and taken off the queue. -/
theorem wp_finishDirectory_obliging {σ : Type} {Γ : MessageProtocol σ} {v : Option (View σ)}
    {item : DownloadQueueItem} {f : SharedFile} {destinationPath : Str} :
    wp (onObliging Γ limit) (finishDirectory item f destinationPath)
      (fun _ _ w' => SameFiles w w'.1 ∧ w'.2 = v) (fun _ _ _ => False) t (w, v) := by
  have hqueue : ∀ t₁, wp (onObliging Γ limit) writeQueue
      (fun _ t' w' => t' = t₁ ∧ w' = (w, v)) (fun _ _ _ => False) t₁ (w, v) := by
    intro t₁
    refine (wp_bind _ _).mpr ?_
    show wp _ (if t₁.self.downloadQueue = [] then _ else writeQueueFile) _ _ t₁ _
    refine (wp_ite _ _ _).mpr ?_
    split
    · refine (wp_bind _ _).mpr (wp_obliging ?_)
      exact ⟨rfl, rfl⟩
    · refine (wp_bind _ _).mpr ?_
      show wp _ (command (.queueWrite _ _) >>= fun a => tryIo a) _ _ t₁ _
      refine (wp_bind _ _).mpr (wp_obliging ?_)
      exact ⟨rfl, rfl⟩
  refine (wp_bind _ _).mpr ?_
  show wp _ (if (!t.self.stopDownloading && f.isDirectory) = true then _ else pure ()) _ _ t _
  refine (wp_ite _ _ _).mpr ?_
  split
  · refine (wp_bind _ _).mpr ((wp_bind _ _).mpr ((wp_modifySelf _).mpr ((wp_bind _ _).mpr ?_)))
    refine wp_conseq (hqueue _) (fun _ t₁ w₁ h₁ => ?_) fun _ _ _ hf => hf
    obtain ⟨rfl, rfl⟩ := h₁
    refine (wp_modifySelf _).mpr ((wp_bind _ _).mpr ?_)
    refine (wp_bind _ _).mpr (wp_obliging ?_)
    exact ⟨⟨rfl, rfl⟩, rfl⟩
  · exact ⟨⟨rfl, rfl⟩, rfl⟩

/-- A file of one byte that is not there is fetched, and its own byte is not part of the comparison
    with the accepted size. -/
theorem wp_downloadFile_oneByte {fuel : Nat} {dir path : Str} {f : SharedFile} {q : DownloadQueueItem}
    (hq : t.self.activeDownloadPath = some q) (hsub : f.path ≠ q.path) (hsize : f.fileSize = 1)
    (hbudget : ¬ q.fileSize < t.self.activeDownloadedCurrentBytes)
    (hstop : t.self.stopDownloading = false) (hnone : w.entry path = none)
    (hlimit : 1 ≤ (limit path).toNat) (hreq : (utf8 f.path).length = 4)
    (hn : t.encryptedStream.nonce = 0) :
    wp (onObliging oneByteScript limit) (downloadFile (fuel + 1) dir path f)
      (fun _ t' w' => t'.self.stopDownloading = false ∧ w'.1.written = w.written + 1)
      (fun _ _ _ => False) t (w, some ⟨0, 0, none⟩) := by
  have hmissing : runDisk limit (fun c => restAnswers (.inl c)) (.inr (.pathExists path)) w =
      (false, w) := by
    show ((w.entry path).isSome, w) = (false, w)
    rw [hnone]
    rfl
  refine (wp_bind _ _).mpr (wp_obliging_of hmissing ?_)
  refine (wp_bind _ _).mpr ?_
  show wp _ (modifySelf _ >>= _) _ _ t (w, _)
  refine (wp_bind _ _).mpr ((wp_modifySelf _).mpr ?_)
  generalize ht₁ : Thread.mk _ _ = t₁
  have hself₁ : t₁.self = { t.self with
      activeDownloadedCurrentBytes := t.self.activeDownloadedCurrentBytes + 0 } := by rw [← ht₁]
  have hq₁ : t₁.self.activeDownloadPath = some q := by rw [hself₁, hq]
  have hstop₁ : t₁.self.stopDownloading = false := by rw [hself₁, hstop]
  show wp _ (orPanic t₁.self.activeDownloadPath >>= _) _ _ t₁ _
  rw [hq₁]
  generalize htr : Transfer.mk dir path f q = tr
  have hnotown : tr.isQueueFileDownloading = false := by
    rw [← htr]
    simpa [Transfer.isQueueFileDownloading] using hsub
  show wp _ ((if (Transfer.mk dir path f q).isQueueFileDownloading = true then _ else
    checkSubfile (Transfer.mk dir path f q) false 0) >>= fun go : Bool =>
    if go = true then transferFile (fuel + 1) (Transfer.mk dir path f q) 0 else pure ()) _ _ t₁ _
  rw [htr, hnotown]
  -- the comparison is with what is there, not with what is to come
  have hbudget₁ : ¬ tr.queueDownload.fileSize < t₁.self.activeDownloadedCurrentBytes := by
    rw [← htr, hself₁]
    simpa using hbudget
  have hsize₁ : tr.sharedFile.fileSize = 1 := by rw [← htr, hsize]
  show wp _ ((if tr.queueDownload.fileSize < t₁.self.activeDownloadedCurrentBytes then _ else
    if 0 < tr.sharedFile.fileSize then pure true else _) >>= _) _ _ t₁ _
  rw [if_neg hbudget₁, hsize₁, if_pos (by decide)]
  show wp _ (transferFile (fuel + 1) tr 0) _ _ t₁ _
  have hreq₁ : (beBytes 8 (0 : UInt64).toNat ++ utf8 tr.sharedFile.path).length = 12 := by
    rw [List.length_append, length_beBytes, ← htr, hreq]
  have hn₁ : t₁.encryptedStream.nonce = 0 := by rw [← ht₁, hn]
  have hfew : ∀ payload, ¬ nonceMax < 2 + frameCount payload := by
    intro payload
    have hcount : frameCount payload ≤ 2 := by
      unfold frameCount
      split
      · exact Nat.le_succ 1
      · exact le_rfl
    have hmax : 4 ≤ nonceMax := by decide
    omega
  have hcount : frameCount (beBytes 8 (0 : UInt64).toNat ++ utf8 tr.sharedFile.path) = 2 :=
    frameCount_of_length (by rw [hreq₁]; decide)
  refine (wp_bind _ _).mpr (wp_write hn₁ (Nat.zero_le _) rfl (by rw [hreq₁]; decide)
    (if_pos (by rw [hreq₁]; rfl)) (fun n buffer hnonce hmax => ?_) fun e t' v _ hb => ?_)
  rotate_left
  · rw [hcount] at hb
    exact hb.elim id (by decide)
  rw [hcount] at hnonce
  subst hnonce
  -- the answer is the one byte, and the last frame
  refine (wp_bind _ _).mpr (wp_read rfl hmax rfl ⟨msgFileFinished, 1, rfl⟩
    (fun msg payload s' n' buffer' hopen hdeliver hn' hmax' hholds => ?_) fun e t' v _ hb => ?_)
  rotate_left
  · obtain ⟨_, payload, _, _, _, hlt⟩ := hb.resolve_left id
    exact absurd hlt (hfew payload)
  obtain ⟨rfl, hpayload⟩ : msg = msgFileFinished ∧ payload.length = 1 := by
    have hex : some (msgFileFinished, 1) = some (msg, payload.length) := of_decide_eq_true hopen
    obtain ⟨hmsg, hlen⟩ := Prod.mk.inj (Option.some.inj hex)
    exact ⟨hmsg.symm, hlen.symm⟩
  generalize ht₂ : Thread.mk _ _ = t₂
  have hholds₂ : t₂.encryptedStream.Holds msgFileFinished payload := by
    rw [← ht₂]
    exact hholds
  have hstop₂ : t₂.self.stopDownloading = false := by rw [← ht₂, hstop₁]
  show wp _ (if t₂.encryptedStream.getMessage = msgFileInvalidFile then _ else _) _ _ t₂ _
  rw [hholds₂.message, if_neg (by decide)]
  refine (wp_bind _ _).mpr ?_
  show wp _ (throwIf (isUnexpected msgFileFinished) _ >>= _) _ _ t₂ _
  refine (wp_bind _ _).mpr ((wp_throwIf _ _).mpr ?_)
  rw [if_neg (not_unexpected (.inr rfl))]
  have hdest : tr.destinationPath = path := by rw [← htr]
  have hcreate : runDisk limit (fun c => restAnswers (.inl c)) (.inr (.fileCreate path)) w =
      (.ok (), w.put path []) := by simp only [runDisk, hnone]
  have hopenDest : wp (onObliging oneByteScript limit) (openDestination tr)
      (fun _ t' w' => t' = t₂ ∧ w' = (w.put path [], some ⟨s', n', none⟩)) (fun _ _ _ => False) t₂
      (w, some ⟨s', n', none⟩) := by
    refine (wp_bind _ _).mpr (wp_obliging ?_)
    show wp _ (pathExists tr.destinationPath >>= _) _ _ t₂ (w, some (View.mk s' n' none))
    rw [hdest]
    refine (wp_bind _ _).mpr (wp_obliging_of hmissing ?_)
    refine (wp_bind _ _).mpr (wp_obliging_of hcreate ?_)
    exact ⟨rfl, rfl⟩
  refine wp_seq hopenDest (fun _ t₃ w₃ h₃ => ?_) fun _ _ _ hf => hf
  obtain ⟨rfl, rfl⟩ := h₃
  refine (wp_bind _ _).mpr ?_
  show wp _ (orThrow t₃.encryptedStream.getPayload) _ _ t₃ _
  rw [hholds₂.payload]
  refine (wp_bind _ _).mpr ((wp_modifySelf _).mpr ?_)
  generalize ht₄ : Thread.mk _ _ = t₄
  have hstop₄ : t₄.self.stopDownloading = false := by
    rw [← ht₄]
    exact hstop₂
  have hwrite : runDisk limit (fun c => restAnswers (.inl c))
      (.inr (.fileWrite tr.destinationPath payload)) (w.put path []) =
      (.ok (), (w.put path []).wrote path [] payload) := by
    have hentry : (w.put path []).entry path = some (.file []) := entry_put_self w path []
    rw [hdest]
    simp only [runDisk, hentry]
    exact if_pos (by rw [hpayload]; exact hlimit)
  refine (wp_bind _ _).mpr (wp_obliging_of hwrite ?_)
  show wp _ (updateProgress >>= _) _ _ t₄ (_, some (View.mk s' n' none))
  refine wp_seq wp_updateProgress_nothing (fun _ t₅ w₅ h₅ => ?_) fun _ _ _ hf => hf
  obtain ⟨rfl, rfl⟩ := h₅
  have hexpected : tr.expectedSize = 1 := by
    rw [Transfer.expectedSize, hnotown]
    exact hsize₁
  rw [hpayload, hexpected]
  refine (wp_ite _ _ _).mpr ?_
  rw [if_pos (by decide)]
  show wp _ (if tr.isQueueFileDownloading = true then _ else pure ()) _ _ t₅ _
  rw [hnotown]
  refine ⟨hstop₄, ?_⟩
  show w.written + payload.length = w.written + 1
  rw [hpayload]

end OneByte

/-- With the checksum of the request. -/
@[reducible] def requestCrates : Crates := { idleCrates with crc32 := fun _ => 0x99F16E6D }

/-- The file of one byte. -/
def oneByteFile : SharedFile := SharedFile.new "/s/x".toList false [] 1

/-- A directory with it, which says that it is empty. -/
def oneByteDir : SharedFile := SharedFile.new "/s".toList true [oneByteFile] 0

/-- The directory was accepted as empty. -/
def emptyItem : DownloadQueueItem := { path := "/s".toList, fileSize := 0 }

theorem oneByteDir_files : fileNodes "/d/".toList oneByteDir = [("/d/s/x".toList, oneByteFile)] := by
  rfl

/-- The whole run. -/
theorem wp_downloadItem_oneByte [Crates] :
    wp (onObliging oneByteScript fun _ => 1)
      (downloadItem 3 "/d/".toList emptyItem oneByteDir) (fun _ _ w' => w'.1.written = 1)
      (fun _ _ _ => False) (idleThread [] []) (emptyDisk, some ⟨0, 0, none⟩) := by
  have hname : getSanitizedDiskFileName oneByteDir = .ok "s".toList := by rfl
  have hstart : wp (onObliging oneByteScript fun _ => 1)
      (startItem "/d/".toList emptyItem oneByteDir)
      (fun _ t' w' => t'.self.activeDownloadPath = some emptyItem ∧
        t'.self.activeDownloadedCurrentBytes = 0 ∧ t'.self.stopDownloading = false ∧
        t'.encryptedStream.nonce = 0 ∧ w' = (emptyDisk, some ⟨0, 0, none⟩))
      (fun _ _ _ => False) (idleThread [] []) (emptyDisk, some ⟨0, 0, none⟩) := by
    refine (wp_bind _ _).mpr ((wp_modifySelf _).mpr ((wp_bind _ _).mpr ?_))
    rw [hname]
    exact ⟨rfl, rfl, rfl, rfl, rfl⟩
  refine wp_seq hstart (fun destinationPath t w h => ?_) fun _ _ _ hf => hf
  obtain ⟨hq, hbytes, hstop, hn, rfl⟩ := h
  refine wp_seq wp_appUpdateInProgress_obliging (fun _ t₁ w₁ h₁ => ?_) fun _ _ _ hf => hf
  obtain ⟨w₁, v₁⟩ := w₁
  obtain ⟨rfl, ⟨hentry₁, hwritten₁⟩, rfl⟩ := h₁
  have hfile : getSanitizedDiskFileName oneByteFile = .ok "x".toList := by rfl
  have hwalk : wp (onObliging oneByteScript fun _ => 1)
      (downloadSharedFile 3 "/d/".toList oneByteDir)
      (fun _ t' w' => w'.1.written = 1) (fun _ _ _ => False) t₁ (w₁, some ⟨0, 0, none⟩) := by
    rw [downloadSharedFile_eq, hname]
    show wp _ (downloadFiles 3 "/d/s/".toList [oneByteFile]) _ _ t₁ _
    rw [downloadFiles, downloadSharedFile_eq, hfile]
    have hdownload : wp (onObliging oneByteScript fun _ => 1)
        (downloadFile 3 "/d/s/".toList "/d/s/x".toList oneByteFile)
        (fun _ t' w' => t'.self.stopDownloading = false ∧ w'.1.written = w₁.written + 1)
        (fun _ _ _ => False) t₁ (w₁, some ⟨0, 0, none⟩) :=
      wp_downloadFile_oneByte hq (by decide) rfl (by rw [hbytes]; decide) hstop
        (by rw [show w₁.entry = _ from hentry₁]; rfl) (by decide) (by decide) hn
    refine wp_seq hdownload (fun _ t₂ w₂ h₂ => ?_) fun _ _ _ hf => hf
    refine wp_seq wp_readReceiver_nothing (fun _ t₃ w₃ h₃ => ?_) fun _ _ _ hf => hf
    obtain ⟨rfl, rfl⟩ := h₃
    show wp _ (if t₃.self.stopDownloading = true then pure () else _) _ _ t₃ _
    rw [h₂.1, downloadFiles]
    exact h₂.2.trans (by rw [show w₁.written = _ from hwritten₁]; rfl)
  refine wp_seq hwalk (fun _ t₂ w₂ h₂ => ?_) fun _ _ _ hf => hf
  refine wp_seq wp_finishDirectory_obliging (fun _ t₃ w₃ h₃ => ?_) fun _ _ _ hf => hf
  refine wp_conseq wp_appUpdateInProgress_obliging (fun _ t₄ w₄ h₄ => ?_) fun _ _ _ hf => hf
  rw [h₄.2.1.2, h₃.1.2, h₂]

/-- **More is written than was accepted**: the directory was accepted as empty, and its one file of one
    byte is fetched. -/
theorem budget_exceeded : EndsAsListed (fun _ => 1) (fileNodes "/d/".toList oneByteDir) ∧
    ¬ @WithinBudget requestCrates (fun _ => 1) "/d/".toList emptyItem oneByteDir (idleThread [] [])
      emptyDisk := by
  constructor
  · intro p hp
    obtain ⟨g, hg⟩ := mem_places.mp hp
    have hsize := le_listedSize hg
    rw [oneByteDir_files] at hg
    obtain ⟨-, rfl⟩ := Prod.mk.inj (List.mem_singleton.mp hg)
    exact hsize
  · intro hkept
    obtain ⟨p, ⟨w', v⟩, hr, hend⟩ := reach_some_end (@onObliging_total requestCrates _ _ _)
      (@wp_downloadItem_oneByte requestCrates)
    have hstep : ∀ w t c a w', (@onObliging requestCrates _ oneByteScript fun _ => 1).step w t c a w' →
        (anyDisk fun _ => 1).step w.1 t c a w'.1 :=
      fun w t c a w' h => (@onObliging_step requestCrates _ _ _ w t c a w' h).2
    obtain ⟨a, t', rfl, hwritten⟩ | ⟨_, _, _, hf⟩ := hend
    · have hle := hkept 3 _ w' (hr.map hstep) rfl
      have hone : w'.written = 1 := hwritten
      rw [hone] at hle
      have hzero : 1 + present (fileNodes "/d/".toList oneByteDir) emptyDisk ≤ 0 := hle
      omega
    · exact hf

/-! ## 4. A directory that is fetched -/

/-- Two files, of three bytes and of two. -/
def twoFiles : SharedFile :=
  SharedFile.new "/s".toList true
    [SharedFile.new "/s/x".toList false [] 3, SharedFile.new "/s/y".toList false [] 2] 5

/-- The directory was accepted with its size. -/
def twoFilesItem : DownloadQueueItem := { path := "/s".toList, fileSize := 5 }

/-- The first byte of the first file is there. -/
def resumedDisk : LocalDisk := { emptyDisk.put "/d/s/x".toList [1] with written := 0 }

def listedLimit (path : Str) : UInt64 := if path = "/d/s/x".toList then 3 else 2

/-- After the first request the rest of the first file comes, and after the second one the other file, in
    two messages. -/
def resumedFrames : List (List UInt8) :=
  [[], []] ++ @replyFrames idleCrates msgFileFinished [2, 3] ++
    [[], []] ++ @replyFrames idleCrates msgFileChunk [4] ++ @replyFrames idleCrates msgFileFinished [5]

/-- The whole run. -/
def resumedRun : Prog (Thread SingleDownloader) (Wire ⊕ DownloaderCmd) (Ans DownloaderCmd.Ans) Exc
    Unit × LocalDisk :=
  (@downloadItem idleCrates 9 "/d/".toList twoFilesItem twoFiles (idleThread [] [])).playIn
    (runDisk listedLimit (repliesAt resumedFrames)) 40 resumedDisk

theorem resumedRun_reached : Reach (anyDisk listedLimit) (@downloadItem idleCrates 9 "/d/".toList
    twoFilesItem twoFiles (idleThread [] []), resumedDisk) (resumedRun.1, resumedRun.2) := by
  rw [Prod.mk.eta]
  unfold resumedRun
  exact reach_playIn (runDisk_step _) 40 _ resumedDisk

theorem resumedRun_ended : resumedRun.1.issued.isNone = true := by decide +kernel

theorem resumedRun_written : resumedRun.2.written = 4 := by decide +kernel

theorem twoFiles_files : fileNodes "/d/".toList twoFiles =
    [("/d/s/x".toList, SharedFile.new "/s/x".toList false [] 3),
      ("/d/s/y".toList, SharedFile.new "/s/y".toList false [] 2)] := by rfl

/-- The run writes four bytes to the one that was there, and five were accepted. -/
theorem budget_kept_resumed :
    4 + present (fileNodes "/d/".toList twoFiles) resumedDisk ≤ twoFilesItem.fileSize.toNat ∧
      @TakesNeeded idleCrates listedLimit "/d/".toList twoFilesItem twoFiles (idleThread [] [])
        resumedDisk := by
  have hlimit : EndsAsListed listedLimit (fileNodes "/d/".toList twoFiles) := by
    rw [twoFiles_files]
    unfold EndsAsListed
    decide
  have hneeded : needed (fileNodes "/d/".toList twoFiles) resumedDisk ≤ twoFilesItem.fileSize.toNat := by
    rw [twoFiles_files]
    decide
  have hown : NotOwn twoFilesItem twoFiles := by
    unfold NotOwn
    decide
  obtain ⟨hwithin, htakes⟩ := @budget_kept idleCrates listedLimit "/d/".toList twoFilesItem twoFiles
    (idleThread [] []) resumedDisk hlimit
  have hle := hwithin hneeded 9 _ _ resumedRun_reached (Option.isNone_iff_eq_none.mp resumedRun_ended)
  rw [resumedRun_written] at hle
  have hstart : resumedDisk.written = 0 := rfl
  rw [hstart, Nat.zero_add] at hle
  exact ⟨hle, htakes hown⟩

end Transmitic
