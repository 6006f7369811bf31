/-
  File:      Transmitic/CompletedFiles.lean
  Subject:   WHAT A REPORTED DOWNLOAD MEANS FOR THE LOCAL DISK.

  `download_shared_file` visits the files of a listed tree one after the other. What each visit leaves
  is put together along the tree.

  * `fileNodes` -- the files of a listed tree, each with its local path;
  * `Walked`, `wp_downloadSharedFile` -- what the visits to some of them leave;
  * `completed_exact` -- **a file reported as completed has the expected length**, the one that is
    listed; and a transfer that ends in any other way is not reported as completed.
-/
import Transmitic.FileTransfer
import Transmitic.LocalPaths
import Transmitic.Messages

namespace Transmitic

open Lib

/-! ## 1. The files of a listed tree -/

mutual

/-- The files a download of a node in the directory `dir` visits, with their local paths. -/
def fileNodes (dir : Str) : SharedFile → List (Str × SharedFile)
  | ⟨path, isDirectory, files, fileSize, sizeString⟩ =>
    match getSanitizedDiskFileName ⟨path, isDirectory, files, fileSize, sizeString⟩ with
    | .error _ => []
    | .ok name =>
      if isDirectory then fileNodesIn (dir ++ name ++ ['/']) files
      else [(dir ++ name, ⟨path, isDirectory, files, fileSize, sizeString⟩)]

def fileNodesIn (dir : Str) : List SharedFile → List (Str × SharedFile)
  | [] => []
  | f :: fs => fileNodes dir f ++ fileNodesIn dir fs

end

theorem fileNodes_eq (dir : Str) (f : SharedFile) :
    fileNodes dir f = match getSanitizedDiskFileName f with
      | .error _ => []
      | .ok name => if f.isDirectory then fileNodesIn (dir ++ name ++ ['/']) f.files
        else [(dir ++ name, f)] := by
  cases f
  rw [fileNodes]

theorem leaves_eq (f : SharedFile) :
    leaves f = if f.isDirectory then leavesIn f.files else [f] := by
  cases f
  rw [leaves]

/-! ## 2. The walk along the tree -/

/-- What stands at the local path of a listed file is as long as listed; or it is longer, and was
    reported, or is as long as another of the `files` with this path is listed. -/
def Settled (files : List (Str × SharedFile)) (w₀ w : LocalDisk) (path : Str) (g : SharedFile) :
    Prop :=
  ∃ e, w.entry path = some e ∧ (e.length = g.fileSize.toNat ∨ g.fileSize.toNat < e.length ∧
    (Reported w₀ w g.path ∨ ∃ g', (path, g') ∈ files ∧ e.length = g'.fileSize.toNat))

/-- What stood at a path is there and as long as before, or now as long as one of the `files` with
    this path is listed. -/
def Lengthened (files : List (Str × SharedFile)) (w w' : LocalDisk) : Prop :=
  ∀ p e, w.entry p = some e → ∃ e', w'.entry p = some e' ∧ (e'.length = e.length ∨
    ∃ g, (p, g) ∈ files ∧ e.length < g.fileSize.toNat ∧ e'.length = g.fileSize.toNat)

/-- The local path of one of the `files`. -/
def placeOf (files : List (Str × SharedFile)) (p : Str) : Prop := ∃ g, (p, g) ∈ files

/-- What the visits to the `files` of the queue item `q` leave; a walk that was told to stop has left
    out the rest. -/
structure Walked (limit : Str → UInt64) (q : DownloadQueueItem) (files : List (Str × SharedFile))
    (t : Thread SingleDownloader) (w : LocalDisk) (t' : Thread SingleDownloader) (w' : LocalDisk) :
    Prop where
  grew : Grew limit (placeOf files) w w'
  onward : Onward t t'
  lengthened : t'.self.stopDownloading = false → Lengthened files w w'
  settled : t'.self.stopDownloading = false → ∀ p g, (p, g) ∈ files → g.path ≠ q.path →
    Settled files w w' p g

section Walk

variable {limit : Str → UInt64} {q : DownloadQueueItem} {files files₁ files₂ : List (Str × SharedFile)}
  {t t₁ t' : Thread SingleDownloader} {w w₁ w' : LocalDisk}

/-- A thread that goes on had not been told to stop. -/
theorem Onward.going (h : Onward t t') (hs : t'.self.stopDownloading = false) :
    t.self.stopDownloading = false := by
  by_contra hne
  have hstop := h.stop (by simpa using hne)
  rw [hs] at hstop
  cases hstop

theorem Lengthened.refl (w : LocalDisk) : Lengthened files w w := fun _ e he => ⟨e, he, .inl rfl⟩

theorem Lengthened.mono (h : Lengthened files w w') (hsub : files ⊆ files₁) :
    Lengthened files₁ w w' := by
  intro p e he
  obtain ⟨e', he', hlen⟩ := h p e he
  refine ⟨e', he', hlen.imp_right fun ⟨g, hg, hlt⟩ => ⟨g, hsub hg, hlt⟩⟩

theorem Lengthened.trans (h : Lengthened files w w₁) (h' : Lengthened files w₁ w') :
    Lengthened files w w' := by
  intro p e he
  obtain ⟨e₁, he₁, hlen₁⟩ := h p e he
  obtain ⟨e', he', hlen'⟩ := h' p e₁ he₁
  refine ⟨e', he', ?_⟩
  rcases hlen' with hsame | ⟨g, hg, hlt, hlen⟩
  · rw [hsame]
    exact hlen₁
  · refine .inr ⟨g, hg, ?_, hlen⟩
    rcases hlen₁ with hsame | ⟨g₁, -, hlt₁, hlen₁⟩
    · rwa [← hsame]
    · omega

theorem Lengthened.of_entry (h : w'.entry = w.entry) : Lengthened files w w' := by
  intro p e he
  exact ⟨e, by rw [h, he], .inl rfl⟩

/-- A later visit may lengthen what an earlier one has settled. -/
theorem Settled.later {p : Str} {g : SharedFile} {w₀ : LocalDisk} (h : Settled files w w₁ p g)
    (hsub : files ⊆ files₁) (hlater : Lengthened files₁ w₁ w') (h₀ : w₀.reports <+: w.reports)
    (h₁ : w.reports <+: w₁.reports) (h₂ : w₁.reports <+: w'.reports) :
    Settled files₁ w₀ w' p g := by
  obtain ⟨e₁, he₁, hlen₁⟩ := h
  obtain ⟨e', he', hlen'⟩ := hlater p e₁ he₁
  refine ⟨e', he', ?_⟩
  rcases hlen' with hsame | ⟨g', hg', hlt, hlen⟩
  · rw [hsame]
    rcases hlen₁ with hexact | ⟨hlt, hreport | ⟨g', hg', hlen⟩⟩
    · exact .inl hexact
    · exact .inr ⟨hlt, .inl (hreport.mono h₀ h₁ h₂)⟩
    · exact .inr ⟨hlt, .inr ⟨g', hsub hg', hlen⟩⟩
  · refine .inr ⟨?_, .inr ⟨g', hg', hlen⟩⟩
    rcases hlen₁ with hexact | ⟨hgt, -⟩
    · omega
    · omega

/-- The visit to one file. -/
theorem Visited.walked {dir path : Str} {f : SharedFile} (h : Visited limit ⟨dir, path, f, q⟩ t w t' w') :
    Walked limit q [(path, f)] t w t' w' where
  grew := h.grew.mono fun p hp => ⟨f, by simpa [atDestination] using hp⟩
  onward := h.onward
  lengthened hs p e he := by
    by_cases hp : p = path
    · subst hp
      obtain ⟨e', he', hlen⟩ := h.lengths hs e he
      exact ⟨e', he', hlen.imp_right fun hlt => ⟨f, List.mem_singleton.mpr rfl, hlt⟩⟩
    · rcases h.grew.elsewhere p hp with hsame | ⟨hnone, -⟩
      · exact ⟨e, by rw [hsame, he], .inl rfl⟩
      · rw [he] at hnone
        cases hnone
  settled hs p g hpg hne := by
    obtain ⟨rfl, rfl⟩ := Prod.mk.inj (List.mem_singleton.mp hpg)
    obtain ⟨e, he, hlen⟩ := h.settled hs (by simpa [Transfer.isQueueFileDownloading] using hne)
    exact ⟨e, he, hlen.imp_right fun h => ⟨h.1, .inl h.2⟩⟩

theorem Walked.refl (t : Thread SingleDownloader) (w : LocalDisk) : Walked limit q [] t w t w where
  grew := .refl w
  onward := .refl t
  lengthened _ := .refl w
  settled _ _ _ h := absurd h List.not_mem_nil

/-- **Visits after visits.** -/
theorem Walked.append (h : Walked limit q files₁ t w t₁ w₁) (h' : Walked limit q files₂ t₁ w₁ t' w') :
    Walked limit q (files₁ ++ files₂) t w t' w' := by
  have hsub₁ : files₁ ⊆ files₁ ++ files₂ := List.subset_append_left _ _
  have hsub₂ : files₂ ⊆ files₁ ++ files₂ := List.subset_append_right _ _
  refine ⟨?_, h.onward.trans h'.onward, fun hs => ?_, fun hs p g hpg hne => ?_⟩
  · exact (h.grew.mono fun p ⟨g, hg⟩ => ⟨g, hsub₁ hg⟩).trans
      (h'.grew.mono fun p ⟨g, hg⟩ => ⟨g, hsub₂ hg⟩)
  · exact ((h.lengthened (h'.onward.going hs)).mono hsub₁).trans ((h'.lengthened hs).mono hsub₂)
  · rcases List.mem_append.mp hpg with hpg | hpg
    · exact (h.settled (h'.onward.going hs) p g hpg hne).later hsub₁
        ((h'.lengthened hs).mono hsub₂) List.prefix_rfl h.grew.reports h'.grew.reports
    · exact (h'.settled hs p g hpg hne).later hsub₂ (.refl w') h.grew.reports h'.grew.reports
        List.prefix_rfl

/-- A walk that was told to stop. -/
theorem Walked.stopped (h : Walked limit q files₁ t w t' w')
    (hs : t'.self.stopDownloading = true) : Walked limit q (files₁ ++ files₂) t w t' w' where
  grew := h.grew.mono fun p ⟨g, hg⟩ => ⟨g, List.mem_append_left _ hg⟩
  onward := h.onward
  lengthened hgo := by
    rw [hs] at hgo
    cases hgo
  settled hgo := by
    rw [hs] at hgo
    cases hgo

/-- Nothing is done on the local files. -/
theorem walked_calm (ht : Onward t t') (hw : Calm w w') : Walked limit q [] t w t' w' where
  grew := hw.grewOnly.1
  onward := ht
  lengthened _ := .of_entry hw.entry
  settled _ _ _ h := absurd h List.not_mem_nil

theorem Walked.calm (h : Walked limit q files t w t₁ w₁) (ht : Onward t₁ t') (hw : Calm w₁ w') :
    Walked limit q files t w t' w' := by
  have hall := h.append (walked_calm (q := q) ht hw)
  rwa [List.append_nil] at hall

variable {watch : LocalDisk → CompletedMessage → Prop}

/-- The files may be reported as completed where they are exact. -/
def WatchesFiles (watch : LocalDisk → CompletedMessage → Prop) (q : DownloadQueueItem)
    (files : List (Str × SharedFile)) : Prop :=
  ∀ p g, (p, g) ∈ files → ∀ w m, ExactFile q g p w m → watch w m

/-- What the walk along a tree with these files and leaves leaves. -/
def WalkedAll (limit : Str → UInt64) (q : DownloadQueueItem) (files : List (Str × SharedFile))
    (leaves : List SharedFile) (t : Thread SingleDownloader) (w : LocalDisk)
    (t' : Thread SingleDownloader) (w' : LocalDisk) : Prop :=
  Walked limit q files t w t' w' ∧
    (t'.self.stopDownloading = false → files.map Prod.snd = leaves)

theorem active_of_onward (h : Onward t t') (ha : ∀ a, t.self.activeDownloadPath = some a → a = q) :
    ∀ a, t'.self.activeDownloadPath = some a → a = q := by
  intro a ha'
  rcases h.active with hsame | hnone
  · exact ha a (hsame ▸ ha')
  · rw [hnone] at ha'
    cases ha'

mutual

/-- **The walk along a listed tree.** -/
theorem wp_downloadSharedFile [Crates] (fuel : Nat) (dir : Str) : ∀ (f : SharedFile)
    (t : Thread SingleDownloader) (w : LocalDisk),
    (∀ a, t.self.activeDownloadPath = some a → a = q) → WatchesFiles watch q (fileNodes dir f) →
    wp (onDisk limit watch) (downloadSharedFile fuel dir f)
      (fun _ t' w' => WalkedAll limit q (fileNodes dir f) (leaves f) t w t' w')
      (fun _ _ w' => Grew limit (placeOf (fileNodes dir f)) w w') t w
  | ⟨path, isDirectory, files, fileSize, sizeString⟩, t, w, hactive, hwatch => by
    rw [downloadSharedFile]
    rw [fileNodes_eq] at hwatch ⊢
    rw [leaves_eq]
    generalize hf : SharedFile.mk path isDirectory files fileSize sizeString = f at hwatch ⊢
    cases hname : getSanitizedDiskFileName f with
    | error e => exact .refl w
    | ok name =>
      rw [hname] at hwatch
      have hdir : f.isDirectory = isDirectory := by rw [← hf]
      have hfiles : f.files = files := by rw [← hf]
      simp only [hdir, hfiles] at hwatch ⊢
      show wp (onDisk limit watch) (if isDirectory = true then
        downloadFiles fuel (dir ++ name ++ ['/']) files
        else downloadFile fuel dir (dir ++ name) f) _ _ t w
      refine (wp_ite _ _ _).mpr ?_
      cases isDirectory with
      | true =>
        rw [if_pos rfl]
        exact wp_downloadFiles fuel (dir ++ name ++ ['/']) files t w hactive hwatch
      | false =>
        rw [if_neg (by decide)]
        refine wp_conseq (wp_downloadFile fuel dir (dir ++ name) f hactive
          (hwatch (dir ++ name) f (List.mem_singleton.mpr rfl))) (fun _ t' w' h => ?_)
          fun _ _ w' h => ?_
        · exact ⟨h.walked, fun _ => rfl⟩
        · exact h.1.mono fun p hp => ⟨f, List.mem_singleton.mpr (by rw [hp])⟩

theorem wp_downloadFiles [Crates] (fuel : Nat) (dir : Str) : ∀ (files : List SharedFile)
    (t : Thread SingleDownloader) (w : LocalDisk),
    (∀ a, t.self.activeDownloadPath = some a → a = q) →
    WatchesFiles watch q (fileNodesIn dir files) →
    wp (onDisk limit watch) (downloadFiles fuel dir files)
      (fun _ t' w' => WalkedAll limit q (fileNodesIn dir files) (leavesIn files) t w t' w')
      (fun _ _ w' => Grew limit (placeOf (fileNodesIn dir files)) w w') t w
  | [], t, w, _, _ => by
    rw [downloadFiles]
    exact ⟨.refl t w, fun _ => rfl⟩
  | a :: files, t, w, hactive, hwatch => by
    rw [downloadFiles]
    rw [fileNodesIn] at hwatch ⊢
    rw [leavesIn]
    have hfront : ∀ p, placeOf (fileNodes dir a) p →
        placeOf (fileNodes dir a ++ fileNodesIn dir files) p :=
      fun p ⟨g, hg⟩ => ⟨g, List.mem_append_left _ hg⟩
    refine wp_seq (wp_downloadSharedFile fuel dir a t w hactive
      fun p g hpg => hwatch p g (List.mem_append_left _ hpg)) (fun _ t₁ w₁ h₁ => ?_)
      fun _ _ w' h => h.mono hfront
    refine wp_seq (wp_calm (wp_readReceiver fuel t₁) (wireAnd_of_own fun _ hc => hc))
      (fun _ t₂ w₂ h₂ => ?_) fun _ _ w₂ h₂ => (h₁.1.grew.trans h₂.2.grewOnly.1).mono hfront
    have hwalk := h₁.1.calm h₂.1.onward h₂.2
    show wp (onDisk limit watch) (if t₂.self.stopDownloading = true then pure () else _) _ _ t₂ w₂
    refine (wp_ite _ _ _).mpr ?_
    split
    · rename_i hstop
      refine ⟨hwalk.stopped hstop, fun hs => ?_⟩
      rw [hstop] at hs
      cases hs
    · refine wp_conseq (wp_downloadFiles fuel dir files t₂ w₂
        (active_of_onward hwalk.onward hactive)
        fun p g hpg => hwatch p g (List.mem_append_right _ hpg)) (fun _ t₃ w₃ h₃ => ?_)
        fun _ _ w₃ h₃ => ?_
      · refine ⟨hwalk.append h₃.1, fun hs => ?_⟩
        have hgo := h₂.1.onward.going (h₃.1.onward.going hs)
        rw [List.map_append, h₁.2 hgo, h₃.2 hs]
      · exact (hwalk.grew.mono hfront).trans
          (h₃.mono fun p ⟨g, hg⟩ => ⟨g, List.mem_append_right _ hg⟩)

end

end Walk

/-! ## 3. Files -/

/-- A downloader on its local disk, where anything may be reported. -/
abbrev anyDisk (limit : Str → UInt64) : DlEnv LocalDisk := onDisk limit fun _ _ => True

section Files

variable {limit : Str → UInt64} {fuel : Nat} {dir : Str} {f : SharedFile}
  {q : DownloadQueueItem} {t : Thread SingleDownloader}

theorem active_eq (hq : t.self.activeDownloadPath = some q) :
    ∀ a, t.self.activeDownloadPath = some a → a = q := by
  intro a ha
  rw [hq] at ha
  exact (Option.some.inj ha).symm

variable [Crates]

/-- One file of the tree, and what is reported of it. -/
theorem wp_downloadSharedFile_file (hactive : ∀ a, t.self.activeDownloadPath = some a → a = q)
    (hdir : f.isDirectory = false) (w : LocalDisk) :
    wp (anyDisk limit) (downloadSharedFile fuel dir f)
      (fun _ _ w' => w'.completions = w.completions ∨ ∃ m path, (path, f) ∈ fileNodes dir f ∧
        ExactFile q f path w' m ∧ w'.completions = w.completions ++ [m])
      (fun _ _ w' => w'.completions = w.completions) t w := by
  rw [downloadSharedFile_eq, fileNodes_eq, hdir]
  cases hname : getSanitizedDiskFileName f with
  | error e => exact rfl
  | ok name =>
    show wp _ (downloadFile fuel dir (dir ++ name) f) _ _ t w
    refine wp_conseq (wp_downloadFile fuel dir (dir ++ name) f hactive fun _ _ _ => trivial)
      (fun _ t' w' h => ?_) fun _ _ w' h => h.2
    rcases h.completed with hc | ⟨m, hm, hc⟩
    · exact .inl hc
    · exact .inr ⟨m, dir ++ name, List.mem_singleton.mpr rfl, hm, hc⟩

/-- **A file reported as completed has the expected length.** Whatever the frames and the messages,
    at the moment `download_shared_file` reports a completed download there is a file of the listed
    tree whose listed size is the one the queue expects, and what stands at its local path is exactly
    as long; and where a transfer of a file ends in any other way than by this, in an error or not,
    nothing is reported as completed. -/
theorem completed_exact (hq : t.self.activeDownloadPath = some q) (w : LocalDisk) :
    (∀ p w' m, Reach (anyDisk limit) (downloadSharedFile fuel dir f t, w) (p, w') →
      asked p = some (.app (.completed m)) → ∃ path g, (path, g) ∈ fileNodes dir f ∧
        ExactFile q g path w' m ∧ ((∀ n, w'.entry path ≠ some (.dir n)) →
          ∃ bytes, w'.entry path = some (.file bytes) ∧ bytes.length = q.fileSize.toNat ∧
            q.fileSize = g.fileSize)) ∧
    (f.isDirectory = false → ∀ p w',
      Reach (anyDisk limit) (downloadSharedFile fuel dir f t, w) (p, w') → p.issued = none →
      w'.completions = w.completions ∨ ∃ m t' path, p = .ret () t' ∧ (path, f) ∈ fileNodes dir f ∧
        ExactFile q f path w' m ∧ w'.completions = w.completions ++ [m]) := by
  constructor
  · intro p w' m hr hp
    let watch : LocalDisk → CompletedMessage → Prop := fun w m =>
      ∃ path g, (path, g) ∈ fileNodes dir f ∧ ExactFile q g path w m
    have hwp : wp (onDisk limit watch) (downloadSharedFile fuel dir f)
        (fun _ t' w' => WalkedAll limit q (fileNodes dir f) (leaves f) t w t' w')
        (fun _ _ w' => Grew limit (placeOf (fileNodes dir f)) w w') t w :=
      wp_downloadSharedFile fuel dir f t w (active_eq hq) fun path g hg w m hm => ⟨path, g, hg, hm⟩
    have hwatch : watch w' m := by
      have hissued := issued_of_asked hp
      cases p with
      | ret a s => cases hissued
      | fail x s => cases hissued
      | call s c k =>
        cases hissued
        exact reach_ok hwp hr.admitting
    obtain ⟨path, g, hg, hexact⟩ := hwatch
    refine ⟨path, g, hg, hexact, fun hdir => ?_⟩
    obtain ⟨e, he, hlen⟩ := hexact.length
    cases e with
    | dir n => exact absurd he (hdir n)
    | file bytes => exact ⟨bytes, he, hlen, hexact.fileSize⟩
  · intro hdir p w' hr hend
    rcases reach_end (wp_downloadSharedFile_file (active_eq hq) hdir w) hr hend with
      ⟨-, t', rfl, hc⟩ | ⟨-, -, -, hc⟩
    · refine hc.imp_right fun ⟨m, path, hpath, hexact, hm⟩ => ⟨m, t', path, rfl, hpath, hexact, hm⟩
    · exact .inl hc

end Files

/-- The download a command reports as completed. -/
def DownloaderCmd.completion : DownloaderCmd → Option CompletedMessage
  | .app (.completed m) => some m
  | _ => none

theorem asked_of_completion {α : Type} {p : Prog (Thread SingleDownloader) (Wire ⊕ DownloaderCmd)
    (Ans DownloaderCmd.Ans) Exc α} (h : ((asked p).bind DownloaderCmd.completion).isSome = true) :
    ∃ m, asked p = some (.app (.completed m)) := by
  obtain ⟨m, hm⟩ := Option.isSome_iff_exists.mp h
  obtain ⟨c, hc, hcm⟩ := Option.bind_eq_some_iff.mp hm
  unfold DownloaderCmd.completion at hcm
  split at hcm
  · exact ⟨_, hc⟩
  · cases hcm

/-- Nothing is to be written, and nothing comes over the wire. -/
def idleDisk : (c : Wire ⊕ DownloaderCmd) → LocalDisk → Ans DownloaderCmd.Ans c × LocalDisk :=
  runDisk (fun _ => 0) fun c => restAnswers (.inl c)

/-- The frames of a connection, each at its nonce; only those of the peer are looked at. -/
def repliesAt (frames : List (List UInt8)) : (c : Wire) → c.Ans
  | .seal _ _ => Sealed.done
  | .unseal nonce _ =>
    match frames[nonce]? with
    | some frame => Unsealed.plain frame
    | none => Unsealed.io []

/-- The two frames of a message. -/
def replyFrames [Crates] (msg : UInt16) (payload : List UInt8) : List (List UInt8) :=
  [header msg payload.length, body msg payload]

/-- A file of three bytes, and a downloader with it as the active download. -/
def chunkedFile : SharedFile := SharedFile.new pathA false [] 3

def chunkedItem : DownloadQueueItem := { path := pathA, fileSize := 3 }

def chunkedThread : Thread SingleDownloader :=
  { idleThread [] [] with self := { (idleThread [] []).self with activeDownloadPath := some chunkedItem } }

/-- After the request the file comes in two messages. -/
def chunkedFrames : List (List UInt8) :=
  [[], []] ++ @replyFrames idleCrates msgFileChunk [1, 2] ++ @replyFrames idleCrates msgFileFinished [3]

/-- The run up to the report. -/
def chunkedRun : Prog (Thread SingleDownloader) (Wire ⊕ DownloaderCmd) (Ans DownloaderCmd.Ans) Exc
    Unit × LocalDisk :=
  (@downloadSharedFile idleCrates 9 "/d/".toList chunkedFile chunkedThread).playIn
    (runDisk (fun _ => 3) (repliesAt chunkedFrames)) 17 emptyDisk

theorem chunkedRun_reached : Reach (anyDisk fun _ => 3) (@downloadSharedFile idleCrates 9 "/d/".toList
    chunkedFile chunkedThread, emptyDisk) (chunkedRun.1, chunkedRun.2) := by
  rw [Prod.mk.eta]
  unfold chunkedRun
  exact reach_playIn (runDisk_step _) 17 _ emptyDisk

theorem chunkedRun_completed :
    ((asked chunkedRun.1).bind DownloaderCmd.completion).isSome = true := by decide +kernel

/-- A file that comes in two messages is completed. -/
theorem completed_exact_chunks : ∃ m path g, (path, g) ∈ fileNodes "/d/".toList chunkedFile ∧
    ExactFile chunkedItem g path chunkedRun.2 m := by
  obtain ⟨m, hm⟩ := asked_of_completion chunkedRun_completed
  obtain ⟨path, g, hg, hexact, -⟩ := (@completed_exact (fun _ => 3) 9 "/d/".toList chunkedFile chunkedItem
    chunkedThread idleCrates rfl emptyDisk).1 _ _ m chunkedRun_reached hm
  exact ⟨m, path, g, hg, hexact⟩

end Transmitic
