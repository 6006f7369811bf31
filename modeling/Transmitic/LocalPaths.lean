/-
  File:      Transmitic/LocalPaths.lean
  Subject:   WHERE A DOWNLOAD ENDS UP ON THE LOCAL DISK.

  `download_shared_file` builds the local path of a file from the base names of the listed nodes on
  the way down from the node of the queue item. Where on the remote disk this node stands does not
  matter.

  * `BaseNames` -- the chain of base names from a node down to a node below it;
  * `destination_injective` -- chains and local paths are the same thing;
  * `downloadSharedFile_files` -- every local file a download creates, opens or writes is the
    destination of such a chain;
  * `localFiles_chain` -- **two downloads touch the same local file only through equal chains**;
  * `localFiles_collide` -- two files of one name, shared from two directories, are one local file.
-/
import Transmitic.ConfigDir
import Transmitic.DownloaderCommands

namespace Transmitic

open Lib

/-! ## 1. Chains of base names -/

mutual

/-- The files below a node, or the node itself. -/
def leaves : SharedFile → List SharedFile
  | ⟨path, isDirectory, files, fileSize, sizeString⟩ =>
    if isDirectory then leavesIn files else [⟨path, isDirectory, files, fileSize, sizeString⟩]

def leavesIn : List SharedFile → List SharedFile
  | [] => []
  | f :: fs => leaves f ++ leavesIn fs

end

/-- From the node `f` down to the node `g`, the nodes have these base names on the local disk. -/
inductive BaseNames : SharedFile → List Str → SharedFile → Prop where
  | here (f : SharedFile) (name : Str) (h : getSanitizedDiskFileName f = .ok name) :
      BaseNames f [name] f
  | inside (f a g : SharedFile) (name : Str) (names : List Str)
      (h : getSanitizedDiskFileName f = .ok name) (hd : f.isDirectory = true) (ha : a ∈ f.files)
      (hb : BaseNames a names g) : BaseNames f (name :: names) g

/-- The local path of a chain. -/
def destination (rootDownloadDir : Str) (names : List Str) : Str :=
  rootDownloadDir ++ ['/'].intercalate names

theorem sanitizedName_valid {f : SharedFile} {name : Str}
    (h : getSanitizedDiskFileName f = .ok name) : ValidName name := by
  obtain ⟨path, -, hn⟩ := bind_eq_ok.mp h
  cases hf : fileName path with
  | none =>
    rw [hf] at hn
    cases hn
  | some n =>
    rw [hf] at hn
    cases hn
    exact fileName_valid hf

theorem BaseNames.ne_nil {f g : SharedFile} {names : List Str} (h : BaseNames f names g) :
    names ≠ [] := by
  cases h <;> exact List.cons_ne_nil _ _

theorem BaseNames.valid {f g : SharedFile} {names : List Str} (h : BaseNames f names g) :
    ∀ name ∈ names, ValidName name := by
  induction h with
  | here f name h =>
    intro n hn
    rw [List.mem_singleton.mp hn]
    exact sanitizedName_valid h
  | inside f a g name names h hd ha hb ih =>
    intro n hn
    rcases List.mem_cons.mp hn with rfl | hn
    · exact sanitizedName_valid h
    · exact ih n hn

/-- **A chain is the way its destination is spelled.** -/
theorem destination_injective {root : Str} {f₁ g₁ f₂ g₂ : SharedFile} {names₁ names₂ : List Str}
    (h₁ : BaseNames f₁ names₁ g₁) (h₂ : BaseNames f₂ names₂ g₂)
    (h : destination root names₁ = destination root names₂) : names₁ = names₂ := by
  have hsplit₁ : (['/'].intercalate names₁).splitOn '/' = names₁ :=
    List.splitOn_intercalate '/' (fun n hn => (h₁.valid n hn).2.2.2) h₁.ne_nil
  have hsplit₂ : (['/'].intercalate names₂).splitOn '/' = names₂ :=
    List.splitOn_intercalate '/' (fun n hn => (h₂.valid n hn).2.2.2) h₂.ne_nil
  rw [← hsplit₁, List.append_cancel_left h, hsplit₂]

/-! ## 2. The files a download touches -/

/-- The destinations of the files a download of `f` in the directory `dir` is made of. -/
def Destination (dir : Str) (f : SharedFile) (p : Str) : Prop :=
  ∃ names g, BaseNames f names g ∧ g.isDirectory = false ∧ p = destination dir names

/-- The commands that touch destinations only. -/
def touchesDestinations (dir : Str) (f : SharedFile) (c : DownloaderCmd) : Prop :=
  ∀ p, c.file = some p → Destination dir f p

theorem destination_below {dir name p : Str} {f a : SharedFile}
    (h : getSanitizedDiskFileName f = .ok name) (hd : f.isDirectory = true) (ha : a ∈ f.files)
    (hp : Destination (dir ++ name ++ ['/']) a p) : Destination dir f p := by
  obtain ⟨names, g, hb, hg, rfl⟩ := hp
  refine ⟨name :: names, g, .inside f a g name names h hd ha hb, hg, ?_⟩
  obtain ⟨n, ns, rfl⟩ := List.exists_cons_of_ne_nil hb.ne_nil
  simp [destination, List.intercalate_cons_cons]

section Touches

variable {α : Type}

/-- The method touches the file `path` only. -/
def TouchesOnly (path : Str) (m : Dl α) : Prop :=
  Keeps (wireAnd (touchesOnly path)) (fun _ => ()) m

theorem Aside.keepsAny {P : DownloaderCmd → Prop} {m : Dl α} (h : Aside quiet m)
    (hP : ∀ c, quiet c → P c) : Keeps (wireAnd P) (fun _ => ()) m :=
  (h.map fun _ => ()).mono (wireAnd_of_own hP)

theorem Aside.touchesOnly {t : Transfer} {m : Dl α} (h : Aside (working t) m) :
    TouchesOnly t.destinationPath m :=
  (h.map fun _ => ()).mono (wireAnd_of_own fun _ hc => touchesOnly_of_inTransfer (inTransfer_of_working hc))

theorem Aside.touchesNothing {path : Str} {m : Dl α} (h : Aside quiet m) :
    TouchesOnly path m := h.keepsAny fun _ hc => touchesOnly_of_none hc.1

theorem touches_read {path : Str} : TouchesOnly path read := keeps_read.map fun _ => ()

variable [Crates]

theorem touches_write {path : Str} (msg : UInt16) (payload : List UInt8) :
    TouchesOnly path (write msg payload) := (keeps_write msg payload).map fun _ => ()

theorem touches_readEverythingFile {path : Str} : ∀ (fuel : Nat) (jsonBytes : List UInt8),
    TouchesOnly path (readEverythingFile fuel jsonBytes)
  | 0, _ => keeps_throw _
  | fuel + 1, _ =>
    keeps_bind touches_read fun _ => keeps_bind steady_getMessage.keeps fun _ =>
      keeps_bind steady_getPayload.keeps fun _ => keeps_bind keeps_get fun _ =>
        keeps_bind (steady_throwIf _ _).keeps fun _ => keeps_ite (fun _ => keeps_pure _)
          fun _ => touches_readEverythingFile fuel _

theorem touches_downloadEverythingFile {path : Str} (fuel : Nat) :
    TouchesOnly path (downloadEverythingFile fuel) :=
  keeps_bind (touches_write _ _) fun _ => keeps_bind (touches_readEverythingFile fuel [])
    fun _ => keeps_bind (keeps_orThrow _) fun _ => keeps_bind (keeps_orThrow _) fun _ =>
      keeps_pure _

theorem touches_setEverythingFile {path : Str} (fuel : Nat) (forceDownload : Bool) :
    TouchesOnly path (setEverythingFile fuel forceDownload) := by
  refine keeps_bind (aside_shouldDownloadEverythingFile forceDownload).touchesNothing fun b => ?_
  refine keeps_ite (fun _ => ?_) fun _ => keeps_pure _
  refine keeps_bind (touches_downloadEverythingFile fuel) fun everythingFile => ?_
  refine keeps_bind aside_self.touchesNothing fun d => ?_
  exact (aside_quiet (c := .refreshInsert _ _) rfl rfl).touchesNothing

theorem touches_transferLoop (t : Transfer) (fuel : Nat) (remoteMessage : UInt16)
    (currentDownloadedBytes : UInt64) :
    TouchesOnly t.destinationPath (transferLoop t fuel remoteMessage currentDownloadedBytes) :=
  (receives_transferLoop fuel remoteMessage currentDownloadedBytes).mono
    (wireAnd_of_readAnd fun _ hc => touchesOnly_of_inTransfer (inTransfer_of_working hc))

theorem touches_transferFile (fuel : Nat) (t : Transfer) (fileLength : UInt64) :
    TouchesOnly t.destinationPath (transferFile fuel t fileLength) := by
  refine keeps_bind (touches_write _ _) fun _ => keeps_bind touches_read fun _ =>
    keeps_bind steady_getMessage.keeps fun m => keeps_ite (fun _ => ?_) fun _ => ?_
  · exact keeps_bind (touches_setEverythingFile fuel true) fun _ =>
      keeps_bind aside_self.touchesNothing fun _ => keeps_throw _
  · exact keeps_bind aside_self.touchesNothing fun _ => keeps_bind (steady_throwIf _ _).keeps fun _ =>
      keeps_bind (aside_openDestination t).touchesOnly fun _ => touches_transferLoop t fuel _ _

theorem touches_downloadFile (fuel : Nat) (downloadDir destinationPath : Str)
    (sharedFile : SharedFile) :
    TouchesOnly destinationPath (downloadFile fuel downloadDir destinationPath sharedFile) := by
  refine keeps_bind (aside_quiet (c := .pathExists _) rfl rfl).touchesNothing fun doesFileExist => ?_
  refine keeps_bind (local_localFileLength _ _).quietly.touchesNothing fun fileLength => ?_
  refine keeps_bind (keeps_modify fun _ => rfl) fun _ => ?_
  refine keeps_bind aside_self.touchesNothing fun d => ?_
  refine keeps_bind (steady_orPanic _).keeps fun queueDownload => ?_
  refine keeps_bind (keeps_ite (fun _ => ?_) fun _ => ?_) fun needed => ?_
  · exact (aside_checkQueueFile ⟨_, _, _, _⟩ _ _).touchesOnly
  · exact (aside_checkSubfile ⟨_, _, _, _⟩ _ _).touchesOnly
  · exact keeps_ite (fun _ => touches_transferFile fuel ⟨_, _, _, _⟩ _) fun _ => keeps_pure _

/-- `download_shared_file`, one step at a time. -/
theorem downloadSharedFile_eq (fuel : Nat) (dir : Str) (f : SharedFile) :
    downloadSharedFile fuel dir f = (do
      let currentPathName ← orThrow (getSanitizedDiskFileName f)
      if f.isDirectory then downloadFiles fuel (dir ++ currentPathName ++ ['/']) f.files
      else downloadFile fuel dir (dir ++ currentPathName) f) := by
  cases f
  rw [downloadSharedFile]

mutual

/-- **Every local file a download touches is a destination.** -/
theorem downloadSharedFile_files (fuel : Nat) (dir : Str) : ∀ f : SharedFile,
    Keeps (wireAnd (touchesDestinations dir f)) (fun _ => ()) (downloadSharedFile fuel dir f)
  | ⟨path, isDirectory, files, fileSize, sizeString⟩ => by
    rw [downloadSharedFile_eq]
    cases hname : getSanitizedDiskFileName ⟨path, isDirectory, files, fileSize, sizeString⟩ with
    | error e => exact fun _ => rfl
    | ok name =>
      show Keeps _ _ (if isDirectory then downloadFiles fuel (dir ++ name ++ ['/']) files
        else downloadFile fuel dir (dir ++ name) ⟨path, isDirectory, files, fileSize, sizeString⟩)
      refine keeps_ite (fun hd => ?_) fun hd => ?_
      · refine downloadFiles_files fuel _ files (fun c hc p hp => ?_) fun a ha c hc p hp =>
          destination_below hname hd ha (hc p hp)
        rw [hc.1] at hp
        cases hp
      · refine (touches_downloadFile fuel dir (dir ++ name) _).mono ?_
        rintro (c | c) hc
        · exact trivial
        · intro p hp
          refine ⟨[name], _, .here _ name hname, by simpa using hd, ?_⟩
          rw [hc p hp, destination, List.intercalate_singleton]

theorem downloadFiles_files (fuel : Nat) (dir : Str) {P : DownloaderCmd → Prop} :
    ∀ files : List SharedFile, (∀ c, quiet c → P c) →
      (∀ a ∈ files, ∀ c, touchesDestinations dir a c → P c) →
      Keeps (wireAnd P) (fun _ => ()) (downloadFiles fuel dir files)
  | [], _, _ => keeps_pure _
  | a :: files, hquiet, h => by
    rw [downloadFiles]
    refine keeps_bind ?_ fun _ => keeps_bind ((aside_readReceiver fuel).quietly.keepsAny hquiet) fun _ =>
      keeps_bind (aside_self.keepsAny hquiet) fun d => keeps_ite (fun _ => keeps_pure _) fun _ => ?_
    · refine (downloadSharedFile_files fuel dir a).mono ?_
      rintro (c | c) hc
      · exact trivial
      · exact h a List.mem_cons_self c hc
    · exact downloadFiles_files fuel dir files hquiet fun b hb => h b (List.mem_cons_of_mem a hb)

end

/-- Some run of a download of `f` in `rootDownloadDir` creates, opens or writes the file `p`. -/
def TouchedBy (rootDownloadDir : Str) (f : SharedFile) (p : Str) : Prop :=
  ∃ fuel t q, Reach (anyAnswers fun _ => True) (downloadSharedFile fuel rootDownloadDir f t, ())
    (q, ()) ∧ ∃ c : DownloaderCmd, q.issued = some (.inr c) ∧ c.file = some p

theorem touched_destination {rootDownloadDir p : Str} {f : SharedFile}
    (h : TouchedBy rootDownloadDir f p) : Destination rootDownloadDir f p := by
  obtain ⟨fuel, t, q, hr, c, hq, hc⟩ := h
  exact (downloadSharedFile_files fuel rootDownloadDir f).issued hr hq p hc

end Touches

/-! ## 3. Two downloads -/

/-- **Two downloads touch the same local file only through equal chains**: the base names from the
    one queued node down to its file are those from the other down to its file. -/
theorem localFiles_chain [Crates] {rootDownloadDir p : Str} {f₁ f₂ : SharedFile}
    (h₁ : TouchedBy rootDownloadDir f₁ p) (h₂ : TouchedBy rootDownloadDir f₂ p) :
    ∃ names g₁ g₂, BaseNames f₁ names g₁ ∧ BaseNames f₂ names g₂ ∧ g₁.isDirectory = false ∧
      g₂.isDirectory = false ∧ p = destination rootDownloadDir names := by
  obtain ⟨names₁, g₁, hb₁, hg₁, rfl⟩ := touched_destination h₁
  obtain ⟨names₂, g₂, hb₂, hg₂, hp⟩ := touched_destination h₂
  obtain rfl := destination_injective hb₁ hb₂ hp
  exact ⟨names₁, g₁, g₂, hb₁, hb₂, hg₁, hg₂, rfl⟩

/-! ## 4. Two files of one name -/

def pathA : Str := "/a/x.txt".toList

def pathB : Str := "/b/x.txt".toList

/-- The listed node of an empty file. -/
def emptyFile (path : Str) : SharedFile := SharedFile.new path false [] 0

/-- A downloader whose active download is the empty file `path`. -/
def activeThread (path : Str) : Thread SingleDownloader :=
  { idleThread [] [] with
    self := { (idleThread [] []).self with activeDownloadPath := some { path, fileSize := 0 } } }

/-- Either file is created in the directory of the downloads. -/
theorem touched_both [Crates] {path : Str} (h : path = pathA ∨ path = pathB) :
    TouchedBy "/d/".toList (emptyFile path) "/d/x.txt".toList := by
  rcases h with rfl | rfl
  · exact ⟨0, activeThread pathA, _, reach_play [restAnswers, restAnswers] _,
      .fileCreate "/d/x.txt".toList, rfl, rfl⟩
  · exact ⟨0, activeThread pathB, _, reach_play [restAnswers, restAnswers] _,
      .fileCreate "/d/x.txt".toList, rfl, rfl⟩

/-- The chain two files of one name share. -/
theorem localFiles_chain_empty :
    ∃ names g₁ g₂, BaseNames (emptyFile pathA) names g₁ ∧ BaseNames (emptyFile pathB) names g₂ ∧
      g₁.isDirectory = false ∧ g₂.isDirectory = false ∧
      "/d/x.txt".toList = destination "/d/".toList names :=
  let _ : Crates := idleCrates
  localFiles_chain (touched_both (.inl rfl)) (touched_both (.inr rfl))

/-- Two directories with a file of the same name. -/
def twoDirs : Entry :=
  .dir true [(some "a".toList, .dir true [(some "x.txt".toList, .file [])]),
    (some "b".toList, .dir true [(some "x.txt".toList, .file [])])]

theorem twoDirs_wellFormed : twoDirs.WellFormed := by
  simp only [twoDirs, Entry.WellFormed, entriesWellFormed]
  decide

def twoDirsFs : FileSystem := { root := twoDirs, wellFormed := twoDirs_wellFormed, cwd := [] }

/-- The config that shares both files with one user. -/
def twoFilesConfig : Config :=
  { homeConfig pathA with
    configFile := { (homeConfig pathA).configFile with
      sharedFiles := [{ path := pathA, sharedWith := ["bob".toList] },
        { path := pathB, sharedWith := ["bob".toList] }] } }

/-- What the downloader makes of a listing it receives. -/
def received (listing : SharedFile) : SharedFile := resetFileSizeString (removeInvalidFiles listing)

/-- **Two files of one name**: both are shared, both can be queued, and their downloads create one
    local file. -/
theorem localFiles_collide : ∃ (listing f₁ f₂ : SharedFile) (p : Str),
    getEverythingFile twoDirsFs twoFilesConfig "bob".toList = .ok listing ∧ pathA ≠ pathB ∧
      getFileByPath pathA (received listing) = some f₁ ∧
      getFileByPath pathB (received listing) = some f₂ ∧
      @TouchedBy idleCrates "/d/".toList f₁ p ∧ @TouchedBy idleCrates "/d/".toList f₂ p := by
  let crates : Crates := idleCrates
  refine ⟨_, emptyFile pathA, emptyFile pathB, "/d/x.txt".toList, rfl, by decide, ?_, ?_,
    touched_both (.inl rfl), touched_both (.inr rfl)⟩
  · rfl
  · rfl

end Transmitic
