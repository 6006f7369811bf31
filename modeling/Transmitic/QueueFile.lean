/-
  File:      Transmitic/QueueFile.lean
  Subject:   DOES THE QUEUE FILE GIVE THE QUEUE BACK?

  `write_queue` writes one line for each item, `add_to_queue_file_and_start_downloader` appends
  one, `initialize_download_queue` reads the lines, trims them and cuts them at the first colon.

  * `Representable` -- a path that fits on a line: no line feed in it, no white space at its end;
  * `parseQueueLine_queueLine`, `parseQueueLine_representable` -- one line, both ways: such a path
    is read as it was written, and only such paths are ever read;
  * `queueFile_faithful_iff` -- **the queue file gives back the queue exactly when every path of
    the queue is representable**, whatever the file was before and whatever the removal of an
    empty queue file answers;
  * `lineFeed_blocks_queue` -- a path with a line feed: the next start fails.
-/
import Transmitic.DownloaderCommands

namespace Transmitic

open Lib

/-! ## 1. One line -/

/-- A path a line of the queue file can hold. -/
def Representable (path : Str) : Prop := '\n' ∉ path ∧ EndClean path

instance (path : Str) : Decidable (Representable path) := by
  unfold Representable
  infer_instance

theorem parseU64_natText (n : UInt64) : parseU64 (natText n.toNat) = some n := by
  have h : n.toNat < 2 ^ 64 := n.toNat_lt
  rw [parseU64, parseNat_natText, Option.bind_some, if_pos h, UInt64.ofNat_toNat]

/-- The text of a line, without its line feed. -/
theorem queueLine_eq (item : DownloadQueueItem) (rest : Str) :
    queueLine item ++ rest = (natText item.fileSize.toNat ++ ':' :: item.path) ++ '\n' :: rest := by
  simp [queueLine]

/-- A line is clean at both ends if its path is clean at its end. -/
theorem trim_line {item : DownloadQueueItem} (h : EndClean item.path) :
    trim (natText item.fileSize.toNat ++ ':' :: item.path) =
      natText item.fileSize.toNat ++ ':' :: item.path := by
  refine trim_eq_self_iff.mpr ⟨?_, ?_⟩
  · intro c hc
    cases hn : natText item.fileSize.toNat with
    | nil => exact absurd hn (natText_ne_nil _)
    | cons d ds =>
      rw [hn] at hc
      cases hc
      exact isWhitespace_of_isDigit
        (isDigit_of_mem_natText (n := item.fileSize.toNat) (hn ▸ List.mem_cons_self))
  · rw [← trimEnd_eq_self_iff, trimEnd_append_cons (by decide), trimEnd_eq_self_iff.mpr h]

/-- A carriage return counts as white space. -/
theorem stripCr_of_endClean {line : Str} (h : EndClean line) : stripCr line = line := by
  unfold stripCr
  rw [if_neg]
  intro hl
  have hw := h '\r' hl
  revert hw
  decide

/-- **A line is read as it was written.** -/
theorem parseQueueLine_queueLine {item : DownloadQueueItem} (h : EndClean item.path)
    (nickname : Str) :
    parseQueueLine nickname (natText item.fileSize.toNat ++ ':' :: item.path) = .ok [item] := by
  have hcolon : ':' ∉ natText item.fileSize.toNat := not_mem_natText (by decide)
  unfold parseQueueLine
  dsimp only
  rw [trim_line h, if_neg (by simp), List.splitOn_append_cons_self_of_not_mem hcolon]
  cases hp : item.path.splitOn ':' with
  | nil => exact absurd hp (List.splitOn_ne_nil _ _)
  | cons part parts =>
    have hjoin : [':'].intercalate (part :: parts) = item.path := hp ▸ List.intercalate_splitOn ':'
    simp only [parseU64_natText, hjoin]

/-- What stands behind the first separator of a text ends the text. -/
theorem intercalate_tail_suffix {c : Char} {line size : Str} {parts : List Str}
    (h : line.splitOn c = size :: parts) : [c].intercalate parts <:+ line := by
  have hj : [c].intercalate (line.splitOn c) = line := List.intercalate_splitOn c
  rw [← hj, h]
  cases parts with
  | nil => exact List.nil_suffix
  | cons part parts => exact ⟨size ++ [c], by simp [List.intercalate]⟩

/-- **Only representable paths are read.** -/
theorem parseQueueLine_representable {nickname line : Str} {items : List DownloadQueueItem}
    (hline : '\n' ∉ line) (h : parseQueueLine nickname line = .ok items) :
    ∀ item ∈ items, Representable item.path := by
  unfold parseQueueLine at h
  dsimp only at h
  split at h
  · cases h
    exact fun item hi => absurd hi List.not_mem_nil
  split at h
  · rename_i size part parts hsplit
    split at h
    · cases h
      intro item hi
      obtain rfl := List.mem_singleton.mp hi
      have hsuffix := intercalate_tail_suffix hsplit
      exact ⟨fun hm => hline ((trim_sublist line).subset (hsuffix.subset hm)),
        (endClean_trim line).cut hsuffix⟩
    · cases h
  · cases h

/-! ## 2. The file -/

/-- The queue files by their paths. -/
abbrev QueueFiles := Str → Option (List UInt8)

/-- What the commands on queue files do. A removal may fail, and so may a write, which then leaves
    anything; a read gives the file as it is. -/
def queueFilesStep (files : QueueFiles) : (c : DownloaderCmd) → c.Ans → QueueFiles → Prop
  | .queueRead path, a, files' => a = files path ∧ files' = files
  | .queueRemove path, .done, files' => files' = Function.update files path none
  | .queueRemove path, .notFound, files' => files path = none ∧ files' = files
  | .queueRemove _, .failed _, files' => files' = files
  | .queueWrite path bytes, .ok _, files' => files' = Function.update files path (some bytes)
  | .queueWrite path _, .error _, files' => ∃ left, files' = Function.update files path left
  | _, _, files' => files' = files

/-- A downloader on a disk with queue files; what else it asks for gets any answer. -/
def queueDisk : Env (Thread SingleDownloader) (Wire ⊕ DownloaderCmd) (Ans DownloaderCmd.Ans)
    QueueFiles where
  ok _ _ _ := True
  step files _ c a files' :=
    match c, a with
    | .inl _, _ => files' = files
    | .inr c, a => queueFilesStep files c a files'

/-- `add_to_queue_file_and_start_downloader` on the queue file. -/
def addToQueueFile (pathQueueFile : Str) (files : QueueFiles) (item : DownloadQueueItem) :
    QueueFiles :=
  Function.update files pathQueueFile
    (some ((files pathQueueFile).getD [] ++ queueAppend item.path item.fileSize))

/-- A downloader started on these files succeeds to read its queue, and gets `queue`. -/
def ReadsQueue (pathQueueFile : Str) (files : QueueFiles) (queue : List DownloadQueueItem) : Prop :=
  ∀ t : Thread SingleDownloader, t.self.pathQueueFile = pathQueueFile →
    wp queueDisk initializeDownloadQueue (fun _ t' _ => t'.self.downloadQueue = queue)
      (fun _ _ _ => False) t files

/-- The file holds the lines of `queue`; no file is an empty queue. -/
def HoldsQueue (file : Option (List UInt8)) (queue : List DownloadQueueItem) : Prop :=
  file = some (utf8 (queueText queue)) ∨ file = none ∧ queue = []

section File

variable {files : QueueFiles} {t : Thread SingleDownloader} {pathQueueFile : Str}
  {queue : List DownloadQueueItem}

/-- Reading the lines of a queue of representable paths. -/
theorem pushQueueLines_queueText (t : Thread SingleDownloader)
    (h : ∀ item ∈ queue, Representable item.path)
    {R : Exc → Thread SingleDownloader → QueueFiles → Prop} :
    wp queueDisk (pushQueueLines (lines (queueText queue)))
      (fun _ t' _ => t'.self.downloadQueue = t.self.downloadQueue ++ queue) R t files := by
  induction queue generalizing t with
  | nil => simp [queueText, pushQueueLines]
  | cons item queue ih =>
    obtain ⟨hbreak, hend⟩ := h item List.mem_cons_self
    have hline : '\n' ∉ natText item.fileSize.toNat ++ ':' :: item.path := by
      intro hm
      rcases List.mem_append.mp hm with hm | hm
      · exact not_mem_natText (by decide) hm
      · rcases List.mem_cons.mp hm with hm | hm
        · revert hm
          decide
        · exact hbreak hm
    have hclean : EndClean (natText item.fileSize.toNat ++ ':' :: item.path) :=
      trim_line hend ▸ endClean_trim _
    have htext : queueText (item :: queue) = queueLine item ++ queueText queue := rfl
    rw [htext, queueLine_eq, lines_line hline, stripCr_of_endClean hclean, pushQueueLines]
    have ih' := ih { t with self := { t.self with
      downloadQueue := t.self.downloadQueue ++ [item] } }
      fun i hi => h i (List.mem_cons_of_mem item hi)
    simpa [self, parseQueueLine_queueLine hend] using ih'

/-- What is read from lines is representable. -/
theorem representable_of_pushQueueLines {texts : List Str} (hlines : ∀ line ∈ texts, '\n' ∉ line)
    (h : wp queueDisk (pushQueueLines texts) (fun _ t' _ => t'.self.downloadQueue = queue)
      (fun _ _ _ => False) t files) :
    ∀ item ∈ queue, item ∈ t.self.downloadQueue ∨ Representable item.path := by
  induction texts generalizing t with
  | nil =>
    have hq : t.self.downloadQueue = queue := h
    exact fun item hi => .inl (hq ▸ hi)
  | cons line texts ih =>
    simp only [pushQueueLines, self, wp_bind, wp_get, wp_pure] at h
    cases hp : parseQueueLine t.self.sharedUser.nickname line with
    | error e =>
      rw [hp] at h
      exact absurd h (by simp)
    | ok items =>
      rw [hp] at h
      have hrest := ih (fun l hl => hlines l (List.mem_cons_of_mem line hl)) h
      intro item hi
      rcases hrest item hi with hm | hr
      · rcases List.mem_append.mp hm with hm | hm
        · exact .inl hm
        · exact .inr (parseQueueLine_representable (hlines line List.mem_cons_self) hp item hm)
      · exact .inr hr

/-- Reading a file that holds a queue is reading the lines of the queue. -/
theorem wp_initializeDownloadQueue (pathQueueFile : Str) (hf : HoldsQueue (files pathQueueFile) queue)
    (ht : t.self.pathQueueFile = pathQueueFile)
    {Q : Unit → Thread SingleDownloader → QueueFiles → Prop}
    {R : Exc → Thread SingleDownloader → QueueFiles → Prop} :
    wp queueDisk initializeDownloadQueue Q R t files ↔
      wp queueDisk (pushQueueLines (lines (queueText queue))) Q R
        { t with self := { t.self with downloadQueue := [] } } files := by
  subst ht
  unfold initializeDownloadQueue
  simp only [wp_bind, wp_modifySelf, self, wp_get, wp_pure, command, wp_ask]
  rcases hf with hf | ⟨hf, rfl⟩
  · constructor
    · intro h
      have hread := h.2 _ files ⟨rfl, rfl⟩
      simpa only [hf, Option.bind_some, fromUtf8_utf8] using hread
    · intro h
      refine ⟨trivial, ?_⟩
      rintro a files' ⟨rfl, rfl⟩
      simpa only [hf, Option.bind_some, fromUtf8_utf8] using h
  · simp only [queueText, List.flatMap_nil, lines_nil, pushQueueLines, wp_pure]
    constructor
    · intro h
      have hread := h.2 _ files ⟨rfl, rfl⟩
      simpa only [hf, Option.bind_none, wp_pure] using hread
    · intro h
      refine ⟨trivial, ?_⟩
      rintro a files' ⟨rfl, rfl⟩
      simpa only [hf, Option.bind_none, wp_pure] using h

/-- **A file that holds a queue** reads as this queue exactly when its paths are representable. -/
theorem readsQueue_iff (hf : HoldsQueue (files pathQueueFile) queue) :
    ReadsQueue pathQueueFile files queue ↔ ∀ item ∈ queue, Representable item.path := by
  constructor
  · intro h item hi
    -- any downloader with this queue file will do
    have hread := (wp_initializeDownloadQueue _ hf rfl).mp (h (idleThread pathQueueFile []) rfl)
    have hm := representable_of_pushQueueLines (fun _ hl => lines_noBreak hl) hread item hi
    exact hm.resolve_left (List.not_mem_nil)
  · intro h t ht
    refine (wp_initializeDownloadQueue _ hf ht).mpr ?_
    exact pushQueueLines_queueText { t with self := { t.self with downloadQueue := [] } } h

/-! ## 3. Writing it -/

theorem holdsQueue_addToQueueFile (hf : HoldsQueue (files pathQueueFile) queue)
    (item : DownloadQueueItem) :
    HoldsQueue (addToQueueFile pathQueueFile files item pathQueueFile) (queue ++ [item]) := by
  left
  have htext : queueText (queue ++ [item]) = queueText queue ++ queueLine item := by
    simp [queueText]
  have hbytes : utf8 (queueText queue ++ queueLine item) =
      utf8 (queueText queue) ++ queueAppend item.path item.fileSize := List.flatMap_append
  rw [addToQueueFile, Function.update_self, htext, hbytes]
  rcases hf with hf | ⟨hf, rfl⟩
  · rw [hf, Option.getD_some]
  · rw [hf]
    rfl

theorem holdsQueue_appends (appended : List DownloadQueueItem)
    (hf : HoldsQueue (files pathQueueFile) queue) :
    HoldsQueue (appended.foldl (addToQueueFile pathQueueFile) files pathQueueFile)
      (queue ++ appended) := by
  induction appended generalizing files queue with
  | nil => simpa using hf
  | cons item appended ih =>
    have hone := ih (holdsQueue_addToQueueFile hf item)
    rwa [List.append_assoc, List.singleton_append] at hone

theorem writeQueueFile_holdsQueue (t : Thread SingleDownloader) (files : QueueFiles) :
    wp queueDisk writeQueueFile
      (fun _ _ files' => HoldsQueue (files' t.self.pathQueueFile) t.self.downloadQueue)
      (fun _ _ _ => True) t files := by
  simp only [writeQueueFile, self, wp_bind, wp_get, wp_pure, command, wp_ask]
  refine ⟨trivial, ?_⟩
  rintro (e | a) files' h
  · exact trivial
  · refine Or.inl ?_
    rw [show files' = _ from h, Function.update_self]

/-- **After `write_queue` the file holds the queue.** -/
theorem writeQueue_holdsQueue (t : Thread SingleDownloader) (files : QueueFiles) :
    wp queueDisk writeQueue
      (fun _ _ files' => HoldsQueue (files' t.self.pathQueueFile) t.self.downloadQueue)
      (fun _ _ _ => True) t files := by
  simp only [writeQueue, self, wp_bind, wp_get, wp_pure, wp_ite]
  by_cases hq : t.self.downloadQueue = []
  · rw [if_pos hq, command, wp_ask]
    refine ⟨trivial, ?_⟩
    rintro (_ | _ | e) files' h
    · refine Or.inr ⟨?_, hq⟩
      rw [show files' = _ from h, Function.update_self]
    · obtain ⟨hnone, rfl⟩ : files t.self.pathQueueFile = none ∧ files' = files := h
      exact Or.inr ⟨hnone, hq⟩
    · exact writeQueueFile_holdsQueue t files'
  · rw [if_neg hq]
    exact writeQueueFile_holdsQueue t files

/-- A run of `write_queue` that succeeds. -/
theorem writeQueue_succeeds {Q : Unit → Thread SingleDownloader → QueueFiles → Prop}
    (h : wp queueDisk writeQueue Q (fun _ _ _ => True) t files) :
    ∃ files', HoldsQueue (files' t.self.pathQueueFile) t.self.downloadQueue ∧ Q () t files' := by
  simp only [writeQueue, self, wp_bind, wp_get, wp_pure, wp_ite] at h
  by_cases hq : t.self.downloadQueue = []
  · rw [if_pos hq, command, wp_ask] at h
    refine ⟨Function.update files t.self.pathQueueFile none, Or.inr ⟨?_, hq⟩, ?_⟩
    · exact Function.update_self _ _ _
    · exact h.2 .done _ rfl
  · rw [if_neg hq] at h
    simp only [writeQueueFile, self, wp_bind, wp_get, wp_pure, command, wp_ask] at h
    refine ⟨Function.update files t.self.pathQueueFile
      (some (utf8 (queueText t.self.downloadQueue))), Or.inl ?_, ?_⟩
    · exact Function.update_self _ _ _
    · exact h.2 (.ok ()) _ rfl

end File

/-! ## 4. The queue and its file -/

/-- **The queue file gives back the queue** exactly when every path is representable: the file
    `write_queue` leaves, with any items appended to it, and a file made by appends alone. -/
theorem queueFile_faithful_iff (t : Thread SingleDownloader) (files : QueueFiles)
    (appended : List DownloadQueueItem) :
    (wp queueDisk writeQueue
        (fun _ _ files' => ReadsQueue t.self.pathQueueFile
          (appended.foldl (addToQueueFile t.self.pathQueueFile) files')
          (t.self.downloadQueue ++ appended))
        (fun _ _ _ => True) t files ↔
      ∀ item ∈ t.self.downloadQueue ++ appended, Representable item.path) ∧
    (ReadsQueue t.self.pathQueueFile
        (appended.foldl (addToQueueFile t.self.pathQueueFile)
          (Function.update files t.self.pathQueueFile none)) appended ↔
      ∀ item ∈ appended, Representable item.path) := by
  refine ⟨⟨fun h => ?_, fun h => ?_⟩, ?_⟩
  · obtain ⟨files', hf, hr⟩ := writeQueue_succeeds h
    exact (readsQueue_iff (holdsQueue_appends appended hf)).mp hr
  · refine wp_conseq (writeQueue_holdsQueue t files) ?_ (fun _ _ _ _ => trivial)
    intro _ _ files' hf
    exact (readsQueue_iff (holdsQueue_appends appended hf)).mpr h
  · have hnone : HoldsQueue (Function.update files t.self.pathQueueFile none t.self.pathQueueFile)
        [] := Or.inr ⟨Function.update_self _ _ _, rfl⟩
    exact readsQueue_iff (holdsQueue_appends appended hnone)

/-- A path with a line feed in it. -/
def brokenPath : Str := "/a\nb".toList

/-- **A path with a line feed**: it is a valid path of a listing, and the file written for it makes
    every start fail. -/
theorem lineFeed_blocks_queue :
    fileContainsOnlyValidChars brokenPath = true ∧
    ¬ wp queueDisk writeQueue
        (fun _ _ files' => ReadsQueue [] files' [{ path := brokenPath, fileSize := 3 }])
        (fun _ _ _ => True) (idleThread [] [{ path := brokenPath, fileSize := 3 }])
        (fun _ => none) ∧
    wp queueDisk initializeDownloadQueue (fun _ _ _ => False)
      (fun e _ _ => e = .err "Failed to parse queue file. Invalid line. '', 'b'".toList)
      (idleThread [] [])
      (fun _ => some (utf8 (queueText [{ path := brokenPath, fileSize := 3 }]))) := by
  refine ⟨by decide +kernel, fun h => ?_, ?_⟩
  · obtain ⟨files', hf, hr⟩ := writeQueue_succeeds h
    have hrep := (readsQueue_iff hf).mp hr _ List.mem_cons_self
    revert hrep
    decide
  · refine (wp_initializeDownloadQueue [] (Or.inl rfl) rfl).mpr ?_
    have hlines : lines (queueText [{ path := brokenPath, fileSize := 3 }]) =
        ["3:/a".toList, "b".toList] := by decide +kernel
    rw [hlines]
    exact (rfl : Exc.err _ = .err "Failed to parse queue file. Invalid line. '', 'b'".toList)

end Transmitic
