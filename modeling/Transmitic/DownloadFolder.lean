/-
  File:      Transmitic/DownloadFolder.lean
  Subject:   DOWNLOADS STAY IN THE FOLDER OF THEIR USER.

  The listing comes from the peer, and the local paths are strings put together from it. What keeps
  them inside the folder is `get_sanitized_disk_file_name` at every level of the listed tree.

  * `LocalName`, `sanitizedName_local` -- the names it gives are single components;
  * `downloadRoot` -- the folder of a nickname, as the thread's config says;
  * `InFolder` -- what lies in it, and the directories it lies in (`fs::create_dir_all` creates those that
    are missing);
  * `Rooted`, `queueParts_folder` -- the thread stops where its config changes, so that a connection has
    one folder from its start to its end;
  * `downloads_inside` -- **every file a downloader creates or writes lies in the folder, and every
    directory it creates lies in it, is the folder, or one the folder lies in**, whatever the listings, the
    frames and the messages; the nickname is a single component (`nickname_validName`);
  * `folder_created` -- the folder itself is among the directories created.
-/
import Transmitic.ConfigReload
import Transmitic.DownloaderSession
import Transmitic.LocalPaths

namespace Transmitic

open Lib

/-! ## 1. Names -/

/-- A component of a local path: a name of a directory entry without a NUL. -/
def LocalName (name : Str) : Prop := ValidName name ∧ '\x00' ∉ name

theorem replaceChar_noNul {path : Str} (h : replaceChar path '\x00' '0' = path) :
    '\x00' ∉ path := by
  intro hmem
  rw [← h] at hmem
  obtain ⟨c, -, hc⟩ := List.mem_map.mp hmem
  split at hc
  · exact absurd hc (by decide)
  · exact absurd hc ‹_›

theorem sanitizeLoop_noNul {originalPath path : Str} : ∀ (counter : Nat) (comparePath : Str),
    sanitizeLoop originalPath counter comparePath = .ok path → '\x00' ∉ path
  | 0, _, h => by cases h
  | counter + 1, comparePath, h => by
    unfold sanitizeLoop at h
    split at h
    · exact sanitizeLoop_noNul counter _ h
    · rename_i hnul
      split at h
      · exact sanitizeLoop_noNul counter _ h
      · cases h
        exact replaceChar_noNul (not_not.mp hnul)

/-- **A sanitized name is a single component.** -/
theorem sanitizedName_local {f : SharedFile} {name : Str}
    (h : getSanitizedDiskFileName f = .ok name) : LocalName name := by
  refine ⟨sanitizedName_valid h, ?_⟩
  obtain ⟨path, hpath, hn⟩ := bind_eq_ok.mp h
  have hnul := sanitizeLoop_noNul 10 _ hpath
  cases hf : fileName path with
  | none =>
    rw [hf] at hn
    cases hn
  | some n =>
    rw [hf] at hn
    cases hn
    exact fun hmem => hnul (mem_of_mem_fileName hf hmem)

/-! ## 2. The folder of a nickname -/

/-- A nickname a config may have is a single component. -/
theorem nickname_validName [Crates] {users : List SharedUser} (h : verifyConfigSharedUsers users = .ok ())
    {u : SharedUser} (hu : u ∈ users) : ValidName u.nickname := by
  obtain ⟨-, -, hfields⟩ := bind_eq_ok.mp h
  have huser := forM_eq_ok.mp hfields u hu
  unfold verifyUserFields at huser
  by_cases hempty : u.nickname = []
  · rw [if_pos hempty] at huser
    cases huser
  rw [if_neg hempty] at huser
  cases hfind : getBlockedUserNameChars.find? fun c => containsChar u.nickname c with
  | some c =>
    rw [hfind] at huser
    cases huser
  | none =>
    have hblocked := List.find?_eq_none.mp hfind
    have hdot := hblocked '.' (by decide)
    have hslash := hblocked '/' (by decide)
    have hdot' : '.' ∉ u.nickname := by simpa [containsChar] using hdot
    have hslash' : '/' ∉ u.nickname := by simpa [containsChar] using hslash
    refine ⟨hempty, fun e => hdot' (e ▸ ?_), fun e => hdot' (e ▸ ?_), hslash'⟩
    · decide
    · decide

/-- The download root of a nickname; `base` is where the downloads are without a configured directory. -/
def downloadRoot (config : Config) (base nickname : Str) : Str :=
  downloadsDir config base ++ nickname ++ ['/']

/-- The directory `names` below `root`. -/
def directory (root : Str) (names : List Str) : Str := root ++ names.flatMap fun name => name ++ ['/']

/-- `fs::create_dir_all` creates the directory, and the directories above it that are missing. -/
def DownloaderCmd.MayCreate (c : DownloaderCmd) (p : Str) : Prop :=
  ∃ dir, c.dir = some dir ∧ p ++ ['/'] <+: endInSeparator dir

/-- One or more components below `root`. -/
def Below (root p : Str) : Prop :=
  ∃ names, names ≠ [] ∧ (∀ name ∈ names, LocalName name) ∧ p = destination root names

/-- The command creates and writes files below the folder only, and creates directories below it, the folder,
    and directories it lies in. -/
def InFolder (root : Str) (c : DownloaderCmd) : Prop :=
  (∀ p, c.file = some p → Below root p) ∧ ∀ p, c.MayCreate p → Below root p ∨ p ++ ['/'] <+: root

/-- A directory in the folder. -/
def FolderDir (root dir : Str) : Prop :=
  root.getLast? = some '/' ∧ ∃ names, (∀ name ∈ names, LocalName name) ∧ dir = directory root names

theorem directory_append (root : Str) (names : List Str) (name : Str) :
    directory root names ++ name ++ ['/'] = directory root (names ++ [name]) := by
  simp [directory]

/-- A file in a directory of the folder. -/
theorem directory_file (root : Str) (names : List Str) (name : Str) :
    directory root names ++ name = destination root (names ++ [name]) := by
  suffices h : names.flatMap (fun name => name ++ ['/']) ++ name =
      ['/'].intercalate (names ++ [name]) by
    rw [directory, destination, List.append_assoc, h]
  induction names with
  | nil => simp
  | cons n names ih =>
    obtain ⟨m, rest, hm⟩ := List.exists_cons_of_ne_nil (l := names ++ [name]) (by simp)
    rw [hm] at ih
    rw [List.cons_append, hm, List.intercalate_cons_cons, ← ih]
    simp

theorem directory_ends {root : Str} (h : root.getLast? = some '/') (names : List Str) :
    (directory root names).getLast? = some '/' := by
  induction names using List.reverseRecOn with
  | nil => simpa [directory] using h
  | append_singleton names name _ =>
    rw [← directory_append, List.getLast?_append]
    rfl

/-- The names are followed by one separator each: what ends with one is made of whole names. -/
theorem names_of_prefix {p : Str} : ∀ {names : List Str}, (∀ name ∈ names, LocalName name) →
    p ++ ['/'] <+: names.flatMap (fun name => name ++ ['/']) →
      ∃ front last, front ++ [last] <+: names ∧ p = front.flatMap (fun name => name ++ ['/']) ++ last
  | [], _, h => by simp at h
  | name :: names, hlocal, h => by
    have hslash : '/' ∉ name := (hlocal name List.mem_cons_self).1.2.2.2
    have hfirst : p = name → ∃ front last, front ++ [last] <+: name :: names ∧
        p = front.flatMap (fun name => name ++ ['/']) ++ last := fun e => ⟨[], name, ⟨names, rfl⟩, e⟩
    rw [List.flatMap_cons] at h
    rcases List.prefix_or_prefix_of_prefix h (List.prefix_append (name ++ ['/']) _) with hp | hp
    · rcases List.prefix_concat_iff.mp hp with hp | hp
      · exact hfirst (List.append_cancel_right hp)
      · exact absurd (hp.subset (by simp)) hslash
    · rcases List.prefix_concat_iff.mp hp with hp | ⟨p', rfl⟩
      · exact hfirst (List.append_cancel_right hp).symm
      · rw [List.append_assoc (name ++ ['/']), List.prefix_append_right_inj] at h
        obtain ⟨front, last, hfront, rfl⟩ := names_of_prefix (fun n hn => hlocal n (.tail _ hn)) h
        refine ⟨name :: front, last, (List.prefix_cons_inj name).mpr hfront, ?_⟩
        simp

/-- **What `create_dir_all` creates** for a directory of the folder. -/
theorem below_of_prefix {root p : Str} {names : List Str} (hlocal : ∀ name ∈ names, LocalName name)
    (h : p ++ ['/'] <+: directory root names) : Below root p ∨ p ++ ['/'] <+: root := by
  rcases List.prefix_or_prefix_of_prefix h (List.prefix_append root _) with hp | hp
  · exact .inr hp
  rcases List.prefix_concat_iff.mp hp with hp | ⟨p', rfl⟩
  · exact .inr (hp ▸ List.prefix_rfl)
  · rw [directory, List.append_assoc, List.prefix_append_right_inj] at h
    obtain ⟨front, last, hfront, rfl⟩ := names_of_prefix hlocal h
    refine .inl ⟨front ++ [last], by simp, fun n hn => hlocal n (hfront.subset hn), ?_⟩
    rw [← directory_file, directory, List.append_assoc]

theorem inFolder_of_quiet {root : Str} {c : DownloaderCmd} (h : quiet c) : InFolder root c := by
  refine ⟨fun p hp => ?_, fun p ⟨dir, hdir, _⟩ => ?_⟩
  · rw [h.1] at hp
    cases hp
  · rw [h.2] at hdir
    cases hdir

theorem inFolder_of_onTransfer {root : Str} {t : Transfer} {c : DownloaderCmd}
    (ht : BelongsTo (FolderDir root) t) (h : onTransfer t c) : InFolder root c := by
  obtain ⟨⟨hroot, names, hnames, hdir⟩, name, hname, hdest⟩ := ht
  have hc := inTransfer_of_ofTransfer (ofTransfer_of_onTransfer h)
  have hlast : ∀ n ∈ names ++ [name], LocalName n := by
    intro n hn
    rcases List.mem_append.mp hn with hn | hn
    · exact hnames n hn
    · rw [List.mem_singleton.mp hn]
      exact sanitizedName_local hname
  refine ⟨fun p hp => ⟨names ++ [name], by simp, hlast, ?_⟩, fun p ⟨dir, hp, hfront⟩ => ?_⟩
  · rw [hc.1 p hp, hdest, hdir, directory_file]
  · rw [hc.2 dir hp, hdir, endInSeparator, if_pos (directory_ends hroot names)] at hfront
    exact below_of_prefix hnames hfront

/-! ## 3. The life of a downloader -/

/-- What `downloadsBase` was answered last. -/
def baseAfter (base : Str) : (c : Wire ⊕ DownloaderCmd) → Ans DownloaderCmd.Ans c → Str
  | .inr .downloadsBase, .ok dir => dir
  | _, _ => base

/-- The surroundings of the downloader of a nickname: anything may be answered, but messages that
    replace the user keep the nickname, as `update_user` does. -/
def userAnswers (nickname : Str) : DlEnv Str where
  ok _ _ _ := True
  step base _ c a base' := base' = baseAfter base c a ∧
    match c, a with
    | .inr .tryRecv, .value (.newSharedUser s) => s.nickname = nickname
    | _, _ => True

section Folder

variable {nickname root : Str} {I : Thread SingleDownloader → Str → Prop}

/-- The surroundings that watch the folder the thread's config says. -/
def watched (nickname : Str) : DlEnv Str :=
  (userAnswers nickname).admitting fun base t c =>
    match c with
    | .inl _ => True
    | .inr c => InFolder (downloadRoot t.self.config base nickname) c

def HasNickname (nickname : Str) (t : Thread SingleDownloader) (_ : Str) : Prop :=
  t.self.sharedUser.nickname = nickname

/-- The downloads go to `root`, until the thread is told to stop. -/
def Rooted (nickname root : Str) (t : Thread SingleDownloader) (base : Str) : Prop :=
  t.self.sharedUser.nickname = nickname ∧
    (t.self.stopDownloading = false → downloadRoot t.self.config base nickname = root)

/-- What the folder depends on. -/
def folderPart (t : Thread SingleDownloader) : Str × Config × Bool :=
  (t.self.sharedUser.nickname, t.self.config, t.self.stopDownloading)

/-- Commands that have nothing to do with the folder. -/
def apart (c : DownloaderCmd) : Prop := quiet c ∧ c ≠ .downloadsBase

theorem apart_of_plain {c : DownloaderCmd} (h : plain c) : apart c :=
  ⟨quiet_of_plain h, fun e => by rw [e] at h; exact h⟩

theorem apart_of_onQueueFile {c : DownloaderCmd} (h : onQueueFile c) : apart c :=
  ⟨quiet_of_onQueueFile h, fun e => by rw [e] at h; exact h⟩

theorem apart_of_onCache {c : DownloaderCmd} (h : onCache c) : apart c :=
  ⟨quiet_of_onCache h, fun e => by rw [e] at h; exact h⟩

theorem apart_of_connecting {c : DownloaderCmd} (h : connecting c) : apart c :=
  ⟨quiet_of_connecting h, fun e => by rw [e] at h; exact h⟩

theorem apart_of_queueOrReport {c : DownloaderCmd} (h : queueOrReport c) : apart c :=
  h.elim apart_of_onQueueFile fun hc => apart_of_plain hc.1

theorem baseAfter_of_ne {base : Str} {c : DownloaderCmd} (h : c ≠ .downloadsBase)
    (a : Ans DownloaderCmd.Ans (.inr c)) : baseAfter base (.inr c) a = base := by
  cases c
  case downloadsBase => exact absurd rfl h
  all_goals rfl

/-- **What leaves the folder alone** keeps what depends on it only. -/
theorem maintains_folder {α : Type} {P : DownloaderCmd → Prop} {m : Dl α}
    (hm : Steady (wireAnd P) folderPart m) (hP : ∀ c, P c → apart c)
    (hI : ∀ t t' base, folderPart t' = folderPart t → I t base → I t' base) :
    Maintains (watched nickname) I m := by
  refine maintains_of_steady hm hI (fun t base c _ hc => ?_) fun t base c a base' hi hc hs => ?_
  · cases c with
    | inl c => exact trivial
    | inr c => exact inFolder_of_quiet (hP c hc).1
  · have hbase : base' = base := by
      rw [hs.1]
      cases c with
      | inl c => rfl
      | inr c => exact baseAfter_of_ne (hP c hc).2 a
    rw [hbase]
    exact hi

theorem hasNickname_folder (t t' : Thread SingleDownloader) (base : Str) (hp : folderPart t' = folderPart t)
    (h : HasNickname nickname t base) : HasNickname nickname t' base :=
  (congrArg (fun v : Str × Config × Bool => v.1) hp).trans h

theorem rooted_folder (t t' : Thread SingleDownloader) (base : Str) (hp : folderPart t' = folderPart t)
    (h : Rooted nickname root t base) : Rooted nickname root t' base := by
  have hconfig : t'.self.config = t.self.config := congrArg (fun v => v.2.1) hp
  have hstop : t'.self.stopDownloading = t.self.stopDownloading := congrArg (fun v => v.2.2) hp
  refine ⟨hasNickname_folder t t' base hp h.1, fun hgo => ?_⟩
  rw [hconfig]
  exact h.2 (hstop ▸ hgo)

theorem maintains_local {α : Type} {P : DownloaderCmd → Prop} {m : Dl α} (hm : Local P m)
    (hP : ∀ c, P c → apart c)
    (hI : ∀ t t' base, folderPart t' = folderPart t → I t base → I t' base) :
    Maintains (watched nickname) I m :=
  maintains_folder ((hm.map fun v => (v.2.1.sharedUser.nickname, v.2.1.config, v.2.1.stopDownloading)).mono
    (wireAnd_of_own fun _ hc => hc)) hP hI

/-- A message keeps the nickname, if it comes from these surroundings. -/
theorem receive_nickname {m : MessageSingleDownloader} {base : Str}
    (hm : ∀ s, m = .newSharedUser s → s.nickname = nickname) :
    Maintains (watched nickname) (fun t base' => HasNickname nickname t base' ∧ base' = base) (receive m) := by
  rw [receive_eq]
  refine maintains_bind (maintains_modify fun t w ht => ⟨?_, ht.2⟩) fun _ =>
    maintains_local (local_follow m) (fun _ => apart_of_queueOrReport) fun t t' _ hp h =>
      ⟨hasNickname_folder t t' _ hp h.1, h.2⟩
  cases m with
  | newSharedUser s => exact hm s rfl
  | _ => exact ht.1

theorem readReceiver_nickname (base : Str) : ∀ fuel : Nat, Maintains (watched nickname)
    (fun t base' => HasNickname nickname t base' ∧ base' = base) (readReceiver fuel)
  | 0 => maintains_throw _
  | fuel + 1 => by
    refine maintains_bind ?_ fun _ => ?_
    · refine maintains_bind ?_ fun a => ?_
      · exact maintains_local (P := fun c => c = .revTryRecv) (local_command rfl)
          (fun c hc => by rw [hc]; exact ⟨⟨rfl, rfl⟩, nofun⟩) fun t t' _ hp h =>
            ⟨hasNickname_folder t t' _ hp h.1, h.2⟩
      cases a with
      | value enc => exact maintains_modify fun _ _ ht => ht
      | empty => exact maintains_pure ()
      | disconnected => exact maintains_throw _
    · intro t w ht
      refine ⟨inFolder_of_quiet ⟨rfl, rfl⟩, fun a w' hs => ?_⟩
      obtain ⟨rfl, hs⟩ := hs
      cases a with
      | value m =>
        have hm : ∀ s, m = .newSharedUser s → s.nickname = nickname := by
          intro s hms
          rw [hms] at hs
          exact hs
        exact maintains_bind (receive_nickname hm) (fun _ => readReceiver_nickname base fuel) t _ ht
      | empty => exact ht
      | disconnected => exact ht

/-- Where the channels leave the thread going, it has the config it had. -/
theorem readReceiver_rooted (fuel : Nat) : Maintains (watched nickname) (Rooted nickname root)
    (readReceiver fuel) := by
  intro t base ht
  have hrooted : ∀ {t' base'}, (HasNickname nickname t' base' ∧ base' = base) ∧ Polled t t' →
      Rooted nickname root t' base' := by
    rintro t' base' ⟨⟨hnick, rfl⟩, hpolled⟩
    refine ⟨hnick, fun hgo => ?_⟩
    obtain ⟨items, isPaused, hself⟩ := hpolled.going hgo
    rw [hself] at hgo ⊢
    exact ht.2 hgo
  exact wp_conseq (wp_also (wp_readReceiver fuel t) (readReceiver_nickname base fuel t base ⟨ht.1, rfl⟩))
    (fun _ _ _ h' => hrooted h') fun _ _ _ h' => hrooted h'

theorem rooted_local {α : Type} {P : DownloaderCmd → Prop} {m : Dl α} (hm : Local P m)
    (hP : ∀ c, P c → apart c) : Maintains (watched nickname) (Rooted nickname root) m :=
  maintains_local hm hP rooted_folder

theorem rooted_finished : Maintains (watched nickname) (Rooted nickname root) setActiveDownloadFinished :=
  maintains_folder ((steady_setActiveDownloadFinished.map fun v =>
    (v.1.sharedUser.nickname, v.1.config, v.1.stopDownloading)).mono (wireAnd_of_own fun _ hc => hc))
    (fun _ => apart_of_onQueueFile) rooted_folder

/-- What works on the stream, and on the cache. -/
theorem rooted_self {α : Type} {P : DownloaderCmd → Prop} {m : Dl α} (hm : Steady (wireAnd P) Thread.self m)
    (hP : ∀ c, P c → apart c) : Maintains (watched nickname) (Rooted nickname root) m :=
  maintains_folder (hm.map fun d => (d.sharedUser.nickname, d.config, d.stopDownloading)) hP rooted_folder

theorem rooted_transfer (t : Transfer) {α : Type} {m : Dl α} (ht : BelongsTo (FolderDir root) t)
    (hm : Firm (onTransfer t) m) :
    Maintains (watched nickname) (During (Rooted nickname root) t.queueDownload) m := by
  refine maintains_of_steady hm (fun s s' base hs hd => ?_) (fun s base c hd hc => ?_)
    fun s base c a base' hd hc hs => ?_
  · have hpart : folderPart s' = folderPart s :=
      congrArg (fun v => (v.1.sharedUser.nickname, v.1.config, v.1.stopDownloading)) hs
    have hactive : activity s' = activity s :=
      congrArg (fun v => (v.1.stopDownloading, v.1.activeDownloadPath)) hs
    exact ⟨rooted_folder s s' base hpart hd.1, (congrArg Prod.fst hactive).trans hd.2.1,
      (congrArg Prod.snd hactive).trans hd.2.2⟩
  · cases c with
    | inl c => exact trivial
    | inr c =>
      show InFolder (downloadRoot s.self.config base nickname) c
      rw [hd.1.2 hd.2.1]
      exact inFolder_of_onTransfer ht hc
  · have hbase : base' = base := by
      cases c with
      | inl c => exact hc.elim
      | inr c =>
        rw [hs.1]
        refine baseAfter_of_ne (fun e => ?_) a
        rw [e] at hc
        rcases hc with hc | hc | hc
        · exact hc
        · cases hc
        · cases hc
    rw [hbase]
    exact hd

theorem nickname_local {α : Type} {P : DownloaderCmd → Prop} {m : Dl α} (hm : Local P m)
    (hP : ∀ c, P c → apart c) : Maintains (watched nickname) (HasNickname nickname) m :=
  maintains_local hm hP hasNickname_folder

theorem nickname_sleep (millis : Nat) :
    Maintains (watched nickname) (HasNickname nickname) (command (.sleep millis)) :=
  nickname_local (P := fun c => c = .sleep millis) (local_command rfl) fun c hc => by
    rw [hc]
    exact ⟨⟨rfl, rfl⟩, nofun⟩

/-- The directory of the downloads is that of the thread's config, and of the last answer. -/
theorem wp_base {t : Thread SingleDownloader} {base : Str} (hw : Working (HasNickname nickname) t base) :
    wp (watched nickname) (getPathDownloadsDirUser t.self.sharedUser.nickname t.self.config)
      (fun dir t' base' => Working (HasNickname nickname) t' base' ∧ kept t' = kept t ∧
        downloadRoot t'.self.config base' nickname = dir ++ ['/']) (fun _ => HasNickname nickname) t base := by
  obtain ⟨rfl, hgo⟩ := hw
  unfold getPathDownloadsDirUser getPathDownloadsDir
  by_cases hp : t.self.config.configFile.pathDownloads = []
  · rw [if_pos hp]
    refine ⟨inFolder_of_quiet ⟨rfl, rfl⟩, fun a base' hs => ?_⟩
    cases a with
    | error e => exact rfl
    | ok dir =>
      obtain ⟨rfl, -⟩ := hs
      refine ⟨⟨rfl, hgo⟩, rfl, ?_⟩
      rw [downloadRoot, downloadsDir, if_pos hp]
  · rw [if_neg hp]
    refine ⟨⟨rfl, hgo⟩, rfl, ?_⟩
    rw [downloadRoot, downloadsDir, if_neg hp]

variable [Crates]

theorem queueParts_folder : QueueParts (watched nickname) (Rooted nickname root)
    (fun _ => Rooted nickname root) (FolderDir root) where
  fails _ _ _ h := h
  look _ m hm := rooted_local hm.changesProgress fun _ hc => apart_of_plain (plain_of_looking hc)
  transfer t _ _ ht hm := rooted_transfer t ht hm
  inner dir f name hd hname := by
    obtain ⟨hroot, names, hnames, rfl⟩ := hd
    refine ⟨hroot, names ++ [name], fun n hn => ?_, directory_append root names name⟩
    rcases List.mem_append.mp hn with hn | hn
    · exact hnames n hn
    · rw [List.mem_singleton.mp hn]
      exact sanitizedName_local hname
  progress := rooted_local local_appUpdateInProgress fun _ => apart_of_plain
  invalid path message := rooted_local (local_appUpdateInvalidFile path message) fun _ => apart_of_plain
  complete path destinationPath := maintains_bind rooted_finished fun _ =>
    maintains_bind (rooted_local (P := plain) local_self fun _ => apart_of_plain) fun _ =>
      rooted_local (local_appUpdateCompleted _ _ _) fun _ => apart_of_plain
  invalidate path message := maintains_bind rooted_finished fun _ =>
    rooted_local (local_appUpdateInvalidFile path message) fun _ => apart_of_plain
  starts root' item f t w hw _ := by
    have hm := local_started root' item f
    exact wp_conseq (maintains_working (rooted_local hm fun _ => apart_of_plain)
      (hm.keeps.map fun v => v.2.1.stopDownloading) t w hw) (fun _ _ _ h' => h') fun _ => working_inv
  receiver := readReceiver_rooted
  read := rooted_self (P := fun _ => False) steady_read fun _ hc => hc.elim
  request q payload := by
    have hwrite : Steady (wireAnd fun _ => False) Thread.self
        (write msgFileSelectionContinue payload : Dl Unit) := steady_write _ _
    exact maintains_during (rooted_self hwrite fun _ hc => hc.elim)
      (hwrite.keeps.map fun d : SingleDownloader => (d.stopDownloading, d.activeDownloadPath))
  everything fuel forceDownload := maintains_working
    (rooted_self (steady_setEverythingFile fuel forceDownload) fun _ => apart_of_onCache)
    ((keeps_setEverythingFile fuel forceDownload).map fun d => d.stopDownloading)
  listing user := rooted_local (P := onCache) (local_command trivial) fun _ => apart_of_onCache

theorem loopParts_folder : LoopParts (watched nickname) (HasNickname nickname) (HasNickname nickname)
    (HasNickname nickname) (HasNickname nickname) (fun _ => HasNickname nickname)
    (fun root t base => downloadRoot t.self.config base nickname = root) where
  serve fuel root t base hd hs := by
    have hends : root.getLast? = some '/' := by rw [← hd, downloadRoot, List.getLast?_append]; rfl
    have hroot : FolderDir root root :=
      ⟨hends, [], fun _ hn => absurd hn List.not_mem_nil, by simp [directory]⟩
    exact wp_conseq (queueParts_folder.serveConnection hroot fuel ⟨⟨hs.1, fun _ => hd⟩, hs.2⟩)
      (fun _ _ _ h' => h'.1) fun _ _ _ h' => h'.1
  polled _ _ h := h
  fails _ _ _ h := h
  again _ _ _ h := h
  start := by
    refine maintains_bind (maintains_folder ((steady_initializeDownloadQueue.map fun v =>
      (v.1.sharedUser.nickname, v.1.config, v.1.stopDownloading)).mono (wireAnd_of_own fun _ hc => hc))
      (fun c ⟨path, hc⟩ => ?_) hasNickname_folder) fun _ =>
        nickname_local local_appUpdateOffline fun _ => apart_of_plain
    rw [hc]
    exact ⟨⟨rfl, rfl⟩, nofun⟩
  poll fuel t base ht := wp_conseq (readReceiver_nickname base fuel t base ⟨ht, rfl⟩)
    (fun _ _ _ h' => h'.1) fun _ _ _ h' => h'.1
  resume _ _ h := h
  base _ _ hw := wp_base hw
  pause := nickname_sleep
  unreachable millis := maintains_bind (nickname_local local_appUpdateOffline fun _ => apart_of_plain)
    fun _ => nickname_sleep millis
  leave := nickname_local local_appUpdateInProgress fun _ => apart_of_plain
  mismatch _ _ := maintains_bind (nickname_local (P := plain) local_self fun _ => apart_of_plain) fun _ =>
    maintains_bind (nickname_local (P := plain) (local_command trivial) fun _ => apart_of_plain) fun _ =>
      nickname_sleep 30000
  take root t base hd hw _ _ := by
    have hpart := steady_takeStream.map fun d => (d.sharedUser.nickname, d.config, d.stopDownloading)
    have hkept : Maintains (watched nickname) (fun t base' => Working (HasNickname nickname) t base' ∧
        downloadRoot t.self.config base' nickname = root) takeStream := by
      refine maintains_folder (hpart.mono (wireAnd_of_own fun _ hc => hc)) (fun _ => apart_of_connecting)
        fun s s' base' hp h => ⟨⟨hasNickname_folder s s' base' hp h.1.1, ?_⟩, ?_⟩
      · exact (congrArg (fun v => v.2.2) hp).trans h.1.2
      · rw [show s'.self.config = s.self.config from congrArg (fun v => v.2.1) hp]
        exact h.2
    refine wp_conseq (hkept t base ⟨hw, hd⟩) (fun taken t' base' h' => ?_) fun _ _ _ h' => h'.1.1
    split
    · exact ⟨h'.2, h'.1⟩
    · exact h'.1.1

/-- **Downloads stay in the folder of their user.** The nickname is one that `verify_config_shared_users`
    accepts, and so a single component. Every file the downloader creates or writes, apart from its queue
    file, is the download root of the nickname, as the thread's config says at that moment, followed by one
    or more components; every directory it creates is the root followed by components, the root, or a
    directory the root lies in. -/
theorem downloads_inside {users : List SharedUser} (hverified : verifyConfigSharedUsers users = .ok ())
    {user : SharedUser} (hu : user ∈ users) {t : Thread SingleDownloader}
    (ht : t.self.sharedUser.nickname = user.nickname) {fuel n : Nat} {base base' : Str}
    {s : Thread SingleDownloader} {c : DownloaderCmd}
    {k : Ans DownloaderCmd.Ans (.inr c) → Prog (Thread SingleDownloader) (Wire ⊕ DownloaderCmd)
      (Ans DownloaderCmd.Ans) Exc Unit}
    (hr : Reach (userAnswers user.nickname) (runThread fuel n t, base) (.call s (.inr c) k, base')) :
    ValidName user.nickname ∧ InFolder (downloadRoot s.self.config base' user.nickname) c :=
  ⟨nickname_validName hverified hu, maintains_reach (loopParts_folder.runThread fuel n) ht hr.admitting⟩

end Folder

/-! ## 4. The folder itself -/

/-- The listing of one empty file, which is queued. -/
def emptyListing : SharedFile := SharedFile.new [] true [emptyFile pathA] 0

/-- The run that creates the folder: the file is selected, and the peer is there; `n` more answers. -/
def folderRun (n : Nat) : Prog (Thread SingleDownloader) (Wire ⊕ DownloaderCmd) (Ans DownloaderCmd.Ans) Exc
    Unit × Str :=
  (@runThread idleCrates 5 1 bobThread).record (fun base _ => baseAfter base)
    (List.replicate 3 restAnswers ++ [messageAnswers (.newDownload { path := pathA, fileSize := 0 })] ++
      List.replicate 3 restAnswers ++ List.replicate (7 + n) (onlineAnswers emptyListing)) []

theorem folderRun_reached (n : Nat) :
    Reach (userAnswers "bob".toList) (@runThread idleCrates 5 1 bobThread, []) (folderRun n) := by
  refine reach_record _ _ _ fun answer ha base s c => ⟨rfl, ?_⟩
  simp only [List.mem_append, List.mem_replicate, List.mem_singleton] at ha
  rcases ha with ((⟨-, rfl⟩ | rfl) | ⟨-, rfl⟩) | ⟨-, rfl⟩ <;> rcases c with c | c
  all_goals first | exact trivial | (cases c <;> exact trivial)

theorem folderRun_asks (n : Nat) {c : DownloaderCmd} (h : asked (folderRun n).1 = some c) :
    ∃ k, Reach (userAnswers "bob".toList) (@runThread idleCrates 5 1 bobThread, [])
      (.call (folderRun n).1.state (.inr c) k, (folderRun n).2) := by
  obtain ⟨s, k, hcall⟩ := Prog.issued_eq_some.mp (issued_of_asked h)
  have hstate : (folderRun n).1.state = s := by rw [hcall]; rfl
  have hrun : folderRun n = (.call (folderRun n).1.state (.inr c) k, (folderRun n).2) :=
    Prod.ext (hstate.symm ▸ hcall) rfl
  exact ⟨k, hrun ▸ folderRun_reached n⟩

theorem folderRun_root (n : Nat) (h : n = 0 ∨ n = 1) :
    downloadRoot (folderRun n).1.state.self.config (folderRun n).2 "bob".toList = "/d/bob/".toList := by
  rcases h with rfl | rfl <;> decide +kernel

theorem folder_asked : (asked (folderRun 0).1).bind DownloaderCmd.dir = some "/d/bob/".toList := by
  decide +kernel

theorem file_asked : (asked (folderRun 1).1).bind DownloaderCmd.file = some "/d/bob/x.txt".toList := by
  decide +kernel

/-- **The folder itself is created**: the directory the downloader of `bob` creates for a file is
    the download root, followed by no component at all. -/
theorem folder_created : ∃ s c k base root,
    Reach (userAnswers "bob".toList) (@runThread idleCrates 5 1 bobThread, []) (.call s (.inr c) k, base) ∧
      root = downloadRoot s.self.config base "bob".toList ∧ c.dir = some root ∧
      ¬ ∃ names, names ≠ [] ∧ (∀ name ∈ names, LocalName name) ∧
        (root = destination root names ∨ root = directory root names) := by
  obtain ⟨c, hc, hdir⟩ := Option.bind_eq_some_iff.mp folder_asked
  obtain ⟨k, hr⟩ := folderRun_asks 0 hc
  refine ⟨_, c, k, _, _, hr, (folderRun_root 0 (.inl rfl)).symm, hdir, ?_⟩
  intro ⟨names, hne, hlocal, hp⟩
  -- a component is not empty, so the root with a component is longer than the root
  obtain ⟨name, rest, rfl⟩ := List.exists_cons_of_ne_nil hne
  obtain ⟨c, cs, rfl⟩ := List.exists_cons_of_ne_nil (hlocal name List.mem_cons_self).1.1
  rcases hp with hp | hp
  · have hnil := List.append_cancel_left ((List.append_nil _).trans hp)
    cases rest with
    | nil =>
      rw [List.intercalate_singleton] at hnil
      cases hnil
    | cons n rest =>
      rw [List.intercalate_cons_cons] at hnil
      cases hnil
  · have hnil := List.append_cancel_left ((List.append_nil _).trans hp)
    cases hnil

/-- In the same run: the folder is created, and the file in it. -/
theorem downloads_inside_bob : ValidName "bob".toList ∧
    (∃ c, c.MayCreate "/d/bob".toList ∧ InFolder "/d/bob/".toList c) ∧
      ∃ c, c.file = some "/d/bob/x.txt".toList ∧ InFolder "/d/bob/".toList c := by
  have hverified : @verifyConfigSharedUsers idleCrates [sampleBob] = .ok () := by decide +kernel
  obtain ⟨c, hc, hdir⟩ := Option.bind_eq_some_iff.mp folder_asked
  obtain ⟨d, hd, hfile⟩ := Option.bind_eq_some_iff.mp file_asked
  obtain ⟨k, hr⟩ := folderRun_asks 0 hc
  obtain ⟨k', hr'⟩ := folderRun_asks 1 hd
  have hfolder := @downloads_inside idleCrates _ hverified sampleBob List.mem_cons_self bobThread rfl _ _ _ _
    _ _ _ hr
  have hin := @downloads_inside idleCrates _ hverified sampleBob List.mem_cons_self bobThread rfl _ _ _ _
    _ _ _ hr'
  have hroot := folderRun_root 0 (.inl rfl)
  have hroot' := folderRun_root 1 (.inr rfl)
  exact ⟨hfolder.1, ⟨c, ⟨_, hdir, by decide⟩, hroot ▸ hfolder.2⟩, d, hfile, hroot' ▸ hin.2⟩

end Transmitic
