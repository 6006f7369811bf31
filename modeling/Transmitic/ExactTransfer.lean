/-
  File:      Transmitic/ExactTransfer.lean
  Subject:   A FILE ARRIVES AS IT IS, over any number of connections, wherever they break.

  A download goes on where the local file ends. Nothing is kept of a broken transfer but that file, and the
  frames that were on the way are lost. The downloader asks from the length of its file on; the uploader
  seeks there, and sends what its reads return.

  * `contentTerms` -- the conversation, where the chunks of one file are pieces of it, one after the other;
  * `sharing`, `source_contentTerms` -- an uploader of that file answers with them;
  * `LocalCopy`, `receiving` -- the local disk of a downloader, and what it may do there;
  * `transferParts_copy`, `fileParts_copy`, `aboard_copy` -- **a downloader writes nothing else**;
  * `Sessions`, `transfer_exact` -- **the local file is a beginning of the remote one, always; when it is
    reported as completed, it is the remote one; and what was received stays.**
-/
import Transmitic.FileTransfer
import Transmitic.LocalPaths
import Transmitic.TurnTaking

namespace Transmitic

open Lib

/-! ## 1. The pieces of a file -/

/-- The position a request for the file `path` asks for, if it does. -/
def requested (path : Str) (payload : List UInt8) : Option Nat :=
  match slice payload 0 8, fromUtf8 (payload.drop 8) with
  | some seekBytes, some choice =>
    if choice = path then some (UInt64.ofNat (ofBe seekBytes)).toNat else none
  | _, _ => none

/-- What is sent of the file `path` is the next piece of it; of other files anything. -/
def contentTerms (path : Str) (file : FileContent) : Terms (Option Nat) where
  request payload := some (requested path payload)
  answer c msg payload :=
    if ∀ position ∈ c, payload <+: file.bytes.drop position then
      (SingleUploader.anyAnswer.answer () msg payload).map fun more =>
        more.map fun _ => c.map fun position => position + payload.length
    else none
  chunks c msg payload o h := by
    split at h
    · obtain ⟨more, hmore, rfl⟩ := Option.map_eq_some_iff.mp h
      rw [Option.isSome_map, SingleUploader.anyAnswer.chunks () msg payload more hmore]
    · cases h
  answers c := ⟨msgFileFinished, [], none, Nat.zero_le _, by simp [SingleUploader.anyAnswer]; decide⟩

section Terms

variable {path : Str} {file : FileContent} {c : Option Nat} {payload : List UInt8}

theorem answer_piece {msg : UInt16} {more : Option Unit}
    (h : ∀ position ∈ c, payload <+: file.bytes.drop position)
    (hmore : SingleUploader.anyAnswer.answer () msg payload = some more) :
    (contentTerms path file).answer c msg payload =
      some (more.map fun _ => c.map fun position => position + payload.length) := by
  simp only [contentTerms, if_pos h, hmore, Option.map_some]

/-- **An answer about the file is a piece of it.** -/
theorem piece_of_answer {msg : UInt16} {position : Nat} {o : Option (Option Nat)}
    (h : (contentTerms path file).answer (some position) msg payload = some o) :
    payload <+: file.bytes.drop position ∧
      o = if msg = msgFileChunk then some (some (position + payload.length)) else none := by
  have hchunks := (contentTerms path file).chunks _ _ _ _ h
  simp only [contentTerms, Option.mem_some_iff, forall_eq'] at h
  split at h
  · obtain ⟨more, hmore, rfl⟩ := Option.map_eq_some_iff.mp h
    refine ⟨‹_›, ?_⟩
    cases more with
    | none => rw [if_neg fun hmsg => by simpa using hchunks.mpr hmsg]; rfl
    | some u => rw [if_pos (hchunks.mp rfl)]; rfl
  · cases h

end Terms

namespace SingleUploader

/-! ## 2. An uploader of the file -/

section Sharing

variable {S : Suite} {path : Str} {file : FileContent}

/-- The surroundings of an uploader that shares the file `path`: the path of the open file, and the offset in
    it. A read may be short. Anything else may be answered in any way. -/
def sharing (path : Str) (file : FileContent) :
    Env (Thread SingleUploader) (UploaderCmd S) UploaderCmd.Ans (Str × Nat) where
  ok _ _ _ := True
  step w _ c a w' :=
    match c, a with
    | .fileOpen choice, .ok _ => w' = (choice, 0)
    | .fileSeek position, .ok _ => w' = (w.1, position.toNat)
    | .fileRead, .ok readBuffer =>
      (w.1 = path → file.Reads w.2 readBuffer.1) ∧ w' = (w.1, w.2 + readBuffer.1.length)
    | _, _ => w' = w

theorem ok_sharing (w : Str × Nat) (t : Thread SingleUploader) (c : UploaderCmd S) :
    (sharing path file).ok w t c := trivial

/-- The open file is the shared one where `c` says so. -/
def OpenedAt (path : Str) (c : Option Nat) (w : Str × Nat) : Prop := ∀ position ∈ c, w = (path, position)

/-- **What such an uploader sends of the file is the next piece of it.** -/
theorem source_contentTerms : Source (contentTerms path file) (sharing (S := S) path file)
    (OpenedAt path) where
  refuses c msg h := by
    have hnone : anyAnswer.answer () msg [] = some none := by
      rcases h with rfl | rfl
      · decide
      · decide
    exact answer_piece (fun _ _ => List.nil_prefix) hnone
  opens c payload seekBytes choice t w w₁ w₂ hc hseek hutf hopen hsought position hp := by
    obtain rfl : w₁ = (choice, 0) := hopen
    obtain rfl : w₂ = (choice, _) := hsought
    obtain rfl : requested path payload = c := Option.some.inj hc
    simp only [requested, hseek, hutf] at hp
    split at hp
    · rename_i hchoice
      rw [Option.mem_some_iff.mp hp, hchoice]
    · cases hp
  reads c t w w' readBuffer ho hs := by
    obtain ⟨hreads, rfl⟩ := hs
    have hpiece : ∀ position ∈ c, readBuffer.1 <+: file.bytes.drop position := by
      intro position hp
      rw [ho position hp] at hreads
      exact (hreads rfl).1
    have hlast : anyAnswer.answer () msgFileFinished readBuffer.1 = some none := rfl
    have hchunk : anyAnswer.answer () msgFileChunk readBuffer.1 = some (some ()) := rfl
    refine ⟨answer_piece hpiece hlast, _, answer_piece hpiece hchunk, fun position hp => ?_⟩
    obtain ⟨position, hp', rfl⟩ := Option.mem_map.mp hp
    rw [ho position hp']
  besides c := by
    refine ⟨fun _ _ _ _ _ => trivial, fun w t cmd a w' ho he hs => ?_⟩
    cases cmd with
    | fileOpen choice => exact he.elim
    | fileSeek position => exact he.elim
    | fileRead => exact he.elim
    | _ =>
      rw [show w' = w from hs]
      exact ho

end Sharing

end SingleUploader

/-! ## 3. The local copy -/

/-- A file that is downloaded: its path on the remote side, what it is, and where it is put, which is not
    above the directory of the downloads. -/
structure LocalCopy where
  path : Str
  file : FileContent
  root : Str
  destinationPath : Str
  outside : ¬ destinationPath ++ ['/'] <+: root

namespace LocalCopy

variable (copy : LocalCopy)

/-- What is placed at the destination of the copy, when `f` is downloaded into `dir`, is the file. -/
structure Places (dir : Str) (f : SharedFile) : Prop where
  requestable : Requestable f
  outside : ¬ copy.destinationPath ++ ['/'] <+: dir
  only : ∀ names g, BaseNames f names g → destination dir names = copy.destinationPath →
    g.isDirectory = false ∧ g.path = copy.path ∧ g.fileSize.toNat = copy.file.bytes.length

/-- What may be done to the local disk, as far as the copy is concerned: what is written continues the
    beginning that is there, a file is not created anew, and is complete when it is reported. -/
def Admits (w : LocalDisk) : DownloaderCmd → Prop
  | .createDirAll dir => ¬ copy.destinationPath ++ ['/'] <+: dir
  | .fileCreate p => p = copy.destinationPath → w.entry p = none
  | .fileWrite p bytes => p = copy.destinationPath → ∀ old, w.entry p = some (.file old) →
    old ++ bytes <+: copy.file.bytes
  | .app (.completed m) => m.pathLocalDisk = copy.destinationPath →
    w.entry copy.destinationPath = some (.file copy.file.bytes)
  | _ => True

/-- The surroundings of a downloader on its local disk. Directories are created on the way to the one asked
    for; the listings of the cache place nothing but the file at its destination. -/
def receiving (limit : Str → UInt64) :
    Env (Thread SingleDownloader) DownloaderCmd DownloaderCmd.Ans LocalDisk where
  ok w _ c := copy.Admits w c
  step w _ c a w' := w.Step limit c a w' ∧
    match c, a with
    | .createDirAll dir, _ => ∀ p, w'.entry p ≠ w.entry p → p ++ ['/'] <+: dir
    | .refreshGet _, some (some f) => ∀ a ∈ nodes f, copy.Places copy.root a
    | _, _ => True

/-- **What is at the destination is a beginning of the file.** -/
def Exact (e : Option DiskEntry) : Prop :=
  ∀ x, e = some x → ∃ n, x = .file (copy.file.bytes.take n)

section Disk

variable {copy} {limit : Str → UInt64} {w w' : LocalDisk} {t : Thread SingleDownloader} {c : DownloaderCmd}
  {a : c.Ans}

/-- A piece that comes next makes a longer beginning. -/
theorem take_append {n : Nat} {payload : List UInt8} (h : payload <+: copy.file.bytes.drop n) :
    copy.file.bytes.take n ++ payload = copy.file.bytes.take (n + payload.length) := by
  obtain ⟨rest, hrest⟩ := h
  rw [List.take_add, ← hrest, List.take_left]

/-- Bytes that go on where a beginning of the file ends. -/
theorem exact_append {old bytes : List UInt8} (h : old ++ bytes <+: copy.file.bytes) :
    copy.Exact (some (.file (old ++ bytes))) := by
  intro x hx
  cases hx
  exact ⟨_, congrArg DiskEntry.file (List.prefix_iff_eq_take.mp h)⟩

/-- A directory is created elsewhere. -/
theorem entry_createDirAll {dir : Str} {a : DownloaderCmd.Ans (.createDirAll dir)}
    (h : ¬ copy.destinationPath ++ ['/'] <+: dir) (hs : (copy.receiving limit).step w t (.createDirAll dir) a w') :
    w'.entry copy.destinationPath = w.entry copy.destinationPath :=
  by_contra fun hne => h (hs.2 _ hne)

theorem exact_whole {e : Option DiskEntry} (h : e = some (.file copy.file.bytes)) : copy.Exact e := by
  intro x hx
  rw [h] at hx
  cases hx
  exact ⟨_, congrArg DiskEntry.file (List.take_length (l := copy.file.bytes)).symm⟩

/-- **A step**: what was at the destination is still there, and may go on; a beginning of the file stays
    one. -/
theorem exact_step (h : copy.Exact (w.entry copy.destinationPath)) (hok : (copy.receiving limit).ok w t c)
    (hs : (copy.receiving limit).step w t c a w') :
    copy.Exact (w'.entry copy.destinationPath) ∧
      Extends (w.entry copy.destinationPath) (w'.entry copy.destinationPath) := by
  have hsame : w'.entry copy.destinationPath = w.entry copy.destinationPath →
      copy.Exact (w'.entry copy.destinationPath) ∧
        Extends (w.entry copy.destinationPath) (w'.entry copy.destinationPath) := by
    intro he
    rw [he]
    exact ⟨h, .refl _⟩
  have happends : ∀ {p : Str} {bytes part : List UInt8}, part <+: bytes →
      (p = copy.destinationPath → ∀ old, w.entry p = some (.file old) →
        old ++ bytes <+: copy.file.bytes) → w.Appends limit p part w' →
      copy.Exact (w'.entry copy.destinationPath) ∧
        Extends (w.entry copy.destinationPath) (w'.entry copy.destinationPath) := by
    intro p bytes part hpart hgo happ
    obtain ⟨old, hold, -, rfl⟩ := happ
    by_cases hp : p = copy.destinationPath
    · subst hp
      have hnow : (w.wrote copy.destinationPath old part).entry copy.destinationPath =
          some (.file (old ++ part)) := entry_put_self _ _ _
      rw [hnow, hold]
      refine ⟨exact_append ?_, .file old part⟩
      exact ((List.prefix_append_right_inj old).mpr hpart).trans (hgo rfl old hold)
    · exact hsame (entry_put_of_ne (Ne.symm hp) _ _)
  obtain ⟨hstep, hmore⟩ := hs
  cases c with
  | createDirAll dir => exact hsame (entry_createDirAll (t := t) hok ⟨hstep, hmore⟩)
  | fileCreate p =>
    cases a with
    | error e =>
      obtain rfl : w' = w := hstep
      exact hsame rfl
    | ok u =>
      obtain ⟨-, rfl⟩ := hstep
      by_cases hp : p = copy.destinationPath
      · subst hp
        rw [entry_put_self, hok rfl]
        exact ⟨fun x hx => ⟨0, by cases hx; rfl⟩, .new _⟩
      · exact hsame (entry_put_of_ne (Ne.symm hp) _ _)
  | fileOpenEnd p =>
    cases a with
    | error e =>
      obtain rfl : w' = w := hstep
      exact hsame rfl
    | ok u =>
      obtain ⟨-, rfl⟩ := hstep
      exact hsame rfl
  | fileWrite p bytes =>
    cases a with
    | ok u => exact happends List.prefix_rfl hok hstep
    | error e =>
      rcases hstep with rfl | ⟨part, hpart, happ⟩
      · exact hsame rfl
      · exact happends hpart hok happ
  | _ => exact hsame (congrFun (quiet_step ⟨rfl, rfl⟩ hstep) _)

/-- Commands the copy has nothing to do with. -/
theorem admits_of_hushed (h : hushed c) : copy.Admits w c := by
  cases c with
  | createDirAll dir => exact nomatch h.1.2
  | fileCreate p => exact nomatch h.1.1
  | fileWrite p bytes => exact nomatch h.1.1
  | app m =>
    cases m with
    | completed m => exact absurd rfl (h.2 m)
    | _ => trivial
  | _ => trivial

theorem spares_hushed (J : Option DiskEntry → Prop) :
    (copy.receiving limit).Spares hushed fun w => J (w.entry copy.destinationPath) where
  ok _ _ _ _ hc := admits_of_hushed hc
  step w t c a w' hJ hc hs := by
    rw [(calm_step hc hs.1).entry]
    exact hJ

theorem spares_exact {P : DownloaderCmd → Prop} (h : ∀ w c, P c → copy.Admits w c) :
    (copy.receiving limit).Spares P fun w => copy.Exact (w.entry copy.destinationPath) where
  ok w _ c _ hc := h w c hc
  step w _ c _ _ hJ hc hs := (exact_step hJ (h w c hc) hs).1

/-- What is reported as completed at another place. -/
theorem admits_completing {q destinationPath : Str} (hne : destinationPath ≠ copy.destinationPath)
    (h : completing q destinationPath c) : copy.Admits w c := by
  rcases h with h | ⟨m, rfl, -, hd⟩
  · exact admits_of_hushed h
  · intro hm
    exact absurd (hd.symm.trans hm) hne

/-- **A transfer to another place.** -/
theorem admits_transferring {tr : Transfer} (hne : tr.destinationPath ≠ copy.destinationPath)
    (houtside : ¬ copy.destinationPath ++ ['/'] <+: tr.downloadDir) (h : transferring tr c) :
    copy.Admits w c := by
  rcases h with h | h | h | rfl
  · exact admits_completing hne h
  · exact admits_of_hushed (hushed_of_reporting (reporting_of_looking h))
  · cases c with
    | fileCreate p =>
      obtain rfl : p = tr.destinationPath := Option.some.inj h
      exact fun hp => absurd hp hne
    | fileWrite p bytes =>
      obtain rfl : p = tr.destinationPath := Option.some.inj h
      exact fun hp => absurd hp hne
    | fileOpenEnd p => trivial
    | _ => cases h
  · exact houtside

end Disk

/-! ## 4. The transfer of the copy -/

section Transfers

variable [Crates] {copy} {limit : Str → UInt64} {mayBreak : Prop} {t : Thread SingleDownloader}
  {w : LocalDisk × Option (View (Phase (Option Nat)))} {n : Nat} {msg : UInt16}

/-- The conversation of a downloader that copies, on a connection that may break. -/
noncomputable abbrev copying (copy : LocalCopy) (limit : Str → UInt64) (mayBreak : Prop) :
    Env (Thread SingleDownloader) (Wire ⊕ DownloaderCmd) (Ans DownloaderCmd.Ans)
      (LocalDisk × Option (View (Phase (Option Nat)))) :=
  onWire (exchange (contentTerms copy.path copy.file)) .left mayBreak (copy.receiving limit)

/-- The first `n` bytes are there. -/
def Present (copy : LocalCopy) (n : Nat) (e : Option DiskEntry) : Prop :=
  e = some (.file (copy.file.bytes.take n)) ∧ n ≤ copy.file.bytes.length

/-- They are, or there is nothing to begin with. -/
def Resumable (copy : LocalCopy) (n : Nat) (e : Option DiskEntry) : Prop :=
  e = none ∧ n = 0 ∨ Present copy n e

/-- After the message `msg` about the file, the next piece of it begins at `n`. -/
def Onwards (n : Nat) (msg : UInt16) (t : Thread SingleDownloader)
    (w : LocalDisk × Option (View (Phase (Option Nat)))) : Prop :=
  At (if msg = msgFileChunk then .sending (some n) else .idle) t w

/-- The message `msg` holds the piece of the file that begins at `n`. -/
def Piece (copy : LocalCopy) (n : Nat) (msg : UInt16) (t : Thread SingleDownloader)
    (w : LocalDisk × Option (View (Phase (Option Nat)))) : Prop :=
  ∃ payload, t.encryptedStream.Holds msg payload ∧ payload <+: copy.file.bytes.drop n ∧
    Onwards (n + payload.length) msg t w

omit [Crates] in
theorem Present.exact {e : Option DiskEntry} (h : Present copy n e) : copy.Exact e := by
  intro x hx
  rw [h.1] at hx
  cases hx
  exact ⟨n, rfl⟩

/-- A command whose answer is an error or nothing. -/
theorem wp_tryCommand_exchange {c : DownloaderCmd}
    {Q : Thread SingleDownloader → LocalDisk × Option (View (Phase (Option Nat))) → Prop}
    (f : c.Ans → Except Str Unit) (hok : (copy.receiving limit).ok w.1 t c)
    (hQ : ∀ a w', f a = .ok () → (copy.receiving limit).step w.1 t c a w'.1 → w'.2 = w.2 → Q t w') :
    wp (copying copy limit mayBreak) (command c >>= fun a => tryIo (f a)) (fun _ => Q)
      (fun _ _ _ => True) t w := by
  refine (wp_bind _ _).mpr ⟨hok, fun a w' hs => ?_⟩
  show wp (copying copy limit mayBreak) (tryIo (f a)) (fun _ => Q) _ t w'
  cases hf : f a with
  | error e => exact trivial
  | ok u => exact hQ a w' hf hs.1 hs.2

/-- **A piece is read.** -/
theorem wp_readPiece (h : At (.sending (some n)) t w) :
    wp (copying copy limit mayBreak) (read : Dl Unit)
      (fun _ t' w' => Piece copy n t'.encryptedStream.getMessage t' w' ∧ w'.1 = w.1) (fun _ _ _ => True)
      t w := by
  refine wp_readAnswer h fun msg payload p' t' w' hd _ hw hholds hat => ⟨?_, hw⟩
  obtain ⟨o, ho, rfl⟩ := Option.map_eq_some_iff.mp hd
  obtain ⟨hpiece, rfl⟩ := piece_of_answer ho
  rw [hholds.message]
  refine ⟨payload, hholds, hpiece, ?_⟩
  unfold Onwards
  split at hat
  · rwa [if_pos ‹_›]
  · rwa [if_neg ‹_›]

omit [Crates] in
theorem Onwards.congr {t' : Thread SingleDownloader} {w' : LocalDisk × Option (View (Phase (Option Nat)))}
    (h : Onwards n msg t w) (hs : t'.encryptedStream = t.encryptedStream) (hw : w'.2 = w.2) :
    Onwards n msg t' w' := At.congr h hs hw

theorem Piece.congr {t' : Thread SingleDownloader} {w' : LocalDisk × Option (View (Phase (Option Nat)))}
    (h : Piece copy n msg t w) (hs : t'.encryptedStream = t.encryptedStream) (hw : w'.2 = w.2) :
    Piece copy n msg t' w' := by
  obtain ⟨payload, hholds, hpiece, hon⟩ := h
  rw [← hs] at hholds
  exact ⟨payload, hholds, hpiece, hon.congr hs hw⟩

omit [Crates] in
/-- The file goes on where the next piece of it begins. -/
theorem Present.append {payload : List UInt8} {e : Option DiskEntry} {old : List UInt8}
    (h : Present copy n e) (hold : e = some (.file old)) (hpiece : payload <+: copy.file.bytes.drop n) :
    old ++ payload = copy.file.bytes.take (n + payload.length) ∧
      n + payload.length ≤ copy.file.bytes.length := by
  obtain ⟨he, hle⟩ := h
  obtain rfl : old = copy.file.bytes.take n := by
    rw [hold] at he
    cases he
    rfl
  have hlen := hpiece.length_le
  rw [List.length_drop] at hlen
  exact ⟨take_append hpiece, by omega⟩

omit [Crates] in
/-- The position behind a piece is a 64-bit one. -/
theorem Present.toNat_add {n : UInt64} {payload : List UInt8} {e : Option DiskEntry}
    (h : Present copy n.toNat e) (hpiece : payload <+: copy.file.bytes.drop n.toNat) :
    (n + UInt64.ofNat payload.length).toNat = n.toNat + payload.length := by
  refine toNat_add_ofNat ?_
  have hlen := hpiece.length_le
  rw [List.length_drop] at hlen
  have hle := h.2
  have hfile : copy.file.bytes.length < 2 ^ 63 := copy.file.length_lt
  omega

omit [Crates] in
/-- The request asks for the file from `n` on. -/
theorem requested_request (fileLength : UInt64) :
    requested copy.path (beBytes 8 fileLength.toNat ++ utf8 copy.path) = some fileLength.toNat := by
  have hlt : fileLength.toNat < 256 ^ 8 := fileLength.toNat_lt
  rw [requested, slice_front (length_beBytes 8 _), List.drop_left' (length_beBytes 8 _), fromUtf8_utf8]
  show (if copy.path = copy.path then some _ else none) = _
  rw [if_pos rfl, ofBe_beBytes_of_lt hlt, UInt64.ofNat_toNat]

/-- The local file is opened at its end, or it is a new one. -/
theorem wp_openDestination_copy {tr : Transfer} (hdest : tr.destinationPath = copy.destinationPath)
    (houtside : ¬ copy.destinationPath ++ ['/'] <+: tr.downloadDir) (hpiece : Piece copy n msg t w)
    (hresume : Resumable copy n (w.1.entry copy.destinationPath)) :
    wp (copying copy limit mayBreak) (openDestination tr)
      (fun _ t' w' => Piece copy n msg t' w' ∧ Present copy n (w'.1.entry copy.destinationPath))
      (fun _ _ _ => True) t w := by
  refine wp_bind_assoc.mp ((wp_bind _ _).mpr ?_)
  refine wp_tryCommand_exchange (c := .createDirAll tr.downloadDir) id houtside fun a w₁ _ hs₁ hw₁ => ?_
  have hsame : w₁.1.entry copy.destinationPath = w.1.entry copy.destinationPath :=
    entry_createDirAll houtside hs₁
  rw [← hsame] at hresume
  refine (wp_bind (pathExists _) _).mpr ⟨trivial, fun (doesFileExist : Bool) w₂ hs₂ => ?_⟩
  obtain ⟨⟨⟨hexists, hdisk⟩, -⟩, hw₂⟩ := hs₂
  have hpiece : Piece copy n msg t w₂ := hpiece.congr rfl (hw₂.trans hw₁)
  rw [← hdisk] at hresume hexists
  rw [hdest] at hexists ⊢
  refine (wp_ite _ _ _).mpr ?_
  split
  · rename_i hold
    rw [hexists] at hold
    refine wp_tryCommand_exchange (c := .fileOpenEnd copy.destinationPath) id trivial
      fun a w₃ ha hs₃ hw₃ => ?_
    obtain rfl : a = .ok () := ha
    obtain ⟨⟨-, hdisk₃⟩, -⟩ := hs₃
    refine ⟨hpiece.congr rfl hw₃, ?_⟩
    rw [hdisk₃]
    rcases hresume with ⟨hnone, -⟩ | hpresent
    · rw [hnone] at hold
      cases hold
    · exact hpresent
  · rename_i hnew
    rw [hexists] at hnew
    have hnone : w₂.1.entry copy.destinationPath = none := by simpa using hnew
    have hstart : n = 0 := by
      rcases hresume with ⟨-, hzero⟩ | hpresent
      · exact hzero
      · rw [hnone] at hpresent
        cases hpresent.1
    refine wp_tryCommand_exchange (c := .fileCreate copy.destinationPath) id (fun _ => hnone)
      fun a w₃ ha hs₃ hw₃ => ?_
    obtain rfl : a = .ok () := ha
    obtain ⟨⟨-, hdisk₃⟩, -⟩ := hs₃
    refine ⟨hpiece.congr rfl hw₃, ?_⟩
    rw [hdisk₃, hstart]
    exact ⟨entry_put_self _ _ _, Nat.zero_le _⟩

/-- **A piece is written where it belongs.** -/
theorem wp_storePiece {tr : Transfer} {payload : List UInt8} (hdest : tr.destinationPath = copy.destinationPath)
    (hpiece : payload <+: copy.file.bytes.drop n) (hpresent : Present copy n (w.1.entry copy.destinationPath)) :
    wp (copying copy limit mayBreak)
      (do
        modifySelf fun d : SingleDownloader => { d with
          activeDownloadedCurrentBytes := d.activeDownloadedCurrentBytes + UInt64.ofNat payload.length }
        tryIo (← command (.fileWrite tr.destinationPath payload))
        updateProgress)
      (fun _ t' w' => t'.encryptedStream = t.encryptedStream ∧ w'.2 = w.2 ∧
        Present copy (n + payload.length) (w'.1.entry copy.destinationPath)) (fun _ _ _ => True) t w := by
  refine (wp_bind (modifySelf _) _).mpr ((wp_modifySelf _).mpr ?_)
  generalize ht₁ : Thread.mk _ _ = t₁
  have hstream : t₁.encryptedStream = t.encryptedStream := by rw [← ht₁]
  refine wp_bind_assoc.mp ((wp_bind _ _).mpr ?_)
  have hgo : tr.destinationPath = copy.destinationPath → ∀ old,
      w.1.entry tr.destinationPath = some (.file old) → old ++ payload <+: copy.file.bytes := by
    intro _ old hold
    rw [hdest] at hold
    rw [(hpresent.append hold hpiece).1]
    exact List.take_prefix _ _
  refine wp_tryCommand_exchange (c := .fileWrite tr.destinationPath payload) id hgo
    fun a w₂ ha hs₂ hw₂ => ?_
  obtain rfl : a = .ok () := ha
  obtain ⟨⟨old, hold, -, hdisk⟩, -⟩ := hs₂
  rw [hdest] at hold hdisk
  obtain ⟨happend, hle⟩ := hpresent.append hold hpiece
  have hnow : Present copy (n + payload.length) (w₂.1.entry copy.destinationPath) := by
    rw [hdisk]
    refine ⟨?_, hle⟩
    rw [← happend]
    exact entry_put_self _ _ _
  have hquiet : Aside hushed updateProgress :=
    still_updateProgress.changesProgress.aside.mono fun _ => hushed_of_reporting
  refine wp_conseq (wp_besides_exchange (spares_hushed _) hquiet hnow) (fun _ t₃ w₃ h₃ => ?_)
    fun _ _ _ h' => h'
  exact ⟨h₃.1.trans hstream, h₃.2.1.trans hw₂, h₃.2.2⟩

omit [Crates] in
/-- The local file is the whole file when it is reported. -/
theorem spares_completing {path destinationPath : Str} :
    (copy.receiving limit).Spares (completing path destinationPath)
      fun w => w.entry copy.destinationPath = some (.file copy.file.bytes) where
  ok w _ c hJ hc := by
    rcases hc with hc | ⟨m, rfl, -, -⟩
    · exact admits_of_hushed hc
    · exact fun _ => hJ
  step w _ c a w' hJ hc hs := by
    rcases hc with hc | ⟨m, rfl, -, -⟩
    · rw [(calm_step hc hs.1).entry, hJ]
    · rw [show w' = _ from hs.1]
      exact hJ

/-- **A transfer of the copy**: it begins where the local file ends, and goes on piece by piece. -/
theorem transferParts_copy {tr : Transfer} {fileLength : UInt64}
    (hdest : tr.destinationPath = copy.destinationPath) (hpath : tr.sharedFile.path = copy.path)
    (hsize : tr.expectedSize.toNat = copy.file.bytes.length)
    (houtside : ¬ copy.destinationPath ++ ['/'] <+: tr.downloadDir)
    (hsmall : 8 + (utf8 copy.path).length ≤ maxDataSize) :
    TransferParts (copying copy limit mayBreak) tr fileLength
      (fun t w => At .idle t w ∧ Resumable copy fileLength.toNat (w.1.entry copy.destinationPath))
      (fun msg t w => Piece copy fileLength.toNat msg t w ∧
        Resumable copy fileLength.toNat (w.1.entry copy.destinationPath))
      (fun msg n t w => Piece copy n.toNat msg t w ∧ Present copy n.toNat (w.1.entry copy.destinationPath))
      (fun msg n t w => Onwards n.toNat msg t w ∧ Present copy n.toNat (w.1.entry copy.destinationPath))
      (OnTurn fun w => copy.Exact (w.entry copy.destinationPath)) (fun _ _ _ => True) where
  asks t w h := by
    have hlen : (beBytes 8 fileLength.toNat ++ utf8 tr.sharedFile.path).length ≤ maxDataSize := by
      rw [List.length_append, length_beBytes, hpath]
      exact hsmall
    have hrequest : (contentTerms copy.path copy.file).request
        (beBytes 8 fileLength.toNat ++ utf8 tr.sharedFile.path) = some (some fileLength.toNat) := by
      rw [hpath]
      exact congrArg some (requested_request fileLength)
    refine (wp_bind (write _ _) _).mpr (wp_write_at h.1 rfl hlen (deliver_request hrequest)
      fun t₁ w₁ _ hw₁ h₁ => ?_)
    refine wp_conseq (wp_readPiece h₁) (fun _ t₂ w₂ h₂ => ?_) fun _ _ _ h' => h'
    rw [h₂.2, hw₁]
    exact ⟨h₂.1, h.2⟩
  refused fuel t w h := by
    obtain ⟨⟨payload, hholds, hpiece, hon⟩, hresume⟩ := h
    have hidle : At .idle t w := hon
    exact wp_conseq (wp_setEverythingFile_exchange (spares_hushed fun _ => True) fuel true hidle trivial)
      (fun _ _ _ _ _ => trivial) fun _ _ _ h' => h'
  opens msg t w _ h := wp_openDestination_copy hdest houtside h.1 h.2
  stores msg n payload t w h hpayload := by
    obtain ⟨⟨payload', hholds, hpiece, hon⟩, hpresent⟩ := h
    obtain rfl : payload' = payload := Except.ok.inj (hholds.payload.symm.trans hpayload)
    rw [hpresent.toNat_add hpiece]
    exact wp_conseq (wp_storePiece hdest hpiece hpresent) (fun _ t₁ w₁ h₁ => ⟨hon.congr h₁.1 h₁.2.1, h₁.2.2⟩)
      fun _ _ _ h' => h'
  finishes t w h := by
    obtain ⟨hidle, hwhole, -⟩ := h
    rw [hsize, List.take_length] at hwhole
    have hidle : At .idle t w := hidle
    refine wp_conseq (wp_own spares_completing (keeps_finishTransfer tr t) hwhole) (fun _ t' w' h' => ?_)
      fun _ _ _ _ => trivial
    exact ⟨.inl (hidle.congr (congrArg Prod.snd h'.1) h'.2.1), exact_whole h'.2.2⟩
  disagrees msg n isLocalFinished isRemoteFinished t w h :=
    wp_conseq (wp_failTransfer_exchange (spares_hushed fun _ => True) trivial)
      (fun _ _ _ h' => h'.elim) fun _ _ _ h' => h'
  reads n t w h := by
    refine wp_conseq (wp_readPiece (n := n.toNat) h.1) (fun _ t' w' h' => ?_) fun _ _ _ h' => h'
    rw [h'.2]
    exact ⟨h'.1, h.2⟩
  receiver fuel msg n t w h := by
    refine wp_conseq (wp_own (spares_hushed (Present copy n.toNat)) (wp_readReceiver fuel t) h.2)
      (fun _ t' w' h' => ?_) fun _ _ _ _ => trivial
    split
    · exact ⟨.inr ‹_›, h'.2.2.exact⟩
    · exact ⟨h.1.congr h'.1.encryptedStream h'.2.1, h'.2.2⟩
  asked _ _ _ _ _ := trivial
  fetched _ _ _ _ _ _ := trivial

/-! ## 5. The checks before it -/

/-- The first look at the local file `path` has found it `doesFileExist`, with `fileLength` bytes. -/
def Seen (copy : LocalCopy) (path : Str) (doesFileExist : Bool) (fileLength : UInt64)
    (_ : Thread SingleDownloader) (w : LocalDisk × Option (View (Phase (Option Nat)))) : Prop :=
  path = copy.destinationPath →
    doesFileExist = false ∧ fileLength = 0 ∧ w.1.entry copy.destinationPath = none ∨
    doesFileExist = true ∧ Present copy fileLength.toNat (w.1.entry copy.destinationPath)

/-- Between two messages, with a beginning of the file at its destination. -/
abbrev Copying (copy : LocalCopy) : Thread SingleDownloader →
    LocalDisk × Option (View (Phase (Option Nat))) → Prop :=
  OnTurn fun w => copy.Exact (w.entry copy.destinationPath)

/-- A transfer of a file into a directory where the copy may be placed. -/
def Placed (copy : LocalCopy) (tr : Transfer) : Prop :=
  copy.Places tr.downloadDir tr.sharedFile ∧ ∃ name, getSanitizedDiskFileName tr.sharedFile = .ok name ∧
    tr.destinationPath = tr.downloadDir ++ name

omit [Crates] in
theorem Placed.only {tr : Transfer} (h : Placed copy tr) (hdest : tr.destinationPath = copy.destinationPath) :
    tr.sharedFile.path = copy.path ∧ tr.sharedFile.fileSize.toNat = copy.file.bytes.length := by
  obtain ⟨hplaces, name, hname, hpath⟩ := h
  have hchain : destination tr.downloadDir [name] = copy.destinationPath := by
    rw [← hdest, hpath]
    simp [destination]
  exact (hplaces.only [name] tr.sharedFile (.here _ name hname) hchain).2

omit [Crates] in
theorem present_of_exact {e : DiskEntry} {fileLength : UInt64} (h : copy.Exact (some e))
    (hlength : fileLength.toNat = e.length) : Present copy fileLength.toNat (some e) := by
  obtain ⟨n, rfl⟩ := h e rfl
  rw [hlength, DiskEntry.length, List.length_take]
  refine ⟨?_, Nat.min_le_right _ _⟩
  rw [← List.take_eq_take_min]

/-- The length of what stands at `path`; nothing is zero bytes long. -/
theorem wp_localFileLength_copy (path : Str) :
    wp (copying copy limit mayBreak) (localFileLength path (w.1.entry path).isSome)
      (fun n t' w' => t' = t ∧ w' = w ∧ n.toNat = w.1.lengthAt path) (fun _ _ _ => True) t w := by
  unfold localFileLength
  cases he : w.1.entry path with
  | none => exact ⟨rfl, rfl, by simp [LocalDisk.lengthAt, he]⟩
  | some e =>
    refine ⟨trivial, fun a w' hs => ?_⟩
    cases a with
    | error x => exact trivial
    | ok n =>
      obtain ⟨⟨⟨⟨e', he', hn⟩, hdisk⟩, -⟩, hview⟩ := hs
      rw [he] at he'
      cases he'
      exact ⟨rfl, Prod.ext hdisk hview, by rw [lengthAt_of_entry he, hn]⟩

/-- **The first look at a local file.** -/
theorem wp_lookAt_copy (path : Str) (h : Working (Copying copy) t w) :
    wp (copying copy limit mayBreak) (lookAt path)
      (fun r t' w' => Working (Copying copy) t' w' ∧ Seen copy path r.1 r.2 t' w') (fun _ _ _ => True) t w := by
  refine (wp_bind (pathExists _) _).mpr ⟨trivial, fun (doesFileExist : Bool) w₁ hs₁ => ?_⟩
  obtain ⟨⟨⟨hexists, hdisk⟩, -⟩, hview⟩ := hs₁
  obtain rfl : w₁ = w := Prod.ext hdisk hview
  rw [hexists]
  refine wp_seq (wp_localFileLength_copy path) (fun fileLength t₁ w₁ h₁ => ?_) fun _ _ _ h' => h'
  obtain ⟨rfl, rfl, hlength⟩ := h₁
  refine ⟨⟨⟨h.1.1.imp (fun hat => hat.congr rfl rfl) id, h.1.2⟩, h.2⟩, ?_⟩
  rintro rfl
  cases he : w₁.1.entry copy.destinationPath with
  | none =>
    refine .inl ⟨rfl, UInt64.toNat.inj ?_, rfl⟩
    rw [hlength, LocalDisk.lengthAt, he]
    rfl
  | some e =>
    refine .inr ⟨rfl, present_of_exact ?_ (hlength.trans (lengthAt_of_entry he))⟩
    rw [← he]
    exact h.1.2

/-- A valid, empty file. -/
theorem wp_createEmptyFile_copy {tr : Transfer} {doesFileExist : Bool}
    (hdest : tr.destinationPath = copy.destinationPath)
    (houtside : ¬ copy.destinationPath ++ ['/'] <+: tr.downloadDir)
    (hsize : tr.sharedFile.fileSize.toNat = copy.file.bytes.length)
    (hseen : Seen copy tr.destinationPath doesFileExist tr.sharedFile.fileSize t w) :
    wp (copying copy limit mayBreak) (createEmptyFile tr doesFileExist)
      (fun _ t' w' => t' = t ∧ w'.2 = w.2 ∧
        w'.1.entry copy.destinationPath = some (.file copy.file.bytes)) (fun _ _ _ => True) t w := by
  unfold createEmptyFile
  rcases hseen hdest with ⟨rfl, hzero, hnone⟩ | ⟨rfl, hwhole, -⟩
  · rw [if_pos (by simp [hzero])]
    refine wp_bind_assoc.mp ((wp_bind _ _).mpr ?_)
    refine wp_tryCommand_exchange (c := .createDirAll tr.downloadDir) id houtside fun a w₁ _ hs₁ hw₁ => ?_
    have hsame : w₁.1.entry copy.destinationPath = w.1.entry copy.destinationPath :=
      entry_createDirAll houtside hs₁
    rw [hdest]
    refine wp_tryCommand_exchange (c := .fileCreate copy.destinationPath) id
      (fun _ => hsame.trans hnone) fun a w₂ ha hs₂ hw₂ => ?_
    obtain rfl : a = .ok () := ha
    obtain ⟨⟨-, hdisk⟩, -⟩ := hs₂
    refine ⟨rfl, hw₂.trans hw₁, ?_⟩
    have hempty : copy.file.bytes = [] := by
      rw [hzero] at hsize
      exact List.length_eq_zero_iff.mp hsize.symm
    rw [hdisk, hempty]
    exact entry_put_self _ _ _
  · rw [if_neg (by simp)]
    refine ⟨rfl, rfl, ?_⟩
    rw [hwhole, hsize, List.take_length]

/-- **A file is downloaded**: to the destination of the copy, or elsewhere. -/
theorem fileParts_copy : FileParts (copying copy limit mayBreak) (Copying copy) (fun _ _ _ => True)
    (Placed copy) (Seen copy) fun path t w => Copying copy t w ∧
      (path = copy.destinationPath → w.1.entry copy.destinationPath = some (.file copy.file.bytes)) where
  fails _ _ _ _ := trivial
  looks path t w hw := wp_lookAt_copy path hw
  invalid path message := maintains_report (spares_hushed copy.Exact) (still_appUpdateInvalidFile path message)
  invalidate := maintains_invalidateQueueItem (spares_hushed copy.Exact)
  settles tr doesFileExist t w htr hd hseen := by
    by_cases hdest : tr.destinationPath = copy.destinationPath
    · refine wp_conseq (wp_createEmptyFile_copy hdest htr.1.outside (htr.only hdest).2 hseen)
        (fun _ t₁ w₁ h₁ => ?_) fun _ _ _ h' => h'
      obtain ⟨rfl, hw₁, hwhole⟩ := h₁
      exact ⟨⟨hd.1.1.imp (fun hat => hat.congr rfl hw₁) id, exact_whole hwhole⟩, fun _ => hwhole⟩
    · have hspares : (copy.receiving limit).Spares (transferring tr)
          fun w => copy.Exact (w.entry copy.destinationPath) :=
        spares_exact fun _ _ => admits_transferring hdest htr.1.outside
      have hcreate : Keeps (own (transferring tr)) id (createEmptyFile tr doesFileExist) :=
        ((still_createEmptyFile tr doesFileExist).mono fun _ => .inr).keeps
      exact wp_conseq (maintains_onTurn hspares (hcreate.map fun t =>
        (t.self.stopDownloading, t.encryptedStream)) t w hd.1) (fun _ _ _ h' => ⟨h', fun h => absurd h hdest⟩)
        fun _ _ _ _ => trivial
  settled _ _ _ h := h.1
  completes tr t w htr h := by
    by_cases hdest : tr.destinationPath = copy.destinationPath
    · have hwhole := h.2 hdest
      refine wp_conseq (maintains_completeQueueItem spares_completing t w ⟨h.1.1, hwhole⟩)
        (fun _ t₁ w₁ h₁ => ⟨h₁.1, exact_whole h₁.2⟩) fun _ _ _ _ => trivial
    · exact wp_conseq (maintains_completeQueueItem (spares_exact fun _ _ => admits_completing hdest) t w h.1)
        (fun _ _ _ h' => h') fun _ _ _ _ => trivial
  ask fuel tr doesFileExist fileLength t w htr hd hseen _ hexpected := by
    have hat := working_onTurn (hd.working t w)
    have hsmall := htr.1.requestable _ (self_mem_nodes tr.sharedFile)
    by_cases hdest : tr.destinationPath = copy.destinationPath
    · obtain ⟨hpath, hsize⟩ := htr.only hdest
      have hresume : Resumable copy fileLength.toNat (w.1.entry copy.destinationPath) := by
        rcases hseen hdest with ⟨-, rfl, hnone⟩ | ⟨-, hpresent⟩
        · exact .inl ⟨hnone, rfl⟩
        · exact .inr hpresent
      rw [hpath] at hsmall
      rw [← hexpected] at hsize
      exact (transferParts_copy hdest hpath hsize htr.1.outside hsmall).transferFile fuel ⟨hat, hresume⟩
    · have hlen : (beBytes 8 fileLength.toNat ++ utf8 tr.sharedFile.path).length ≤ maxDataSize := by
        rw [List.length_append, length_beBytes]
        exact hsmall
      exact (transferParts_exchange (spares_exact fun _ _ => admits_transferring hdest htr.1.outside) hlen
        rfl).transferFile fuel ⟨hat, hd.1.2⟩

/-! ## 6. The listed trees -/

omit [Crates] in
/-- A name that begins with the name `r` and a separator, with a separator behind it, is `r`. -/
theorem eq_of_prefix_name {r name : Str} (hname : '/' ∉ name) (h : r ++ ['/'] <+: name ++ ['/']) :
    r = name := by
  have hle := h.length_le
  rw [List.length_append, List.length_append, Nat.add_le_add_iff_right] at hle
  have hr : r <+: name := List.prefix_of_prefix_length_le ((List.prefix_append r _).trans h)
    (List.prefix_append name _) hle
  obtain ⟨rest, rfl⟩ := hr
  rw [List.append_assoc, List.prefix_append_right_inj] at h
  cases rest with
  | nil => rw [List.append_nil]
  | cons c rest =>
    obtain ⟨rfl, -⟩ := List.cons_prefix_cons.mp h
    exact absurd (List.mem_append_right r List.mem_cons_self) hname

omit [Crates] in
/-- No directory is placed at the destination. -/
theorem Places.directory_ne {dir name : Str} {f : SharedFile} (h : copy.Places dir f)
    (hdir : f.isDirectory = true) (hname : getSanitizedDiskFileName f = .ok name) :
    dir ++ name ≠ copy.destinationPath := by
  intro heq
  have hchain : destination dir [name] = copy.destinationPath := by
    rw [← heq]
    simp [destination]
  rw [(h.only [name] f (.here f name hname) hchain).1] at hdir
  cases hdir

omit [Crates] in
/-- What is below a directory is placed in it. -/
theorem Places.inner {dir name : Str} {f : SharedFile} (h : copy.Places dir f) (hdir : f.isDirectory = true)
    (hname : getSanitizedDiskFileName f = .ok name) {a : SharedFile} (ha : a ∈ f.files) :
    copy.Places (dir ++ name ++ ['/']) a where
  requestable := requestable_nodes h.requestable a (mem_nodes_of_mem ha)
  outside := by
    intro hprefix
    have hbegins : dir <+: dir ++ name ++ ['/'] := by
      rw [List.append_assoc]
      exact List.prefix_append _ _
    rcases Nat.lt_or_ge dir.length (copy.destinationPath ++ ['/']).length with hlt | hge
    · -- the destination is in `dir`, so it is the directory `f` itself
      rw [List.length_append, List.length_singleton] at hlt
      have hin : dir <+: copy.destinationPath := List.prefix_of_prefix_length_le hbegins
        ((List.prefix_append _ _).trans hprefix) (by omega)
      obtain ⟨r, hr⟩ := hin
      rw [← hr, List.append_assoc, List.append_assoc, List.prefix_append_right_inj] at hprefix
      have hslash : '/' ∉ name := (sanitizedName_valid hname).2.2.2
      rw [eq_of_prefix_name hslash hprefix] at hr
      exact h.directory_ne hdir hname hr
    · exact h.outside (List.prefix_of_prefix_length_le hprefix hbegins hge)
  only names g hb hdest := by
    refine h.only (name :: names) g (.inside f a g name names hname hdir ha hb) ?_
    rw [← hdest]
    obtain ⟨n, ns, rfl⟩ := List.exists_cons_of_ne_nil hb.ne_nil
    simp [destination, List.intercalate_cons_cons]

/-- **A downloader of the copy keeps to the conversation.** -/
theorem aboard_copy {fuel : Nat} {v : Option (View (Phase (Option Nat)))} {disk : LocalDisk}
    (hstop : t.self.stopDownloading = false) (hat : At .idle t (disk, v))
    (hexact : copy.Exact (disk.entry copy.destinationPath)) :
    Aboard (copying copy limit mayBreak) (fun _ => Copying copy) (fun _ _ _ => True)
      (serveConnection fuel copy.root t, disk) v := by
  refine .inl ?_
  have htree : TreeParts (copying copy limit mayBreak) (Copying copy) (fun _ _ _ => True) copy.root
      copy.Places :=
    treeParts_exchange (spares_hushed copy.Exact) (fun _ _ _ f _ hs => hs.2)
      (fun _ _ _ hp hdir hname _ ha => hp.inner hdir hname ha)
      (fun f name hp hdir hname => spares_exact fun _ _ => admits_completing (hp.directory_ne hdir hname))
      fun fuel dir f name hp _ hname t w hw =>
        fileParts_copy.downloadFile (fun _ => ⟨hp, name, hname, rfl⟩) fuel hw
  exact htree.serveConnection fuel ⟨⟨.inl hat, hexact⟩, hstop⟩

end Transfers

end LocalCopy

/-! ## 7. One connection after the other -/

section Runs

variable [Crates] {S : Suite} {copy : LocalCopy} {limit : Str → UInt64}

/-- The downloader of a copy. -/
abbrev receiver (copy : LocalCopy) (limit : Str → UInt64) : Party Frame (Nat × Nat) :=
  party Unit True (copy.receiving limit)

/-- An uploader of the file. -/
abbrev sharer (S : Suite) (copy : LocalCopy) : Party Frame (Nat × Nat) :=
  party Unit True (SingleUploader.sharing (S := S) copy.path copy.file)

/-- What one connection takes over from the world before it: the local disk. -/
def connected (fuel fuel' : Nat) (d : Thread SingleDownloader) (u : Thread SingleUploader)
    (opened : Str × Nat) (disk : LocalDisk) : Link (receiver copy limit) (sharer S copy) :=
  { left := (serveConnection fuel copy.root d, disk)
    right := (SingleUploader.singleThread fuel' none u, opened)
    toLeft := []
    toRight := []
    log := [] }

/-- A downloader with a new stream that has not been told to stop. -/
structure NewSession (d : Thread SingleDownloader) : Prop where
  nonce : d.encryptedStream.nonce = nonceInit
  stop : d.self.stopDownloading = false

/-- The connections after `s`: the steps of either side, and new connections, whenever the old one is given
    up. Nothing but the local disk is kept. -/
inductive Sessions (s : Link (receiver copy limit) (sharer S copy)) :
    Link (receiver copy limit) (sharer S copy) → Prop where
  | start : Sessions s s
  | step (s' s'' : Link (receiver copy limit) (sharer S copy)) (h : Sessions s s')
      (hs : Link.Step fits s' s'') : Sessions s s''
  | again (s' : Link (receiver copy limit) (sharer S copy)) (fuel fuel' : Nat)
      (d : Thread SingleDownloader) (u : Thread SingleUploader) (opened : Str × Nat) (h : Sessions s s')
      (hd : NewSession d) : Sessions s (connected fuel fuel' d u opened s'.left.2)

/-- One connection goes on. -/
theorem Sessions.run {s s' s'' : Link (receiver copy limit) (sharer S copy)} (h : Sessions s s')
    (hr : Link.Run fits s' s'') : Sessions s s'' := by
  induction hr with
  | start => exact h
  | step t t' _ hs ih => exact .step t t' ih hs

/-- Both sides keep to the conversation, and a beginning of the file is at its destination. -/
structure Faithful (s : Link (receiver copy limit) (sharer S copy)) : Prop where
  balanced : Balanced (exchange (contentTerms copy.path copy.file)).frames .left
    (Aboard (LocalCopy.copying copy limit True) (fun _ => LocalCopy.Copying copy) fun _ _ _ => True)
    (Aboard (onWire (exchange (contentTerms copy.path copy.file)) .right True
      (SingleUploader.sharing copy.path copy.file)) (fun _ _ _ => True) fun _ _ _ => True) s
  exact : copy.Exact (s.left.2.entry copy.destinationPath)

variable {fuel fuel' : Nat} {d : Thread SingleDownloader} {u : Thread SingleUploader} {opened : Str × Nat}
  {disk : LocalDisk} {s s' s'' : Link (receiver copy limit) (sharer S copy)}

/-- A connection begins. -/
theorem faithful_connected (hd : NewSession d) (h : copy.Exact (disk.entry copy.destinationPath)) :
    Faithful (connected fuel fuel' d u opened disk : Link (receiver copy limit) (sharer S copy)) := by
  have hat : At (.idle : Phase (Option Nat)) d (disk, some ⟨.idle, nonceInit, none⟩) := by
    refine ⟨?_, ?_⟩
    · rw [hd.nonce]
    · rw [hd.nonce]
      exact Nat.zero_le _
  have hown : SingleUploader.LetsOwn (onWire (exchange (contentTerms copy.path copy.file)) .right True
      (SingleUploader.sharing (S := S) copy.path copy.file)) :=
    SingleUploader.letsOwn_onWire SingleUploader.ok_sharing
  refine ⟨balanced_start (LocalCopy.aboard_copy hd.stop hat h) (.inl ?_), h⟩
  exact SingleUploader.wp_singleThread_exchange hown
    (fun ts _ _ => SingleUploader.wp_openStream_incoming hown ts)
    (fun everythingFile json t w h => SingleUploader.wp_serveRequests_exchange SingleUploader.ok_sharing
      (SingleUploader.answering_source SingleUploader.ok_sharing SingleUploader.source_contentTerms fuel'
        everythingFile) json fuel' (.inl h)) rfl

/-- **A step**: what is at the destination is still there, and may go on. -/
theorem faithful_step (h : Faithful s) (hs : Link.Step fits s s') :
    Faithful s' ∧ Extends (s.left.2.entry copy.destinationPath) (s'.left.2.entry copy.destinationPath) := by
  have hkept : copy.Exact (s'.left.2.entry copy.destinationPath) ∧
      Extends (s.left.2.entry copy.destinationPath) (s'.left.2.entry copy.destinationPath) := by
    refine keeps_step (J := fun a : (receiver copy limit).State =>
      copy.Exact (a.2.entry copy.destinationPath) ∧
        Extends (s.left.2.entry copy.destinationPath) (a.2.entry copy.destinationPath))
      (fun a v l a' hv hstep ha => ?_) h.balanced hs ⟨h.exact, .refl _⟩
    refine keeps_party wired_onWire (J := fun w : LocalDisk => copy.Exact (w.entry copy.destinationPath) ∧
      Extends (s.left.2.entry copy.destinationPath) (w.entry copy.destinationPath))
      (fun w t c b w' hw hok hown => ?_) hv hstep ha
    obtain ⟨hexact, hmore⟩ := LocalCopy.exact_step hw.1 hok hown
    exact ⟨hexact, hw.2.trans hmore⟩
  exact ⟨⟨balanced_step (conforms_party wired_onWire) (conforms_party wired_onWire) h.balanced hs, hkept.1⟩,
    hkept.2⟩

/-- **All that comes after**, over every connection. -/
theorem faithful_sessions (h : Faithful s) (hr : Sessions s s') :
    Faithful s' ∧ Extends (s.left.2.entry copy.destinationPath) (s'.left.2.entry copy.destinationPath) := by
  induction hr with
  | start => exact ⟨h, .refl _⟩
  | step s' s'' _ hs ih =>
    obtain ⟨hnext, hmore⟩ := faithful_step ih.1 hs
    exact ⟨hnext, ih.2.trans hmore⟩
  | again s' fuel fuel' d u opened _ hd ih =>
    exact ⟨faithful_connected hd ih.1.exact, ih.2⟩

/-- **A file arrives as it is**, over any number of connections between a downloader and uploaders of it, in
    every interleaving, wherever they break and whatever the channels, the disks and the users do: what is
    at its destination is a beginning of the file, what was received is not lost, and the file is whole when
    it is reported as completed. -/
theorem transfer_exact (hd : NewSession d) (hdisk : copy.Exact (disk.entry copy.destinationPath))
    (hs : Sessions (connected fuel fuel' d u opened disk) s) (hs' : Sessions s s') :
    copy.Exact (s'.left.2.entry copy.destinationPath) ∧
      Extends (s.left.2.entry copy.destinationPath) (s'.left.2.entry copy.destinationPath) ∧
      ∀ m, s'.left.1.issued = some (.inr (.app (.completed m))) → m.pathLocalDisk = copy.destinationPath →
        s'.left.2.entry copy.destinationPath = some (.file copy.file.bytes) := by
  have hfirst := (faithful_sessions (faithful_connected hd hdisk) hs).1
  obtain ⟨hnow, hmore⟩ := faithful_sessions hfirst hs'
  refine ⟨hnow.exact, hmore, fun m hissued hm => ?_⟩
  obtain ⟨v, hv⟩ := hnow.balanced.left_view
  obtain ⟨t, k, hcall⟩ := Prog.issued_eq_some.mp hissued
  exact admitted_party wired_onWire hv hcall hm

/-! ## 8. A file of two bytes -/

deriving instance DecidableEq for DiskEntry

/-- What a disk without directories answers while everything goes well, with the listing in the cache. -/
def LocalDisk.answers (limit : Str → UInt64) (listing : SharedFile) (w : LocalDisk) :
    (c : DownloaderCmd) → Option (c.Ans × LocalDisk)
  | .pathExists path => some ((w.entry path).isSome, w)
  | .metadataLen path => (w.entry path).bind fun e =>
    if e.length < 2 ^ 64 then some (Except.ok (UInt64.ofNat e.length), w) else none
  | .createDirAll _ => some (Except.ok (), w)
  | .fileCreate path =>
    match w.entry path with
    | some (.dir _) => none
    | _ => some (Except.ok (), w.put path [])
  | .fileOpenEnd path =>
    match w.entry path with
    | some (.file _) => some (Except.ok (), w)
    | _ => none
  | .fileWrite path bytes =>
    match w.entry path with
    | some (.file old) =>
      if old.length + bytes.length ≤ (limit path).toNat then
        some (Except.ok (), w.wrote path old bytes)
      else none
    | _ => none
  | .app m => some ((), { w with reports := w.reports ++ [m] })
  | .refreshGet _ => some (some (some listing), w)
  | c => some (restAnswers (.inr c), w)

omit [Crates] in
theorem answers_step {listing : SharedFile} {w w' : LocalDisk} {c : DownloaderCmd} {a : c.Ans}
    (h : w.answers limit listing c = some (a, w')) : w.Step limit c a w' := by
  unfold LocalDisk.answers at h
  cases c with
  | pathExists path =>
    cases h
    exact ⟨rfl, rfl⟩
  | metadataLen path =>
    obtain ⟨e, he, h⟩ := Option.bind_eq_some_iff.mp h
    split at h
    · rename_i hlt
      cases h
      exact ⟨⟨e, he, UInt64.toNat_ofNat_of_lt' hlt⟩, rfl⟩
    · cases h
  | createDirAll path =>
    cases h
    exact ⟨rfl, rfl, fun p => .inl rfl⟩
  | fileCreate path =>
    dsimp only at h
    split at h
    · cases h
    · rename_i hfile
      cases h
      exact ⟨hfile, rfl⟩
  | fileOpenEnd path =>
    dsimp only at h
    split at h
    · rename_i bytes hfile
      cases h
      exact ⟨⟨bytes, hfile⟩, rfl⟩
    · cases h
  | fileWrite path bytes =>
    dsimp only at h
    split at h
    · rename_i old hfile
      split at h
      · rename_i hroom
        cases h
        exact ⟨old, hfile, hroom, rfl⟩
      · cases h
    · cases h
  | app m =>
    cases h
    rfl
  | _ =>
    cases h
    rfl

/-- The file, and where it is put. -/
def twoBytes : LocalCopy where
  path := twoBytesPath
  file := ⟨[1, 2], by decide⟩
  root := "/d/".toList
  destinationPath := "/d/a".toList
  outside := by decide

omit [Crates] in
theorem places_twoBytes : ∀ a ∈ nodes twoBytesListing, twoBytes.Places twoBytes.root a := by
  have hroot : ∀ name, getSanitizedDiskFileName twoBytesListing ≠ .ok name := by
    intro name h
    cases h
  intro a ha
  have hmem : a ∈ [twoBytesListing, ⟨twoBytesPath, false, [], 2, []⟩] := ha
  refine ⟨fun b hb => ?_, by decide, fun names g hb _ => ?_⟩
  · have hsub := nodes_trans hb ha
    have hmem : b ∈ [twoBytesListing, ⟨twoBytesPath, false, [], 2, []⟩] := hsub
    rcases List.mem_pair.mp hmem with rfl | rfl
    · decide
    · decide
  · rcases List.mem_pair.mp hmem with rfl | rfl
    · cases hb with
      | here _ name hname => exact absurd hname (hroot name)
      | inside _ b _ name names hname => exact absurd hname (hroot name)
    · cases hb with
      | here _ name hname => exact ⟨rfl, rfl, rfl⟩
      | inside _ b _ name names hname hdir => cases hdir

/-- The answers to an uploader of the file, where a read returns one byte. -/
def readingAnswers (w : Str × Nat) : (c : UploaderCmd openSuite) → Option (c.Ans × (Str × Nat))
  | .fileOpen choice => some (Except.ok (), (choice, 0))
  | .fileSeek position => some (Except.ok (), (w.1, position.toNat))
  | .fileRead =>
    let piece := (twoBytes.file.bytes.drop w.2).take 1
    some (Except.ok ⟨piece, (List.length_take_le _ _).trans (by decide)⟩, (w.1, w.2 + piece.length))
  | c => (SingleUploader.bobsAnswers twoBytesFs c).map fun a => (a, w)

omit [Crates] in
/-- A read of one byte. -/
theorem reads_one (file : FileContent) (position : Nat) :
    file.Reads position ((file.bytes.drop position).take 1) := by
  refine ⟨List.take_prefix _ _, fun h => ?_⟩
  have hlen := congrArg List.length h
  simp only [List.length_take, List.length_drop, List.length_nil] at hlen
  omega

def playReader : Player fits (sharer openSuite twoBytes) :=
  playThread readingAnswers fun w _ c a w' h => by
    unfold readingAnswers at h
    cases c with
    | fileOpen choice =>
      cases h
      rfl
    | fileSeek position =>
      cases h
      rfl
    | fileRead =>
      cases h
      exact ⟨fun _ => reads_one _ _, rfl⟩
    | _ =>
      obtain ⟨b, -, heq⟩ := Option.map_eq_some_iff.mp h
      cases heq
      rfl

def playReceiver : Player fits (receiver twoBytes fun _ => 2) :=
  playThread (LocalDisk.answers (fun _ => 2) twoBytesListing) fun w _ c a w' h => by
    refine ⟨answers_step h, ?_⟩
    cases c with
    | createDirAll dir =>
      cases h
      exact fun p hne => absurd rfl hne
    | refreshGet nickname =>
      cases h
      exact places_twoBytes
    | _ => trivial

abbrev TwoBytesLink : Type := Link (receiver twoBytes fun _ => 2) (sharer openSuite twoBytes)

/-- A connection for the file. -/
def twoBytesConnection (disk : LocalDisk) : TwoBytesLink :=
  @connected openCrates openSuite twoBytes (fun _ => 2) 9 9 wantingThread sharingThread ([], 0) disk

/-- One byte has come, the second one is on the way, and the connection breaks. -/
def brokenConnection : TwoBytesLink :=
  (twoBytesConnection emptyDisk).play playReceiver playReader (inTurn 26 ++ [⟨.left, false⟩])

/-- The next connection, for the rest of the file. -/
def resumedConnection : TwoBytesLink :=
  (twoBytesConnection brokenConnection.left.2).play playReceiver playReader (inTurn 27)

/-- The download a thread is about to report as completed. -/
def completedNext (s : (receiver twoBytes fun _ => 2).State) : Option CompletedMessage :=
  match s.1 with
  | .call _ (.inr (.app (.completed m))) _ => some m
  | _ => none

omit [Crates] in
theorem issued_of_completedNext {s : (receiver twoBytes fun _ => 2).State} {m : CompletedMessage}
    (h : completedNext s = some m) : s.1.issued = some (.inr (.app (.completed m))) := by
  unfold completedNext at h
  split at h
  · rename_i t m' k hcall
    cases h
    rw [hcall]
    rfl
  · cases h

omit [Crates] in
/-- The first byte comes, the connection breaks, and the second byte comes over another one: the file is
    whole when it is reported. -/
theorem transfer_exact_resumed : ∃ (s s' : TwoBytesLink) (m : CompletedMessage),
    s.left.1.issued = none ∧ s.left.2.entry twoBytes.destinationPath = some (.file [1]) ∧
      s'.left.1.issued = some (.inr (.app (.completed m))) ∧ m.pathLocalDisk = twoBytes.destinationPath ∧
      twoBytes.Exact (s'.left.2.entry twoBytes.destinationPath) ∧
      Extends (s.left.2.entry twoBytes.destinationPath) (s'.left.2.entry twoBytes.destinationPath) ∧
      s'.left.2.entry twoBytes.destinationPath = some (.file [1, 2]) := by
  have hready : NewSession wantingThread := ⟨rfl, rfl⟩
  have hdisk : twoBytes.Exact (emptyDisk.entry twoBytes.destinationPath) := by
    intro x hx
    cases hx
  have hbroken : @Sessions openCrates openSuite twoBytes (fun _ => 2) (twoBytesConnection emptyDisk)
      brokenConnection :=
    @Sessions.run openCrates _ _ _ _ _ _ (@Sessions.start openCrates _ _ _ _) (Link.run_play .start _)
  have hagain : @Sessions openCrates openSuite twoBytes (fun _ => 2) brokenConnection
      (twoBytesConnection brokenConnection.left.2) :=
    @Sessions.again openCrates _ _ _ _ _ 9 9 wantingThread sharingThread ([], 0)
      (@Sessions.start openCrates _ _ _ _) hready
  have hresumed : @Sessions openCrates openSuite twoBytes (fun _ => 2) brokenConnection resumedConnection :=
    @Sessions.run openCrates _ _ _ _ _ _ hagain (Link.run_play .start _)
  have hbyte : brokenConnection.left.1.issued.isNone = true ∧
      brokenConnection.left.2.entry twoBytes.destinationPath = some (.file [1]) := by
    decide +kernel
  have hreport : (completedNext resumedConnection.left).map CompletedMessage.pathLocalDisk =
      some twoBytes.destinationPath := by
    decide +kernel
  obtain ⟨m, hm, hpath⟩ := Option.map_eq_some_iff.mp hreport
  have hissued := issued_of_completedNext hm
  obtain ⟨hexact, hmore, hwhole⟩ := @transfer_exact openCrates _ _ _ _ _ _ _ _ _ _ _ hready hdisk hbroken
    hresumed
  exact ⟨brokenConnection, resumedConnection, m, Option.isNone_iff_eq_none.mp hbyte.1, hbyte.2, hissued, hpath,
    hexact, hmore, hwhole m hissued hpath⟩

end Runs

end Transmitic
