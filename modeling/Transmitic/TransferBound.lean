/-
  File:      Transmitic/TransferBound.lean
  Subject:   HOW FAR A PEER CAN MAKE A LOCAL FILE GROW.

  The loop over the chunks of a file ends where the last frame and the length of the local file agree
  that the file is finished, or disagree. The length is compared for equality, so a chunk that jumps
  over the expected length is neither.

  * `FileFrames` -- what a peer sends for a file; `FileFrames.script`: as a protocol;
  * `StopsInTime` -- the loop reads no frame once the local file has the expected length or more;
  * `transferLoop_stops_iff` -- **it does so exactly when no chunk jumps over the expected length**;
  * `chunk_jumps` -- one that does.
-/
import Transmitic.CompletedFiles
import Transmitic.Messages

namespace Transmitic

open Lib

/-! ## 1. What a peer sends -/

/-- The chunks a peer sends for a file, as long as they are read. -/
structure FileFrames where
  frame : Nat → UInt16 × List UInt8
  kind : ∀ i, (frame i).1 = msgFileChunk ∨ (frame i).1 = msgFileFinished
  small : ∀ i, (frame i).2.length ≤ maxDataSize

namespace FileFrames

variable (F : FileFrames)

/-- The length of the local file before the frame `i`, where it was `start` before the first one. -/
def lengthAt (start : Nat) : Nat → Nat
  | 0 => start
  | i + 1 => lengthAt start i + (F.frame i).2.length

/-- The nonce after the frame `i`, where it was `nonce` after the first one. -/
def nonceAfter (nonce : Nat) : Nat → Nat
  | 0 => nonce
  | i + 1 => nonceAfter nonce i + frameCount (F.frame (i + 1)).2

/-- The frames as a protocol. The downloader has a frame to read as long as the local file is shorter
    than `expected`; the state is the number of frames read. -/
def script (start expected : Nat) : MessageProtocol Nat where
  turn i := if F.lengthAt start i < expected then .right else .left
  opens i msg size := decide ((F.frame i).1 = msg ∧ (F.frame i).2.length = size)
  deliver i msg payload := if F.frame i = (msg, payload) then some (i + 1) else none
  delivers i msg size h := by
    obtain ⟨rfl, rfl⟩ := of_decide_eq_true h
    exact ⟨(F.frame i).2, i + 1, rfl, if_pos rfl⟩
  small i msg size h := by
    obtain ⟨rfl, rfl⟩ := of_decide_eq_true h
    exact F.small i

variable {F} {start expected nonce i : Nat}

theorem opens_next : ∃ msg size, (F.script start expected).opens i msg size = true :=
  ⟨_, _, decide_eq_true ⟨rfl, rfl⟩⟩

/-- The next message is the next frame. -/
theorem deliver_eq {msg : UInt16} {payload : List UInt8} {j : Nat}
    (h : (F.script start expected).deliver i msg payload = some j) :
    F.frame i = (msg, payload) ∧ j = i + 1 := by
  have h : (if F.frame i = (msg, payload) then some (i + 1) else none) = some j := h
  split at h
  · exact ⟨‹_›, (Option.some.inj h).symm⟩
  · cases h

theorem turn_right (h : F.lengthAt start i < expected) :
    (F.script start expected).turn i = Side.left.other := if_pos h

theorem lt_of_turn (h : (F.script start expected).turn i = Side.left.other) :
    F.lengthAt start i < expected := by
  by_contra hnot
  have hleft : (F.script start expected).turn i = .left := if_neg hnot
  rw [hleft] at h
  cases h

theorem nonceAfter_le (j : Nat) (h : i ≤ j) : F.nonceAfter nonce i ≤ F.nonceAfter nonce j := by
  induction h with
  | refl => exact le_rfl
  | step _ ih => exact Nat.le_trans ih (Nat.le_add_right _ _)

theorem lengthAt_le (j : Nat) (h : i ≤ j) : F.lengthAt start i ≤ F.lengthAt start j := by
  induction h with
  | refl => exact le_rfl
  | step _ ih => exact Nat.le_trans ih (Nat.le_add_right _ _)

/-- The frame `k` is read, written, and is the first one to bring the local file to the expected
    length or beyond: all frames before it are chunks, their nonces and its own are there, and the
    file may get that long. -/
structure Reaches (F : FileFrames) (start expected nonce longest k : Nat) : Prop where
  chunks : ∀ i < k, (F.frame i).1 = msgFileChunk
  before : F.lengthAt start k < expected
  reached : expected ≤ F.lengthAt start (k + 1)
  numbers : F.nonceAfter nonce k ≤ nonceMax
  room : F.lengthAt start (k + 1) ≤ longest

end FileFrames

/-! ## 2. The loop and its peer -/

/-- What a local disk answers; messages and everything else may be any. -/
def diskAnswers (limit : Str → UInt64) :
    Env (Thread SingleDownloader) DownloaderCmd DownloaderCmd.Ans LocalDisk where
  ok _ _ _ := True
  step w _ c a w' := w.Step limit c a w'

/-- A downloader on its local disk, and the frames of a peer; the connection may be lost. -/
abbrev fromPeer [Crates] (F : FileFrames) (start expected : Nat) (limit : Str → UInt64) :
    DlEnv (LocalDisk × Option (View Nat)) :=
  onWire (F.script start expected) .left True (diskAnswers limit)

/-- **In no run** of the loop a frame is read after the frames so far have brought the local file to
    the expected length or beyond; and when it ends, the file is not a payload longer than that. -/
def StopsInTime [Crates] (F : FileFrames) (limit : Str → UInt64) (tr : Transfer)
    (t : Thread SingleDownloader) (w : LocalDisk) : Prop :=
  let start := w.size tr.destinationPath
  let expected := tr.expectedSize.toNat
  ∀ fuel p w' v, Reach (fromPeer F start expected limit)
      (transferLoop tr fuel (F.frame 0).1 (UInt64.ofNat start) t,
        (w, some ⟨1, t.encryptedStream.nonce, none⟩)) (p, (w', v)) →
    (∀ nonce size, p.issued = some (.inl (.unseal nonce size)) →
      ∀ u, v = some u → F.lengthAt start u.state < expected) ∧
    (p.issued = none → w'.size tr.destinationPath < expected + maxDataSize)

section Loop

variable [Crates] {F : FileFrames} {limit : Str → UInt64} {tr : Transfer} {start : Nat}
  {t : Thread SingleDownloader} {w : LocalDisk}

/-- What leaves the stream and the local files alone. -/
theorem wp_besides {α : Type} {m : Dl α} {expected : Nat} (h : Aside quiet m)
    (t : Thread SingleDownloader) (w : LocalDisk) (v : Option (View Nat)) :
    wp (fromPeer F start expected limit) m
      (fun _ t' w' => t'.encryptedStream = t.encryptedStream ∧
        w'.1.entry = w.entry ∧ w'.2 = v)
      (fun _ _ w' => w'.1.entry = w.entry) t (w, v) := by
  have hwp := wp_of_keeps (E := fromPeer F start expected limit)
    (I := fun w' => w'.1.entry = w.entry ∧ w'.2 = v) (s := t) (w := (w, v)) h
    (fun w₁ t₁ c _ hc => ?_) (fun w₁ t₁ c a w₂ hi hc hs => ?_) ⟨rfl, rfl⟩
  · exact wp_conseq hwp (fun _ t' w' h => ⟨h.1, h.2⟩) fun _ _ w' h => h.2.1
  · cases c with
    | inl c => exact hc.elim
    | inr c => exact trivial
  · cases c with
    | inl c => exact hc.elim
    | inr c =>
      obtain ⟨hdisk, hv⟩ := hs
      refine ⟨?_, hv.trans hi.2⟩
      rw [quiet_step hc hdisk]
      exact hi.1

/-- The loop at the frame `i`: the frame is in the buffer, the local file is as long as the frames
    before have made it, and the counters agree. -/
structure AtFrame (F : FileFrames) (tr : Transfer) (start nonce i : Nat)
    (currentDownloadedBytes : UInt64) (t : Thread SingleDownloader) (w : LocalDisk) : Prop where
  holds : t.encryptedStream.Holds (F.frame i).1 (F.frame i).2
  nonce_eq : t.encryptedStream.nonce = F.nonceAfter nonce i
  numbers : F.nonceAfter nonce i ≤ nonceMax
  chunks : ∀ j < i, (F.frame j).1 = msgFileChunk
  before : F.lengthAt start i < tr.expectedSize.toNat
  entry : ∃ bytes, w.entry tr.destinationPath = some (.file bytes) ∧
    bytes.length = F.lengthAt start i
  current : currentDownloadedBytes.toNat = F.lengthAt start i

omit [Crates] in
theorem size_of_file {w : LocalDisk} {path : Str} {bytes : List UInt8}
    (h : w.entry path = some (.file bytes)) : w.size path = bytes.length := by
  rw [LocalDisk.size, h]

/-- The counter follows the local file. -/
theorem AtFrame.counted {nonce i : Nat} {cur : UInt64} (h : AtFrame F tr start nonce i cur t w)
    (hlt : F.lengthAt start (i + 1) < 2 ^ 64) :
    (cur + UInt64.ofNat (F.frame i).2.length).toNat = F.lengthAt start (i + 1) := by
  have hsum : F.lengthAt start (i + 1) = F.lengthAt start i + (F.frame i).2.length := rfl
  rw [toNat_add_ofNat, h.current]
  · rfl
  · rw [h.current]
    omega

/-- The next step of the loop. -/
theorem AtFrame.next {nonce i : Nat} {cur : UInt64} {t t' : Thread SingleDownloader}
    {w w' : LocalDisk} (h : AtFrame F tr start nonce i cur t w)
    (hchunk : (F.frame i).1 = msgFileChunk) (hlt : F.lengthAt start (i + 1) < tr.expectedSize.toNat)
    (hholds : t'.encryptedStream.Holds (F.frame (i + 1)).1 (F.frame (i + 1)).2)
    (hnonce : t'.encryptedStream.nonce = F.nonceAfter nonce (i + 1))
    (hmax : F.nonceAfter nonce (i + 1) ≤ nonceMax) {bytes : List UInt8}
    (hentry : w'.entry tr.destinationPath = some (.file bytes))
    (hlen : bytes.length = F.lengthAt start (i + 1)) :
    AtFrame F tr start nonce (i + 1) (cur + UInt64.ofNat (F.frame i).2.length) t' w' where
  holds := hholds
  nonce_eq := hnonce
  numbers := hmax
  chunks j hj := by
    rcases Nat.lt_succ_iff_lt_or_eq.mp hj with hj | rfl
    · exact h.chunks j hj
    · exact hchunk
  before := hlt
  entry := ⟨bytes, hentry, hlen⟩
  current := h.counted (Nat.lt_trans hlt tr.expectedSize.toNat_lt)

/-- The bound on the local file. -/
def Bounded (tr : Transfer) (w : LocalDisk) : Prop :=
  w.size tr.destinationPath < tr.expectedSize.toNat + maxDataSize

omit [Crates] in
theorem Bounded.of_entry {w w' : LocalDisk} (h : Bounded tr w) (he : w'.entry = w.entry) :
    Bounded tr w' := by
  unfold Bounded
  rw [size_of_entry (congrFun he tr.destinationPath)]
  exact h

theorem bounded_appends {nonce i : Nat} {cur : UInt64} {part : List UInt8} {w w' : LocalDisk}
    (h : AtFrame F tr start nonce i cur t w) (hpart : part.length ≤ maxDataSize)
    (happ : w.Appends limit tr.destinationPath part w') : Bounded tr w' := by
  obtain ⟨bytes, hentry, hlen⟩ := h.entry
  obtain ⟨old, hold, -, rfl⟩ := happ
  rw [hentry] at hold
  cases hold
  have he : (w.wrote tr.destinationPath bytes part).entry tr.destinationPath =
      some (.file (bytes ++ part)) := entry_put_self _ _ _
  have hsize := size_of_file he
  rw [List.length_append] at hsize
  have hbefore := h.before
  unfold Bounded
  omega

/-- The frame is written to the local file, or a part of it at most. -/
theorem wp_writeChunk {nonce i : Nat} {cur : UInt64} {v : Option (View Nat)}
    {Q : Thread SingleDownloader → LocalDisk × Option (View Nat) → Prop}
    {R : Exc → Thread SingleDownloader → LocalDisk × Option (View Nat) → Prop}
    {t₁ : Thread SingleDownloader} (h : AtFrame F tr start nonce i cur t w)
    (hQ : ∀ w₂ bytes, w₂.entry tr.destinationPath = some (.file bytes) →
      bytes.length = F.lengthAt start (i + 1) → bytes.length ≤ (limit tr.destinationPath).toNat →
      Q t₁ (w₂, v))
    (hR : ∀ e w₂, Bounded tr w₂ → R e t₁ (w₂, v)) :
    wp (fromPeer F start tr.expectedSize.toNat limit)
      (command (.fileWrite tr.destinationPath (F.frame i).2) >>= fun a => tryIo a) (fun _ => Q) R t₁
      (w, v) := by
  obtain ⟨bytes, hentry, hlen⟩ := h.entry
  have hbound : Bounded tr w := by
    have hbefore := h.before
    rw [Bounded, size_of_file hentry, hlen]
    omega
  refine (wp_bind _ _).mpr ⟨trivial, fun a w₂ hs => ?_⟩
  obtain ⟨w₂, v₂⟩ := w₂
  obtain ⟨hdisk, hv⟩ := hs
  rw [show v₂ = v from hv]
  cases a with
  | error e =>
    rcases hdisk with hsame | ⟨part, hpart, happ⟩
    · refine hR _ w₂ ?_
      rw [show w₂ = w from hsame]
      exact hbound
    · exact hR _ w₂ (bounded_appends h (Nat.le_trans hpart.length_le (F.small i)) happ)
  | ok u =>
    obtain ⟨old, hold, hroom, hw₂⟩ := hdisk
    obtain rfl : old = bytes := by
      cases hold.symm.trans hentry
      rfl
    have hentry₂ : w₂.entry tr.destinationPath = some (.file (old ++ (F.frame i).2)) := by
      rw [show w₂ = w.wrote tr.destinationPath old (F.frame i).2 from hw₂]
      exact entry_put_self _ _ _
    refine hQ w₂ _ hentry₂ ?_ ?_
    · rw [List.length_append, hlen]
      rfl
    · rw [List.length_append]
      exact hroom

/-- The peer never makes a chunk jump over the expected length. -/
def NoJump (F : FileFrames) (tr : Transfer) (start nonce longest : Nat) : Prop :=
  ∀ k, F.Reaches start tr.expectedSize.toNat nonce longest k →
    F.lengthAt start (k + 1) = tr.expectedSize.toNat ∨ (F.frame k).1 = msgFileFinished

omit [Crates] in
theorem not_unexpected {msg : UInt16} (h : msg = msgFileChunk ∨ msg = msgFileFinished) :
    ¬ isUnexpected msg := fun hun => h.elim hun.1 hun.2

/-- **No frame is read too many**, where no chunk jumps. -/
theorem wp_transferLoop_stops {nonce : Nat}
    (hno : NoJump F tr start nonce (limit tr.destinationPath).toNat) :
    ∀ (fuel i : Nat) (cur : UInt64) (t : Thread SingleDownloader) (w : LocalDisk),
      AtFrame F tr start nonce i cur t w →
      wp (fromPeer F start tr.expectedSize.toNat limit) (transferLoop tr fuel (F.frame i).1 cur)
        (fun _ _ w' => Bounded tr w'.1) (fun _ _ w' => Bounded tr w'.1) t
        (w, some ⟨i + 1, F.nonceAfter nonce i, none⟩)
  | 0, i, cur, t, w, h => by
    obtain ⟨bytes, hentry, hlen⟩ := h.entry
    have hbefore := h.before
    show Bounded tr w
    rw [Bounded, size_of_file hentry, hlen]
    omega
  | fuel + 1, i, cur, t, w, h => by
    refine (wp_bind _ _).mpr ?_
    show wp _ (orThrow t.encryptedStream.getPayload) _ _ t _
    rw [h.holds.payload]
    refine (wp_bind _ _).mpr ((wp_modifySelf _).mpr ?_)
    generalize ht₁ : Thread.mk _ _ = t₁
    have hstream₁ : t₁.encryptedStream = t.encryptedStream := by rw [← ht₁]
    refine wp_bind_assoc.mp ((wp_bind _ _).mpr (wp_writeChunk h
      (fun w₂ bytes hentry₂ hlen hroom => ?_) fun e w₂ hbound₂ => hbound₂))
    have hbound₂ : Bounded tr w₂ := by
      have hsmall := F.small i
      have hbefore := h.before
      have hsum : F.lengthAt start (i + 1) = F.lengthAt start i + (F.frame i).2.length := rfl
      rw [Bounded, size_of_file hentry₂, hlen]
      omega
    refine (wp_bind _ _).mpr (wp_conseq (wp_besides local_updateProgress.quietly t₁ w₂ _)
      (fun _ t₃ w₃ h₃ => ?_) fun _ _ w₃ h₃ => hbound₂.of_entry h₃)
    obtain ⟨w₃, v₃⟩ := w₃
    obtain ⟨hstream₃, hdisk₃, rfl⟩ := h₃
    have hbound₃ : Bounded tr w₃ := hbound₂.of_entry hdisk₃
    have hentry₃ : w₃.entry tr.destinationPath = some (.file bytes) := by
      rw [show w₃.entry = w₂.entry from hdisk₃, hentry₂]
    refine (wp_ite _ _ _).mpr ?_
    split
    · exact wp_conseq (wp_besides (aside_finishTransfer tr).quietly t₃ w₃ _)
        (fun _ _ w' h' => hbound₃.of_entry h'.2.1) fun _ _ w' h' => hbound₃.of_entry h'
    rename_i hboth
    refine (wp_ite _ _ _).mpr ?_
    split
    · exact wp_conseq (wp_besides (aside_failTransfer tr _ _).quietly t₃ w₃ _)
        (fun _ _ w' h' => hbound₃.of_entry h'.2.1) fun _ _ w' h' => hbound₃.of_entry h'
    rename_i hxor
    -- neither side is finished, so the file is still too short: there was no jump
    have hcurrent : (cur + UInt64.ofNat (F.frame i).2.length).toNat = F.lengthAt start (i + 1) :=
      h.counted (Nat.lt_of_le_of_lt (hlen ▸ hroom) (UInt64.toNat_lt _))
    have hremote : (F.frame i).1 ≠ msgFileFinished := by
      intro hr
      simp [hr] at hboth hxor
      exact hboth hxor
    have hlocal : F.lengthAt start (i + 1) ≠ tr.expectedSize.toNat := by
      intro hl
      have heq : cur + UInt64.ofNat (F.frame i).2.length = tr.expectedSize := by
        rw [← UInt64.toNat_inj, hcurrent, hl]
      simp [heq, hremote] at hxor
    have hlt : F.lengthAt start (i + 1) < tr.expectedSize.toNat := by
      by_contra hnot
      have hreach : F.Reaches start tr.expectedSize.toNat nonce (limit tr.destinationPath).toNat i :=
        ⟨h.chunks, h.before, by omega, h.numbers, hlen ▸ hroom⟩
      rcases hno i hreach with heq | hfin
      · exact hlocal heq
      · exact hremote hfin
    have hchunk : (F.frame i).1 = msgFileChunk := (F.kind i).resolve_right hremote
    have hnonce₃ : t₃.encryptedStream.nonce = F.nonceAfter nonce i := by
      rw [hstream₃, hstream₁, h.nonce_eq]
    refine (wp_bind _ _).mpr (wp_read hnonce₃ h.numbers (FileFrames.turn_right hlt) FileFrames.opens_next
      (fun msg payload s' n buffer _ hdeliver hn hmax hholds => ?_) fun _ _ _ _ _ => hbound₃)
    obtain ⟨hframe, rfl⟩ := FileFrames.deliver_eq hdeliver
    have hmsg : msg = (F.frame (i + 1)).1 := by rw [hframe]
    have hpayload : payload = (F.frame (i + 1)).2 := by rw [hframe]
    have hn : n = F.nonceAfter nonce (i + 1) := by rw [hn, hpayload]; rfl
    rw [hmsg, hpayload] at hholds
    generalize ht₄ : Thread.mk _ _ = t₄
    have hholds₄ : t₄.encryptedStream.Holds (F.frame (i + 1)).1 (F.frame (i + 1)).2 := by
      rw [← ht₄]
      exact hholds
    have hnonce₄ : t₄.encryptedStream.nonce = F.nonceAfter nonce (i + 1) := by rw [← ht₄, ← hn]
    show wp _ (throwIf (isUnexpected t₄.encryptedStream.getMessage) _ >>= _) _ _ t₄ _
    rw [hholds₄.message]
    refine (wp_bind _ _).mpr ((wp_throwIf _ _).mpr ?_)
    rw [if_neg (not_unexpected (F.kind (i + 1)))]
    refine (wp_bind _ _).mpr (wp_conseq (wp_besides (aside_readReceiver fuel).quietly t₄ w₃ _)
      (fun _ t₅ w₅ h₅ => ?_) fun _ _ w₅ h₅ => hbound₃.of_entry h₅)
    obtain ⟨w₅, v₅⟩ := w₅
    obtain ⟨hstream₅, hdisk₅, rfl⟩ := h₅
    have hentry₅ : w₅.entry tr.destinationPath = some (.file bytes) := by
      rw [show w₅.entry = w₃.entry from hdisk₅, hentry₃]
    show wp _ (if t₅.self.stopDownloading = true then pure () else _) _ _ t₅ _
    refine (wp_ite _ _ _).mpr ?_
    split
    · exact hbound₃.of_entry hdisk₅
    · rw [hn]
      exact wp_transferLoop_stops hno fuel (i + 1) _ t₅ w₅
        (h.next hchunk hlt (hstream₅ ▸ hholds₄) (hstream₅ ▸ hnonce₄) (hn ▸ hmax) hentry₅ hlen)

end Loop

/-! ## 4. A disk that takes what it has room for -/

/-- A disk that takes what it has room for, while nothing else happens. -/
def obliging (limit : Str → UInt64) :
    Env (Thread SingleDownloader) DownloaderCmd DownloaderCmd.Ans LocalDisk where
  ok _ _ _ := True
  step w _ c a w' := (a, w') = runDisk limit (fun c => restAnswers (.inl c)) (.inr c) w

/-- The connection is not lost, and the disk is obliging. -/
abbrev onObliging [Crates] {σ : Type} (Γ : MessageProtocol σ) (limit : Str → UInt64) :
    DlEnv (LocalDisk × Option (View σ)) := onWire Γ .left False (obliging limit)

section Obliging

variable [Crates] {σ : Type} {Γ : MessageProtocol σ} {limit : Str → UInt64}
  {t : Thread SingleDownloader} {w : LocalDisk} {v : Option (View σ)}

/-- One command of the downloader's own. -/
theorem wp_obliging {c : DownloaderCmd}
    {Q : c.Ans → Thread SingleDownloader → LocalDisk × Option (View σ) → Prop}
    {R : Exc → Thread SingleDownloader → LocalDisk × Option (View σ) → Prop}
    (h : Q (runDisk limit (fun c => restAnswers (.inl c)) (.inr c) w).1 t
      ((runDisk limit (fun c => restAnswers (.inl c)) (.inr c) w).2, v)) :
    wp (onObliging Γ limit) (command c) Q R t (w, v) := by
  refine ⟨trivial, fun a w' hs => ?_⟩
  obtain ⟨w', v'⟩ := w'
  obtain ⟨hdisk, hv⟩ := hs
  rw [← show (a, w') = _ from hdisk, ← show v' = v from hv] at h
  exact h

/-- With the answer it gets. -/
theorem wp_obliging_of {c : DownloaderCmd} {a : c.Ans} {w' : LocalDisk}
    {Q : c.Ans → Thread SingleDownloader → LocalDisk × Option (View σ) → Prop}
    {R : Exc → Thread SingleDownloader → LocalDisk × Option (View σ) → Prop}
    (hrun : runDisk limit (fun c => restAnswers (.inl c)) (.inr c) w = (a, w')) (h : Q a t (w', v)) :
    wp (onObliging Γ limit) (command c) Q R t (w, v) := by
  refine wp_obliging ?_
  rw [hrun]
  exact h

/-- The thread is not told anything. -/
theorem wp_readReceiver_nothing {fuel : Nat} :
    wp (onObliging Γ limit) (readReceiver (fuel + 1)) (fun _ t' w' => t' = t ∧ w' = (w, v))
      (fun _ _ _ => False) t (w, v) := by
  refine (wp_bind _ _).mpr ((wp_bind _ _).mpr (wp_obliging ?_))
  refine (wp_bind _ _).mpr (wp_obliging ?_)
  exact ⟨rfl, rfl⟩

theorem wp_updateProgress_nothing :
    wp (onObliging Γ limit) updateProgress (fun _ t' w' => t' = t ∧ w' = (w, v))
      (fun _ _ _ => False) t (w, v) := by
  refine (wp_bind _ _).mpr (wp_obliging ?_)
  exact ⟨rfl, rfl⟩

/-- There always is an answer. -/
theorem onObliging_total (w : LocalDisk × Option (View σ)) (t : Thread SingleDownloader)
    (c : Wire ⊕ DownloaderCmd) (h : (onObliging Γ limit).ok w t c) :
    ∃ a w', (onObliging Γ limit).step w t c a w' :=
  onWire_total (fun _ _ _ _ => ⟨_, _, rfl⟩) w t c h

/-- It is one of the answers of a local disk and its peer. -/
theorem onObliging_step (w : LocalDisk × Option (View σ)) (t : Thread SingleDownloader) :
    ∀ c a w', (onObliging Γ limit).step w t c a w' →
      (onWire Γ .left True (diskAnswers limit)).step w t c a w' ∧
        (anyDisk limit).step w.1 t c a w'.1
  | .inl (.seal _ _), a, w', ⟨hw, hs⟩ => by
    cases a with
    | done => exact ⟨⟨hw, hs⟩, hw⟩
    | io e => exact hs.1.elim
    | rejected e => exact hs.1.elim
  | .inl (.unseal _ _), a, w', ⟨hw, hs⟩ => by
    cases a with
    | plain bytes => exact ⟨⟨hw, hs⟩, hw⟩
    | io e => exact hs.1.elim
    | rejected e => exact hs.1.elim
  | .inr c, a, w', ⟨hdisk, hv⟩ => by
    have hstep : (anyDisk limit).step w.1 t (.inr c)
        (runDisk limit (fun c => restAnswers (.inl c)) (.inr c) w.1).1
        (runDisk limit (fun c => restAnswers (.inl c)) (.inr c) w.1).2 := runDisk_step _ w.1 t (.inr c)
    rw [← show (a, w'.1) = _ from hdisk] at hstep
    exact ⟨⟨hstep, hv⟩, hstep⟩

end Obliging

/-! ## 5. A chunk that jumps -/

/-- A frame is read though the local file has the expected length already. -/
def ReadsTooMany (F : FileFrames) (start expected : Nat) (w : LocalDisk × Option (View Nat))
    (_ : Thread SingleDownloader) (c : Wire ⊕ DownloaderCmd) : Prop :=
  ∃ n size u, c = .inl (.unseal n size) ∧ w.2 = some u ∧ expected ≤ F.lengthAt start u.state

/-- The connection is not lost, and the disk is obliging. -/
abbrev fromStubborn [Crates] (F : FileFrames) (start expected : Nat) (limit : Str → UInt64) :
    DlEnv (LocalDisk × Option (View Nat)) := onObliging (F.script start expected) limit

section Jump

variable [Crates] {F : FileFrames} {limit : Str → UInt64} {tr : Transfer} {start : Nat}
  {t : Thread SingleDownloader} {w : LocalDisk}

/-- The frame that fits is written. -/
theorem wp_writeChunk_fits {nonce i : Nat} {cur : UInt64} {v : Option (View Nat)}
    {t₁ : Thread SingleDownloader} (h : AtFrame F tr start nonce i cur t w)
    (hroom : F.lengthAt start (i + 1) ≤ (limit tr.destinationPath).toNat) :
    wp (fromStubborn F start tr.expectedSize.toNat limit)
      (command (.fileWrite tr.destinationPath (F.frame i).2) >>= fun a => tryIo a)
      (fun _ t' w' => t' = t₁ ∧ w'.2 = v ∧ ∃ bytes,
        w'.1.entry tr.destinationPath = some (.file bytes) ∧
        bytes.length = F.lengthAt start (i + 1)) (fun _ _ _ => False) t₁ (w, v) := by
  obtain ⟨bytes, hentry, hlen⟩ := h.entry
  have hsum : F.lengthAt start (i + 1) = bytes.length + (F.frame i).2.length := by
    rw [hlen]
    rfl
  have hrun : runDisk limit (fun c => restAnswers (.inl c))
      (.inr (.fileWrite tr.destinationPath (F.frame i).2)) w =
      (.ok (), w.wrote tr.destinationPath bytes (F.frame i).2) := by
    simp only [runDisk, hentry]
    exact if_pos (hsum ▸ hroom)
  refine (wp_bind _ _).mpr (wp_obliging_of hrun ?_)
  refine ⟨rfl, rfl, bytes ++ (F.frame i).2, entry_put_self _ _ _, ?_⟩
  rw [hsum, List.length_append]

/-- **A frame is read too many** where the chunk `k` jumps over the expected length. -/
theorem wp_transferLoop_jumps {nonce k : Nat}
    (hk : F.Reaches start tr.expectedSize.toNat nonce (limit tr.destinationPath).toNat k)
    (hjump : F.lengthAt start (k + 1) ≠ tr.expectedSize.toNat)
    (hchunk : (F.frame k).1 = msgFileChunk) :
    ∀ (fuel i : Nat) (cur : UInt64) (t : Thread SingleDownloader) (w : LocalDisk),
      i ≤ k → k - i < fuel → AtFrame F tr start nonce i cur t w → t.self.stopDownloading = false →
      wp ((fromStubborn F start tr.expectedSize.toNat limit).until
          (ReadsTooMany F start tr.expectedSize.toNat))
        (transferLoop tr fuel (F.frame i).1 cur) (fun _ _ _ => False) (fun _ _ _ => False) t
        (w, some ⟨i + 1, F.nonceAfter nonce i, none⟩)
  | 0, _, _, _, _, _, hfuel, _, _ => absurd hfuel (Nat.not_lt_zero _)
  | fuel + 1, i, cur, t, w, hi, hfuel, h, hstop => by
    have hmsg : (F.frame i).1 = msgFileChunk := by
      rcases Nat.lt_or_eq_of_le hi with hlt | rfl
      · exact hk.chunks i hlt
      · exact hchunk
    have hroom : F.lengthAt start (i + 1) ≤ (limit tr.destinationPath).toNat :=
      Nat.le_trans (FileFrames.lengthAt_le _ (Nat.succ_le_succ hi)) hk.room
    have hlocal : F.lengthAt start (i + 1) ≠ tr.expectedSize.toNat := by
      rcases Nat.lt_or_eq_of_le hi with hlt | rfl
      · exact Nat.ne_of_lt (Nat.lt_of_le_of_lt (FileFrames.lengthAt_le k hlt) hk.before)
      · exact hjump
    refine (wp_bind _ _).mpr ?_
    show wp _ (orThrow t.encryptedStream.getPayload) _ _ t _
    rw [h.holds.payload]
    refine (wp_bind _ _).mpr ((wp_modifySelf _).mpr ?_)
    generalize ht₁ : Thread.mk _ _ = t₁
    have hstream₁ : t₁.encryptedStream = t.encryptedStream := by rw [← ht₁]
    have hstop₁ : t₁.self.stopDownloading = false := by
      rw [← ht₁]
      exact hstop
    refine wp_bind_assoc.mp (wp_seq (wp_until (wp_writeChunk_fits h hroom))
      (fun _ t₂ w₂ h₂ => ?_) fun _ _ _ hf => hf)
    obtain ⟨w₂, v₂⟩ := w₂
    obtain ⟨rfl, rfl, bytes, hentry₂, hlen⟩ := h₂
    refine wp_seq (wp_until wp_updateProgress_nothing) (fun _ t₃ w₃ h₃ => ?_) fun _ _ _ hf => hf
    obtain ⟨rfl, rfl⟩ := h₃
    have hcurrent : (cur + UInt64.ofNat (F.frame i).2.length).toNat = F.lengthAt start (i + 1) :=
      h.counted (Nat.lt_of_le_of_lt hroom (UInt64.toNat_lt _))
    have hne : ¬ cur + UInt64.ofNat (F.frame i).2.length = tr.expectedSize := fun heq =>
      hlocal (by rw [← hcurrent, heq])
    have hremote : ¬ (F.frame i).1 = msgFileFinished := by
      rw [hmsg]
      decide
    refine (wp_ite _ _ _).mpr ?_
    rw [if_neg (by simp [hne])]
    refine (wp_ite _ _ _).mpr ?_
    rw [if_neg (by simp [hne, hremote])]
    rcases Nat.lt_or_eq_of_le hi with hlt | rfl
    · have hlength : F.lengthAt start (i + 1) < tr.expectedSize.toNat :=
        Nat.lt_of_le_of_lt (FileFrames.lengthAt_le k hlt) hk.before
      refine (wp_bind _ _).mpr (wp_until (wp_read (hstream₁ ▸ h.nonce_eq) h.numbers
        (FileFrames.turn_right hlength) FileFrames.opens_next
        (fun msg payload s' n buffer _ hdeliver hn hmax hholds => ?_)
        fun _ _ _ _ hb => hb.elim id fun hex => ?_))
      rotate_left
      · -- the next frame is not the last of the connection
        obtain ⟨msg, payload, s', -, hdeliver, hgt⟩ := hex
        have hpayload : payload = (F.frame (i + 1)).2 := by
          rw [(FileFrames.deliver_eq hdeliver).1]
        have hle := Nat.le_trans (FileFrames.nonceAfter_le k hlt) hk.numbers
        rw [hpayload] at hgt
        exact absurd hle (Nat.not_le.mpr hgt)
      obtain ⟨hframe, rfl⟩ := FileFrames.deliver_eq hdeliver
      have hmsg' : msg = (F.frame (i + 1)).1 := by rw [hframe]
      have hpayload : payload = (F.frame (i + 1)).2 := by rw [hframe]
      have hn : n = F.nonceAfter nonce (i + 1) := by rw [hn, hpayload]; rfl
      rw [hmsg', hpayload] at hholds
      generalize ht₄ : Thread.mk _ _ = t₄
      have hholds₄ : t₄.encryptedStream.Holds (F.frame (i + 1)).1 (F.frame (i + 1)).2 := by
        rw [← ht₄]
        exact hholds
      have hnonce₄ : t₄.encryptedStream.nonce = F.nonceAfter nonce (i + 1) := by rw [← ht₄, ← hn]
      have hstop₄ : t₄.self.stopDownloading = false := by
        rw [← ht₄]
        exact hstop₁
      show wp _ (throwIf (isUnexpected t₄.encryptedStream.getMessage) _ >>= _) _ _ t₄ _
      rw [hholds₄.message]
      refine (wp_bind _ _).mpr ((wp_throwIf _ _).mpr ?_)
      rw [if_neg (not_unexpected (F.kind (i + 1)))]
      obtain ⟨fuel, rfl⟩ : ∃ n, fuel = n + 1 := Nat.exists_eq_add_one.mpr (by omega)
      refine wp_seq (wp_until wp_readReceiver_nothing) (fun _ t₅ w₅ h₅ => ?_) fun _ _ _ hf => hf
      obtain ⟨rfl, rfl⟩ := h₅
      show wp _ (if t₅.self.stopDownloading = true then pure () else _) _ _ t₅ _
      refine (wp_ite _ _ _).mpr ?_
      rw [hstop₄, hn]
      exact wp_transferLoop_jumps hk hjump hchunk (fuel + 1) (i + 1) _ t₅ w₂ hlt (by omega)
        (h.next hmsg hlength hholds₄ hnonce₄ (hn ▸ hmax) hentry₂ hlen) hstop₄
    · -- the read that is one too many
      refine (wp_bind _ _).mpr ((wp_bind _ _).mpr ((wp_bind _ _).mpr ((wp_throwIf _ _).mpr ?_)))
      rw [if_neg (by decide)]
      refine (wp_bind _ _).mpr ⟨.inr ⟨_, _, _, rfl, rfl, hk.reached⟩, fun a w' hs => ?_⟩
      obtain ⟨⟨u, hu, hturn, -⟩, -⟩ := hs
      obtain rfl := Option.some.inj hu
      exact absurd (FileFrames.lt_of_turn hturn) (Nat.not_lt.mpr hk.reached)

/-! ## 6. When the loop stops in time -/

/-- The loop starts at the first frame. -/
theorem atFrame_start {bytes : List UInt8}
    (hholds : t.encryptedStream.Holds (F.frame 0).1 (F.frame 0).2)
    (hnonce : t.encryptedStream.nonce ≤ nonceMax)
    (hentry : w.entry tr.destinationPath = some (.file bytes))
    (hstart : bytes.length < tr.expectedSize.toNat) :
    AtFrame F tr bytes.length t.encryptedStream.nonce 0 (UInt64.ofNat bytes.length) t w where
  holds := hholds
  nonce_eq := rfl
  numbers := hnonce
  chunks := by nofun
  before := hstart
  entry := ⟨bytes, hentry, rfl⟩
  current := by
    rw [UInt64.toNat_ofNat']
    exact Nat.mod_eq_of_lt (Nat.lt_trans hstart (UInt64.toNat_lt _))

/-- Where a chunk jumps, there is a run in which the loop reads on. -/
theorem not_stopsInTime {bytes : List UInt8} {k : Nat}
    (hholds : t.encryptedStream.Holds (F.frame 0).1 (F.frame 0).2)
    (hnonce : t.encryptedStream.nonce ≤ nonceMax)
    (hentry : w.entry tr.destinationPath = some (.file bytes))
    (hstart : bytes.length < tr.expectedSize.toNat) (hstop : t.self.stopDownloading = false)
    (hk : F.Reaches bytes.length tr.expectedSize.toNat t.encryptedStream.nonce
      (limit tr.destinationPath).toNat k)
    (hjump : F.lengthAt bytes.length (k + 1) ≠ tr.expectedSize.toNat)
    (hchunk : (F.frame k).1 = msgFileChunk) : ¬ StopsInTime F limit tr t w := by
  intro hstops
  unfold StopsInTime at hstops
  rw [size_of_file hentry] at hstops
  obtain ⟨s', c, rest, w', hr, n, size, u, rfl, hu, hle⟩ := reach_until onObliging_total
    (wp_transferLoop_jumps hk hjump hchunk (k + 1) 0 _ t w (Nat.zero_le k) (Nat.lt_succ_self k)
      (atFrame_start hholds hnonce hentry hstart) hstop)
  obtain ⟨w', v⟩ := w'
  have hstep : ∀ w t c a w', (fromStubborn F bytes.length tr.expectedSize.toNat limit).step w t c a w' →
      (fromPeer F bytes.length tr.expectedSize.toNat limit).step w t c a w' :=
    fun w t c a w' h => (onObliging_step w t c a w' h).1
  have hlt := (hstops (k + 1) _ w' v (hr.map hstep)).1 n size rfl u hu
  exact absurd hle (Nat.not_le.mpr hlt)

/-- **The loop over the chunks stops in time** -- it reads no frame once the local file has the
    expected length or more, and leaves a file that is less than a payload longer -- exactly when no
    chunk of the peer jumps over the expected length. -/
theorem transferLoop_stops_iff (F : FileFrames) (limit : Str → UInt64) (tr : Transfer)
    (t : Thread SingleDownloader) (w : LocalDisk) (start : List UInt8)
    (hholds : t.encryptedStream.Holds (F.frame 0).1 (F.frame 0).2)
    (hnonce : t.encryptedStream.nonce ≤ nonceMax)
    (hentry : w.entry tr.destinationPath = some (.file start))
    (hstart : start.length < tr.expectedSize.toNat) (hstop : t.self.stopDownloading = false) :
    StopsInTime F limit tr t w ↔
      NoJump F tr start.length t.encryptedStream.nonce (limit tr.destinationPath).toNat := by
  constructor
  · intro hstops k hk
    by_contra hnot
    obtain ⟨hjump, hremote⟩ := not_or.mp hnot
    have hchunk : (F.frame k).1 = msgFileChunk := (F.kind k).resolve_right hremote
    exact not_stopsInTime hholds hnonce hentry hstart hstop hk hjump hchunk hstops
  · intro hno fuel p w' v hr
    rw [size_of_file hentry] at hr ⊢
    have hwp := wp_transferLoop_stops hno fuel 0 _ t w (atFrame_start hholds hnonce hentry hstart)
    constructor
    · intro n size hp u hu
      cases p with
      | ret a s => cases hp
      | fail x s => cases hp
      | call s c k =>
        cases hp
        obtain ⟨u', hu', hturn, -⟩ := reach_ok hwp hr
        obtain rfl := Option.some.inj (hu.symm.trans hu')
        exact FileFrames.lt_of_turn hturn
    · intro hp
      rcases reach_end hwp hr hp with ⟨a, s', -, hend⟩ | ⟨x, s', -, hend⟩
      · exact hend
      · exact hend

end Jump

/-! ## 7. A peer that goes on and on -/

/-- A peer that sends chunks of two bytes for ever. -/
def twoByteChunks : FileFrames where
  frame _ := (msgFileChunk, [0, 0])
  kind _ := .inl rfl
  small _ := by
    show 2 ≤ maxDataSize
    decide

/-- With the checksum of two zero bytes. -/
@[reducible] def twoByteCrates : Crates := { idleCrates with crc32 := fun _ => 0x41D912FF }

/-- A file of one byte is expected. -/
def oneByteTransfer : Transfer :=
  { downloadDir := "/d/".toList
    destinationPath := "/d/x".toList
    sharedFile := SharedFile.new "/x".toList false [] 1
    queueDownload := { path := "/x".toList, fileSize := 1 } }

/-- The buffer with the first of the chunks. -/
def twoByteBuffer : Buffer where
  bytes := header msgFileChunk 2 ++ (@body twoByteCrates msgFileChunk [0, 0] ++
    List.replicate (totalBufferSize - payloadOffset - 6) 0)
  length_eq := by
    rw [List.length_append, List.length_append, length_header, List.length_replicate]
    decide

/-- The downloader that has read it. -/
def twoByteThread : Thread SingleDownloader :=
  { idleThread [] [] with
    encryptedStream := { (idleThread [] []).encryptedStream with buffer := twoByteBuffer } }

theorem twoByteThread_holds :
    @EncryptedStream.Holds twoByteCrates twoByteThread.encryptedStream msgFileChunk [0, 0] := by
  have hmsg : msgOf (header msgFileChunk 2) = msgFileChunk := by decide
  have hsize : sizeOf' (header msgFileChunk 2) = 2 := by decide
  have h := @holds_body twoByteThread.encryptedStream (header msgFileChunk 2)
    (List.replicate (totalBufferSize - payloadOffset - 6) 0) twoByteCrates [0, 0]
  rw [hmsg] at h
  exact h rfl (length_header _ _) hsize

/-- An empty local file. -/
def emptyFileDisk : LocalDisk := emptyDisk.put "/d/x".toList []

theorem twoByteChunks_reaches :
    twoByteChunks.Reaches 0 oneByteTransfer.expectedSize.toNat nonceInit 100 0 := by
  refine ⟨by nofun, ?_, ?_, ?_, ?_⟩ <;> decide

/-- **A chunk that jumps over the expected length**: one byte is expected, two come, and the loop reads
    on. -/
theorem chunk_jumps : ¬ @StopsInTime twoByteCrates twoByteChunks (fun _ => 100) oneByteTransfer
    twoByteThread emptyFileDisk :=
  @not_stopsInTime twoByteCrates _ _ _ _ _ [] 0 twoByteThread_holds (by decide)
    (entry_put_self _ _ _) (by decide) rfl twoByteChunks_reaches (by decide) rfl

/-- The peer with the chunks of two bytes. -/
theorem transferLoop_stops_iff_twoBytes :
    @StopsInTime twoByteCrates twoByteChunks (fun _ => 100) oneByteTransfer twoByteThread
      emptyFileDisk ↔ NoJump twoByteChunks oneByteTransfer 0 nonceInit 100 :=
  @transferLoop_stops_iff twoByteCrates twoByteChunks (fun _ => 100) oneByteTransfer twoByteThread
    emptyFileDisk [] twoByteThread_holds (by decide) (entry_put_self _ _ _) (by decide) rfl

end Transmitic
