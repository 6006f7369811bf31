/-
  File:      Transmitic/Checksums.lean
  Subject:   WHICH PAYLOADS ARE CHECKED (encrypted_stream.rs, `CRC_MESSAGES` of core_consts.rs).

  A payload goes with the CRC-32 of its bytes where its message is one of `CRC_MESSAGES`, and is compared
  with it before it is used. The messages of a file list are among them, and so is a chunk of a file. The
  last chunk of a file is not: it goes as a FINISHED message.

  * `Delivery`, `receiving` -- a downloader whose peer sends given messages, some bytes of which may come
    changed;
  * `ChecksummedFile`, `ChecksummedList` -- nothing is written, or read as a listing, unchecked;
  * `checksummedFile_iff` -- **a file is written unchecked** where its last message is not empty;
  * `checksummedList` -- **a listing never is**;
  * `transfer_checksummed_iff` -- both, with what an uploader sends.
-/
import Transmitic.DownloaderSession
import Transmitic.FileList
import Transmitic.FrameReader
import Transmitic.SendLoop

namespace Transmitic

open Lib

/-! ## 1. What arrives -/

/-- The messages that arrive: those of which nothing has come, the one of which the header came last, and
    whether its body is still to come. -/
structure Delivery where
  coming : List (UInt16 × List UInt8)
  current : Option (UInt16 × List UInt8)
  bodyComing : Bool

/-- Nothing has come of these messages. -/
def Delivery.of (messages : List (UInt16 × List UInt8)) : Delivery := ⟨messages, none, false⟩

section Surroundings

variable [Crates]

/-- The checksum `write_payload` makes. -/
def ownSum (payload : List UInt8) : List UInt8 := beBytes crcSize (Crates.crc32 payload).toNat

/-- The next frame: a header, or a body, of which the payload may have changed on the way, unless all is
    calm. -/
def Delivery.Yields (calm : Prop) (w : Delivery) (bytes : List UInt8) (w' : Delivery) : Prop :=
  if w.bodyComing then
    ∃ m payload, w.current = some m ∧ payload.length = m.2.length ∧ (calm → payload = m.2) ∧
      bytes = summed m.1 payload (ownSum m.2) ∧ w' = { w with bodyComing := false }
  else
    ∃ m more, w.coming = m :: more ∧ bytes = header m.1 m.2.length ∧
      w' = ⟨more, some m, decide (m.2 ≠ [])⟩

/-- The bytes are those of the message that came last, which was sent with the checksum of its payload; and
    they have this checksum. -/
def Delivery.Checked (w : Delivery) (bytes : List UInt8) : Prop :=
  ∃ m, w.current = some m ∧ body m.1 m.2 = m.2 ++ ownSum m.2 ∧ Crates.crc32 bytes = Crates.crc32 m.2

/-- Nothing fails, and nobody interferes. -/
def calmAnswer : (c : Wire ⊕ DownloaderCmd) → Ans DownloaderCmd.Ans c → Prop
  | .inl (.seal _ _), a => a = Sealed.done
  | .inl (.unseal _ _), a => ∃ bytes, a = Unsealed.plain bytes
  | .inr .revTryRecv, a => a = TryRecv.empty
  | .inr .tryRecv, a => a = TryRecv.empty
  | .inr (.createDirAll _), a => a = Except.ok ()
  | .inr (.fileCreate _), a => a = Except.ok ()
  | .inr (.fileOpenEnd _), a => a = Except.ok ()
  | .inr (.fileWrite _ _), a => a = Except.ok ()
  | _, _ => True

/-- A downloader whose peer sends these messages, and who is admitted the commands with `admits`. -/
def receiving (calm : Prop) (admits : Delivery → Wire ⊕ DownloaderCmd → Prop) : DlEnv Delivery where
  ok w _ c := admits w c
  step w _ c a w' := (calm → calmAnswer c a) ∧ match c, a with
    | .inl (.unseal _ size), .plain bytes =>
      bytes.length + cryptoExtensionSize = size ∧ w.Yields calm bytes w'
    | _, _ => w' = w

/-- Nothing is written unchecked. -/
def writesChecked (w : Delivery) : Wire ⊕ DownloaderCmd → Prop
  | .inr (.fileWrite _ bytes) => bytes ≠ [] → w.Checked bytes
  | _ => True

/-- Where nothing is written unchecked, and every command can be answered. -/
def answersChecked (w : Delivery) : Wire ⊕ DownloaderCmd → Prop
  | .inl (.unseal _ size) =>
    ∃ bytes w', bytes.length + cryptoExtensionSize = size ∧ w.Yields True bytes w'
  | c => writesChecked w c

/-- **Of these messages nothing is written unchecked**, in any run of the transfer. -/
def ChecksummedFile (fuel : Nat) (tr : Transfer) (seek : UInt64) (t : Thread SingleDownloader)
    (messages : List (UInt16 × List UInt8)) : Prop :=
  wp (receiving False writesChecked) (transferFile fuel tr seek) (fun _ _ _ => True) (fun _ _ _ => True) t
    (Delivery.of messages)

/-- The payload is one that was sent with its checksum, and compared with it. -/
def CheckedPayload (payload : List UInt8) (m : UInt16 × List UInt8) : Prop :=
  payload.length = m.2.length ∧
    (payload ≠ [] → body m.1 m.2 = m.2 ++ ownSum m.2 ∧ Crates.crc32 payload = Crates.crc32 m.2)

/-- **What is read as a listing of these messages** has been checked, payload by payload, in any run. -/
def ChecksummedList (fuel : Nat) (t : Thread SingleDownloader)
    (messages : List (UInt16 × List UInt8)) : Prop :=
  wp (receiving False writesChecked) (downloadEverythingFile fuel)
    (fun everythingFile _ _ => ∃ payloads, List.Forall₂ CheckedPayload payloads messages ∧
      parseListing payloads.flatten = .ok everythingFile)
    (fun _ _ _ => True) t (Delivery.of messages)

/-! ## 2. The parts of a transfer -/

section Parts

variable {calm : Prop} {admits : Delivery → Wire ⊕ DownloaderCmd → Prop} {t : Thread SingleDownloader}
  {w : Delivery}

/-- Neither a frame is read nor a file written. -/
def withoutData : Wire ⊕ DownloaderCmd → Prop
  | .inl (.unseal _ _) => False
  | .inr (.fileWrite _ _) => False
  | _ => True

omit [Crates] in
theorem withoutData_of_routine {c : DownloaderCmd} (h : routine c) : withoutData (.inr c) := by
  cases c
  case fileWrite path bytes => rcases h with h | h | h | h <;> cases h
  all_goals exact trivial

theorem step_withoutData {c : Wire ⊕ DownloaderCmd} {a : Ans DownloaderCmd.Ans c} {w' : Delivery}
    (hc : withoutData c) (hs : (receiving calm admits).step w t c a w') : w' = w := by
  rcases c with (_ | _) | c
  · exact hs.2
  · exact hc.elim
  · cases c
    case fileWrite => exact hc.elim
    all_goals exact hs.2

theorem writesChecked_withoutData {c : Wire ⊕ DownloaderCmd} (hc : withoutData c) : writesChecked w c := by
  rcases c with c | c
  · trivial
  · cases c
    case fileWrite => exact hc.elim
    all_goals trivial

/-- What goes on between the messages leaves them alone. -/
theorem wp_between {α V : Type} {P : Wire ⊕ DownloaderCmd → Prop} {r : Thread SingleDownloader → V}
    {m : Dl α} (h : Keeps P r m) (hP : ∀ c, P c → withoutData c) :
    wp (receiving False writesChecked) m (fun _ t' w' => r t' = r t ∧ w' = w)
      (fun _ t' w' => r t' = r t ∧ w' = w) t w :=
  wp_of_keeps (I := fun w' => w' = w) h (fun _ _ _ _ hc => writesChecked_withoutData (hP _ hc))
    (fun _ _ _ _ _ hw hc hs => (step_withoutData (hP _ hc) hs).trans hw) rfl

/-- The next message is read: its payload may have changed, its checksum is that of the sender. -/
theorem wp_read_receiving {m : UInt16 × List UInt8} {more : List (UInt16 × List UInt8)}
    {Q : Unit → Thread SingleDownloader → Delivery → Prop}
    {R : Exc → Thread SingleDownloader → Delivery → Prop}
    (hadmits : ∀ (w : Delivery) n bytes w', w.Yields calm bytes w' →
      admits w (.inl (.unseal n (bytes.length + cryptoExtensionSize))))
    (hsmall : m.2.length ≤ maxDataSize) (hcoming : w.coming = m :: more) (hbody : w.bodyComing = false)
    (hQ : ∀ t' payload, Passed t (frameCount m.2) t' → payload.length = m.2.length →
      (calm → payload = m.2) → SingleUploader.Arrived t'.encryptedStream m.1 payload (ownSum m.2) →
      Q () t' ⟨more, some m, false⟩)
    (hR : (calm → nonceMax < t.encryptedStream.nonce + frameCount m.2) → ∀ x t' w', R x t' w') :
    wp (receiving calm admits) (read : Dl Unit) Q R t w := by
  obtain ⟨msg, sent⟩ := m
  have hlt32 : sent.length < 2 ^ 32 := Nat.lt_of_le_of_lt hsmall (by decide)
  have hlen := length_header msg sent.length
  have hmsgOf : msgOf (header msg sent.length) = msg := by
    simpa using msgOf_header msg sent.length []
  have hsizeOf : sizeOf' (header msg sent.length) = sent.length := by
    simpa using sizeOf'_header hlt32 msg []
  have hsum : (ownSum sent).length = crcSize := length_beBytes _ _
  have hannounced : ∀ payload : List UInt8, payload.length = sent.length →
      announced (header msg sent.length) = (summed msg payload (ownSum sent)).length := by
    intro payload hpayload
    rw [announced, hmsgOf, hsizeOf, summed, List.length_append, hpayload]
    split <;> simp [hsum]
  have hfirst : w.Yields calm (header msg sent.length) ⟨more, some (msg, sent), decide (sent ≠ [])⟩ := by
    rw [Delivery.Yields, if_neg (by simp [hbody])]
    exact ⟨_, more, hcoming, rfl, rfl⟩
  refine wp_read_counted (J := fun front w' => front = header msg sent.length ∧
      w' = ⟨more, some (msg, sent), decide (sent ≠ [])⟩) (fun n => ⟨?_, fun a w' hs => ⟨?_, ?_⟩⟩)
    (fun front rest t' w' ht' hlen' hb hJ hz => ?_) (fun front t' w' _ hJ hlong => ?_)
    fun front t' n w' ht' hlen' hJ hz => ⟨?_, fun a w'' hs => ⟨?_, ?_⟩⟩
  · have h := hadmits w n _ _ hfirst
    rwa [hlen] at h
  · -- the header
    intro front ha
    subst ha
    obtain ⟨-, -, hyields⟩ := hs
    rw [Delivery.Yields, if_neg (by simp [hbody])] at hyields
    obtain ⟨m, more', hm, rfl, rfl⟩ := hyields
    rw [hcoming] at hm
    obtain ⟨rfl, rfl⟩ := List.cons.inj hm
    refine ⟨hlen, fun _ => ⟨rfl, rfl⟩, fun hle e t' _ => hR (fun _ => ?_) _ _ _⟩
    have hpos := frameCount_pos sent
    show nonceMax < t.encryptedStream.nonce + frameCount sent
    omega
  · intro hno e
    refine hR (fun hcalm => ?_) _ _ _
    obtain ⟨bytes, ha⟩ := hs.1 hcalm
    exact absurd ha (hno bytes)
  · -- no body
    obtain ⟨rfl, rfl⟩ := hJ
    have hnil : sent = [] := List.length_eq_zero_iff.mp (hsizeOf.symm.trans hz)
    subst hnil
    have hholds := holds_header hb hlen hz
    rw [hmsgOf] at hholds
    refine hQ t' [] ht' rfl (fun _ => rfl) ⟨hholds.message, fun _ => hholds.payload, fun hwrong => ?_⟩
    exact absurd (fun _ hne => absurd rfl hne) hwrong
  · obtain ⟨rfl, rfl⟩ := hJ
    rw [hannounced sent rfl, summed, List.length_append] at hlong
    have htotal : totalCryptoBufferSize =
        payloadOffset + maxDataSize + crcSize + cryptoExtensionSize := by decide
    have hle : (if EncryptedStream.isCrcPayload msg = true then ownSum sent else []).length ≤ crcSize := by
      split
      · exact hsum.le
      · exact Nat.zero_le _
    have hsmall' : sent.length ≤ maxDataSize := hsmall
    omega
  · obtain ⟨rfl, rfl⟩ := hJ
    have hne : sent ≠ [] := by
      rintro rfl
      exact hz hsizeOf
    rw [hannounced sent rfl]
    refine hadmits _ n _ ⟨more, some (msg, sent), false⟩ ?_
    rw [Delivery.Yields, if_pos (by simpa using hne)]
    exact ⟨_, sent, rfl, rfl, fun _ => rfl, rfl, rfl⟩
  · -- the body
    intro bytes ha
    subst ha
    obtain ⟨rfl, rfl⟩ := hJ
    obtain ⟨-, -, hyields⟩ := hs
    have hne : sent ≠ [] := by
      rintro rfl
      exact hz hsizeOf
    rw [Delivery.Yields, if_pos (by simpa using hne)] at hyields
    obtain ⟨m, payload, hm, hpayload, hcalm, rfl, rfl⟩ := hyields
    obtain rfl := Option.some.inj hm
    have hcount : frameCount sent = 2 := if_neg hne
    refine ⟨fun _ t'' rest ht'' hb => ?_, fun hle e t'' _ => hR (fun _ => ?_) _ _ _,
      fun hover t'' _ => ?_⟩
    · rw [show summed msg payload (ownSum sent) =
        summed (msgOf (header msg sent.length)) payload (ownSum sent) by rw [hmsgOf]] at hb
      have harrived := getPayload_summed hsum hb hlen (hsizeOf.trans hpayload.symm)
      rw [hmsgOf] at harrived
      refine hQ t'' payload (by rw [hcount]; exact ht'') hpayload hcalm
        ⟨(getMessage_front hb hlen).trans hmsgOf, harrived.1, harrived.2⟩
    · have hnonce := ht'.nonce
      show nonceMax < t.encryptedStream.nonce + frameCount sent
      omega
    · have hlong := hannounced payload hpayload
      have hover : totalBufferSize < payloadOffset + (payload ++
          if EncryptedStream.isCrcPayload msg = true then ownSum sent else []).length := hover
      rw [List.length_append] at hover
      have htotal : totalBufferSize = payloadOffset + maxDataSize + crcSize := by decide
      have hle : (if EncryptedStream.isCrcPayload msg = true then ownSum sent else []).length ≤ crcSize := by
        split
        · exact hsum.le
        · exact Nat.zero_le _
      have hsmall' : sent.length ≤ maxDataSize := hsmall
      have hpayload' : payload.length = sent.length := hpayload
      omega
  · intro hno e t'' _
    refine hR (fun hcalm => ?_) _ _ _
    obtain ⟨bytes, ha⟩ := hs.1 hcalm
    exact absurd ha (hno bytes)

end Parts

/-! ## 3. The messages of an upload -/

omit [Crates] in
/-- The last message is empty. -/
def EndsEmpty (messages : List (UInt16 × List UInt8)) : Prop :=
  messages.getLast? = some (msgFileFinished, [])

/-- A message that is not the last one brings the file to the expected size. -/
def StopsEarly (expected : UInt64) : UInt64 → List (UInt16 × List UInt8) → Prop
  | current, m :: n :: messages =>
    current + UInt64.ofNat m.2.length = expected ∨
      StopsEarly expected (current + UInt64.ofNat m.2.length) (n :: messages)
  | _, _ => False

section Uploads

variable {file : FileContent} {listed position : Nat} {messages : List (UInt16 × List UInt8)}

omit [Crates] in
theorem Upload.exists_cons (h : Upload file listed position messages) :
    ∃ m more, messages = m :: more := by
  cases h with
  | last => exact ⟨_, _, rfl⟩
  | chunk => exact ⟨_, _, rfl⟩

omit [Crates] in
/-- **The last message is empty** where nothing is left from the start, or the file is shorter than it is
    listed. Over the reads. -/
theorem Upload.endsEmpty_iff (h : Upload file listed position messages) :
    EndsEmpty messages ↔ file.bytes.length ≤ position ∨ file.bytes.length < listed := by
  induction h with
  | @last position bytes hreads hsmall hend =>
    have hle := hreads.length_le
    have hempty : EndsEmpty [(msgFileFinished, bytes)] ↔ bytes = [] := by simp [EndsEmpty]
    rw [hempty]
    constructor
    · intro hnil
      exact .inl (hreads.2 hnil)
    · intro hspared
      apply List.length_eq_zero_iff.mp
      omega
  | @chunk position bytes messages hreads hsmall hmore h ih =>
    have hle := hreads.length_le
    obtain ⟨m, more, rfl⟩ := h.exists_cons
    have hlast : EndsEmpty ((msgFileChunk, bytes) :: m :: more) ↔ EndsEmpty (m :: more) := by
      simp [EndsEmpty]
    rw [hlast, ih]
    omega

end Uploads

/-! ## 4. The loop over the chunks -/

section Loop

variable {file : FileContent} {listed position : Nat} {tr : Transfer} {t : Thread SingleDownloader}
  {m : UInt16 × List UInt8} {more : List (UInt16 × List UInt8)}

theorem ofBe_ownSum (payload : List UInt8) : ofBe (ownSum payload) = (Crates.crc32 payload).toNat :=
  ofBe_beBytes_of_lt (show (Crates.crc32 payload).toNat < 256 ^ crcSize from (Crates.crc32 payload).toNat_lt)

/-- A payload that was taken has been checked, where its message carries a checksum. -/
theorem checked_of_rightSum {payload : List UInt8} (hright : RightSum m.1 payload (ownSum m.2))
    (hcrc : EncryptedStream.isCrcPayload m.1 = true) (hne : payload ≠ []) :
    body m.1 m.2 = m.2 ++ ownSum m.2 ∧ Crates.crc32 payload = Crates.crc32 m.2 := by
  refine ⟨if_pos hcrc, ?_⟩
  have hsum := hright hcrc hne
  rw [ofBe_ownSum] at hsum
  exact (UInt32.toNat_inj.mp hsum).symm

/-- What goes on between the messages, where nothing depends on how it ends. -/
theorem wp_routine {α : Type} {method : Dl α} {Q : α → Thread SingleDownloader → Delivery → Prop}
    {w : Delivery} (h : Aside routine method)
    (hQ : ∀ a t', t'.encryptedStream = t.encryptedStream → Q a t' w) :
    wp (receiving False writesChecked) method Q (fun _ _ _ => True) t w := by
  refine wp_conseq (wp_between h fun c hc => ?_) ?_ fun _ _ _ _ => trivial
  · cases c with
    | inl c => exact hc.elim
    | inr c => exact withoutData_of_routine hc
  · intro a t' w' h'
    rw [h'.2]
    exact hQ a t' h'.1

/-- **The loop over the chunks writes nothing unchecked**, where the last message is empty, or the loop stops
    before. Over the passes. -/
theorem wp_transferLoop_checked : ∀ (fuel : Nat) {position : Nat} {m : UInt16 × List UInt8}
    {more : List (UInt16 × List UInt8)} {current : UInt64} {payload : List UInt8}
    {t : Thread SingleDownloader}, Upload file listed position (m :: more) →
    EndsEmpty (m :: more) ∨ StopsEarly tr.expectedSize current (m :: more) →
    payload.length = m.2.length → SingleUploader.Arrived t.encryptedStream m.1 payload (ownSum m.2) →
    wp (receiving False writesChecked) (transferLoop tr fuel m.1 current) (fun _ _ _ => True)
      (fun _ _ _ => True) t ⟨more, some m, false⟩
  | 0, _, _, _, _, _, _, _, _, _, _ => trivial
  | fuel + 1, position, m, more, current, payload, t, hupload, hspared, hlength, harrived => by
    unfold transferLoop
    by_cases hright : RightSum m.1 payload (ownSum m.2)
    · refine (wp_bind getPayload _).mpr (wp_getPayload_of (harrived.taken hright) ?_)
      rw [hlength]
      refine (wp_bind (modifySelf _) _).mpr ((wp_modifySelf _).mpr ?_)
      -- a payload that is not empty is one of a chunk, but for the last one
      have hchecked : payload ≠ [] → Delivery.Checked ⟨more, some m, false⟩ payload := by
        intro hne
        refine ⟨m, rfl, checked_of_rightSum hright ?_ hne⟩
        cases hupload with
        | @last _ bytes hreads hsmall hend =>
          rcases hspared with hempty | hearly
          · have hnil : bytes = [] := by simpa [EndsEmpty] using hempty
            have hzero : payload.length = 0 := by simpa [hnil] using hlength
            exact absurd (List.length_eq_zero_iff.mp hzero) hne
          · exact hearly.elim
        | chunk => rfl
      refine (wp_bind (command (.fileWrite tr.destinationPath payload)) _).mpr ⟨hchecked, fun a w' hs => ?_⟩
      obtain rfl : w' = _ := hs.2
      cases a with
      | error e => exact trivial
      | ok _ =>
        refine (wp_bind (tryIo (.ok ())) _).mpr ((wp_orThrow_ok ()).mpr ?_)
        refine (wp_bind updateProgress _).mpr (wp_routine local_updateProgress.routinely fun _ t₁ ht₁ => ?_)
        dsimp only
        rw [wp_ite]
        split
        · exact wp_routine (aside_finishTransfer tr) fun _ _ _ => trivial
        rename_i hunfinished
        rw [wp_ite]
        split
        · exact wp_routine (aside_failTransfer tr _ _) fun _ _ _ => trivial
        rename_i hagree
        -- neither side takes the file to be finished: this is a chunk, and there is another message
        have hremote : m.1 ≠ msgFileFinished := by
          intro hm
          simp [hm] at hunfinished hagree
          exact hunfinished hagree
        have hlocal : current + UInt64.ofNat m.2.length ≠ tr.expectedSize := by
          intro hm
          simp [hm, hremote] at hagree
        cases hupload with
        | last => exact absurd rfl hremote
        | @chunk _ bytes _ hreads hsmall hmore hupload =>
          obtain ⟨n, rest, rfl⟩ := hupload.exists_cons
          have hnext : EndsEmpty (n :: rest) ∨
              StopsEarly tr.expectedSize (current + UInt64.ofNat bytes.length) (n :: rest) := by
            rcases hspared with hempty | hearly
            · exact .inl (by simpa [EndsEmpty] using hempty)
            · exact .inr (hearly.resolve_left hlocal)
          refine (wp_bind read _).mpr (wp_read_receiving (fun _ _ _ _ _ => trivial)
            (hupload.uploadMessages.small n List.mem_cons_self) rfl rfl
            (fun t₂ payload' _ hlength' _ harrived' => ?_) fun _ _ _ _ => trivial)
          show wp _ (throwIf (isUnexpected t₂.encryptedStream.getMessage) _ >>= fun _ => _) _ _ _ _
          rw [harrived'.message]
          refine (wp_bind _ _).mpr ((wp_throwIf _ _).mpr ?_)
          split
          · trivial
          refine (wp_bind (readReceiver fuel) _).mpr (wp_routine (aside_readReceiver fuel) fun _ t₃ ht₃ => ?_)
          refine (wp_bind self _).mpr (wp_self.mpr ?_)
          rw [wp_ite]
          split
          · trivial
          rw [← ht₃] at harrived'
          exact wp_transferLoop_checked fuel hupload hnext hlength' harrived'
    · obtain ⟨text, herror⟩ := harrived.mismatch hright
      refine (wp_bind getPayload _).mpr ?_
      show wp _ (orThrow t.encryptedStream.getPayload) _ _ _ _
      rw [herror]
      trivial

end Loop

/-! ## 5. A calm run -/

section Calm

variable {file : FileContent} {listed position : Nat} {tr : Transfer} {t : Thread SingleDownloader}
  {w : Delivery}

/-- A file is written unchecked. -/
def writesUnchecked (w : Delivery) (_ : Thread SingleDownloader) (c : Wire ⊕ DownloaderCmd) : Prop :=
  ¬ writesChecked w c

/-- A calm run, up to where a file is written unchecked. -/
abbrev calmly : DlEnv Delivery := (receiving True answersChecked).until writesUnchecked

theorem answersChecked_withoutData {c : Wire ⊕ DownloaderCmd} (hc : withoutData c) : answersChecked w c := by
  rcases c with (_ | _) | c
  · trivial
  · exact hc.elim
  · exact writesChecked_withoutData hc

theorem answersChecked_yields {n : Nat} {bytes : List UInt8} {w' : Delivery} (h : w.Yields True bytes w') :
    answersChecked w (.inl (.unseal n (bytes.length + cryptoExtensionSize))) := ⟨bytes, w', rfl, h⟩

/-- **In a calm run every command can be answered.** -/
theorem receiving_total (w : Delivery) (t : Thread SingleDownloader) (c : Wire ⊕ DownloaderCmd)
    (h : (receiving True answersChecked).ok w t c) :
    ∃ a w', (receiving True answersChecked).step w t c a w' := by
  rcases c with (_ | _) | c
  · exact ⟨Sealed.done, w, fun _ => rfl, rfl⟩
  · obtain ⟨bytes, w', hsize, hyields⟩ := h
    exact ⟨Unsealed.plain bytes, w', fun _ => ⟨bytes, rfl⟩, hsize, hyields⟩
  · refine ⟨restAnswers (.inr c), w, fun _ => ?_, ?_⟩
    · cases c <;> first | exact rfl | trivial
    · cases c <;> exact rfl

/-- A command of a calm run. -/
theorem wp_calmly {α : Type} {c : DownloaderCmd} {f : c.Ans → Dl α}
    {Q : α → Thread SingleDownloader → Delivery → Prop} {R : Exc → Thread SingleDownloader → Delivery → Prop}
    (hc : withoutData (.inr c)) (h : ∀ a, calmAnswer (.inr c) a → wp calmly (f a) Q R t w) :
    wp calmly (command c >>= f) Q R t w := by
  refine (wp_bind _ _).mpr ⟨.inl (answersChecked_withoutData hc), fun a w' hs => ?_⟩
  obtain rfl := step_withoutData hc hs.2
  exact h a (hs.2.1 trivial)

variable {Q : Unit → Thread SingleDownloader → Delivery → Prop}
  {R : Exc → Thread SingleDownloader → Delivery → Prop}

theorem calmly_appUpdateInProgress (hQ : Q () t w) : wp calmly appUpdateInProgress Q R t w := by
  refine (wp_bind self _).mpr (wp_self.mpr ?_)
  refine ⟨.inl trivial, fun _ w' hs => ?_⟩
  obtain rfl : w' = w := hs.2.2
  exact hQ

theorem calmly_updateProgress (hQ : Q () t w) : wp calmly updateProgress Q R t w := by
  refine wp_calmly (c := .progressElapsed) trivial fun elapsed _ => ?_
  rw [wp_ite]
  split
  · exact calmly_appUpdateInProgress hQ
  · exact hQ

theorem calmly_readReceiver {fuel : Nat} (hfuel : 0 < fuel) (hQ : Q () t w) :
    wp calmly (readReceiver fuel) Q R t w := by
  obtain ⟨n, rfl⟩ := Nat.exists_eq_add_of_lt hfuel
  unfold readReceiver receiveReverse
  refine wp_bind_assoc.mpr (wp_calmly (c := .revTryRecv) trivial fun a ha => ?_)
  obtain rfl : a = TryRecv.empty := ha
  refine wp_calmly (c := .tryRecv) trivial fun a ha => ?_
  obtain rfl : a = TryRecv.empty := ha
  exact hQ

theorem calmly_openDestination (hQ : Q () t w) : wp calmly (openDestination tr) Q R t w := by
  unfold openDestination
  refine wp_calmly (c := .createDirAll tr.downloadDir) trivial fun a ha => ?_
  obtain rfl : a = Except.ok () := ha
  refine (wp_bind (tryIo (.ok ())) _).mpr ((wp_orThrow_ok ()).mpr ?_)
  refine wp_calmly (c := .pathExists tr.destinationPath) trivial fun doesExist _ => ?_
  rw [wp_ite]
  split
  · refine wp_calmly (c := .fileOpenEnd tr.destinationPath) trivial fun a ha => ?_
    obtain rfl : a = Except.ok () := ha
    exact hQ
  · refine wp_calmly (c := .fileCreate tr.destinationPath) trivial fun a ha => ?_
    obtain rfl : a = Except.ok () := ha
    exact hQ

/-- **A calm run writes the last message unchecked**, where it is not empty and the loop does not stop
    before. Over the passes. -/
theorem calmly_transferLoop : ∀ (fuel : Nat) {position : Nat} {m : UInt16 × List UInt8}
    {more : List (UInt16 × List UInt8)} {current : UInt64} {t : Thread SingleDownloader},
    Upload file listed position (m :: more) → ¬ EndsEmpty (m :: more) →
    ¬ StopsEarly tr.expectedSize current (m :: more) → t.encryptedStream.getPayload = .ok m.2 →
    t.self.stopDownloading = false → t.encryptedStream.nonce + 2 * more.length ≤ nonceMax →
    more.length < fuel → wp calmly (transferLoop tr fuel m.1 current) (fun _ _ _ => False)
      (fun _ _ _ => False) t ⟨more, some m, false⟩
  | 0, _, _, _, _, _, _, _, _, _, _, _, hfuel => absurd hfuel (Nat.not_lt_zero _)
  | fuel + 1, position, m, more, current, t, hupload, hfull, hlate, hpayload, hrunning, hnonce, hfuel => by
    unfold transferLoop
    refine (wp_bind getPayload _).mpr (wp_getPayload_of hpayload ?_)
    refine (wp_bind (modifySelf _) _).mpr ((wp_modifySelf _).mpr ?_)
    cases hupload with
    | @last _ bytes hreads hsmall hend =>
      have hne : bytes ≠ [] := fun hnil => hfull (by simp [EndsEmpty, hnil])
      -- the FINISHED message was sent without a checksum
      have hunchecked : ¬ Delivery.Checked ⟨[], some (msgFileFinished, bytes), false⟩ bytes := by
        intro hchecked
        obtain ⟨m, hm, hbody, -⟩ := hchecked
        obtain rfl := Option.some.inj hm
        have hlength := congrArg List.length hbody
        have hbare : body msgFileFinished bytes = bytes := if_neg (by decide)
        rw [hbare, List.length_append, ownSum, length_beBytes] at hlength
        exact absurd hlength (by simp [crcSize])
      refine (wp_bind (command (.fileWrite tr.destinationPath bytes)) _).mpr
        ⟨.inr fun h => hunchecked (h hne), fun a w' hs => ?_⟩
      exact absurd (hs.1 hne) hunchecked
    | @chunk _ bytes _ hreads hsmall hmore hupload =>
      obtain ⟨n, rest, rfl⟩ := hupload.exists_cons
      have hchecked : Delivery.Checked ⟨n :: rest, some (msgFileChunk, bytes), false⟩ bytes :=
        ⟨_, rfl, if_pos (show EncryptedStream.isCrcPayload msgFileChunk = true by decide), rfl⟩
      have hnonce : t.encryptedStream.nonce + 2 * (rest.length + 1) ≤ nonceMax := hnonce
      have hfuel : rest.length + 1 < fuel + 1 := hfuel
      have hlocal : current + UInt64.ofNat bytes.length ≠ tr.expectedSize := fun h => hlate (.inl h)
      refine (wp_bind (command (.fileWrite tr.destinationPath bytes)) _).mpr
        ⟨.inl fun _ => hchecked, fun a w' hs => ?_⟩
      obtain rfl : w' = _ := hs.2.2
      obtain rfl : a = Except.ok () := hs.2.1 trivial
      refine (wp_bind (tryIo (.ok ())) _).mpr ((wp_orThrow_ok ()).mpr ?_)
      refine (wp_bind updateProgress _).mpr (calmly_updateProgress ?_)
      dsimp only
      rw [wp_ite, if_neg (by simp [hlocal]), wp_ite, if_neg (by simp [hlocal, msgFileChunk, msgFileFinished])]
      have hcount := frameCount_le n.2
      refine (wp_bind read _).mpr (wp_until (wp_read_receiving (fun _ _ _ _ h => answersChecked_yields h)
        (hupload.uploadMessages.small n List.mem_cons_self) rfl rfl
        (fun t₂ payload ht₂ _ hcalm harrived => ?_) fun hlong _ _ _ => ?_))
      rotate_left
      · have hlong := hlong trivial
        simp only at hlong
        omega
      obtain rfl := hcalm trivial
      have hpayload' := harrived.taken (rightSum_own _ _)
      have hexpected : ¬ isUnexpected n.1 := by
        intro hun
        cases hupload with
        | last => exact hun.2 rfl
        | chunk => exact hun.1 rfl
      show wp _ (throwIf (isUnexpected t₂.encryptedStream.getMessage) _ >>= fun _ => _) _ _ _ _
      rw [harrived.message]
      refine (wp_bind _ _).mpr ((wp_throwIf _ _).mpr ?_)
      rw [if_neg hexpected]
      refine (wp_bind (readReceiver fuel) _).mpr (calmly_readReceiver (by omega) ?_)
      refine (wp_bind self _).mpr (wp_self.mpr ?_)
      have hrunning' : t₂.self.stopDownloading = false := by
        rw [ht₂.self]
        exact hrunning
      rw [wp_ite, if_neg (by simp [hrunning'])]
      refine calmly_transferLoop fuel hupload (fun h => hfull ?_) (fun h => hlate (.inr h)) hpayload'
        hrunning' ?_ ?_
      · simpa [EndsEmpty] using h
      · rw [ht₂.nonce]
        simp only
        omega
      · omega

end Calm

/-! ## 6. A transfer -/

section File

variable {file : FileContent} {listed position fuel : Nat} {tr : Transfer} {t : Thread SingleDownloader}
  {messages : List (UInt16 × List UInt8)} {seek : UInt64}

omit [Crates] in
theorem keeps_openDestination : Keeps withoutData Thread.encryptedStream (openDestination tr) := by
  unfold openDestination
  refine keeps_bind (keeps_ask trivial) fun a => keeps_bind (keeps_orThrow _) fun _ => ?_
  refine keeps_bind (keeps_ask trivial) fun doesExist => keeps_ite (fun _ => ?_) fun _ => ?_
  · exact keeps_bind (keeps_ask trivial) fun a => keeps_orThrow _
  · exact keeps_bind (keeps_ask trivial) fun a => keeps_orThrow _

omit [Crates] in
/-- A message of an upload is one a transfer expects. -/
theorem Upload.expected {m : UInt16 × List UInt8} {more : List (UInt16 × List UInt8)}
    (h : Upload file listed position (m :: more)) : m.1 ≠ msgFileInvalidFile ∧ ¬ isUnexpected m.1 := by
  cases h with
  | last => exact ⟨show msgFileFinished ≠ msgFileInvalidFile by decide, fun hun => hun.2 rfl⟩
  | chunk => exact ⟨show msgFileChunk ≠ msgFileInvalidFile by decide, fun hun => hun.1 rfl⟩

theorem checksummedFile_of (hupload : Upload file listed position messages)
    (hspared : EndsEmpty messages ∨ StopsEarly tr.expectedSize seek messages) :
    ChecksummedFile fuel tr seek t messages := by
  obtain ⟨m, more, rfl⟩ := hupload.exists_cons
  have hrequest : Keeps withoutData Thread.self
      (write msgFileSelectionContinue (beBytes 8 seek.toNat ++ utf8 tr.sharedFile.path) : Dl Unit) :=
    (steady_write_of (fun _ _ => trivial) _ _).keeps
  refine wp_seq (wp_between hrequest fun _ hc => hc) (fun _ t₁ w₁ h₁ => ?_) fun _ _ _ _ => trivial
  obtain ⟨-, rfl⟩ := h₁
  refine (wp_bind read _).mpr (wp_read_receiving (fun _ _ _ _ _ => trivial)
    (hupload.uploadMessages.small m List.mem_cons_self) rfl rfl
    (fun t₂ payload _ hlength _ harrived => ?_) fun _ _ _ _ => trivial)
  show wp _ (if t₂.encryptedStream.getMessage = msgFileInvalidFile then _ else _) _ _ _ _
  rw [harrived.message, if_neg hupload.expected.1]
  refine (wp_bind self _).mpr (wp_self.mpr ((wp_bind _ _).mpr ((wp_throwIf _ _).mpr ?_)))
  rw [if_neg hupload.expected.2]
  refine wp_seq (wp_between keeps_openDestination fun _ hc => hc) (fun _ t₃ w₃ h₃ => ?_) fun _ _ _ _ => trivial
  obtain ⟨hstream, rfl⟩ := h₃
  rw [← hstream] at harrived
  exact wp_transferLoop_checked fuel hupload hspared hlength harrived

/-- **A calm transfer** comes to where a file is written unchecked. -/
theorem calmly_transferFile (hupload : Upload file listed position messages) (hfull : ¬ EndsEmpty messages)
    (hlate : ¬ StopsEarly tr.expectedSize seek messages) (hrunning : t.self.stopDownloading = false)
    (hfits : (SingleUploader.requestPayload seek tr.sharedFile.path).length ≤ maxDataSize)
    (hnonce : t.encryptedStream.nonce + 2 + 2 * messages.length ≤ nonceMax)
    (hfuel : messages.length ≤ fuel) :
    wp calmly (transferFile fuel tr seek) (fun _ _ _ => False) (fun _ _ _ => False) t
      (Delivery.of messages) := by
  obtain ⟨m, more, rfl⟩ := hupload.exists_cons
  have hnonce : t.encryptedStream.nonce + 2 + 2 * (more.length + 1) ≤ nonceMax := hnonce
  have hrequest : wp calmly
      (write msgFileSelectionContinue (SingleUploader.requestPayload seek tr.sharedFile.path) : Dl Unit)
      (fun _ t' w' => Passed t 2 t' ∧ w' = Delivery.of (m :: more)) (fun _ _ _ => False) t
      (Delivery.of (m :: more)) := by
    have hne : SingleUploader.requestPayload seek tr.sharedFile.path ≠ [] := by
      intro hnil
      have hlength := congrArg List.length hnil
      rw [SingleUploader.requestPayload, List.length_append, length_beBytes] at hlength
      exact absurd hlength (by simp)
    refine wp_until (wp_write_counted (J := fun w' => w' = Delivery.of (m :: more)) (fits_of_small hfits)
      (fun t' n ht' => ⟨trivial, fun a w' hs => ⟨fun _ _ => hs.2, fun hcause e => ?_⟩⟩)
      (fun hnil => absurd hnil hne)
      fun _ t' n w' ht' hw' => ⟨trivial, fun a w'' hs => ⟨fun _ _ t'' ht'' => ⟨ht'', hs.2.trans hw'⟩,
        fun hcause e => ?_⟩⟩)
    · have hcount := ht'.nonce
      rcases hcause with hno | hle
      · exact hno (hs.1 trivial)
      · omega
    · have hcount := ht'.nonce
      rcases hcause with hno | hle
      · exact hno (hs.1 trivial)
      · omega
  refine wp_seq hrequest (fun _ t₁ w₁ h₁ => ?_) fun _ _ _ h => h
  obtain ⟨ht₁, rfl⟩ := h₁
  have hcount := frameCount_le m.2
  have hnonce₁ := ht₁.nonce
  refine (wp_bind read _).mpr (wp_until (wp_read_receiving (fun _ _ _ _ h => answersChecked_yields h)
    (hupload.uploadMessages.small m List.mem_cons_self) rfl rfl
    (fun t₂ payload ht₂ _ hcalm harrived => ?_) fun hlong _ _ _ => ?_))
  rotate_left
  · have hlong := hlong trivial
    omega
  obtain rfl := hcalm trivial
  have hpayload := harrived.taken (rightSum_own _ _)
  show wp _ (if t₂.encryptedStream.getMessage = msgFileInvalidFile then _ else _) _ _ _ _
  rw [harrived.message, if_neg hupload.expected.1]
  refine (wp_bind self _).mpr (wp_self.mpr ((wp_bind _ _).mpr ((wp_throwIf _ _).mpr ?_)))
  rw [if_neg hupload.expected.2]
  refine (wp_bind (openDestination tr) _).mpr (calmly_openDestination ?_)
  refine calmly_transferLoop fuel hupload hfull hlate hpayload ?_ ?_ hfuel
  · rw [ht₂.self, ht₁.self]
    exact hrunning
  · rw [ht₂.nonce]
    omega

theorem yields_of_calm {w w' : Delivery} {bytes : List UInt8} (h : w.Yields True bytes w') :
    w.Yields False bytes w' := by
  unfold Delivery.Yields at h ⊢
  split at h
  · rename_i hbody
    obtain ⟨m, payload, hm, hlength, -, h⟩ := h
    rw [if_pos hbody]
    exact ⟨m, payload, hm, hlength, fun hf => hf.elim, h⟩
  · rename_i hbody
    rw [if_neg hbody]
    exact h

/-- A calm run is a run. -/
theorem reach_of_calm {α : Type} {c c' : Prog (Thread SingleDownloader) (Wire ⊕ DownloaderCmd)
    (Ans DownloaderCmd.Ans) Exc α × Delivery} (h : Reach (receiving True answersChecked) c c') :
    Reach (receiving False writesChecked) c c' := by
  refine Reach.map (g := id) (fun w t c a w' hs => ?_) h
  obtain ⟨-, hs⟩ := hs
  refine ⟨fun hf => hf.elim, ?_⟩
  rcases c with (_ | _) | c
  · exact hs
  · cases a with
    | plain bytes => exact ⟨hs.1, yields_of_calm hs.2⟩
    | io e => exact hs
    | rejected e => exact hs
  · exact hs

/-- **Of an upload nothing is written unchecked** exactly where its last message is empty, or the transfer
    stops before. -/
theorem checksummedFile_iff (hupload : Upload file listed position messages)
    (hrunning : t.self.stopDownloading = false)
    (hfits : (SingleUploader.requestPayload seek tr.sharedFile.path).length ≤ maxDataSize)
    (hnonce : t.encryptedStream.nonce + 2 + 2 * messages.length ≤ nonceMax) (hfuel : messages.length ≤ fuel) :
    ChecksummedFile fuel tr seek t messages ↔
      (file.bytes.length ≤ position ∨ file.bytes.length < listed) ∨
        StopsEarly tr.expectedSize seek messages := by
  rw [← hupload.endsEmpty_iff]
  refine ⟨fun h => ?_, checksummedFile_of hupload⟩
  by_contra hno
  obtain ⟨hfull, hlate⟩ := not_or.mp hno
  obtain ⟨t', c, k, w', hrun, hunchecked⟩ := reach_until receiving_total
    (calmly_transferFile hupload hfull hlate hrunning hfits hnonce hfuel)
  exact hunchecked (reach_ok h (reach_of_calm hrun))

end File

/-! ## 7. A listing -/

section Listing

variable {t : Thread SingleDownloader} {current : Option (UInt16 × List UInt8)}

/-- **The loop over the pieces**: every piece has been checked. Over the passes. -/
theorem wp_readEverythingFile_checked : ∀ (fuel : Nat) {bytes jsonBytes : List UInt8}
    {t : Thread SingleDownloader} {current : Option (UInt16 × List UInt8)},
    wp (receiving False writesChecked) (readEverythingFile fuel jsonBytes : Dl (List UInt8))
      (fun assembled _ _ => ∃ payloads, assembled = jsonBytes ++ payloads.flatten ∧
        List.Forall₂ CheckedPayload payloads (pieces bytes))
      (fun _ _ _ => True) t ⟨pieces bytes, current, false⟩
  | 0, _, _, _, _ => trivial
  | fuel + 1, bytes, jsonBytes, t, current => by
    -- what follows one message
    have hread : ∀ (m : UInt16 × List UInt8) (more : List (UInt16 × List UInt8)),
        m.2.length ≤ maxDataSize → EncryptedStream.isCrcPayload m.1 = true → pieces bytes = m :: more →
        (∀ t' payload, CheckedPayload payload m → wp (receiving False writesChecked)
          (if m.1 = msgFileListFinal then pure (jsonBytes ++ payload)
            else readEverythingFile fuel (jsonBytes ++ payload) : Dl (List UInt8))
          (fun assembled _ _ => ∃ payloads, assembled = jsonBytes ++ payload ++ payloads.flatten ∧
            List.Forall₂ CheckedPayload payloads more) (fun _ _ _ => True) t' ⟨more, some m, false⟩) →
        wp (receiving False writesChecked) (readEverythingFile (fuel + 1) jsonBytes : Dl (List UInt8))
          (fun assembled _ _ => ∃ payloads, assembled = jsonBytes ++ payloads.flatten ∧
            List.Forall₂ CheckedPayload payloads (pieces bytes))
          (fun _ _ _ => True) t ⟨pieces bytes, current, false⟩ := by
      intro m more hsmall hcrc hpieces hnext
      refine (wp_bind read _).mpr (wp_read_receiving (fun _ _ _ _ _ => trivial) hsmall hpieces rfl
        (fun t₁ payload _ hlength _ harrived => ?_) fun _ _ _ _ => trivial)
      show wp _ (orThrow t₁.encryptedStream.getPayload >>= fun payload => get >>= fun t' =>
        throwIf (maxEverythingFileSize < (jsonBytes ++ payload).length) _ >>= fun _ =>
        if t₁.encryptedStream.getMessage = msgFileListFinal then pure (jsonBytes ++ payload)
        else readEverythingFile fuel (jsonBytes ++ payload)) _ _ t₁ _
      rw [harrived.message]
      by_cases hright : RightSum m.1 payload (ownSum m.2)
      · rw [harrived.taken hright]
        have hchecked : CheckedPayload payload m :=
          ⟨hlength, fun hne => checked_of_rightSum hright hcrc hne⟩
        show wp _ (throwIf (maxEverythingFileSize < (jsonBytes ++ payload).length) _ >>= fun _ =>
          if m.1 = msgFileListFinal then pure (jsonBytes ++ payload)
          else readEverythingFile fuel (jsonBytes ++ payload)) _ _ t₁ _
        refine (wp_bind _ _).mpr ((wp_throwIf _ _).mpr ?_)
        split
        · trivial
        refine wp_conseq (hnext t₁ payload hchecked) (fun assembled _ _ h => ?_) fun _ _ _ h => h
        obtain ⟨payloads, hassembled, hall⟩ := h
        refine ⟨payload :: payloads, ?_, ?_⟩
        · rw [hassembled, List.flatten_cons, List.append_assoc]
        · rw [hpieces]
          exact .cons hchecked hall
      · obtain ⟨text, herror⟩ := harrived.mismatch hright
        rw [herror]
        trivial
    rcases Nat.lt_or_ge maxDataSize bytes.length with hlt | hle
    · refine hread _ _ (List.length_take_le _ _)
        (show EncryptedStream.isCrcPayload msgFileListPiece = true by decide) (pieces_of_lt hlt)
        fun t' payload _ => ?_
      rw [if_neg (show msgFileListPiece ≠ msgFileListFinal by decide)]
      exact wp_readEverythingFile_checked fuel
    · refine hread _ _ hle (show EncryptedStream.isCrcPayload msgFileListFinal = true by decide)
        (pieces_of_le hle) fun t' payload _ => ?_
      rw [if_pos rfl]
      exact ⟨[], by simp, .nil⟩

/-- **A listing is always checked.** -/
theorem checksummedList (fuel : Nat) (t : Thread SingleDownloader) (bytes : List UInt8) :
    ChecksummedList fuel t (pieces bytes) := by
  have hrequest : Keeps withoutData Thread.self (write msgFileList [] : Dl Unit) :=
    (steady_write_of (fun _ _ => trivial) _ _).keeps
  refine wp_seq (wp_between hrequest fun _ hc => hc) (fun _ t₁ w₁ h₁ => ?_) fun _ _ _ _ => trivial
  obtain ⟨-, rfl⟩ := h₁
  refine wp_seq (wp_readEverythingFile_checked fuel) (fun assembled t₂ w₂ h₂ => ?_) fun _ _ _ h => h
  obtain ⟨payloads, rfl, hall⟩ := h₂
  rw [List.nil_append]
  cases hutf : fromUtf8 payloads.flatten with
  | none => trivial
  | some filesStr =>
    refine (wp_bind (orThrow (.ok filesStr)) _).mpr ((wp_orThrow_ok filesStr).mpr ?_)
    cases hjson : Crates.listingFromJson filesStr with
    | error e => trivial
    | ok everythingFile =>
      refine (wp_bind (orThrow (orErr id (.ok everythingFile))) _).mpr ?_
      refine ⟨payloads, hall, ?_⟩
      unfold parseListing
      rw [hutf]
      show (orErr id (Crates.listingFromJson filesStr) >>= fun everythingFile =>
        .ok (resetFileSizeString (removeInvalidFiles everythingFile))) = _
      rw [hjson]
      rfl

end Listing

/-! ## 8. What an uploader sends -/

section Transfers

variable {K : Suite} {file : FileContent} {everythingFile chosen : SharedFile} {path : Str} {seek : UInt64}
  {fuel : Nat} {t : Thread SingleUploader} {w : Serving} {tr : Transfer} {d : Thread SingleDownloader}

omit [Crates] in
/-- A message for each byte that is left, at most, and the last one. -/
theorem Upload.length_le {listed position : Nat} {messages : List (UInt16 × List UInt8)}
    (h : Upload file listed position messages) : messages.length ≤ file.bytes.length - position + 1 := by
  induction h with
  | last => simp
  | @chunk position bytes messages hreads _ hmore _ ih =>
    have hle := hreads.length_le
    rw [List.length_cons]
    omega

/-- **Which transfers are checked.** A listing always is. Of a file that an uploader sends on a request,
    nothing is written unchecked exactly where its last message is empty (nothing is left behind the
    position asked for, or the file is shorter than it is listed), or where the downloader takes its file
    to be finished before. What is sent where a run ends with an error are the first frames of these
    messages. -/
theorem transfer_checksummed_iff {mayFail : Prop} {json : List UInt8}
    {p : Prog (Thread SingleUploader) (Wire ⊕ UploaderCmd K) (Ans (@UploaderCmd.Ans K)) Exc RunLoopResult}
    {w' : Serving}
    (hrequest : w.coming =
      messageFrames (msgFileSelectionContinue, SingleUploader.requestPayload seek path))
    (hsmall : (SingleUploader.requestPayload seek path).length ≤ maxDataSize)
    (hlisted : getFileByPath path everythingFile = some chosen) (hfile : chosen.isDirectory = false)
    (hrunning : t.self.shouldShutdown = false) (hfuel : file.bytes.length < fuel)
    (hpending : w.pending < fuel)
    (hrun : Reach (SingleUploader.serving file.Reads mayFail False)
      ((SingleUploader.runLoop fuel everythingFile json : Up K RunLoopResult) t, w) (p, w'))
    (hend : p.issued = none) (hpath : tr.sharedFile.path = path) (hgoing : d.self.stopDownloading = false)
    (hnonce : d.encryptedStream.nonce + 2 * (file.bytes.length + 2) ≤ nonceMax) :
    (∀ bytes, ChecksummedList fuel d (pieces bytes)) ∧
    ∃ messages part, Upload file chosen.fileSize.toNat seek.toNat messages ∧
      part <+: messages.flatMap messageFrames ∧ w'.sent = w.sent ++ part ∧
      (∀ t', p = .ret .success t' → part = messages.flatMap messageFrames) ∧
      (ChecksummedFile fuel tr seek d messages ↔
        (file.bytes.length ≤ seek.toNat ∨ file.bytes.length < chosen.fileSize.toNat) ∨
          StopsEarly tr.expectedSize seek messages) := by
  refine ⟨checksummedList fuel d, ?_⟩
  have hiff : ∀ messages, Upload file chosen.fileSize.toNat seek.toNat messages →
      (ChecksummedFile fuel tr seek d messages ↔
        (file.bytes.length ≤ seek.toNat ∨ file.bytes.length < chosen.fileSize.toNat) ∨
          StopsEarly tr.expectedSize seek messages) := by
    intro messages hupload
    have hlength := hupload.length_le
    refine checksummedFile_iff hupload hgoing (by rw [hpath]; exact hsmall) (by omega) (by omega)
  have hwp := @SingleUploader.wp_runLoop_file K t w _ file everythingFile chosen path seek fuel mayFail json
    hrequest hsmall hlisted hfile hrunning hfuel hpending
  rcases reach_end hwp hrun hend with ⟨result, t', rfl, rfl, messages, hupload, hsent⟩ | ⟨e, t', rfl, h⟩
  · exact ⟨messages, _, hupload, List.prefix_refl _, hsent, fun _ _ => rfl, hiff messages hupload⟩
  · obtain ⟨-, -, messages, part, hupload, hpart, hsent⟩ := h
    exact ⟨messages, part, hupload, hpart, hsent, fun _ hret => (by cases hret), hiff messages hupload⟩

end Transfers

end Surroundings

/-- A downloader that is to download the file "a". -/
def freshDownloader : Thread SingleDownloader :=
  ⟨.new freshStream.sharedUser [] false none (homeConfig []), freshStream⟩

theorem freshDownloader_nonce : freshDownloader.encryptedStream.nonce = 0 := rfl

/-- The transfer of the file "a" of this size. -/
def transferOf (size : UInt64) : Transfer :=
  { downloadDir := [], destinationPath := ['a'], sharedFile := ⟨['a'], false, [], size, []⟩
    queueDownload := { path := ['a'], fileSize := size } }

/-- The file of three bytes that is listed with five is never written unchecked. -/
theorem transfer_checksummed_threeBytes : ∃ p w' messages part,
    Reach (SingleUploader.serving SingleUploader.threeBytes.Reads False False)
      ((@SingleUploader.runLoop (symbolic id) idleCrates 4 SingleUploader.threeBytesListing [])
        SingleUploader.freshUploader, SingleUploader.threeBytesRequest) (p, w') ∧
    w'.sent = part ∧ part <+: messages.flatMap (@messageFrames idleCrates) ∧
    @ChecksummedFile idleCrates 4 (transferOf 5) 1 freshDownloader messages := by
  have hsmall : (SingleUploader.requestPayload 1 ['a']).length ≤ maxDataSize := by decide
  have hlisted : getFileByPath ['a'] SingleUploader.threeBytesListing =
      some ⟨['a'], false, [], 5, []⟩ := by rfl
  have hwp := @SingleUploader.wp_runLoop_file (symbolic id) SingleUploader.freshUploader
    SingleUploader.threeBytesRequest idleCrates SingleUploader.threeBytes SingleUploader.threeBytesListing _
    ['a'] 1 4 False [] rfl hsmall hlisted rfl rfl (by decide) (by decide)
  obtain ⟨p, w', hrun, hend⟩ := reach_some_end (SingleUploader.serving_total fun position =>
    ⟨⟨_, List.length_take_le _ _⟩, SingleUploader.threeBytes.reads_take position⟩) hwp
  have hissued : p.issued = none := by
    rcases hend with ⟨a, s', rfl, -⟩ | ⟨e, s', rfl, -⟩
    · rfl
    · rfl
  have hnonce : freshDownloader.encryptedStream.nonce +
      2 * (SingleUploader.threeBytes.bytes.length + 2) ≤ nonceMax := by
    rw [freshDownloader_nonce, nonceMax_eq]
    decide
  obtain ⟨-, messages, part, -, hpart, hsent, -, hiff⟩ := @transfer_checksummed_iff idleCrates (symbolic id)
    SingleUploader.threeBytes SingleUploader.threeBytesListing _ ['a'] 1 4 SingleUploader.freshUploader
    SingleUploader.threeBytesRequest (transferOf 5) freshDownloader False [] p w' rfl hsmall hlisted rfl rfl
    (by decide) (by decide) hrun hissued rfl rfl hnonce
  refine ⟨p, w', messages, part, hrun, hsent, hpart, ?_⟩
  rw [hiff]
  exact .inl (.inr (by decide))

/-- A file of one byte. -/
def oneByte : FileContent := ⟨[7], by decide⟩

/-- **Its only message is written unchecked.** -/
theorem lastChunk_unchecked : Upload oneByte 1 0 [(msgFileFinished, [7])] ∧
    ¬ @ChecksummedFile idleCrates 1 (transferOf 1) 0 freshDownloader [(msgFileFinished, [7])] := by
  have hupload : Upload oneByte 1 0 [(msgFileFinished, [7])] :=
    .last ⟨List.prefix_refl _, by simp⟩ (by decide) (.inl (by decide))
  have hnonce : freshDownloader.encryptedStream.nonce + 2 +
      2 * [((msgFileFinished, [7]) : UInt16 × List UInt8)].length ≤ nonceMax := by
    rw [freshDownloader_nonce, nonceMax_eq]
    decide
  refine ⟨hupload, ?_⟩
  rw [@checksummedFile_iff idleCrates oneByte 1 0 1 (transferOf 1) freshDownloader _ 0 hupload rfl
    (by decide) hnonce (by decide)]
  intro hspared
  rcases hspared with (hle | hlt) | hearly
  · exact absurd hle (by decide)
  · exact absurd hlt (by decide)
  · exact hearly

end Transmitic
