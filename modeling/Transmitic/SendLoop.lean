/-
  File:      Transmitic/SendLoop.lean
  Subject:   WHAT THE SEND LOOP SENDS OF A FILE. The listing and the file may disagree: the file may be
             shorter or longer than listed, and a read may return less than it could.

  * `Serving`, `serving` -- the surroundings of an uploader that answers a request: the peer's frames,
    the file, the channel;
  * `FileContent` -- a file, and what may be read of it at a position;
  * `messageFrames`, `UploadMessages` -- the messages of an upload, and what is true of them;
  * `wp_write_serving`, `wp_sendFile` -- **the specifications of a message and of the loop**;
  * `serveFile_sends` -- a request for a file, answered.
-/
import Transmitic.FrameReader
import Transmitic.Handshake
import Transmitic.ConfigDir
import Transmitic.SingleUploader

namespace Transmitic

open Lib

/-! ## 1. Surroundings -/

/-- The offset in the open file, the frames written so far, the frames of the peer still to come, and how
    many control messages there may still be. -/
structure Serving where
  position : Nat
  sent : List (List UInt8)
  coming : List (List UInt8)
  pending : Nat

/-- An offset in a file is a signed number of 64 bits. -/
def maxPosition : Nat := 2 ^ 63

namespace SingleUploader

variable {K : Suite}

/-- An uploader answers a request: `reads` says what may be read of the file at a position, `mayFail`
    that system calls and the connection may fail, `mayStop` that the uploader may be shut down. -/
def serving (reads : Nat → List UInt8 → Prop) (mayFail mayStop : Prop) :
    Env (Thread SingleUploader) (Wire ⊕ UploaderCmd K) (Ans (@UploaderCmd.Ans K)) Serving where
  ok _ _ c :=
    match c with
    | .inl _ => True
    | .inr .tryRecv | .inr (.app _) | .inr .progressElapsed | .inr (.reverseListPush _) => True
    | .inr (.fileOpen _) | .inr (.fileSeek _) | .inr .fileRead => True
    | _ => False
  step w _ c a w' :=
    match c, a with
    | .inl (.seal _ plain), a =>
      a = Sealed.done ∧ w' = { w with sent := w.sent ++ [plain] } ∨ mayFail ∧ a ≠ Sealed.done ∧ w' = w
    | .inl (.unseal _ size), .plain bytes =>
      bytes.length + cryptoExtensionSize = size ∧ w.coming = bytes :: w'.coming ∧
        w' = { w with coming := w'.coming }
    | .inl (.unseal _ size), _ =>
      (mayFail ∨ ∀ bytes ∈ w.coming.head?, bytes.length + cryptoExtensionSize ≠ size) ∧ w' = w
    | .inr .tryRecv, .value m =>
      (m = .shutdownConn → mayStop) ∧ w.pending = w'.pending + 1 ∧ w' = { w with pending := w'.pending }
    | .inr .tryRecv, .empty => w' = w
    | .inr .tryRecv, .disconnected => mayStop ∧ w' = w
    | .inr (.fileOpen _), .ok _ => w' = { w with position := 0 }
    | .inr (.fileOpen _), .error _ => mayFail ∧ w' = w
    | .inr (.fileSeek position), .ok _ =>
      position.toNat < maxPosition ∧ w' = { w with position := position.toNat }
    | .inr (.fileSeek position), .error _ => (mayFail ∨ maxPosition ≤ position.toNat) ∧ w' = w
    | .inr .fileRead, .ok bytes =>
      reads w.position bytes.1 ∧ w' = { w with position := w.position + bytes.1.length }
    | .inr .fileRead, .error _ => mayFail ∧ w' = w
    | _, _ => w' = w

/-- Everything is answered, where something may be read at every position. -/
theorem serving_total {reads : Nat → List UInt8 → Prop} {mayFail mayStop : Prop}
    (hreads : ∀ position, ∃ bytes : ReadBytes, reads position bytes.1) (w : Serving)
    (t : Thread SingleUploader) (c : Wire ⊕ UploaderCmd K)
    (hok : (serving reads mayFail mayStop).ok w t c) :
    ∃ a w', (serving reads mayFail mayStop).step w t c a w' := by
  match c, hok with
  | .inl (.seal _ plain), _ => exact ⟨.done, _, .inl ⟨rfl, rfl⟩⟩
  | .inl (.unseal _ size), _ =>
    by_cases hframe : ∃ bytes rest, w.coming = bytes :: rest ∧ bytes.length + cryptoExtensionSize = size
    · obtain ⟨bytes, rest, hcoming, hsize⟩ := hframe
      exact ⟨.plain bytes, { w with coming := rest }, hsize, hcoming, rfl⟩
    · refine ⟨.io [], w, .inr fun bytes hbytes hsize => hframe ?_, rfl⟩
      obtain ⟨rest, hcoming⟩ := List.head?_eq_some_iff.mp hbytes
      exact ⟨bytes, rest, hcoming, hsize⟩
  | .inr .tryRecv, _ => exact ⟨.empty, w, rfl⟩
  | .inr (.app _), _ => exact ⟨(), w, rfl⟩
  | .inr .progressElapsed, _ => exact ⟨false, w, rfl⟩
  | .inr (.reverseListPush _), _ => exact ⟨(), w, rfl⟩
  | .inr (.fileOpen _), _ => exact ⟨.ok (), _, rfl⟩
  | .inr (.fileSeek position), _ =>
    rcases Nat.lt_or_ge position.toNat maxPosition with hlt | hge
    · exact ⟨.ok (), _, hlt, rfl⟩
    · exact ⟨.error [], w, .inr hge, rfl⟩
  | .inr .fileRead, _ =>
    obtain ⟨bytes, hbytes⟩ := hreads w.position
    exact ⟨.ok bytes, _, hbytes, rfl⟩

/-- Where nothing has to fail, nothing need fail. -/
theorem serving_calm {reads : Nat → List UInt8 → Prop} {mayFail mayStop : Prop} (w : Serving)
    (t : Thread SingleUploader) (c : Wire ⊕ UploaderCmd K) (a : Ans (@UploaderCmd.Ans K) c)
    (w' : Serving) (h : (serving reads False False).step w t c a w') :
    (serving reads mayFail mayStop).step w t c a w' := by
  match c, a with
  | .inl (.seal _ plain), a => exact h.imp_right fun h => h.1.elim
  | .inl (.unseal _ size), .plain bytes => exact h
  | .inl (.unseal _ size), .io _ => exact ⟨.inr (h.1.resolve_left id), h.2⟩
  | .inl (.unseal _ size), .rejected _ => exact ⟨.inr (h.1.resolve_left id), h.2⟩
  | .inr .tryRecv, .value m => exact ⟨fun hm => (h.1 hm).elim, h.2⟩
  | .inr .tryRecv, .empty => exact h
  | .inr .tryRecv, .disconnected => exact h.1.elim
  | .inr (.fileOpen _), .ok _ => exact h
  | .inr (.fileOpen _), .error _ => exact h.1.elim
  | .inr (.fileSeek _), .ok _ => exact h
  | .inr (.fileSeek _), .error _ => exact ⟨.inr (h.1.resolve_left id), h.2⟩
  | .inr .fileRead, .ok _ => exact h
  | .inr .fileRead, .error _ => exact h.1.elim
  | .inr (.app _), _ => exact h
  | .inr (.sleep _), _ => exact h
  | .inr .progressElapsed, _ => exact h
  | .inr .exit, a => nomatch a
  | .inr .peerAddr, _ => exact h
  | .inr (.resolveAddress _ _), _ => exact h
  | .inr (.tcpConnect _), _ => exact h
  | .inr (.handshake _), _ => exact h
  | .inr (.reverseListContains _), _ => exact h
  | .inr (.reverseListPush _), _ => exact h
  | .inr .fileSystem, _ => exact h
  | .inr .shutdownStream, _ => exact h

end SingleUploader

/-! ## 2. The file -/

/-- The content of a file, which is no longer than offsets go. -/
structure FileContent where
  bytes : List UInt8
  length_lt : bytes.length < maxPosition

/-- A read returns some of what stands at the position; nothing only at the end of the file. -/
def FileContent.Reads (file : FileContent) (position : Nat) (bytes : List UInt8) : Prop :=
  bytes <+: file.bytes.drop position ∧ (bytes = [] → file.bytes.length ≤ position)

theorem FileContent.Reads.length_le {file : FileContent} {position : Nat} {bytes : List UInt8}
    (h : file.Reads position bytes) : bytes.length ≤ file.bytes.length - position := by
  have hle := h.1.length_le
  rwa [List.length_drop] at hle

/-- A full read. -/
theorem FileContent.reads_take (file : FileContent) (position : Nat) :
    file.Reads position ((file.bytes.drop position).take maxDataSize) := by
  refine ⟨List.take_prefix _ _, fun h => ?_⟩
  have hlen := congrArg List.length h
  have hpos : 0 < maxDataSize := by decide
  simp only [List.length_take, List.length_drop, List.length_nil] at hlen
  omega

/-! ## 3. The messages of an upload -/

/-- The frames of a message. -/
def messageFrames [Crates] (m : UInt16 × List UInt8) : List (List UInt8) :=
  header m.1 m.2.length :: if m.2 = [] then [] else [body m.1 m.2]

/-- Messages that make up the upload of a file from a position on, where the listing says it is `listed`
    bytes long. -/
structure UploadMessages (file : FileContent) (listed position : Nat)
    (messages : List (UInt16 × List UInt8)) : Prop where
  small : ∀ m ∈ messages, m.2.length ≤ maxDataSize
  /-- There is one FINISHED message, the last one; before it there are chunks, none of them empty. -/
  final : ∃ chunks last, messages = chunks ++ [(msgFileFinished, last)] ∧
    ∀ m ∈ chunks, m.1 = msgFileChunk ∧ m.2 ≠ []
  content : messages.flatMap Prod.snd <+: file.bytes.drop position
  reaches : min listed file.bytes.length ≤ position + (messages.flatMap Prod.snd).length
  within : position < listed →
    (messages.flatMap Prod.snd).length < listed - position + maxDataSize

namespace UploadMessages

variable {file : FileContent} {listed position : Nat} {bytes : List UInt8}
  {messages : List (UInt16 × List UInt8)}

/-- The last message: the listed size is reached, or there is nothing left. -/
theorem last (hreads : file.Reads position bytes) (hsmall : bytes.length ≤ maxDataSize)
    (hend : listed ≤ position + bytes.length ∨ bytes.length = 0) :
    UploadMessages file listed position [(msgFileFinished, bytes)] where
  small m hm := by
    rw [List.mem_singleton] at hm
    rw [hm]
    exact hsmall
  final := ⟨[], bytes, rfl, fun m hm => absurd hm List.not_mem_nil⟩
  content := by simpa using hreads.1
  reaches := by
    rcases hend with hend | hend
    · simp only [List.flatMap_cons, List.flatMap_nil, List.append_nil]
      omega
    · have hle := hreads.2 (List.length_eq_zero_iff.mp hend)
      omega
  within := by
    simp only [List.flatMap_cons, List.flatMap_nil, List.append_nil]
    omega

/-- A chunk: there is something left, and the listed size is not reached. -/
theorem chunk (h : UploadMessages file listed (position + bytes.length) messages)
    (hreads : file.Reads position bytes) (hsmall : bytes.length ≤ maxDataSize)
    (hmore : ¬ (listed ≤ position + bytes.length ∨ bytes.length = 0)) :
    UploadMessages file listed position ((msgFileChunk, bytes) :: messages) where
  small m hm := by
    rcases List.mem_cons.mp hm with rfl | hm
    · exact hsmall
    · exact h.small m hm
  final := by
    obtain ⟨chunks, lastPayload, rfl, hchunks⟩ := h.final
    refine ⟨(msgFileChunk, bytes) :: chunks, lastPayload, rfl, fun m hm => ?_⟩
    rcases List.mem_cons.mp hm with rfl | hm
    · exact ⟨rfl, fun hnil => hmore (.inr (by simp only at hnil; simp [hnil]))⟩
    · exact hchunks m hm
  content := by
    have hdrop : file.bytes.drop position = bytes ++ file.bytes.drop (position + bytes.length) := by
      obtain ⟨rest, hrest⟩ := hreads.1
      rw [← List.drop_drop, ← hrest, List.drop_left]
    rw [List.flatMap_cons, hdrop]
    exact (List.prefix_append_right_inj bytes).mpr h.content
  reaches := by
    have hreaches := h.reaches
    simp only [List.flatMap_cons, List.length_append]
    omega
  within _ := by
    have hwithin := h.within (by omega)
    simp only [List.flatMap_cons, List.length_append]
    omega

end UploadMessages

/-- The messages of an upload, read by read: the last one where the listed size is reached or nothing is
    left, and a chunk before. -/
inductive Upload (file : FileContent) (listed : Nat) : Nat → List (UInt16 × List UInt8) → Prop where
  | last {position : Nat} {bytes : List UInt8} (hreads : file.Reads position bytes)
      (hsmall : bytes.length ≤ maxDataSize) (hend : listed ≤ position + bytes.length ∨ bytes.length = 0) :
      Upload file listed position [(msgFileFinished, bytes)]
  | chunk {position : Nat} {bytes : List UInt8} {messages : List (UInt16 × List UInt8)}
      (hreads : file.Reads position bytes) (hsmall : bytes.length ≤ maxDataSize)
      (hmore : ¬ (listed ≤ position + bytes.length ∨ bytes.length = 0))
      (h : Upload file listed (position + bytes.length) messages) :
      Upload file listed position ((msgFileChunk, bytes) :: messages)

namespace Upload

variable {file : FileContent} {listed position : Nat} {messages : List (UInt16 × List UInt8)}

/-- Over the reads. -/
theorem uploadMessages (h : Upload file listed position messages) :
    UploadMessages file listed position messages := by
  induction h with
  | last hreads hsmall hend => exact .last hreads hsmall hend
  | chunk hreads hsmall hmore _ ih => exact ih.chunk hreads hsmall hmore

/-- From every position there is an upload: by full reads. Over what is left of the file. -/
theorem exists_upload (file : FileContent) (listed : Nat) (position : Nat) :
    ∃ messages, Upload file listed position messages := by
  have hreads := file.reads_take position
  have hsmall : ((file.bytes.drop position).take maxDataSize).length ≤ maxDataSize :=
    List.length_take_le _ _
  by_cases hend : listed ≤ position + ((file.bytes.drop position).take maxDataSize).length ∨
      ((file.bytes.drop position).take maxDataSize).length = 0
  · exact ⟨_, .last hreads hsmall hend⟩
  · have hle := hreads.length_le
    obtain ⟨messages, h⟩ := exists_upload file listed
      (position + ((file.bytes.drop position).take maxDataSize).length)
    exact ⟨_, .chunk hreads hsmall hend h⟩
termination_by file.bytes.length - position
decreasing_by omega

end Upload

/-! ## 4. The parts of an answer -/

/-- Frames are sent. -/
def Serving.send (w : Serving) (frames : List (List UInt8)) : Serving :=
  { w with sent := w.sent ++ frames }

namespace SingleUploader

variable {K : Suite} {reads : Nat → List UInt8 → Prop} {mayFail mayStop : Prop}
  {t : Thread SingleUploader} {w : Serving}

/-- **A message**: its frames are sent, or some of them where the connection fails. -/
theorem wp_write_serving [Crates] {msg : UInt16} {payload : List UInt8}
    {Q : Unit → Thread SingleUploader → Serving → Prop}
    {R : Exc → Thread SingleUploader → Serving → Prop} (hsmall : payload.length ≤ maxDataSize)
    (hQ : ∀ t', t'.self = t.self → Q () t' (w.send (messageFrames (msg, payload))))
    (hR : ∀ e t' part, mayFail ∨ nonceMax ≤ t'.encryptedStream.nonce →
      part <+: messageFrames (msg, payload) → R (.err e) t' (w.send part)) :
    wp (serving reads mayFail mayStop) (write msg payload : Up K Unit) Q R t w := by
  have hfirst : [header msg payload.length] <+: messageFrames (msg, payload) :=
    List.prefix_append _ _
  refine wp_write_sealed (J := fun w' => w' = w.send [header msg payload.length]) (fits_of_small hsmall)
    (fun t' n _ => ⟨trivial, fun a w' hs => ?_⟩) (fun hnil t' w' ht hw' => ?_)
    (fun hne t' n w' _ hw' => ⟨trivial, fun a w'' hs => ?_⟩) fun e t' w' _ hw' hle => ?_
  · rcases hs with ⟨rfl, rfl⟩ | ⟨hfail, hno, rfl⟩
    · exact ⟨fun _ => rfl, fun hne => absurd rfl hne⟩
    · refine ⟨fun ha => absurd ha hno, fun _ e t'' _ => ?_⟩
      rw [show w' = w'.send [] by simp [Serving.send]]
      exact hR e t'' [] (.inl hfail) List.nil_prefix
  · have hframes : messageFrames (msg, payload) = [header msg payload.length] := by
      simp [messageFrames, hnil]
    rw [hw', ← hframes]
    exact hQ t' ht
  · have hframes : messageFrames (msg, payload) = [header msg payload.length, body msg payload] := by
      simp [messageFrames, hne]
    subst hw'
    rcases hs with ⟨rfl, rfl⟩ | ⟨hfail, hno, rfl⟩
    · have hsent : { w.send [header msg payload.length] with
          sent := (w.send [header msg payload.length]).sent ++ [body msg payload] } =
          w.send (messageFrames (msg, payload)) := by
        rw [hframes]
        simp [Serving.send]
      rw [hsent]
      refine ⟨fun _ => ⟨fun t'' ht => hQ t'' ht, fun e t'' _ hle => ?_⟩, fun hne => absurd rfl hne⟩
      exact hR e t'' _ (.inr hle) (List.prefix_refl _)
    · exact ⟨fun ha => absurd ha hno, fun _ e t'' _ => hR e t'' _ (.inl hfail) hfirst⟩
  · rw [hw']
    exact hR e t' _ (.inr hle) hfirst

/-- The frames of a message of the peer, with the checksum the peer made. -/
def requestFrames (msg : UInt16) (payload sum : List UInt8) : List (List UInt8) :=
  header msg payload.length :: if payload = [] then [] else [summed msg payload sum]

theorem messageFrames_eq [Crates] (msg : UInt16) (payload : List UInt8) :
    messageFrames (msg, payload) =
      requestFrames msg payload (beBytes crcSize (Crates.crc32 payload).toNat) := by
  simp [messageFrames, requestFrames, body_eq_summed]

/-- The buffer holds a message of the peer: its type, and its payload or the error of a wrong checksum. -/
structure Arrived [Crates] (es : EncryptedStream) (msg : UInt16) (payload sum : List UInt8) : Prop where
  message : es.getMessage = msg
  taken : RightSum msg payload sum → es.getPayload = .ok payload
  mismatch : ¬ RightSum msg payload sum → ∃ text, es.getPayload = .error (.err text)

/-- A frame of the peer. -/
theorem wp_readFrame_serving {frame : List UInt8} {coming : List (List UInt8)} {size : Nat}
    {error : Str} {Q : List UInt8 → Thread SingleUploader → Serving → Prop}
    {R : Exc → Thread SingleUploader → Serving → Prop} (hcoming : w.coming = frame :: coming)
    (hsize : frame.length + cryptoExtensionSize = size) (hle : size ≤ totalCryptoBufferSize)
    (hQ : Q frame t { w with coming }) (hR : mayFail → ∀ e, R (.err e) t w) :
    wp (serving reads mayFail mayStop) (readFrame size error : Up K (List UInt8)) Q R t w := by
  refine (wp_bind _ _).mpr ((wp_throwIf _ _).mpr ?_)
  rw [if_neg (Nat.not_lt.mpr hle)]
  have hfail : (mayFail ∨ ∀ bytes ∈ w.coming.head?, bytes.length + cryptoExtensionSize ≠ size) →
      mayFail := fun h => h.resolve_right fun hno => hno frame (by rw [hcoming]; rfl) hsize
  refine (wp_bind _ _).mpr ((wp_bind _ _).mpr ⟨trivial, fun a w' hs => ?_⟩)
  cases a with
  | plain bytes =>
    obtain ⟨-, hbytes, hw'⟩ := hs
    rw [hcoming] at hbytes
    obtain ⟨rfl, hrest⟩ := List.cons.inj hbytes
    rw [hw', ← hrest]
    exact hQ
  | io e =>
    obtain ⟨hcause, rfl⟩ := hs
    exact hR (hfail hcause) e
  | rejected e =>
    obtain ⟨hcause, rfl⟩ := hs
    exact hR (hfail hcause) _

/-- **A message of the peer is read.** -/
theorem wp_read_serving [Crates] {msg : UInt16} {payload sum : List UInt8}
    {Q : Unit → Thread SingleUploader → Serving → Prop}
    {R : Exc → Thread SingleUploader → Serving → Prop}
    (hcoming : w.coming = requestFrames msg payload sum) (hsmall : payload.length ≤ maxDataSize)
    (hsum : sum.length = crcSize)
    (hQ : ∀ t', t'.self = t.self → t.encryptedStream.nonce + frameCount payload ≤ nonceMax →
      Arrived t'.encryptedStream msg payload sum → Q () t' { w with coming := [] })
    (hR : ∀ e t' coming, mayFail ∨ nonceMax < t.encryptedStream.nonce + frameCount payload ∧
      nonceMax ≤ t'.encryptedStream.nonce → R (.err e) t' { w with coming }) :
    wp (serving reads mayFail mayStop) (read : Up K Unit) Q R t w := by
  have hlt32 : payload.length < 2 ^ 32 := Nat.lt_of_le_of_lt hsmall (by decide)
  have hlen := length_header msg payload.length
  have hmsgOf : msgOf (header msg payload.length) = msg := by
    simpa using msgOf_header msg payload.length []
  have hsizeOf : sizeOf' (header msg payload.length) = payload.length := by
    simpa using sizeOf'_header hlt32 msg []
  refine (wp_bind _ _).mpr (wp_readFrame_serving hcoming (by rw [hlen]) (by decide) ?_ fun hf e =>
    hR e t w.coming (.inl hf))
  refine (wp_bind _ _).mpr (wp_copyToBuffer (by rw [hlen]; decide) fun buffer₁ hbuffer₁ => ?_)
  rw [List.take_zero, List.nil_append] at hbuffer₁
  refine (wp_bind _ _).mpr (wp_incrementNonce (fun hlt => ?_) fun hge e => ?_)
  rotate_left
  · refine hR e _ _ (.inr ⟨?_, hge⟩)
    have hpos := frameCount_pos payload
    have hge : nonceMax ≤ t.encryptedStream.nonce := hge
    omega
  have hlt : t.encryptedStream.nonce < nonceMax := hlt
  generalize hes : { t.encryptedStream with
    buffer := buffer₁, nonce := t.encryptedStream.nonce + 1 } = es₁
  have hbytes₁ : es₁.buffer.bytes = header msg payload.length ++
      t.encryptedStream.buffer.bytes.drop (0 + (header msg payload.length).length) := by
    rw [← hes]
    exact hbuffer₁
  have hsize := payloadSize_front hbytes₁ hlen
  have hmsg := getMessage_front hbytes₁ hlen
  rw [hsizeOf] at hsize
  rw [hmsgOf] at hmsg
  show wp _ (if es₁.payloadSize ≠ 0 then _ else pure ()) Q R ⟨t.self, es₁⟩ _
  refine (wp_ite _ _ _).mpr ?_
  rw [hsize]
  by_cases hnil : payload = []
  · rw [if_neg (by simp [hnil])]
    have hholds := holds_header hbytes₁ hlen (by rw [hsizeOf, hnil]; rfl)
    rw [hmsgOf] at hholds
    have hcount : frameCount payload = 1 := if_pos hnil
    rw [if_pos hnil]
    refine hQ ⟨t.self, es₁⟩ rfl (by omega) ⟨hholds.message, fun _ => ?_, fun hwrong => ?_⟩
    · rw [hnil]
      exact hholds.payload
    · exact absurd (fun _ hne => absurd hnil hne) hwrong
  · have hne : payload.length ≠ 0 := fun h => hnil (List.length_eq_zero_iff.mp h)
    have hcount : frameCount payload = 2 := if_neg hnil
    have hsummed : (summed msg payload sum).length =
        payload.length + if EncryptedStream.isCrcPayload msg then crcSize else 0 := by
      unfold summed
      split
      · rw [List.length_append, hsum]
      · simp
    have hfits : (summed msg payload sum).length ≤ maxDataSize + crcSize := by
      rw [hsummed]
      split
      · omega
      · omega
    have htotal : totalBufferSize = payloadOffset + maxDataSize + crcSize := rfl
    have hcrypto : totalCryptoBufferSize = totalBufferSize + cryptoExtensionSize := rfl
    rw [if_pos hne]
    simp only [hmsg]
    refine (wp_bind _ _).mpr (wp_readFrame_serving (show _ = summed msg payload sum :: [] by
      rw [if_neg hnil]) (by rw [hsummed]; omega) (by omega) ?_ fun hf e => hR e _ _ (.inl hf))
    refine (wp_bind _ _).mpr (wp_copyToBuffer (by rw [hlen]; omega) fun buffer₂ hbuffer₂ => ?_)
    have hbytes₂ : buffer₂.bytes = header msg payload.length ++ (summed msg payload sum ++
        es₁.buffer.bytes.drop ((header msg payload.length).length + (summed msg payload sum).length)) := by
      rw [hbuffer₂, hbytes₁, List.take_left]
    refine wp_incrementNonce (fun hlt₂ => ?_) fun hge e => hR e _ _ (.inr ⟨?_, hge⟩)
    · have hsummedAt : { es₁ with buffer := buffer₂ }.buffer.bytes = header msg payload.length ++
          (summed (msgOf (header msg payload.length)) payload sum ++ es₁.buffer.bytes.drop
            ((header msg payload.length).length + (summed msg payload sum).length)) := by
        rw [hmsgOf]
        exact hbytes₂
      have harrived := @getPayload_summed { es₁ with buffer := buffer₂, nonce := es₁.nonce + 1 } _ _ _
        _ _ hsum hsummedAt hlen hsizeOf
      rw [hmsgOf] at harrived
      refine hQ _ rfl ?_ ⟨?_, harrived.1, harrived.2⟩
      · have hlt₂ : es₁.nonce < nonceMax := hlt₂
        rw [← hes] at hlt₂
        have hlt₂ : t.encryptedStream.nonce + 1 < nonceMax := hlt₂
        omega
      · exact (getMessage_front hsummedAt hlen).trans hmsgOf
    · have hge : nonceMax ≤ es₁.nonce := hge
      rw [← hes] at hge
      have hge : nonceMax ≤ t.encryptedStream.nonce + 1 := hge
      omega

/-- **A look at the channel** takes some of the control messages. -/
theorem wp_readReceiver_serving {Q : Unit → Thread SingleUploader → Serving → Prop}
    {R : Exc → Thread SingleUploader → Serving → Prop} :
    ∀ (fuel : Nat) {t : Thread SingleUploader} {w : Serving}, w.pending < fuel →
    (∀ stop pending, pending ≤ w.pending → (t.self.shouldShutdown = true → stop = true) →
      (stop = true → t.self.shouldShutdown = true ∨ mayStop) →
      Q () { t with self := { t.self with shouldShutdown := stop } } { w with pending }) →
    wp (serving reads mayFail mayStop) (readReceiver fuel : Up K Unit) Q R t w
  | 0, _, _, h, _ => absurd h (Nat.not_lt_zero _)
  | fuel + 1, t, w, h, hQ => by
    refine (wp_bind _ _).mpr ⟨trivial, fun a w' hs => ?_⟩
    cases a with
    | value m =>
      obtain ⟨hstop, hpending, hw'⟩ := hs
      rw [hw']
      have hless : w'.pending < fuel := by omega
      cases m with
      | shutdownConn =>
        refine wp_readReceiver_serving (Q := Q) fuel
          (t := { t with self := { t.self with shouldShutdown := true } })
          (w := { w with pending := w'.pending }) hless fun stop pending hle hstays _ => ?_
        exact hQ stop pending (by simp only at hle; omega) (fun _ => hstays rfl) fun _ => .inr (hstop rfl)
      | doNothing =>
        refine wp_readReceiver_serving (Q := Q) fuel (t := t)
          (w := { w with pending := w'.pending }) hless fun stop pending hle hstays hcause => ?_
        exact hQ stop pending (by simp only at hle; omega) hstays hcause
    | empty =>
      obtain rfl : w' = w := hs
      exact hQ t.self.shouldShutdown w'.pending (Nat.le_refl _) (fun h => h) fun h => .inl h
    | disconnected =>
      obtain ⟨hstop, rfl⟩ := hs
      exact hQ true w'.pending (Nat.le_refl _) (fun _ => rfl) fun _ => .inr hstop

section Progress

variable {Q : Unit → Thread SingleUploader → Serving → Prop}
  {R : Exc → Thread SingleUploader → Serving → Prop} {path : Str}

theorem wp_uploadState_serving {percent : UInt64} (hQ : Q () t w) :
    wp (serving reads mayFail mayStop) (uploadState path percent : Up K Unit) Q R t w := by
  refine (wp_bind _ _).mpr ⟨trivial, fun _ w' hs => ?_⟩
  obtain rfl : w' = w := hs
  exact hQ

theorem wp_updateProgress_serving [Crates] {current fileSize : UInt64} (hQ : Q () t w) :
    wp (serving reads mayFail mayStop) (updateProgress path current fileSize : Up K Unit) Q R t w := by
  refine (wp_bind _ _).mpr ⟨trivial, fun (elapsed : Bool) w' hs => ?_⟩
  obtain rfl : w' = w := hs
  cases elapsed with
  | true => exact wp_uploadState_serving hQ
  | false => exact hQ

end Progress
/-! ## 5. The loop -/

/-- What has been sent where an upload breaks off. -/
def BrokenOff [Crates] (file : FileContent) (listed position : Nat) (sent sent' : List (List UInt8)) :
    Prop :=
  ∃ messages part, UploadMessages file listed position messages ∧
    part <+: messages.flatMap messageFrames ∧ sent' = sent ++ part

/-- The same, with the upload read by read. -/
def CutOff [Crates] (file : FileContent) (listed position : Nat) (sent sent' : List (List UInt8)) : Prop :=
  ∃ messages part, Upload file listed position messages ∧
    part <+: messages.flatMap messageFrames ∧ sent' = sent ++ part

theorem CutOff.brokenOff [Crates] {file : FileContent} {listed position : Nat}
    {sent sent' : List (List UInt8)} (h : CutOff file listed position sent sent') :
    BrokenOff file listed position sent sent' := by
  obtain ⟨messages, part, hupload, hpart⟩ := h
  exact ⟨messages, part, hupload.uploadMessages, hpart⟩

theorem cutOff_refl [Crates] (file : FileContent) (listed position : Nat)
    (sent : List (List UInt8)) : CutOff file listed position sent sent := by
  obtain ⟨messages, h⟩ := Upload.exists_upload file listed position
  exact ⟨messages, [], h, List.nil_prefix, by simp⟩

/-- **The loop over the chunks** sends an upload of what is left. Over the passes; the counter of the sent
    bytes is the position in the file. -/
theorem wp_sendFile [Crates] {file : FileContent} {receiverFuel : Nat} {path : Str} {fileSize : UInt64} :
    ∀ (fuel : Nat) (current : UInt64) {t : Thread SingleUploader} {w : Serving},
    w.position = current.toNat → current.toNat < maxPosition →
    file.bytes.length - current.toNat < fuel → w.pending < receiverFuel →
    t.self.shouldShutdown = false →
    wp (serving file.Reads mayFail False) (sendFile receiverFuel path fileSize fuel current : Up K Bool)
      (fun sent _ w' => sent = true ∧ ∃ messages,
        Upload file fileSize.toNat current.toNat messages ∧
          w'.sent = w.sent ++ messages.flatMap messageFrames)
      (fun e t' w' => (∃ text, e = .err text) ∧ (mayFail ∨ nonceMax ≤ t'.encryptedStream.nonce) ∧
        CutOff file fileSize.toNat current.toNat w.sent w'.sent) t w
  | 0, _, _, _, _, _, hfuel, _, _ => absurd hfuel (Nat.not_lt_zero _)
  | fuel + 1, current, t, w, hposition, hcurrent, hfuel, hpending, hrunning => by
    refine (wp_bind _ _).mpr ⟨trivial, fun a w₁ hs => ?_⟩
    cases a with
    | error e =>
      obtain ⟨hfail, rfl⟩ := hs
      exact ⟨⟨_, rfl⟩, .inl hfail, cutOff_refl _ _ _ _⟩
    | ok bytes =>
      obtain ⟨bytes, hsmall⟩ := bytes
      obtain ⟨hreads, rfl⟩ := hs
      simp only [hposition] at hreads ⊢
      -- the counter does not wrap: it is a position in the file
      have hnat : (current + UInt64.ofNat bytes.length).toNat = current.toNat + bytes.length := by
        have hmax : maxDataSize = 100000 := rfl
        have hpos : maxPosition = 2 ^ 63 := rfl
        rw [UInt64.toNat_add, UInt64.toNat_ofNat']
        omega
      have hbound : current.toNat + bytes.length < maxPosition := by
        have hle := hreads.length_le
        have hlt := file.length_lt
        omega
      have hdone : (fileSize ≤ current + UInt64.ofNat bytes.length ∨ bytes.length = 0) ↔
          (fileSize.toNat ≤ current.toNat + bytes.length ∨ bytes.length = 0) := by
        rw [UInt64.le_iff_toNat_le, hnat]
      show wp _ (write (if fileSize ≤ current + UInt64.ofNat bytes.length ∨ bytes.length = 0 then
          msgFileFinished else msgFileChunk) bytes >>= fun _ =>
        if (if fileSize ≤ current + UInt64.ofNat bytes.length ∨ bytes.length = 0 then
          msgFileFinished else msgFileChunk) = msgFileFinished then pure true
        else updateProgress path (current + UInt64.ofNat bytes.length) fileSize >>= fun _ =>
          readReceiver receiverFuel >>= fun _ => self >>= fun u =>
          if u.shouldShutdown = true then pure false
          else sendFile receiverFuel path fileSize fuel (current + UInt64.ofNat bytes.length)) _ _ t _
      by_cases hend : fileSize.toNat ≤ current.toNat + bytes.length ∨ bytes.length = 0
      · rw [if_pos (hdone.mpr hend), if_pos rfl]
        have hupload := Upload.last hreads hsmall hend
        refine (wp_bind _ _).mpr (wp_write_serving hsmall (fun t' _ => ⟨rfl, _, hupload, ?_⟩)
          fun e t' part hcause hpart => ⟨⟨_, rfl⟩, hcause, _, part, hupload, ?_, rfl⟩)
        · simp [Serving.send]
        · simpa using hpart
      · rw [if_neg (fun h => hend (hdone.mp h)), if_neg (show msgFileChunk ≠ msgFileFinished by decide)]
        have hmore : 0 < bytes.length := by omega
        have hleft := hreads.length_le
        refine (wp_bind _ _).mpr (wp_write_serving hsmall (fun t' ht' => ?_)
          fun e t' part hcause hpart => ⟨⟨_, rfl⟩, hcause, ?_⟩)
        · refine (wp_bind _ _).mpr (wp_updateProgress_serving ?_)
          refine (wp_bind _ _).mpr (wp_readReceiver_serving receiverFuel hpending
            fun stop pending hle _ hstop => ?_)
          have hstop : stop = false := by
            rw [ht', hrunning] at hstop
            simpa using hstop
          subst hstop
          refine wp_conseq (wp_sendFile fuel (current + UInt64.ofNat bytes.length) ?_ ?_ ?_ ?_ rfl)
            (fun sent t'' w'' h'' => ?_) fun e t'' w'' h'' => ?_
          · rw [hnat]
            rfl
          · rw [hnat]
            exact hbound
          · rw [hnat]
            omega
          · exact Nat.lt_of_le_of_lt hle hpending
          · rw [hnat] at h''
            obtain ⟨hsent, messages, hupload, hw''⟩ := h''
            refine ⟨hsent, _, Upload.chunk hreads hsmall hend hupload, ?_⟩
            rw [hw'', List.flatMap_cons]
            exact List.append_assoc _ _ _
          · rw [hnat] at h''
            obtain ⟨htext, hcause, messages, part, hupload, hpart, hw''⟩ := h''
            refine ⟨htext, hcause, _, messageFrames (msgFileChunk, bytes) ++ part,
              Upload.chunk hreads hsmall hend hupload, ?_, ?_⟩
            · rw [List.flatMap_cons]
              exact (List.prefix_append_right_inj _).mpr hpart
            · rw [hw'']
              exact List.append_assoc _ _ _
        · obtain ⟨messages, hupload⟩ := Upload.exists_upload file fileSize.toNat
            (current.toNat + bytes.length)
          refine ⟨_, part, Upload.chunk hreads hsmall hend hupload, ?_, rfl⟩
          rw [List.flatMap_cons]
          exact hpart.trans (List.prefix_append _ _)

/-! ## 6. A request for a file -/

/-- The payload of a request: the position from which the file is wanted, and its path. -/
def requestPayload (seek : UInt64) (path : Str) : List UInt8 := beBytes 8 seek.toNat ++ utf8 path

section Request

variable [Crates] {file : FileContent} {everythingFile chosen : SharedFile} {path : Str}
  {seek : UInt64} {fuel : Nat}

theorem wp_serveFile
    (hpayload : t.encryptedStream.getPayload = .ok (requestPayload seek path))
    (hlisted : getFileByPath path everythingFile = some chosen) (hfile : chosen.isDirectory = false)
    (hfuel : file.bytes.length < fuel) (hpending : w.pending < fuel)
    (hrunning : t.self.shouldShutdown = false) :
    wp (serving file.Reads mayFail False) (serveFile fuel everythingFile : Up K Unit)
      (fun _ _ w' => ∃ messages, Upload file chosen.fileSize.toNat seek.toNat messages ∧
        w'.sent = w.sent ++ messages.flatMap messageFrames)
      (fun e t' w' => (∃ text, e = .err text) ∧
        (mayFail ∨ maxPosition ≤ seek.toNat ∨ nonceMax ≤ t'.encryptedStream.nonce) ∧
          CutOff file chosen.fileSize.toNat seek.toNat w.sent w'.sent) t w := by
  have hbroken := cutOff_refl file chosen.fileSize.toNat seek.toNat w.sent
  have hseek : slice (requestPayload seek path) 0 8 = some (beBytes 8 seek.toNat) :=
    slice_front (length_beBytes _ _)
  have hdrop : (requestPayload seek path).drop 8 = utf8 path := by
    rw [requestPayload]
    exact List.drop_left' (length_beBytes _ _)
  have hnat : ofBe (beBytes 8 seek.toNat) = seek.toNat :=
    ofBe_beBytes_of_lt (show seek.toNat < 256 ^ 8 from seek.toNat_lt)
  generalize requestPayload seek path = payload at hpayload hseek hdrop
  generalize beBytes 8 seek.toNat = seekBytes at hseek hnat
  refine (wp_bind _ _).mpr (wp_getPayload_of hpayload ?_)
  refine (wp_bind (orPanic (slice payload 0 8)) _).mpr ?_
  refine wp_orPanic_of hseek ?_
  dsimp only
  rw [hnat, UInt64.ofNat_toNat, hdrop, fromUtf8_utf8]
  refine (wp_bind (orThrow (.ok path)) _).mpr ((wp_orThrow_ok path).mpr ?_)
  rw [hlisted]
  simp only [hfile, Bool.false_eq_true, if_false]
  refine (wp_bind (command (.fileOpen path)) _).mpr ⟨trivial, fun a w₁ hs => ?_⟩
  cases a with
  | error e =>
    obtain ⟨hfail, rfl⟩ := hs
    exact ⟨⟨_, rfl⟩, .inl hfail, hbroken⟩
  | ok _ =>
    obtain rfl : w₁ = { w with position := 0 } := hs
    refine (wp_bind (command (.fileSeek seek)) _).mpr ⟨trivial, fun a w₂ hs => ?_⟩
    cases a with
    | error e =>
      obtain ⟨hcause, rfl⟩ := hs
      exact ⟨⟨_, rfl⟩, hcause.imp_right .inl, hbroken⟩
    | ok _ =>
      obtain ⟨hposition, rfl⟩ := hs
      refine (wp_bind (uploadState path 0) _).mpr (wp_uploadState_serving ?_)
      refine wp_seq (wp_sendFile fuel seek rfl hposition (by omega) hpending hrunning)
        (fun sent t' w' h' => ?_) fun e t' w' h' => ⟨h'.1, h'.2.1.imp_right .inr, h'.2.2⟩
      obtain ⟨rfl, messages, hupload, hsent⟩ := h'
      rw [if_pos rfl]
      exact wp_uploadState_serving ⟨messages, hupload, hsent⟩

theorem wp_runLoop_file {mayFail : Prop} {json : List UInt8}
    (hrequest : w.coming = messageFrames (msgFileSelectionContinue, requestPayload seek path))
    (hsmall : (requestPayload seek path).length ≤ maxDataSize)
    (hlisted : getFileByPath path everythingFile = some chosen) (hfile : chosen.isDirectory = false)
    (hrunning : t.self.shouldShutdown = false) (hfuel : file.bytes.length < fuel)
    (hpending : w.pending < fuel) :
    wp (serving file.Reads mayFail False) (runLoop fuel everythingFile json : Up K RunLoopResult)
      (fun result _ w' => result = .success ∧ ∃ messages,
        Upload file chosen.fileSize.toNat seek.toNat messages ∧
          w'.sent = w.sent ++ messages.flatMap messageFrames)
      (fun e t' w' => (∃ text, e = .err text) ∧
        (mayFail ∨ maxPosition ≤ seek.toNat ∨ nonceMax ≤ t'.encryptedStream.nonce) ∧
          CutOff file chosen.fileSize.toNat seek.toNat w.sent w'.sent) t w := by
  have hbroken := cutOff_refl file chosen.fileSize.toNat seek.toNat w.sent
  rw [messageFrames_eq] at hrequest
  refine (wp_bind read _).mpr (wp_read_serving hrequest hsmall (length_beBytes _ _)
    (fun t' ht' _ harrived => ?_) fun e t' coming hcause => ?_)
  rotate_left
  · exact ⟨⟨_, rfl⟩, hcause.imp_right fun h => .inr h.2, hbroken⟩
  refine (wp_bind (readReceiver fuel) _).mpr (wp_readReceiver_serving fuel hpending
    fun stop pending hle _ hstop => ?_)
  have hstop : stop = false := by
    rw [ht', hrunning] at hstop
    simpa using hstop
  subst hstop
  show wp _ (if t'.encryptedStream.getMessage = msgFileList then _ else _) _ _
    { t' with self := { t'.self with
      shouldShutdown := false, activeMsg := t'.encryptedStream.getMessage } } _
  rw [harrived.message, if_neg (by decide), if_pos rfl]
  exact wp_seq (wp_serveFile (harrived.taken (rightSum_own _ _)) hlisted hfile hfuel
    (Nat.lt_of_le_of_lt hle hpending) rfl) (fun _ t'' w'' h'' => ⟨rfl, h''⟩) fun _ _ _ h'' => h''

/-- **A request for a file is answered with an upload of the file**: at the end of every run. What is
    sent where the run ends with an error, which takes a failing system call, a position no file has, or
    a counter that has come to its end, are the first frames of one. -/
theorem runLoop_sends {mayFail : Prop} {json : List UInt8}
    {p : Prog (Thread SingleUploader) (Wire ⊕ UploaderCmd K) (Ans (@UploaderCmd.Ans K)) Exc RunLoopResult}
    {w' : Serving}
    (hrequest : w.coming = messageFrames (msgFileSelectionContinue, requestPayload seek path))
    (hsmall : (requestPayload seek path).length ≤ maxDataSize)
    (hlisted : getFileByPath path everythingFile = some chosen) (hfile : chosen.isDirectory = false)
    (hrunning : t.self.shouldShutdown = false) (hfuel : file.bytes.length < fuel)
    (hpending : w.pending < fuel)
    (hrun : Reach (serving file.Reads mayFail False)
      ((runLoop fuel everythingFile json : Up K RunLoopResult) t, w) (p, w'))
    (hend : p.issued = none) :
    (∃ t' messages, p = .ret .success t' ∧
      UploadMessages file chosen.fileSize.toNat seek.toNat messages ∧
        w'.sent = w.sent ++ messages.flatMap messageFrames) ∨
    ∃ text t', p = .fail (.err text) t' ∧
      (mayFail ∨ maxPosition ≤ seek.toNat ∨ nonceMax ≤ t'.encryptedStream.nonce) ∧
        BrokenOff file chosen.fileSize.toNat seek.toNat w.sent w'.sent := by
  have hwp := @wp_runLoop_file K t w _ file everythingFile chosen path seek fuel mayFail json hrequest
    hsmall hlisted hfile hrunning hfuel hpending
  rcases reach_end hwp hrun hend with ⟨result, t', rfl, rfl, messages, h⟩ | ⟨e, t', rfl, h⟩
  · exact .inl ⟨t', messages, rfl, h.1.uploadMessages, h.2⟩
  · obtain ⟨⟨text, rfl⟩, hcause, hcut⟩ := h
    exact .inr ⟨text, t', rfl, hcause, hcut.brokenOff⟩

end Request

/-- A file of three bytes, of which the listing says it has five. -/
def threeBytes : FileContent := ⟨[1, 2, 3], by decide⟩

def threeBytesListing : SharedFile := ⟨[], true, [⟨['a'], false, [], 5, []⟩], 0, []⟩

/-- A request for what is behind its first byte. -/
def threeBytesRequest : Serving :=
  { position := 0
    sent := []
    coming := @messageFrames idleCrates (msgFileSelectionContinue, requestPayload 1 ['a'])
    pending := 2 }

/-- An uploader on a fresh stream. -/
def freshUploader : Thread SingleUploader := ⟨.new (homeConfig []), freshStream⟩

/-- Nothing fails, unless the counter comes to its end. -/
theorem runLoop_sends_threeBytes : ∃ p w', Reach (serving threeBytes.Reads False False)
    ((@runLoop (symbolic id) idleCrates 4 threeBytesListing []) freshUploader, threeBytesRequest)
      (p, w') ∧
    ((∃ t' messages, p = .ret .success t' ∧ UploadMessages threeBytes 5 1 messages ∧
        w'.sent = messages.flatMap (@messageFrames idleCrates)) ∨
      ∃ text t', p = .fail (.err text) t' ∧ nonceMax ≤ t'.encryptedStream.nonce) := by
  have hsmall : (requestPayload 1 ['a']).length ≤ maxDataSize := by decide
  have hlisted : getFileByPath ['a'] threeBytesListing = some ⟨['a'], false, [], 5, []⟩ := by rfl
  have hwp := @wp_runLoop_file (symbolic id) freshUploader threeBytesRequest idleCrates threeBytes
    threeBytesListing _ ['a'] 1 4 False [] rfl hsmall hlisted rfl rfl (by decide) (by decide)
  obtain ⟨p, w', hrun, hend⟩ := reach_some_end (serving_total fun position =>
    ⟨⟨_, List.length_take_le _ _⟩, threeBytes.reads_take position⟩) hwp
  have hissued : p.issued = none := by
    rcases hend with ⟨a, s', rfl, -⟩ | ⟨e, s', rfl, -⟩
    · rfl
    · rfl
  refine ⟨p, w', hrun, ?_⟩
  rcases @runLoop_sends (symbolic id) freshUploader threeBytesRequest idleCrates threeBytes
    threeBytesListing _ ['a'] 1 4 False [] p w' rfl hsmall hlisted rfl rfl (by decide) (by decide) hrun
    hissued with ⟨t', messages, h⟩ | ⟨text, t', rfl, hcause, -⟩
  · exact .inl ⟨t', messages, h⟩
  · refine .inr ⟨text, t', rfl, ?_⟩
    rcases hcause with h | h | h
    · exact h.elim
    · exact absurd h (by decide)
    · exact h

end SingleUploader

end Transmitic
