/-
  File:      Transmitic/SharerServes.lean
  Subject:   THE SHARER SERVES WHAT IT LISTS.

  The downloader holds a queue of any paths and goes by the listing in its cache. The sharer answers a
  request for a path it does not find with a refusal, on which the downloader gets the listing anew and
  starts over. Were the sharer to refuse what stands in its own listing, this would go on for ever.

  * `Dealings`, `sharing` -- the surroundings of a downloader whose peer goes by one listing: what comes of
    a request for the listing, and which requests may be refused;
  * `Inquiry`, `inquiring` -- the surroundings of an uploader: which file the last message asks for;
  * `deals_runThread` -- **a downloader that has received the listing asks for files the sharer finds**;
  * `answers_serveRequests` -- **an uploader refuses only what it does not find as a file**;
  * `sharer_serves` -- both, for every listing a sharer makes.
-/
import Transmitic.RequestedFiles
import Transmitic.DownloaderSession
import Transmitic.FileList
import Transmitic.SendLoop
import Transmitic.UploaderMethods

namespace Transmitic

open Lib SingleUploader

/-! ## 1. The downloader and its peer -/

/-- What has passed between a downloader and a peer. -/
structure Dealings where
  /-- The frames still to come of a listing that was asked for. -/
  coming : List (List UInt8)
  /-- The file that was asked for, while its answer has not begun. -/
  asked : Option Str
  /-- The files that were refused. -/
  refused : List Str
  /-- The listing that was put into the cache last. -/
  cached : Option SharedFile
  /-- Has a listing been received? -/
  arrived : Bool

/-- The path in the second frame of a request. -/
def requestedPath (plain : List UInt8) : Option Str :=
  fromUtf8 ((plain.take (plain.length - crcSize)).drop 8)

/-- A frame is written: the first one of a message, or a request for a file. -/
def Dealings.write (frames : List (List UInt8)) (w : Dealings) (plain : List UInt8) : Dealings :=
  if plain.length = payloadOffset then
    { w with coming := if msgOf plain = msgFileList then frames else [], asked := none }
  else { w with asked := requestedPath plain }

/-- A frame comes: the next one of the listing, or the first one of the answer to a request. It is a refusal
    only where the listing has no node with the path. -/
def Dealings.Hears (listing : SharedFile) (w : Dealings) (bytes : List UInt8) (w' : Dealings) : Prop :=
  match w.coming, w.asked with
  | frame :: rest, _ => bytes = frame ∧ w' = { w with coming := rest }
  | [], some path =>
    (msgOf bytes = msgFileInvalidFile → getFileByPath path listing = none) ∧
      w' = { w with
        asked := none
        refused := if msgOf bytes = msgFileInvalidFile then path :: w.refused else w.refused }
  | [], none => w' = w

/-- A second frame is a request; once a listing has been received it is one for a file the peer finds, and
    not one that was refused. -/
def Dealings.Admits [Crates] (listing : SharedFile) (w : Dealings) (plain : List UInt8) : Prop :=
  plain.length = payloadOffset ∨ ∃ seek path,
    plain = body msgFileSelectionContinue (requestPayload seek path) ∧
      (w.arrived = true → Served listing path ∧ path ∉ w.refused)

/-- The surroundings of a downloader whose peer has this listing, which makes these frames. The connection
    may fail, and the listing may be taken out of the cache, at any time. What is put into the cache is the
    listing after the cleaning. -/
def sharing [Crates] (listing : SharedFile) (frames : List (List UInt8)) : DlEnv Dealings where
  ok w _ c := match c with
    | .inl (.seal _ plain) => w.Admits listing plain
    | .inr (.refreshInsert _ everythingFile) => everythingFile = received listing
    | _ => True
  step w _ c a w' :=
    match c, a with
    | .inl (.seal _ plain), _ => w' = w.write frames plain
    | .inl (.unseal _ size), .plain bytes =>
      bytes.length + cryptoExtensionSize = size ∧ w.Hears listing bytes w'
    | .inr (.refreshInsert _ everythingFile), _ =>
      w' = { w with cached := some everythingFile, arrived := true }
    | .inr (.refreshGet _), a =>
      (∀ everythingFile, a = some (some everythingFile) → w.cached = some everythingFile) ∧ w' = w
    | _, _ => w' = w

/-- The cache has what was received, and what was refused is not in the listing. -/
structure Dealings.Sound (listing : SharedFile) (w : Dealings) : Prop where
  cached : w.arrived = true → w.cached = some (received listing)
  refused : ∀ path ∈ w.refused, getFileByPath path listing = none

/-- The downloader goes by `everythingFile`, which is what was received, if anything was. -/
structure UpToDate (listing everythingFile : SharedFile) (w : Dealings) : Prop where
  sound : w.Sound listing
  current : w.arrived = true → everythingFile = received listing

/-- Everything but a write, and a listing for the cache. -/
def withoutWrites : Wire ⊕ DownloaderCmd → Prop
  | .inl (.seal _ _) => False
  | .inr (.refreshInsert _ _) => False
  | _ => True

section Steps

variable [Crates] {listing everythingFile : SharedFile} {frames : List (List UInt8)} {w w' : Dealings}
  {t : Thread SingleDownloader}

omit [Crates] in
/-- A frame that is written changes neither the cache nor what was refused. -/
theorem write_kept (w : Dealings) (plain : List UInt8) : (w.write frames plain).refused = w.refused ∧
    (w.write frames plain).cached = w.cached ∧ (w.write frames plain).arrived = w.arrived := by
  unfold Dealings.write
  split
  · exact ⟨rfl, rfl, rfl⟩
  · exact ⟨rfl, rfl, rfl⟩

omit [Crates] in
/-- A frame that comes changes the cache as little. -/
theorem Dealings.Hears.kept {bytes : List UInt8} (h : w.Hears listing bytes w') :
    w'.cached = w.cached ∧ w'.arrived = w.arrived ∧
      ((∀ path ∈ w.refused, getFileByPath path listing = none) →
        ∀ path ∈ w'.refused, getFileByPath path listing = none) := by
  unfold Dealings.Hears at h
  split at h
  · rw [h.2]
    exact ⟨rfl, rfl, fun hr => hr⟩
  · rename_i path _ _
    obtain ⟨hrefused, rfl⟩ := h
    refine ⟨rfl, rfl, fun hr p hp => ?_⟩
    dsimp only at hp
    split at hp
    · rcases List.mem_cons.mp hp with rfl | hp
      · exact hrefused ‹_›
      · exact hr p hp
    · exact hr p hp
  · rw [h]
    exact ⟨rfl, rfl, fun hr => hr⟩

/-- A command that puts nothing into the cache leaves what the downloader goes by. -/
theorem kept_step {c : Wire ⊕ DownloaderCmd} {a : Ans DownloaderCmd.Ans c}
    (hc : ∀ nickname f, c ≠ .inr (.refreshInsert nickname f))
    (hs : (sharing listing frames).step w t c a w') (hw : w.Sound listing) :
    w'.Sound listing ∧ w'.arrived = w.arrived := by
  have hsame : w' = w → w'.Sound listing ∧ w'.arrived = w.arrived := by
    rintro rfl
    exact ⟨hw, rfl⟩
  match c, a with
  | .inl (.seal _ plain), _ =>
    obtain ⟨hrefused, hcached, harrived⟩ := @write_kept frames w plain
    rw [show w' = w.write frames plain from hs]
    refine ⟨⟨fun h => ?_, fun p hp => ?_⟩, harrived⟩
    · rw [hcached]
      exact hw.cached (harrived.symm.trans h)
    · rw [hrefused] at hp
      exact hw.refused p hp
  | .inl (.unseal _ size), .plain bytes =>
    obtain ⟨hcached, harrived, hrefused⟩ := hs.2.kept
    refine ⟨⟨fun h => ?_, hrefused hw.refused⟩, harrived⟩
    rw [hcached]
    exact hw.cached (harrived.symm.trans h)
  | .inl (.unseal _ _), .io _ => exact hsame hs
  | .inl (.unseal _ _), .rejected _ => exact hsame hs
  | .inr (.refreshInsert nickname f), _ => exact absurd rfl (hc nickname f)
  | .inr (.refreshGet _), _ => exact hsame hs.2
  | .inr .revTryRecv, _ => exact hsame hs
  | .inr .tryRecv, _ => exact hsame hs
  | .inr (.app _), _ => exact hsame hs
  | .inr (.sleep _), _ => exact hsame hs
  | .inr .progressElapsed, _ => exact hsame hs
  | .inr (.queueRead _), _ => exact hsame hs
  | .inr (.queueRemove _), _ => exact hsame hs
  | .inr (.queueWrite _ _), _ => exact hsame hs
  | .inr (.pathExists _), _ => exact hsame hs
  | .inr (.metadataLen _), _ => exact hsame hs
  | .inr (.createDirAll _), _ => exact hsame hs
  | .inr (.fileCreate _), _ => exact hsame hs
  | .inr (.fileOpenEnd _), _ => exact hsame hs
  | .inr (.fileWrite _ _), _ => exact hsame hs
  | .inr .downloadsBase, _ => exact hsame hs
  | .inr (.resolveAddress _ _), _ => exact hsame hs
  | .inr (.tcpConnect _), _ => exact hsame hs
  | .inr (.connect _ _), _ => exact hsame hs

theorem ok_withoutWrites {c : Wire ⊕ DownloaderCmd} (hc : withoutWrites c) :
    (sharing listing frames).ok w t c := by
  match c with
  | .inl (.seal _ _) => exact hc.elim
  | .inl (.unseal _ _) => trivial
  | .inr c =>
    cases c
    case refreshInsert => exact hc.elim
    all_goals exact trivial

omit [Crates] in
theorem noInsert_of_withoutWrites {c : Wire ⊕ DownloaderCmd} (hc : withoutWrites c) (nickname : Str)
    (f : SharedFile) : c ≠ .inr (.refreshInsert nickname f) := by
  rintro rfl
  exact hc

/-- What stays true while nothing is put into the cache. -/
def Stable (listing : SharedFile) (frames : List (List UInt8)) (I : Dealings → Prop) : Prop :=
  ∀ (t : Thread SingleDownloader) (c : Wire ⊕ DownloaderCmd) (a : Ans DownloaderCmd.Ans c) (w w' : Dealings),
    (∀ nickname f, c ≠ .inr (.refreshInsert nickname f)) →
      (sharing listing frames).step w t c a w' → I w → I w'

theorem sound_stable : Stable listing frames (Dealings.Sound listing) :=
  fun _ _ _ _ _ hc hs hw => (kept_step hc hs hw).1

theorem upToDate_stable : Stable listing frames (UpToDate listing everythingFile) := by
  intro t c a w w' hc hs hw
  obtain ⟨hsound, harrived⟩ := kept_step hc hs hw.sound
  exact ⟨hsound, fun h' => hw.current (harrived.symm.trans h')⟩

/-- **A method that writes nothing and puts nothing into the cache.** -/
theorem Stable.maintains {I : Dealings → Prop} (hI : Stable listing frames I) {α V : Type}
    {P : Wire ⊕ DownloaderCmd → Prop} {r : Thread SingleDownloader → V} {m : Dl α} (h : Keeps P r m)
    (hP : ∀ c, P c → withoutWrites c) : Maintains (sharing listing frames) (fun _ => I) m := by
  intro t w hw
  exact wp_conseq (wp_of_keeps h (fun w t c _ hc => ok_withoutWrites (hP c hc))
    (fun w t c a w' hw hc hs => hI t c a w w' (noInsert_of_withoutWrites (hP c hc)) hs hw) hw)
    (fun _ _ _ h => h.2) fun _ _ _ h => h.2

end Steps

/-! ## 2. Getting the listing -/

section Arrives

variable [Crates] {listing : SharedFile} {frames : List (List UInt8)} {w : Dealings}
  {t : Thread SingleDownloader}

/-- **A message of the listing** is read as it was made. -/
theorem wp_read_coming {msg : UInt16} {payload : List UInt8} {more : List (List UInt8)}
    (hsmall : payload.length ≤ maxDataSize) (hcoming : w.coming = messageFrames (msg, payload) ++ more)
    (hw : w.Sound listing) : wp (sharing listing frames) (read : Dl Unit)
      (fun _ t' w' => t'.encryptedStream.Holds msg payload ∧ w'.coming = more ∧ w'.Sound listing)
      (fun _ _ w' => w'.Sound listing) t w := by
  have hlt32 : payload.length < 2 ^ 32 := Nat.lt_of_le_of_lt hsmall (by decide)
  have hmsgOf : msgOf (header msg payload.length) = msg := by
    simpa using msgOf_header msg payload.length []
  have hsizeOf : sizeOf' (header msg payload.length) = payload.length := by
    simpa using sizeOf'_header hlt32 msg []
  have hannounced : announced (header msg payload.length) = (body msg payload).length := by
    rw [announced, hmsgOf, hsizeOf, length_body]
  have hkept : ∀ {t' : Thread SingleDownloader} {w₁ w₂ : Dealings} {n size : Nat} {a : Unsealed},
      w₁.Sound listing → (sharing listing frames).step w₁ t' (.inl (.unseal n size)) a w₂ →
        w₂.Sound listing := fun hw hs => sound_stable _ _ _ _ _ (fun _ _ => Sum.inl_ne_inr) hs hw
  obtain ⟨tail, htail⟩ : ∃ tail, messageFrames (msg, payload) ++ more =
      header msg payload.length :: tail ∧ tail = (if payload = [] then [] else [body msg payload]) ++ more :=
    ⟨_, rfl, rfl⟩
  rw [htail.1] at hcoming
  refine wp_read_of (J := fun front w' => front = header msg payload.length ∧ w'.coming = tail ∧
      w'.Sound listing) (fun n => ⟨trivial, fun a w' hs => ⟨fun front ha => ?_, fun _ _ => hkept hw hs⟩⟩)
    (fun _ _ _ _ _ hJ => hJ.2.2) (fun front rest t' w' _ hlen hb hJ hz => ?_)
    (fun _ _ _ _ hJ _ => hJ.2.2) fun front t' n w' _ hlen hJ hz =>
      ⟨trivial, fun a w'' hs => ⟨fun bytes ha => ?_, fun _ _ _ _ => hkept hJ.2.2 hs⟩⟩
  · have hsound := hkept hw hs
    subst ha
    have hhears : w.Hears listing front w' := hs.2
    rw [Dealings.Hears, hcoming] at hhears
    obtain ⟨rfl, rfl⟩ := hhears
    exact ⟨length_header _ _, rfl, rfl, hsound⟩
  · obtain ⟨rfl, hcoming', hsound⟩ := hJ
    have hnil : payload = [] := List.length_eq_zero_iff.mp (hsizeOf.symm.trans hz)
    have hholds := holds_header hb hlen hz
    rw [hmsgOf] at hholds
    rw [hnil]
    rw [htail.2, if_pos hnil, List.nil_append] at hcoming'
    exact ⟨hholds, hcoming', hsound⟩
  · have hsound := hkept hJ.2.2 hs
    obtain ⟨rfl, hcoming', -⟩ := hJ
    have hne : payload ≠ [] := by
      rintro rfl
      exact hz hsizeOf
    subst ha
    have hhears : w'.Hears listing bytes w'' := hs.2
    rw [htail.2, if_neg hne] at hcoming'
    rw [Dealings.Hears, hcoming'] at hhears
    obtain ⟨rfl, rfl⟩ := hhears
    refine ⟨fun t'' rest _ hb => ⟨?_, rfl, hsound⟩, fun _ _ _ => hsound, fun _ _ _ => hsound⟩
    rw [show body msg payload = body (msgOf (header msg payload.length)) payload by rw [hmsgOf]] at hb
    have hholds := holds_body hb hlen hsizeOf
    rw [hmsgOf] at hholds
    exact hholds

/-- **The pieces of the listing** are put together. Over the passes of the loop. -/
theorem deals_readEverythingFile : ∀ (fuel : Nat) {jsonBytes rest : List UInt8}
    {t : Thread SingleDownloader} {w : Dealings}, w.coming = (pieces rest).flatMap messageFrames →
    w.Sound listing → wp (sharing listing frames) (readEverythingFile fuel jsonBytes : Dl (List UInt8))
      (fun assembled _ w' => assembled = jsonBytes ++ rest ∧ w'.Sound listing)
      (fun _ _ w' => w'.Sound listing) t w
  | 0, _, _, _, _, _, hw => hw
  | fuel + 1, jsonBytes, rest, t, w, hcoming, hw => by
    -- what follows one message
    have hread : ∀ (msg : UInt16) (payload : List UInt8) (more : List (List UInt8)),
        payload.length ≤ maxDataSize → w.coming = messageFrames (msg, payload) ++ more →
        (∀ t' w', w'.coming = more → w'.Sound listing →
          wp (sharing listing frames) (if msg = msgFileListFinal then pure (jsonBytes ++ payload)
            else readEverythingFile fuel (jsonBytes ++ payload) : Dl (List UInt8))
            (fun assembled _ w' => assembled = jsonBytes ++ rest ∧ w'.Sound listing)
            (fun _ _ w' => w'.Sound listing) t' w') →
        wp (sharing listing frames) (readEverythingFile (fuel + 1) jsonBytes : Dl (List UInt8))
          (fun assembled _ w' => assembled = jsonBytes ++ rest ∧ w'.Sound listing)
          (fun _ _ w' => w'.Sound listing) t w := by
      intro msg payload more hsmall hframes hnext
      refine wp_seq (wp_read_coming hsmall hframes hw) (fun _ t₁ w₁ h₁ => ?_) fun _ _ _ h => h
      obtain ⟨hholds, hmore, hsound⟩ := h₁
      show wp _ (orThrow t₁.encryptedStream.getPayload >>= fun payload => get >>= fun t' =>
        throwIf (maxEverythingFileSize < (jsonBytes ++ payload).length) _ >>= fun _ =>
        if t₁.encryptedStream.getMessage = msgFileListFinal then pure (jsonBytes ++ payload)
        else readEverythingFile fuel (jsonBytes ++ payload)) _ _ t₁ w₁
      rw [hholds.payload, hholds.message]
      show wp _ (throwIf (maxEverythingFileSize < (jsonBytes ++ payload).length) _ >>= fun _ =>
        if msg = msgFileListFinal then pure (jsonBytes ++ payload)
        else readEverythingFile fuel (jsonBytes ++ payload)) _ _ t₁ w₁
      refine (wp_bind _ _).mpr ((wp_throwIf _ _).mpr ?_)
      split
      · exact hsound
      · exact hnext t₁ w₁ hmore hsound
    rcases Nat.lt_or_ge maxDataSize rest.length with hlt | hle
    · rw [pieces_of_lt hlt, List.flatMap_cons] at hcoming
      refine hread _ _ _ (List.length_take_le _ _) hcoming fun t' w' hmore hsound => ?_
      rw [if_neg (by decide)]
      refine wp_conseq (deals_readEverythingFile fuel hmore hsound) (fun _ _ _ h => ?_) fun _ _ _ h => h
      rw [List.append_assoc, List.take_append_drop] at h
      exact h
    · rw [pieces_of_le hle, List.flatMap_cons] at hcoming
      refine hread _ _ _ hle hcoming fun t' w' _ hsound => ?_
      rw [if_pos rfl]
      exact ⟨rfl, hsound⟩

/-- The listing makes these frames, and is what the downloader reads out of them. -/
structure Written (listing : SharedFile) (frames : List (List UInt8)) : Prop where
  bytes : ∃ bytes, frames = (pieces bytes).flatMap messageFrames ∧
    parseListing bytes = .ok (received listing)

/-- The text of a listing is read as this listing, after the cleaning. -/
theorem parseListing_utf8 {json : Str} (h : Crates.listingFromJson json = .ok listing) :
    parseListing (utf8 json) = .ok (received listing) := by
  unfold parseListing
  rw [fromUtf8_utf8]
  show (orErr id (Crates.listingFromJson json) >>= fun everythingFile =>
    .ok (resetFileSizeString (removeInvalidFiles everythingFile))) = _
  rw [h]
  rfl

/-- **The listing that is asked for is the one that is received.** -/
theorem deals_downloadEverythingFile (h : Written listing frames) (fuel : Nat)
    (hw : w.Sound listing) : wp (sharing listing frames) (downloadEverythingFile fuel : Dl SharedFile)
      (fun everythingFile _ w' => everythingFile = received listing ∧ w'.Sound listing)
      (fun _ _ w' => w'.Sound listing) t w := by
  obtain ⟨bytes, hframes, hparse⟩ := h.bytes
  have hasked : ∀ n plain t' a w', plain = header msgFileList 0 →
      (sharing listing frames).step w t' (.inl (.seal n plain)) a w' →
      w'.coming = frames ∧ w'.Sound listing := by
    intro n plain t' a w' hplain hs
    have hsound : w'.Sound listing := sound_stable _ _ _ _ _ (fun _ _ => Sum.inl_ne_inr) hs hw
    have hw' : w' = w.write frames plain := hs
    have hmsg : msgOf (header msgFileList 0) = msgFileList := by decide
    refine ⟨?_, hsound⟩
    rw [hw', hplain, Dealings.write, if_pos (length_header _ _), hmsg, if_pos rfl]
  refine (wp_bind _ _).mpr (wp_write_frames (J := fun w' => w'.coming = frames ∧ w'.Sound listing)
    (Nat.zero_le _) (fun t' n _ => ⟨.inl (length_header _ _), fun a w' hs => hasked n _ t' a w' rfl hs⟩)
    (fun _ t' w' _ hJ => ?_) (fun hne => absurd rfl hne) fun _ _ _ _ hJ => hJ.2)
  obtain ⟨hcoming, hsound⟩ := hJ
  rw [hframes] at hcoming
  refine wp_seq (deals_readEverythingFile fuel hcoming hsound) (fun jsonBytes t₁ w₁ h₁ => ?_)
    fun _ _ _ h => h
  obtain ⟨hjson, hsound⟩ := h₁
  rw [List.nil_append] at hjson
  subst hjson
  unfold parseListing at hparse
  cases hutf : fromUtf8 jsonBytes with
  | none =>
    rw [hutf] at hparse
    cases hparse
  | some filesStr =>
    rw [hutf] at hparse
    obtain ⟨f, hf, hparse⟩ := bind_eq_ok.mp (show (orErr id (Crates.listingFromJson filesStr) >>= fun f =>
      .ok (resetFileSizeString (removeInvalidFiles f))) = .ok (received listing) from hparse)
    show wp _ (orThrow (orErr id (Crates.listingFromJson filesStr)) >>= fun f =>
      pure (resetFileSizeString (removeInvalidFiles f))) _ _ t₁ w₁
    rw [hf]
    exact ⟨Except.ok.inj hparse, hsound⟩

/-- What is put into the cache is the listing, after the cleaning. -/
theorem deals_setEverythingFile (h : Written listing frames) (fuel : Nat) (forceDownload : Bool) :
    Maintains (sharing listing frames) (fun _ w => w.Sound listing)
      (setEverythingFile fuel forceDownload) := by
  have hneeded : Keeps (own fun c => ∃ nickname, c = DownloaderCmd.refreshGet nickname)
      (fun _ => ()) (shouldDownloadEverythingFile forceDownload) := by
    refine keeps_bind keeps_get fun t => keeps_ite (fun _ => keeps_pure _) fun _ => ?_
    refine keeps_bind (keeps_issue ⟨_, rfl⟩) fun a => ?_
    cases a with
    | none => exact keeps_throw _
    | some data => exact keeps_pure _
  refine maintains_bind (sound_stable.maintains hneeded fun c hc => ?_) fun needed =>
    maintains_ite (fun _ => fun t w hw => ?_) fun _ => maintains_pure _
  · cases c with
    | inl c => exact hc.elim
    | inr c =>
      obtain ⟨nickname, rfl⟩ := hc
      trivial
  · refine wp_seq (deals_downloadEverythingFile h fuel hw) (fun everythingFile t₁ w₁ h₁ => ?_)
      fun _ _ _ h => h
    obtain ⟨rfl, hsound⟩ := h₁
    refine (wp_bind self _).mpr ⟨rfl, fun a w₂ hs => ?_⟩
    rw [show w₂ = { w₁ with cached := some (received listing), arrived := true } from hs]
    exact ⟨fun _ => rfl, hsound.refused⟩

end Arrives

/-! ## 3. Asking for files -/

/-- The downloads of a file come to files that may be asked for. -/
def AsksWithin (everythingFile f : SharedFile) : Prop :=
  ∀ g ∈ leaves f, Requested everythingFile g.path

section Asks

variable [Crates] {fs : FileSystem} {config : Config} {nickname : Str}
  {listing everythingFile : SharedFile} {frames : List (List UInt8)}

/-- The method goes by the listing that was received; where it fails there may be a newer one. -/
def Deals (listing everythingFile : SharedFile) (frames : List (List UInt8)) {α : Type} (m : Dl α) : Prop :=
  Survives (sharing listing frames) (fun _ => UpToDate listing everythingFile)
    (fun _ => Dealings.Sound listing) m

theorem deals_of_keeps {α V : Type} {P : Wire ⊕ DownloaderCmd → Prop} {r : Thread SingleDownloader → V}
    {m : Dl α} (h : Keeps P r m) (hP : ∀ c, P c → withoutWrites c) : Deals listing everythingFile frames m :=
  (upToDate_stable.maintains h hP).survives fun _ _ h => h.sound

omit [Crates] in
theorem withoutWrites_of_routine {c : DownloaderCmd} (h : routine c) : withoutWrites (.inr c) := by
  cases c
  case refreshInsert => rcases h with h | h | h | h <;> cases h
  all_goals exact trivial

omit [Crates] in
theorem withoutWrites_of_working {T : Transfer} {c : DownloaderCmd} (h : working T c) :
    withoutWrites (.inr c) := by
  cases c
  case refreshInsert =>
    rcases h with h | h | h | h
    · exact withoutWrites_of_routine h
    · cases h
    · cases h
    · cases h
  all_goals exact trivial

theorem deals_receives {α : Type} {T : Transfer} {m : Dl α} (h : Receives T m) :
    Deals listing everythingFile frames m :=
  deals_of_keeps h fun c hc => match c with
    | .inl (.seal _ _) => hc
    | .inl (.unseal _ _) => trivial
    | .inr _ => withoutWrites_of_working hc

theorem deals_aside {α : Type} {m : Dl α} (h : Aside routine m) : Deals listing everythingFile frames m :=
  deals_of_keeps h fun c hc => match c with
    | .inr _ => withoutWrites_of_routine hc

/-- **A request** is for a file the sharer finds, where the downloader goes by its listing. -/
theorem deals_request (hl : getEverythingFile fs config nickname = .ok listing) {path : Str}
    (hreq : Requested everythingFile path) (seek : UInt64) :
    Deals listing everythingFile frames
      (write msgFileSelectionContinue (requestPayload seek path) : Dl Unit) := by
  intro t w hw
  have hseal : ∀ {t' : Thread SingleDownloader} {w₁ w₂ : Dealings} {n : Nat} {plain : List UInt8} {a : Sealed},
      UpToDate listing everythingFile w₁ → (sharing listing frames).step w₁ t' (.inl (.seal n plain)) a w₂ →
        UpToDate listing everythingFile w₂ :=
    fun hw hs => upToDate_stable _ _ _ _ _ (fun _ _ => Sum.inl_ne_inr) hs hw
  rcases Nat.lt_or_ge totalBufferSize ((requestPayload seek path).length + crcSize) with hlong | hfit
  · exact wp_write_unfit (by decide) hlong fun t' n plain hlen =>
      ⟨.inl hlen, fun a w' hs _ _ => (hseal hw hs).sound⟩
  · refine wp_write_sealed (J := UpToDate listing everythingFile) hfit
      (fun t' n _ => ⟨.inl (length_header _ _), fun a w' hs => ?_⟩) (fun _ _ _ _ hJ => hJ)
      (fun _ t' n w' _ hJ => ⟨.inr ⟨seek, path, rfl, fun harrived => ?_⟩, fun a w'' hs => ?_⟩)
      fun _ _ _ _ hJ _ => hJ.sound
    · exact ⟨fun _ => hseal hw hs, fun _ _ _ _ => (hseal hw hs).sound⟩
    · -- what was received is what the requests are taken from
      rw [hJ.current harrived] at hreq
      have hserved := requested_served hl hreq
      refine ⟨hserved, fun hmem => ?_⟩
      obtain ⟨f, hf, -⟩ := hserved
      rw [hJ.sound.refused path hmem] at hf
      cases hf
    · exact ⟨fun _ => ⟨fun _ _ => hseal hJ hs, fun _ _ _ _ => (hseal hJ hs).sound⟩,
        fun _ _ _ _ => (hseal hJ hs).sound⟩

/-- **A transfer**: on a refusal the listing is asked for again, and the connection given up. -/
theorem deals_transferFile (h : Written listing frames)
    (hl : getEverythingFile fs config nickname = .ok listing) {T : Transfer}
    (hreq : Requested everythingFile T.sharedFile.path) (fuel : Nat) (fileLength : UInt64) :
    Deals listing everythingFile frames (transferFile fuel T fileLength) := by
  have hself : Deals listing everythingFile frames self := deals_aside aside_self
  refine survives_bind (deals_request hl hreq fileLength) fun _ => ?_
  refine survives_bind (deals_receives (T := T) receives_read) fun _ => ?_
  refine survives_bind (deals_receives (T := T) steady_getMessage.keeps) fun _ => ?_
  refine survives_ite (fun _ t w hw => ?_) fun _ => ?_
  · refine wp_seq (deals_setEverythingFile h fuel true t w hw.sound) (fun _ t₁ w₁ h₁ => h₁)
      fun _ _ _ h' => h'
  · refine survives_bind hself fun _ => ?_
    refine survives_bind (deals_receives (T := T) (steady_throwIf _ _).keeps) fun _ => ?_
    refine survives_bind (deals_receives (aside_openDestination T).receives) fun _ => ?_
    exact deals_receives (receives_transferLoop _ _ _)

theorem deals_downloadFile (h : Written listing frames)
    (hl : getEverythingFile fs config nickname = .ok listing) {f : SharedFile}
    (hreq : Requested everythingFile f.path) (fuel : Nat) (downloadDir destinationPath : Str) :
    Deals listing everythingFile frames (downloadFile fuel downloadDir destinationPath f) := by
  refine survives_bind (deals_aside (aside_command (.inl trivial))) fun doesFileExist => ?_
  refine survives_bind (deals_aside (local_localFileLength _ _).routinely) fun fileLength => ?_
  refine survives_bind (deals_aside (aside_modifySelf _)) fun _ => ?_
  refine survives_bind (deals_aside aside_self) fun d => ?_
  have hactive : Aside routine (orPanic d.activeDownloadPath) := (steady_orPanic _).keeps
  refine survives_bind (deals_aside hactive) fun q => ?_
  refine survives_bind (survives_ite (fun _ => ?_) fun _ => ?_) fun needed => ?_
  · exact deals_receives (aside_checkQueueFile ⟨downloadDir, destinationPath, f, q⟩ _ _).receives
  · exact deals_receives (aside_checkSubfile ⟨downloadDir, destinationPath, f, q⟩ _ _).receives
  · refine survives_ite (fun _ => ?_) fun _ => deals_aside (aside_pure _)
    exact deals_transferFile (T := ⟨downloadDir, destinationPath, f, q⟩) h hl hreq fuel fileLength

/-- The rest of a loop after the downloader has read its channels. -/
theorem deals_polled {m : Dl Unit} (fuel : Nat) (hm : Deals listing everythingFile frames m) :
    Deals listing everythingFile frames
      (do readReceiver fuel; if (← self).stopDownloading then pure () else m) :=
  survives_bind (deals_aside (aside_readReceiver fuel)) fun _ =>
    survives_bind (deals_aside aside_self) fun _ =>
      survives_ite (fun _ => deals_aside (aside_pure ())) fun _ => hm

mutual

/-- **A listed file or directory**: over its tree. -/
theorem deals_downloadSharedFile (h : Written listing frames)
    (hl : getEverythingFile fs config nickname = .ok listing) (fuel : Nat) (downloadDir : Str) :
    ∀ f : SharedFile, AsksWithin everythingFile f →
      Deals listing everythingFile frames (downloadSharedFile fuel downloadDir f)
  | ⟨path, isDirectory, files, fileSize, sizeString⟩, hasks => by
    rw [downloadSharedFile]
    refine survives_bind (deals_aside (keeps_orThrow _)) fun name => survives_ite (fun hdir => ?_) fun hdir => ?_
    · refine deals_downloadFiles h hl fuel _ files fun g hg => hasks g ?_
      rw [leaves, if_pos hdir]
      exact hg
    · refine deals_downloadFile h hl (hasks _ ?_) fuel _ _
      rw [leaves, if_neg hdir]
      exact List.mem_singleton.mpr rfl

theorem deals_downloadFiles (h : Written listing frames)
    (hl : getEverythingFile fs config nickname = .ok listing) (fuel : Nat) (newDownloadDir : Str) :
    ∀ files : List SharedFile, (∀ g ∈ leavesIn files, Requested everythingFile g.path) →
      Deals listing everythingFile frames (downloadFiles fuel newDownloadDir files)
  | [], _ => by
    rw [downloadFiles]
    exact deals_aside (aside_pure ())
  | aFile :: files, hasks => by
    rw [downloadFiles]
    refine survives_bind (deals_downloadSharedFile h hl fuel newDownloadDir aFile fun g hg => hasks g ?_)
      fun _ => deals_polled fuel (deals_downloadFiles h hl fuel newDownloadDir files fun g hg => hasks g ?_)
    · rw [leavesIn]
      exact List.mem_append_left _ hg
    · rw [leavesIn]
      exact List.mem_append_right _ hg

end

theorem deals_downloadItem (h : Written listing frames)
    (hl : getEverythingFile fs config nickname = .ok listing) (fuel : Nat) (rootDownloadDir : Str)
    (item : DownloadQueueItem) {f : SharedFile} (hasks : AsksWithin everythingFile f) :
    Deals listing everythingFile frames (downloadItem fuel rootDownloadDir item f) := by
  refine survives_bind (deals_aside (local_startItem _ _ _).routinely) fun destinationPath => ?_
  refine survives_bind (deals_aside local_appUpdateInProgress.routinely) fun _ => ?_
  refine survives_bind (deals_downloadSharedFile h hl fuel rootDownloadDir f hasks) fun _ => ?_
  refine survives_bind (deals_aside (aside_finishDirectory _ _ _)) fun _ => ?_
  exact deals_aside local_appUpdateInProgress.routinely

/-- **The queue**: whatever stands in it, only what the listing has is asked for. -/
theorem deals_queueLoop (h : Written listing frames)
    (hl : getEverythingFile fs config nickname = .ok listing) (rootDownloadDir : Str) : ∀ fuel : Nat,
    Deals listing everythingFile frames (queueLoop rootDownloadDir everythingFile fuel)
  | 0 => deals_aside (aside_throw _)
  | fuel + 1 => by
    refine survives_bind (deals_aside aside_self) fun d => ?_
    cases d.downloadQueue with
    | nil => exact deals_aside (aside_pure ())
    | cons item items =>
      dsimp only
      cases hfound : getFileByPath item.path everythingFile with
      | none =>
        refine survives_bind (deals_aside (aside_invalidateQueueItem _ _)) fun _ => ?_
        exact deals_queueLoop h hl rootDownloadDir fuel
      | some f =>
        refine survives_bind (deals_downloadItem h hl fuel rootDownloadDir item
          fun g hg => ⟨item.path, f, hfound, g, hg, rfl⟩) fun _ => ?_
        exact deals_polled fuel (deals_queueLoop h hl rootDownloadDir fuel)

/-- **A connection**: the listing it goes by is the one in the cache. -/
theorem deals_serveConnection (h : Written listing frames)
    (hl : getEverythingFile fs config nickname = .ok listing) (fuel : Nat) (rootDownloadDir : Str) :
    Maintains (sharing listing frames) (fun _ => Dealings.Sound listing)
      (serveConnection fuel rootDownloadDir) := by
  refine maintains_bind (deals_setEverythingFile h fuel false) fun _ t w hw => ?_
  refine (wp_bind self _).mpr ((wp_bind (command (.refreshGet t.self.sharedUser.nickname)) _).mpr ?_)
  refine ⟨trivial, fun data w' hs => ?_⟩
  obtain ⟨hcached, rfl⟩ := hs
  cases data with
  | none => exact hw
  | some data =>
    cases data with
    | none => exact hw
    | some everythingFile =>
      have hgo : UpToDate listing everythingFile w' := by
        refine ⟨hw, fun harrived => ?_⟩
        exact Option.some.inj ((hcached everythingFile rfl).symm.trans (hw.cached harrived))
      show wp _ (queueLoop rootDownloadDir everythingFile fuel) _ _ t w'
      exact wp_conseq (deals_queueLoop h hl rootDownloadDir fuel t w' hgo) (fun _ _ _ h' => h'.sound)
        fun _ _ _ h' => h'

/-- The loops around it write nothing. -/
theorem loopParts_sharing (h : Written listing frames)
    (hl : getEverythingFile fs config nickname = .ok listing) :
    LoopParts (sharing listing frames) (fun _ => Dealings.Sound listing) (fun _ => Dealings.Sound listing)
      (fun _ => Dealings.Sound listing) (fun _ => Dealings.Sound listing)
      (fun _ _ => Dealings.Sound listing) fun _ _ _ => True := by
  have hown : ∀ {α V : Type} {P : DownloaderCmd → Prop} {r : Thread SingleDownloader → V} {m : Dl α},
      Keeps (own P) r m → (∀ c, P c → withoutWrites (.inr c)) →
        Maintains (sharing listing frames) (fun _ => Dealings.Sound listing) m :=
    fun hm hP => sound_stable.maintains hm fun c hc => match c with
      | .inr c => hP c hc
  have haside : ∀ {α : Type} {m : Dl α}, Aside routine m →
      Maintains (sharing listing frames) (fun _ => Dealings.Sound listing) m :=
    fun hm => hown hm fun _ => withoutWrites_of_routine
  have hcommand : ∀ {c : DownloaderCmd}, withoutWrites (.inr c) →
      Maintains (sharing listing frames) (fun _ => Dealings.Sound listing) (command c) :=
    fun hc => sound_stable.maintains (r := fun _ => ()) (keeps_issue (P := withoutWrites) hc) fun _ hc => hc
  exact {
    serve := fun fuel root t w _ hw => deals_serveConnection h hl fuel root t w hw.1
    polled := fun _ _ hw => hw
    fails := fun _ _ _ hw => hw
    again := fun _ _ _ hw => hw
    start := by
      refine maintains_bind (hown keeps_initializeDownloadQueue fun c hc => ?_) fun _ =>
        haside local_appUpdateOffline.routinely
      obtain ⟨path, rfl⟩ := hc
      trivial
    poll := fun fuel => haside (aside_readReceiver fuel)
    resume := fun _ _ hw => hw
    base := fun t w hw => by
      have hkeeps := (still_getPathDownloadsDirUser t.self.sharedUser.nickname t.self.config).keeps
      have hsound := hown hkeeps fun c hc => by
        rw [hc]
        trivial
      refine wp_conseq (wp_keeps hkeeps (hsound t w hw.1)) (fun dir t' w' h' => ?_) fun _ _ _ h' => h'.1
      rw [h'.2]
      exact ⟨⟨h'.1, hw.2⟩, rfl, trivial⟩
    pause := fun millis => hcommand trivial
    unreachable := fun millis => maintains_bind (haside local_appUpdateOffline.routinely) fun _ =>
      hcommand trivial
    leave := haside local_appUpdateInProgress.routinely
    mismatch := fun _ _ => maintains_bind (haside aside_self) fun _ => maintains_bind (hcommand trivial)
      fun _ => hcommand trivial
    take := fun _ t w _ hw _ _ => by
      have hconnecting : ∀ c, connecting c → withoutWrites (.inr c) := by
        intro c hc
        cases c
        case refreshInsert => exact hc.elim
        all_goals exact trivial
      refine wp_conseq (wp_keeps (keeps_takeStream.map fun d => d.stopDownloading)
        (hown keeps_takeStream hconnecting t w hw.1)) (fun taken t' w' h' => ?_) fun _ _ _ h' => h'.1
      split
      · exact ⟨trivial, h'.1, h'.2.trans hw.2⟩
      · exact h'.1 }

/-- **A downloader that has received the listing asks for files the sharer finds**, whatever its queue,
    and for none that was refused. -/
theorem deals_runThread (h : Written listing frames)
    (hl : getEverythingFile fs config nickname = .ok listing) (fuel n : Nat) :
    Maintains (sharing listing frames) (fun _ => Dealings.Sound listing) (runThread fuel n) :=
  (loopParts_sharing h hl).runThread fuel n

end Asks

/-! ## 4. Answering requests -/

/-- What an uploader has read: the first frame of the last message, whether a second one is to come, and the
    file that is asked for in it; and is it in the middle of a message of its own? -/
structure Inquiry where
  front : List UInt8
  second : Bool
  path : Option Str
  body : Bool

/-- A frame is read. -/
def Inquiry.read (w : Inquiry) (bytes : List UInt8) : Inquiry :=
  if w.second then
    { w with second := false, path := fromUtf8 ((bytes.take (sizeOf' w.front)).drop 8) }
  else { w with front := bytes, second := decide (sizeOf' bytes ≠ 0), path := none }

/-- A frame is written. -/
def Inquiry.write (w : Inquiry) (plain : List UInt8) : Inquiry :=
  { w with body := !w.body && decide (sizeOf' plain ≠ 0) }

/-- A message is no refusal, or a right one. -/
def Inquiry.Admits (listing : SharedFile) (w : Inquiry) (plain : List UInt8) : Prop :=
  w.body = false →
    (msgOf plain = msgFileInvalidFile → ∃ path, w.path = some path ∧ getFileByPath path listing = none) ∧
    (msgOf plain = msgCannotSelectDirectory → ∃ path f, w.path = some path ∧
      getFileByPath path listing = some f ∧ f.isDirectory = true)

/-- The surroundings of an uploader with this listing. They admit a refusal only as the answer to a request
    for what is not in the listing, or is a directory. -/
def inquiring (K : Suite) (listing : SharedFile) :
    Env (Thread SingleUploader) (Wire ⊕ UploaderCmd K) (Ans UploaderCmd.Ans) Inquiry where
  ok w _ c := match c with
    | .inl (.seal _ plain) => w.Admits listing plain
    | _ => True
  step w _ c a w' :=
    match c, a with
    | .inl (.seal _ plain), _ => w' = w.write plain
    | .inl (.unseal _ size), .plain bytes =>
      bytes.length + cryptoExtensionSize = size ∧ w' = w.read bytes
    | _, _ => w' = w

namespace SingleUploader

/-- The uploader is between two messages. -/
def AtRest (_ : Thread SingleUploader) (w : Inquiry) : Prop := w.second = false ∧ w.body = false

/-- The last message, if it is a request for a file, asks for the path that was read. -/
def Inquired [Crates] (t : Thread SingleUploader) (w : Inquiry) : Prop :=
  AtRest t w ∧ ∀ payload, t.encryptedStream.getPayload = .ok payload → 8 ≤ payload.length →
    w.path = fromUtf8 (payload.drop 8)

section Answers

variable {K : Suite} {listing : SharedFile} {α : Type} {I : Thread SingleUploader → Inquiry → Prop}

/-- Whatever it does, the uploader refuses nothing wrongly. -/
abbrev Answers (I : Thread SingleUploader → Inquiry → Prop) (listing : SharedFile) (m : Up K α) : Prop :=
  Upholds (inquiring K listing) I m

/-- What stays true when the uploader changes its own state. -/
def Selfless (I : Thread SingleUploader → Inquiry → Prop) : Prop :=
  ∀ t u w, I t w → I { t with self := u } w

theorem selfless_atRest : Selfless AtRest := fun _ _ _ h => h

theorem selfless_inquired [Crates] : Selfless Inquired := fun _ _ _ h => h

/-- Commands that are not on the connection. -/
def unconnected : Wire ⊕ UploaderCmd K → Prop := own fun _ => True

/-- A method off the connection answers nothing. -/
theorem answers_of_steady {m : Up K α} (hI : Selfless I) (h : Steady unconnected kept m) :
    Answers I listing m := by
  refine upholds_of_steady h (fun t t' w hk hi => ?_) (fun t w c _ hc => ?_) fun t w c a w' hi hc hs => ?_
  · have hstream : t'.encryptedStream = t.encryptedStream := congrArg Prod.fst hk
    have ht : t' = { t with self := t'.self } := by
      rw [← hstream]
    exact ht ▸ hI t t'.self w hi
  · cases c with
    | inl c => exact hc.elim
    | inr c => trivial
  · cases c with
    | inl c => exact hc.elim
    | inr c =>
      rw [show w' = w from hs]
      exact hi

theorem answers_command (hI : Selfless I) (c : UploaderCmd K) : Answers I listing (command c) :=
  answers_of_steady hI (steady_issue trivial)

theorem answers_readReceiver (hI : Selfless I) (fuel : Nat) :
    Answers I listing (readReceiver fuel : Up K Unit) :=
  answers_of_steady hI (steady_readReceiver trivial fuel)

theorem answers_uploadState (hI : Selfless I) (path : Str) (percent : UInt64) :
    Answers I listing (uploadState path percent : Up K Unit) :=
  answers_of_steady hI (steady_uploadState (fun _ => trivial) path percent)

variable [Crates]

/-- A message that may be written. -/
theorem wp_answer {msg : UInt16} {payload : List UInt8} {t : Thread SingleUploader} {w : Inquiry}
    (hsmall : payload.length ≤ maxDataSize) (hw : AtRest t w)
    (hmsg : w.Admits listing (header msg payload.length)) :
    wp (inquiring K listing) (write msg payload : Up K Unit) (fun _ => AtRest) (fun _ _ _ => True) t w := by
  have hsize : sizeOf' (header msg payload.length) = payload.length := by
    simpa using sizeOf'_header (Nat.lt_of_le_of_lt hsmall (by decide)) msg []
  refine wp_write_frames (J := fun w' => w'.second = false ∧ w'.body = decide (payload ≠ [])) hsmall
    (fun t' n _ => ⟨hmsg, fun a w' hs => ?_⟩) (fun hnil t' w' _ hJ => ?_)
    (fun hne t' n w' _ hJ => ⟨fun hb => ?_, fun a w'' hs => ?_⟩) fun _ _ _ _ _ => trivial
  · rw [show w' = w.write (header msg payload.length) from hs]
    refine ⟨hw.1, ?_⟩
    simp [Inquiry.write, hw.2, hsize]
  · refine ⟨hJ.1, ?_⟩
    simp [hJ.2, hnil]
  · rw [hJ.2] at hb
    simp [hne] at hb
  · have hdone : AtRest t w'' := by
      rw [show w'' = w'.write (body msg payload) from hs]
      refine ⟨hJ.1, ?_⟩
      simp [Inquiry.write, hJ.2, hne]
    exact ⟨fun _ _ => hdone, fun _ _ _ => trivial⟩

/-- A message that is no refusal. -/
theorem answers_write {msg : UInt16} {payload : List UInt8} (hsmall : payload.length ≤ maxDataSize)
    (hinvalid : msg ≠ msgFileInvalidFile) (hdirectory : msg ≠ msgCannotSelectDirectory) :
    Answers AtRest listing (write msg payload : Up K Unit) := by
  intro t w hw
  have hmsg : msgOf (header msg payload.length) = msg := by simpa using msgOf_header msg payload.length []
  refine wp_answer hsmall hw fun _ => ?_
  rw [hmsg]
  exact ⟨fun h => absurd h hinvalid, fun h => absurd h hdirectory⟩

/-- **A request is heard**: the path in its payload is the one that was read. -/
theorem answers_read {t : Thread SingleUploader} {w : Inquiry} (hw : AtRest t w) :
    wp (inquiring K listing) (Transmitic.read : Up K Unit) (fun _ => Inquired) (fun _ _ _ => True) t w := by
  refine wp_read_of (J := fun front w' => w'.front = front ∧ w'.second = decide (sizeOf' front ≠ 0) ∧
      w'.body = false) (fun n => ⟨trivial, fun a w' hs => ⟨fun front ha => ?_, fun _ _ => trivial⟩⟩)
    (fun _ _ _ _ _ _ => trivial) (fun front rest t' w' _ hlen hb hJ hz => ?_) (fun _ _ _ _ _ _ => trivial)
    fun front t' n w' _ hlen hJ hz => ⟨trivial, fun a w'' hs => ⟨fun bytes ha => ?_, fun _ _ _ _ => trivial⟩⟩
  · subst ha
    obtain ⟨hsize, rfl⟩ := hs
    refine ⟨Nat.add_right_cancel hsize, ?_⟩
    simp [Inquiry.read, hw.1, hw.2]
  · obtain ⟨rfl, hsecond, hbody⟩ := hJ
    refine ⟨⟨by simp [hsecond, hz], hbody⟩, fun payload hpayload hlong => ?_⟩
    rw [(holds_header hb hlen hz).payload] at hpayload
    cases hpayload
    cases hlong
  · subst ha
    obtain ⟨hsize, rfl⟩ := hs
    obtain ⟨rfl, hsecond, hbody⟩ := hJ
    have hread : w'.read bytes = { w' with
        second := false, path := fromUtf8 ((bytes.take (sizeOf' w'.front)).drop 8) } :=
      if_pos (by simp [hsecond, hz])
    refine ⟨fun t'' rest _ hb => ?_, fun _ _ _ => trivial, fun _ _ _ => trivial⟩
    rw [hread]
    refine ⟨⟨rfl, hbody⟩, fun payload hpayload _ => ?_⟩
    rw [getPayload_taken hlen hb (Nat.add_right_cancel hsize) hpayload]

/-- The pieces of the listing are no refusals. -/
theorem answers_sendList (receiverFuel : Nat) (bytes : List UInt8) (fuel sent remaining : Nat) :
    Answers AtRest listing (sendList receiverFuel bytes fuel sent remaining : Up K Unit) := by
  refine upholds_sendList (fun sent remaining payload hpiece => ?_)
    (answers_readReceiver selfless_atRest _) (fun _ => answers_command selfless_atRest _) fuel sent
    remaining
  have hmsg : (listPiece bytes sent remaining).2 ≠ msgFileInvalidFile ∧
      (listPiece bytes sent remaining).2 ≠ msgCannotSelectDirectory := by
    unfold listPiece
    split
    · exact (by decide : msgFileListFinal ≠ msgFileInvalidFile ∧
        msgFileListFinal ≠ msgCannotSelectDirectory)
    · exact (by decide : msgFileListPiece ≠ msgFileInvalidFile ∧
        msgFileListPiece ≠ msgCannotSelectDirectory)
  exact answers_write (listPiece_length hpiece) hmsg.1 hmsg.2

/-- The chunks of a file are none either. -/
theorem answers_sendFile (receiverFuel : Nat) (path : Str) (fileSize : UInt64) (fuel : Nat)
    (sent : UInt64) :
    Answers AtRest listing (sendFile receiverFuel path fileSize fuel sent : Up K Bool) := by
  refine upholds_sendFile (answers_command selfless_atRest _) (fun msg chunk hmsg => ?_)
    (fun _ => answers_of_steady selfless_atRest (steady_updateProgress trivial (fun _ => trivial) _ _ _))
    (answers_readReceiver selfless_atRest _) fuel sent
  rcases hmsg with rfl | rfl
  · exact answers_write chunk.2 (by decide) (by decide)
  · exact answers_write chunk.2 (by decide) (by decide)

/-- **The answer to a request**: it is refused where the path is not found, or is a directory. -/
theorem answers_serveFile (fuel : Nat) {t : Thread SingleUploader} {w : Inquiry} (hw : Inquired t w) :
    wp (inquiring K listing) (serveFile fuel listing : Up K Unit) (fun _ => AtRest) (fun _ _ _ => True)
      t w := by
  obtain ⟨hrest, hpath⟩ := hw
  show wp _ (orThrow t.encryptedStream.getPayload >>= _) _ _ t w
  cases hpayload : t.encryptedStream.getPayload with
  | error e => exact trivial
  | ok payload =>
    show wp _ (orPanic (slice payload 0 8) >>= _) _ _ t w
    cases hseek : slice payload 0 8 with
    | none => exact trivial
    | some seekBytes =>
      have hlong : 8 ≤ payload.length := by
        unfold slice at hseek
        split at hseek
        · exact (‹_ ∧ _› : 0 ≤ 8 ∧ 8 ≤ payload.length).2
        · cases hseek
      have hchoice := hpath payload hpayload hlong
      have hheader : ∀ msg, msgOf (header msg ([] : List UInt8).length) = msg := fun msg => by
        simpa using msgOf_header msg 0 []
      refine (wp_bind (orPanic (some seekBytes)) _).mpr ((wp_orPanic_some seekBytes).mpr ?_)
      dsimp only
      cases hutf : fromUtf8 (payload.drop 8) with
      | none => exact trivial
      | some path =>
        rw [hutf] at hchoice
        refine (wp_bind (orThrow (.ok path)) _).mpr ((wp_orThrow_ok path).mpr ?_)
        cases hfound : getFileByPath path listing with
        | none =>
          refine wp_answer (Nat.zero_le _) hrest fun _ => ?_
          rw [hheader]
          exact ⟨fun _ => ⟨path, hchoice, hfound⟩, fun h => absurd h (by decide)⟩
        | some f =>
          show wp _ (if f.isDirectory = true then write msgCannotSelectDirectory [] else _) _ _ t w
          split
          · rename_i hdir
            refine wp_answer (Nat.zero_le _) hrest fun _ => ?_
            rw [hheader]
            exact ⟨fun h => absurd h (by decide), fun _ => ⟨path, f, hchoice, hfound, hdir⟩⟩
          · have hcommand : ∀ c : UploaderCmd K, Answers AtRest listing (command c) :=
              answers_command selfless_atRest
            have hstate : ∀ percent, Answers AtRest listing (uploadState path percent : Up K Unit) :=
              answers_uploadState selfless_atRest path
            refine endsIn_bind (hcommand _) (fun a => ?_) t w hrest
            refine endsIn_bind (upholds_orThrow _) fun _ => endsIn_bind (hcommand _) fun a => ?_
            refine endsIn_bind (upholds_orThrow _) fun _ => endsIn_bind (hstate _) fun _ => ?_
            refine endsIn_bind (answers_sendFile _ _ _ _ _) fun (_ : Bool) => ?_
            exact endsIn_ite (fun _ => hstate _) fun _ => endsIn_pure _

theorem answers_runLoop (fuel : Nat) (bytes : List UInt8) :
    Answers AtRest listing (runLoop fuel listing bytes : Up K RunLoopResult) := by
  intro t w hw
  refine wp_seq (answers_read hw) (fun _ t₁ w₁ h₁ => ?_) fun _ _ _ _ => trivial
  have hreceive : Answers Inquired listing (readReceiver fuel : Up K Unit) :=
    answers_readReceiver selfless_inquired fuel
  refine wp_seq (hreceive t₁ w₁ h₁) (fun _ t₂ w₂ h₂ => ?_) fun _ _ _ _ => trivial
  refine (wp_bind self _).mpr ((wp_ite _ _ _).mpr ?_)
  split
  · exact h₂.1
  have hmessage : Answers Inquired listing (getMessage : Up K UInt16) :=
    endsIn_bind endsIn_get fun _ => endsIn_pure _
  refine wp_seq (hmessage t₂ w₂ h₂) (fun clientMessage t₃ w₃ h₃ => ?_) fun _ _ _ _ => trivial
  refine (wp_bind _ _).mpr ((wp_modifySelf _).mpr ?_)
  -- the request is still in the buffer
  have h₄ := selfless_inquired t₃ { t₃.self with activeMsg := clientMessage } w₃ h₃
  refine (wp_ite _ _ _).mpr ?_
  split
  · exact endsIn_bind (answers_sendList _ _ _ _ _) (fun _ => endsIn_pure _) _ w₃ h₄.1
  refine (wp_ite _ _ _).mpr ?_
  split
  · exact wp_seq (answers_serveFile fuel h₄) (fun _ _ _ h => h) fun _ _ _ _ => trivial
  refine (wp_ite _ _ _).mpr ?_
  split
  · exact h₄.1
  · exact trivial

/-- **An uploader refuses only what it does not find as a file.** Over the requests of a connection. -/
theorem answers_serveRequests (fuel : Nat) (bytes : List UInt8) (n : Nat) :
    Answers AtRest listing (serveRequests fuel listing bytes n : Up K RunLoopResult) :=
  upholds_serveRequests (answers_runLoop fuel bytes) (answers_readReceiver selfless_atRest _)
    (fun _ => answers_command selfless_atRest _) n

end Answers

end SingleUploader

/-! ## 5. The two sides -/

/-- A downloader and an uploader that go by one listing, which travels as JSON: in every run of the one,
    and over all the requests of the other. -/
structure ServesListing [Crates] (K : Suite) (listing : SharedFile) : Prop where
  /-- Once the listing has been received, only files the sharer finds are asked for, and none that was
      refused; `coming` is what the sharer makes of the listing. -/
  asked : ∀ json, Crates.listingToJson listing = .ok json →
    ∀ (fuel n nonce : Nat) (t t' : Thread SingleDownloader) (w w' : Dealings) (plain : List UInt8)
    (k : Sealed → Prog (Thread SingleDownloader) (Wire ⊕ DownloaderCmd) (Ans DownloaderCmd.Ans) Exc Unit),
    w.Sound listing → w'.arrived = true → plain.length ≠ payloadOffset →
    Reach (sharing listing ((pieces (utf8 json)).flatMap messageFrames)) (runThread fuel n t, w)
      (.call t' (.inl (.seal nonce plain)) k, w') →
    ∃ seek path, plain = body msgFileSelectionContinue (requestPayload seek path) ∧
      Served listing path ∧ path ∉ w'.refused
  /-- A message that refuses a request is the answer to a request for what is no file of the listing. -/
  refusals : ∀ json, Crates.listingToJson listing = .ok json →
    ∀ (fuel n nonce : Nat) (t t' : Thread SingleUploader) (w w' : Inquiry) (plain : List UInt8)
    (k : Sealed → Prog (Thread SingleUploader) (Wire ⊕ UploaderCmd K) (Ans UploaderCmd.Ans) Exc
      RunLoopResult),
    SingleUploader.AtRest t w → w'.body = false →
    msgOf plain = msgFileInvalidFile ∨ msgOf plain = msgCannotSelectDirectory →
    Reach (inquiring K listing) (SingleUploader.serveRequests fuel listing (utf8 json) n t, w)
      (.call t' (.inl (.seal nonce plain)) k, w') →
    ∃ path, w'.path = some path ∧ ¬ Served listing path ∧
      (msgOf plain = msgFileInvalidFile → getFileByPath path listing = none)

/-- **The sharer serves what it lists**: what a downloader asks for after it has received the listing is
    found as a file, so an uploader with the listing does not refuse it. -/
theorem sharer_serves [Crates] (K : Suite) {fs : FileSystem} {config : Config} {nickname : Str}
    {listing : SharedFile} (hl : getEverythingFile fs config nickname = .ok listing)
    (hjson : ∀ json, Crates.listingToJson listing = .ok json → Crates.listingFromJson json = .ok listing) :
    ServesListing K listing where
  asked json hto fuel n nonce t t' w w' plain k hsound harrived hlong hr := by
    have hwritten : Written listing ((pieces (utf8 json)).flatMap messageFrames) :=
      ⟨utf8 json, rfl, parseListing_utf8 (hjson json hto)⟩
    have hok : w'.Admits listing plain := maintains_reach (deals_runThread hwritten hl fuel n) hsound hr
    rcases hok with hshort | ⟨seek, path, hplain, hserved⟩
    · exact absurd hshort hlong
    · exact ⟨seek, path, hplain, hserved harrived⟩
  refusals json _ fuel n nonce t t' w w' plain k hrest hbody hrefusal hr := by
    have hok : w'.Admits listing plain :=
      reach_ok (SingleUploader.answers_serveRequests fuel (utf8 json) n t w hrest) hr
    obtain ⟨hinvalid, hdirectory⟩ := hok hbody
    have hnone : ∀ {path : Str}, getFileByPath path listing = none → ¬ Served listing path := by
      rintro path hnone ⟨f, hf, -⟩
      rw [hnone] at hf
      cases hf
    rcases hrefusal with hmsg | hmsg
    · obtain ⟨path, hpath, hmissing⟩ := hinvalid hmsg
      exact ⟨path, hpath, hnone hmissing, fun _ => hmissing⟩
    · obtain ⟨path, f, hpath, hf, hdir⟩ := hdirectory hmsg
      refine ⟨path, hpath, ?_, fun h => ?_⟩
      · rintro ⟨g, hg, hfile⟩
        rw [hf] at hg
        cases hg
        rw [hdir] at hfile
        cases hfile
      · rw [hmsg] at h
        exact absurd h (by decide)

/-- The listing of a share of one empty file. -/
def oneFileListing : SharedFile :=
  { path := "everything/".toList
    isDirectory := true
    files := [emptyFile pathA]
    fileSize := 0
    sizeString := "0 bytes".toList }

/-- The same as text. -/
def oneFileJson : Str :=
  ("\x7b\"path\":\"everything/\",\"is_directory\":true,\"files\":[\x7b\"path\":\"/a/x.txt\"," ++
    "\"is_directory\":false,\"files\":[],\"file_size\":\"0\",\"size_string\":\"0 bytes\"\x7d]," ++
    "\"file_size\":\"0\",\"size_string\":\"0 bytes\"\x7d").toList

/-- Other packages, where this listing is written and read as this text. -/
@[reducible] def oneFileCrates : Crates :=
  { idleCrates with
    listingToJson := fun _ => .ok oneFileJson
    listingFromJson := fun json => if json = oneFileJson then .ok oneFileListing else .error [] }

theorem sharer_serves_oneFile : @ServesListing oneFileCrates (symbolic id) oneFileListing := by
  refine @sharer_serves oneFileCrates (symbolic id) twoDirsFs (homeConfig pathA) "bob".toList
    oneFileListing (by rfl) fun json hto => ?_
  rw [show json = oneFileJson from (Except.ok.inj hto).symm]
  exact if_pos rfl

end Transmitic
