/-
  File:      Transmitic/AccessControl.lean
  Subject:   WHO GETS WHAT FROM AN UPLOADER.

  An uploader decides in many places whom it talks to and what it sends him: it looks for users with the
  address of the peer, for one of these whose key the handshake brought, whether he is allowed, what is
  shared with him, and whether the path he asks for is in there.

  * `Sight` -- what an uploader has got to see of its peer, and of the disk;
  * `Matched`, `Entitled`, `Available` -- what has to be true of a user, and of a file;
  * `Sight.Admits` -- what an uploader may do;
  * `controls_serveUser`, `controls_singleThread` -- **an uploader does nothing else**;
  * `upload_access_controlled` -- the same for all uploaders of all runs of the manager.
-/
import Transmitic.EndedUploads
import Transmitic.RequestedFiles
import Transmitic.RevocationRuns
import Transmitic.SharingMode

namespace Transmitic

open Lib

/-! ## 1. What an uploader gets to see -/

structure Sight (K : Suite) where
  peer : Option IpAddr
  /-- Hosts, with the addresses they were resolved to. -/
  resolved : List (Str × List IpAddr)
  /-- The ephemeral key of the peer, and its signature. -/
  key : Option (K.Public × K.Signature)
  /-- What the listing is made of. -/
  fileSystem : Option FileSystem
  /-- The file that is open. -/
  opened : Option Str
  /-- What was read of it last, if anything was. -/
  bytes : Option (List UInt8)
  /-- The message whose second frame is still to be written. -/
  due : Option UInt16

namespace Sight

variable {K : Suite}

def start : Sight K :=
  { peer := none
    resolved := []
    key := none
    fileSystem := none
    opened := none
    bytes := none
    due := none }

/-- A frame is written. -/
def write (w : Sight K) (plain : List UInt8) : Sight K :=
  { w with due := if w.due = none ∧ sizeOf' plain ≠ 0 then some (msgOf plain) else none }

/-- After a command of the uploader was answered. -/
def after (w : Sight K) : (c : Wire ⊕ UploaderCmd K) → Ans UploaderCmd.Ans c → Sight K
  | .inl (.seal _ plain), _ => w.write plain
  | .inr .peerAddr, .ok peer => { w with peer := some peer }
  | .inr (.resolveAddress ip _), .ok addresses => { w with resolved := (ip, addresses) :: w.resolved }
  | .inr (.handshake .readKey), .ok key => { w with key := some key }
  | .inr .fileSystem, fs => { w with fileSystem := some fs }
  | .inr (.fileOpen path), .ok _ => { w with opened := some path, bytes := none }
  | .inr .fileRead, .ok readBuffer => { w with bytes := some readBuffer.1 }
  | _, _ => w

/-- One of the addresses the host of the user was resolved to is that of the peer, or is an IPv4 address
    that is embedded in it. -/
def Addresses (w : Sight K) (user : SharedUser) : Prop :=
  ∃ peer addresses address, w.peer = some peer ∧ (user.ip, addresses) ∈ w.resolved ∧
    address ∈ addresses ∧ (address.text = peer.text ∨
      address.isIpv4 = true ∧ peer.isIpv4 = false ∧ "::ffff:".toList ++ address.text = peer.text)

end Sight

/-! ## 2. Whom it may serve, and with what -/

section Rights

variable {K : Suite} (config : Config) (reverseUser : Option SharedUser)

/-- The peer is this user of the config: his key is signed under the public ID, and, where the peer came by
    himself and his address matters, the address is right. -/
structure Matched (w : Sight K) (user : SharedUser) : Prop where
  known : user ∈ config.configFile.sharedUsers
  signed : ∃ publicKey signature id, w.key = some (publicKey, signature) ∧
    Base64.decode user.publicId = .ok id ∧ K.verify id publicKey signature = true
  addressed : config.configFile.ignoreIncoming = false → reverseUser = none → w.Addresses user

/-- And the user is allowed. -/
structure Entitled (w : Sight K) (user : SharedUser) : Prop extends
    Matched config reverseUser w user where
  allowed : user.allowed = true

/-- A file of the listing of the user: a file shared with him, or below a directory shared with him. -/
structure Available (fs : FileSystem) (nickname path : Str) : Prop where
  listed : ∃ listing, getEverythingFile fs config nickname = .ok listing ∧
    ∃ node ∈ nodes listing, node.path = path ∧ node.isDirectory = false
  shared : ∃ file ∈ config.configFile.sharedFiles, Shared fs config.pathDirConfig nickname file path

/-- What is in the second frame of a message: a part of the listing of the user, or what was read of a file
    he may have. -/
inductive Content [Crates] (w : Sight K) (user : SharedUser) (msg : UInt16) (plain : List UInt8) :
    Prop where
  | listing (fs : FileSystem) (listing : SharedFile) (json : Str) (piece : List UInt8)
      (hmsg : msg = msgFileListPiece ∨ msg = msgFileListFinal) (hfs : w.fileSystem = some fs)
      (hlisting : getEverythingFile fs config user.nickname = .ok listing)
      (hjson : Crates.listingToJson listing = .ok json) (hpiece : piece <:+: utf8 json)
      (hplain : plain = body msg piece)
  | file (fs : FileSystem) (path : Str) (bytes : List UInt8)
      (hmsg : msg = msgFileChunk ∨ msg = msgFileFinished) (hfs : w.fileSystem = some fs)
      (hopened : w.opened = some path) (hbytes : w.bytes = some bytes)
      (havailable : Available config fs user.nickname path) (hplain : plain = body msg bytes)

/-- What the uploader may do: write the number of a message and its size, its content, or open a file, all
    for a user who is entitled to it. The greeting of a reverse connection comes before. -/
def Sight.Admits [Crates] (w : Sight K) : Wire ⊕ UploaderCmd K → Prop
  | .inl (.seal _ plain) =>
    match w.due with
    | none => (∃ msg size, plain = header msg size) ∧
      ((∃ user, Entitled config reverseUser w user) ∨
        reverseUser ≠ none ∧ (plain = header msgReverse 0 ∨ plain = header msgReverseNoList 0))
    | some msg => ∃ user, Entitled config reverseUser w user ∧ Content config w user msg plain
  | .inr (.fileOpen path) => ∃ user fs, Entitled config reverseUser w user ∧ w.fileSystem = some fs ∧
    Available config fs user.nickname path
  | _ => True

/-- The surroundings of an uploader with this config. They may answer anything. -/
def admission [Crates] (K : Suite) :
    Env (Thread SingleUploader) (Wire ⊕ UploaderCmd K) (Ans UploaderCmd.Ans) (Sight K) where
  ok w _ c := w.Admits config reverseUser c
  step w _ c a w' := w' = w.after c a

/-- And the listing of the user is made of this file system. -/
def ListedFor (user : SharedUser) (fs : FileSystem) (w : Sight K) : Prop :=
  Entitled config reverseUser w user ∧ w.fileSystem = some fs

/-- And the file at this path is open. -/
def Opened (user : SharedUser) (fs : FileSystem) (path : Str) (w : Sight K) : Prop :=
  ListedFor config reverseUser user fs w ∧ w.opened = some path

theorem Entitled.congr {config : Config} {reverseUser : Option SharedUser} {user : SharedUser}
    {w w' : Sight K} (h : Entitled config reverseUser w user)
    (hpeer : w'.peer = w.peer) (hresolved : w'.resolved = w.resolved) (hkey : w'.key = w.key) :
    Entitled config reverseUser w' user := by
  obtain ⟨⟨hknown, hsigned, haddressed⟩, hallowed⟩ := h
  refine ⟨⟨hknown, by rw [hkey]; exact hsigned, fun hignore hnone => ?_⟩, hallowed⟩
  have ha := haddressed hignore hnone
  unfold Sight.Addresses at ha ⊢
  rw [hpeer, hresolved]
  exact ha

end Rights

/-! ## 3. What it sends -/

namespace SingleUploader

section Control

variable {K : Suite} [Crates] {config : Config} {reverseUser : Option SharedUser} {α : Type}
  {J : Sight K → Prop}

/-- The uploader does what it may, while `J` holds. -/
abbrev Controls (config : Config) (reverseUser : Option SharedUser) (J : Sight K → Prop) (m : Up K α) :
    Prop := Upholds (admission config reverseUser K) (fun _ w => w.due = none ∧ J w) m

/-- Facts that have nothing to do with frames. -/
def Undue (J : Sight K → Prop) : Prop := ∀ w due, J w → J { w with due }

/-- A command that is admitted at any time, and shows the uploader nothing. -/
def Blind (config : Config) (reverseUser : Option SharedUser) (c : Wire ⊕ UploaderCmd K) : Prop :=
  (∀ w : Sight K, w.Admits config reverseUser c) ∧ ∀ (w : Sight K) a, w.after c a = w

/-- A method with such commands only. -/
theorem controls_of_steady {V : Type} {r : Thread SingleUploader → V} {m : Up K α}
    (h : Steady (Blind config reverseUser) r m) : Controls config reverseUser J m :=
  upholds_of_steady h (fun _ _ _ _ hi => hi) (fun _ w _ _ hc => hc.1 w) fun t w c a w' hi hc hs => by
    rw [show w' = w from (show w' = w.after c a from hs).trans (hc.2 w a)]
    exact hi

theorem controls_command {c : UploaderCmd K} (hc : Blind config reverseUser (.inr c)) :
    Controls config reverseUser J (command c) :=
  controls_of_steady (r := fun _ => ()) (steady_issue hc)

theorem blind_app (m : UploadMessage) :
    Blind config reverseUser (.inr (.app m) : Wire ⊕ UploaderCmd K) := ⟨fun _ => trivial, fun _ _ => rfl⟩

theorem controls_readReceiver (fuel : Nat) :
    Controls config reverseUser J (readReceiver fuel : Up K Unit) :=
  controls_of_steady (steady_readReceiver ⟨fun _ => trivial, fun _ _ => rfl⟩ fuel)

theorem controls_uploadState (path : Str) (percent : UInt64) :
    Controls config reverseUser J (uploadState path percent : Up K Unit) :=
  controls_of_steady (r := id) (steady_uploadState (fun _ => blind_app _) path percent)

theorem controls_updateProgress (path : Str) (currentSentBytes fileSize : UInt64) :
    Controls config reverseUser J (updateProgress path currentSentBytes fileSize : Up K Unit) :=
  controls_of_steady (r := id) (steady_updateProgress ⟨fun _ => trivial, fun _ _ => rfl⟩
    (fun _ => blind_app _) path currentSentBytes fileSize)

omit [Crates] in
/-- A frame that is read shows him nothing either. -/
theorem unseal_of_readAnd {c : Wire ⊕ UploaderCmd K} (hc : readAnd (fun _ => False) c) :
    ∃ n size, c = .inl (.unseal n size) := by
  cases c with
  | inl c =>
    cases c with
    | «seal» n plain => exact hc.elim
    | «unseal» n size => exact ⟨n, size, rfl⟩
  | inr c => exact hc.elim

theorem controls_read : Controls config reverseUser J (Transmitic.read : Up K Unit) := by
  have hread : Steady (readAnd fun _ => False) Thread.self (Transmitic.read : Up K Unit) :=
    steady_read_of fun _ _ => trivial
  refine (maintains_of_steady hread (fun _ _ _ _ h => h) (fun _ w c _ hc => ?_)
    fun _ w c a w' h hc hs => ?_).ends fun _ _ _ _ => trivial
  · obtain ⟨n, size, rfl⟩ := unseal_of_readAnd hc
    trivial
  · obtain ⟨n, size, rfl⟩ := unseal_of_readAnd hc
    rw [show w' = w from hs]
    exact h

/-- The first frame of a message. -/
theorem admits_header {w : Sight K} (n : Nat) {size : Nat} {msg : UInt16} (hdue : w.due = none)
    (h : (∃ user, Entitled config reverseUser w user) ∨ reverseUser ≠ none ∧
      (header msg size = header msgReverse 0 ∨ header msg size = header msgReverseNoList 0)) :
    w.Admits config reverseUser (.inl (.seal n (header msg size))) := by
  unfold Sight.Admits
  rw [hdue]
  exact ⟨⟨msg, size, rfl⟩, h⟩

/-- The second frame. -/
theorem admits_body {w : Sight K} (n : Nat) {msg : UInt16} {user : SharedUser} {plain : List UInt8}
    (hdue : w.due = some msg) (hentitled : Entitled config reverseUser w user)
    (hcontent : Content config w user msg plain) :
    w.Admits config reverseUser (.inl (.seal n plain)) := by
  unfold Sight.Admits
  rw [hdue]
  exact ⟨user, hentitled, hcontent⟩

/-- **A message is written** with what the user may have. -/
theorem controls_write (hJ : Undue J) {msg : UInt16} {payload : List UInt8}
    (hsmall : payload.length ≤ maxDataSize)
    (hentitled : ∀ w, J w → ∃ user, Entitled config reverseUser w user ∧
      (payload ≠ [] → Content config w user msg (body msg payload))) :
    Controls config reverseUser J (write msg payload : Up K Unit) := by
  intro t w hw
  have hsize : sizeOf' (header msg payload.length) = payload.length :=
    sizeOf'_header_only (Nat.lt_of_le_of_lt hsmall (by decide)) msg
  have hmsg : msgOf (header msg payload.length) = msg := by simpa using msgOf_header msg payload.length []
  have hwrite : w.write (header msg payload.length) =
      { w with due := if payload = [] then none else some msg } := by
    simp [Sight.write, hw.1, hsize, hmsg]
  refine wp_write_frames (J := fun w' => J w' ∧ w'.due = if payload = [] then none else some msg) hsmall
    (fun t' n _ => ⟨?_, fun a w' hs => ?_⟩) (fun hnil t' w' _ h' => ?_)
    (fun hne t' n w' _ h' => ⟨?_, fun a w'' hs => ?_⟩) fun _ _ _ _ _ => trivial
  · obtain ⟨user, huser, -⟩ := hentitled w hw.2
    exact admits_header n hw.1 (.inl ⟨user, huser⟩)
  · rw [show w' = _ from (show w' = w.write _ from hs).trans hwrite]
    exact ⟨hJ w _ hw.2, rfl⟩
  · exact ⟨h'.2.trans (if_pos hnil), h'.1⟩
  · obtain ⟨user, huser, hcontent⟩ := hentitled w' h'.1
    exact admits_body n (h'.2.trans (if_neg hne)) huser (hcontent hne)
  · have hdue : w'.due ≠ none := by
      rw [h'.2, if_neg hne]
      exact Option.some_ne_none msg
    have hdone : w'' = { w' with due := none } := by
      rw [show w'' = w'.write (body msg payload) from hs]
      simp [Sight.write, hdue]
    rw [hdone]
    exact ⟨fun _ _ => ⟨rfl, hJ w' _ h'.1⟩, fun _ _ _ => trivial⟩

variable {user : SharedUser} {fs : FileSystem} {listing : SharedFile} {json path : Str}

omit [Crates] in
theorem undue_listedFor : Undue (ListedFor config reverseUser user fs : Sight K → Prop) :=
  fun _ _ h => ⟨h.1.congr rfl rfl rfl, h.2⟩

/-- A message without content. -/
theorem controls_write_nil (msg : UInt16) :
    Controls config reverseUser (ListedFor config reverseUser user fs) (write msg [] : Up K Unit) :=
  controls_write undue_listedFor (Nat.zero_le _) fun _ h => ⟨user, h.1, fun hne => absurd rfl hne⟩

omit [Crates] in
theorem slice_within {bytes piece : List UInt8} {i j : Nat} (h : slice bytes i j = some piece) :
    piece <:+: bytes := by
  unfold slice at h
  split at h
  · cases h
    exact (List.take_prefix _ _).isInfix.trans (List.drop_suffix _ _).isInfix
  · cases h

omit [Crates] in
theorem listPiece_within {bytes piece : List UInt8} {sent remaining : Nat}
    (h : (listPiece bytes sent remaining).1 = some piece) : piece <:+: bytes ∧
      ((listPiece bytes sent remaining).2 = msgFileListPiece ∨
        (listPiece bytes sent remaining).2 = msgFileListFinal) := by
  unfold listPiece at h ⊢
  split at h
  · rename_i hle
    rw [if_pos hle]
    exact ⟨slice_within h, .inr rfl⟩
  · rename_i hle
    rw [if_neg hle]
    exact ⟨slice_within h, .inl rfl⟩

/-- **The pieces of the listing** of the user. -/
theorem controls_sendList (hlisting : getEverythingFile fs config user.nickname = .ok listing)
    (hjson : Crates.listingToJson listing = .ok json) (receiverFuel fuel sent remaining : Nat) :
    Controls config reverseUser (ListedFor config reverseUser user fs)
      (sendList receiverFuel (utf8 json) fuel sent remaining : Up K Unit) := by
  refine upholds_sendList (fun sent remaining payload hpiece => ?_) (controls_readReceiver _)
    (fun _ => controls_command ⟨fun _ => trivial, fun _ _ => rfl⟩) fuel sent remaining
  obtain ⟨hwithin, hmsg⟩ := listPiece_within hpiece
  have hcontent : ∀ w : Sight K, ListedFor config reverseUser user fs w →
      Content config w user (listPiece (utf8 json) sent remaining).2
        (body (listPiece (utf8 json) sent remaining).2 payload) := fun w h =>
    .listing fs listing json payload hmsg h.2 hlisting hjson hwithin rfl
  exact controls_write undue_listedFor (listPiece_length hpiece)
    fun w h => ⟨user, h.1, fun _ => hcontent w h⟩

/-- **The chunks of a file** the user may have. -/
theorem controls_sendFile (havailable : Available config fs user.nickname path) (receiverFuel : Nat)
    (fileSize : UInt64) : ∀ (fuel : Nat) (sent : UInt64),
      Controls config reverseUser (Opened config reverseUser user fs path)
        (sendFile receiverFuel path fileSize fuel sent : Up K Bool)
  | 0, _ => upholds_throw
  | fuel + 1, sent => by
    intro t w hw
    refine (wp_bind (command .fileRead) _).mpr ⟨trivial, fun a w' hs => ?_⟩
    cases a with
    | error e => exact trivial
    | ok readBuffer =>
      have hread : w' = { w with bytes := some readBuffer.1 } := hs
      have hw' : w'.due = none ∧
          (Opened config reverseUser user fs path w' ∧ w'.bytes = some readBuffer.1) := by
        rw [hread]
        exact ⟨hw.1, ⟨⟨hw.2.1.1.congr rfl rfl rfl, hw.2.1.2⟩, hw.2.2⟩, rfl⟩
      have hmsg : ∀ {b : Prop} [Decidable b] {m : UInt16},
          m = (if b then msgFileFinished else msgFileChunk) → m = msgFileChunk ∨ m = msgFileFinished := by
        intro b _ m hm
        rw [hm]
        split
        · exact .inr rfl
        · exact .inl rfl
      have hcontent : ∀ w : Sight K,
          (Opened config reverseUser user fs path w ∧ w.bytes = some readBuffer.1) →
          Content config w user (if fileSize ≤ sent + UInt64.ofNat readBuffer.1.length ∨
            readBuffer.1.length = 0 then msgFileFinished else msgFileChunk) (body _ readBuffer.1) :=
        fun w h => .file fs path readBuffer.1 (hmsg rfl) h.1.1.2 h.1.2 h.2 havailable rfl
      show wp _ (write _ readBuffer.1 >>= fun _ => _) _ _ t w'
      refine wp_seq (controls_write (fun w d h => ⟨⟨undue_listedFor w d h.1.1, h.1.2⟩, h.2⟩) readBuffer.2
        (fun w h => ⟨user, h.1.1.1, fun _ => hcontent w h⟩) t w' hw') (fun _ t₁ w₁ h₁ => ?_)
        fun _ _ _ _ => trivial
      refine endsIn_ite (fun _ => endsIn_pure _) (fun _ => ?_) t₁ w₁ ⟨h₁.1, h₁.2.1⟩
      refine endsIn_bind (controls_updateProgress _ _ _) fun _ => ?_
      refine endsIn_bind (controls_readReceiver _) fun _ => endsIn_bind upholds_self fun u => ?_
      exact endsIn_ite (fun _ => endsIn_pure _) fun _ =>
        controls_sendFile havailable receiverFuel fileSize fuel _

omit [Crates] in
/-- What is found in the listing of the user, and is no directory, he may have. -/
theorem available_of_found {f : SharedFile}
    (hlisting : getEverythingFile fs config user.nickname = .ok listing)
    (hfound : getFileByPath path listing = some f) (hfile : f.isDirectory = false) :
    Available config fs user.nickname path := by
  obtain ⟨hmem, hpath⟩ := getFileByPath_some hfound
  refine ⟨⟨listing, hlisting, f, hmem, hpath, hfile⟩, (getEverythingFile_paths hlisting path).mp ?_⟩
  rw [nodes_eq] at hmem
  rcases List.mem_cons.mp hmem with hroot | hbelow
  · -- the root is a directory
    obtain ⟨root, hadded, h⟩ := bind_eq_ok.mp hlisting
    cases h
    have hdir : root.isDirectory = true := (addSharedFiles_kinds hadded).2.1
    rw [hroot] at hfile
    exact absurd (hdir.symm.trans hfile) (by decide)
  · exact ⟨f, hbelow, hpath⟩

/-- **The answer to a request** opens a file the user may have. -/
theorem controls_serveFile (hlisting : getEverythingFile fs config user.nickname = .ok listing)
    (fuel : Nat) : Controls config reverseUser (ListedFor config reverseUser user fs)
      (serveFile fuel listing : Up K Unit) := by
  have hpayload : Controls config reverseUser (ListedFor config reverseUser user fs)
      (getPayload : Up K (List UInt8)) := endsIn_bind endsIn_get fun _ => upholds_orThrow _
  refine endsIn_bind hpayload fun payload => endsIn_bind (upholds_orPanic _) fun seekBytes => ?_
  refine endsIn_bind (upholds_orThrow _) fun clientFileChoice => ?_
  cases hfound : getFileByPath clientFileChoice listing with
  | none => exact controls_write_nil _
  | some clientSharedFile =>
    refine endsIn_ite (fun _ => controls_write_nil _) fun hdir => ?_
    have havailable := available_of_found hlisting hfound (Bool.eq_false_of_not_eq_true hdir)
    intro t w hw
    refine (wp_bind (command (.fileOpen clientFileChoice)) _).mpr
      ⟨⟨user, fs, hw.2.1, hw.2.2, havailable⟩, fun a w' hs => ?_⟩
    cases a with
    | error e => exact trivial
    | ok u =>
      have hopen : w' = { w with opened := some clientFileChoice, bytes := none } := hs
      have hw' : w'.due = none ∧ Opened config reverseUser user fs clientFileChoice w' := by
        rw [hopen]
        exact ⟨hw.1, ⟨hw.2.1.congr rfl rfl rfl, hw.2.2⟩, rfl⟩
      have hrest : Controls config reverseUser (Opened config reverseUser user fs clientFileChoice)
          (do
            tryIo (← command (.fileSeek (UInt64.ofNat (ofBe seekBytes))))
            uploadState clientFileChoice 0
            let sent : Bool ← sendFile fuel clientFileChoice clientSharedFile.fileSize fuel
              (UInt64.ofNat (ofBe seekBytes))
            if sent then uploadState clientFileChoice 100 : Up K Unit) := by
        refine endsIn_bind (controls_command ⟨fun _ => trivial, fun _ _ => rfl⟩) fun a => ?_
        refine endsIn_bind (upholds_orThrow _) fun _ => endsIn_bind (controls_uploadState _ _) fun _ => ?_
        refine endsIn_bind (controls_sendFile havailable _ _ _ _) fun (_ : Bool) => ?_
        exact endsIn_ite (fun _ => controls_uploadState _ _) fun _ => endsIn_pure _
      refine (wp_bind (tryIo (.ok u)) _).mpr ((wp_orThrow_ok u).mpr ?_)
      exact wp_conseq (hrest t w' hw') (fun _ _ _ h => ⟨h.1, h.2.1⟩) fun _ _ _ _ => trivial

theorem controls_runLoop (hlisting : getEverythingFile fs config user.nickname = .ok listing)
    (hjson : Crates.listingToJson listing = .ok json) (fuel : Nat) :
    Controls config reverseUser (ListedFor config reverseUser user fs)
      (runLoop fuel listing (utf8 json) : Up K RunLoopResult) := by
  refine endsIn_bind controls_read fun _ => endsIn_bind (controls_readReceiver _) fun _ => ?_
  refine endsIn_bind upholds_self fun u => endsIn_ite (fun _ => endsIn_pure _) fun _ => ?_
  refine endsIn_bind (endsIn_bind endsIn_get fun _ => endsIn_pure _) fun clientMessage => ?_
  refine endsIn_bind (endsIn_modify fun _ _ h => h) fun _ => endsIn_ite (fun _ => ?_) fun _ => ?_
  · exact endsIn_bind (controls_sendList hlisting hjson _ _ _ _) fun _ => endsIn_pure _
  refine endsIn_ite (fun _ => ?_) fun _ => endsIn_ite (fun _ => ?_) fun _ => ?_
  · exact endsIn_bind (controls_serveFile hlisting fuel) fun _ => endsIn_pure _
  · exact endsIn_bind (endsIn_modify fun _ _ h => h) fun _ => endsIn_pure _
  · exact endsIn_bind upholds_self fun _ => upholds_throw

/-- Over the requests of a connection. -/
theorem controls_serveRequests (hlisting : getEverythingFile fs config user.nickname = .ok listing)
    (hjson : Crates.listingToJson listing = .ok json) (fuel n : Nat) :
    Controls config reverseUser (ListedFor config reverseUser user fs)
      (serveRequests fuel listing (utf8 json) n : Up K RunLoopResult) :=
  upholds_serveRequests (controls_runLoop hlisting hjson fuel) (controls_readReceiver _)
    (fun _ => controls_command (blind_app _)) n

end Control

/-! ## 4. Who the peer is -/

section Peer

variable {K : Suite} [Crates] {config : Config} {reverseUser : Option SharedUser} {α : Type}
  {t : Thread SingleUploader} {w : Sight K} {user : SharedUser}

/-- What fails shows the peer nothing. -/
def anyFailure : Exc → Thread SingleUploader → Sight K → Prop := fun _ _ _ => True

/-- A command that is admitted at any time. -/
theorem wp_seen {c : UploaderCmd K} {Q : c.Ans → Thread SingleUploader → Sight K → Prop}
    (hok : w.Admits config reverseUser (.inr c)) (h : ∀ a, Q a t (w.after (.inr c) a)) :
    wp (admission config reverseUser K) (command c) Q anyFailure t w := by
  refine ⟨hok, fun a w' hs => ?_⟩
  rw [show w' = w.after (.inr c) a from hs]
  exact h a

theorem wp_orFail_seen {r : Except Exc α} {Q : α → Thread SingleUploader → Sight K → Prop}
    (h : ∀ a, r = .ok a → Q a t w) :
    wp (admission config reverseUser K) (orFail r) Q anyFailure t w := by
  cases r with
  | ok a => exact h a rfl
  | error e => exact trivial

theorem wp_tryIo_seen {r : Except Str α} {Q : α → Thread SingleUploader → Sight K → Prop}
    (h : ∀ a, r = .ok a → Q a t w) :
    wp (admission config reverseUser K) (tryIo r) Q anyFailure t w := by
  cases r with
  | ok a => exact h a rfl
  | error e => exact trivial

/-- The greeting shows nothing. -/
theorem seen_sendTransmiticHeader {Q : Unit → Thread SingleUploader → Sight K → Prop} (hQ : Q () t w) :
    wp (admission config reverseUser K) (sendTransmiticHeader handshake) Q anyFailure t w :=
  (wp_bind _ _).mpr (wp_seen trivial fun _ => wp_orFail_seen fun _ _ => hQ)

theorem seen_receiveTransmiticHeader {ts : TransmiticStream}
    {Q : Unit → Thread SingleUploader → Sight K → Prop} (hQ : Q () t w) :
    wp (admission config reverseUser K) (receiveTransmiticHeader handshake ts) Q anyFailure t w :=
  (wp_bind _ _).mpr (wp_seen trivial fun _ => (wp_bind _ _).mpr
    (wp_orFail_seen fun _ _ => wp_orFail_seen fun _ _ => hQ))

theorem seen_sendDiffieHelmanKey {ts : TransmiticStream}
    {Q : K.Secret → Thread SingleUploader → Sight K → Prop} (hQ : ∀ secret, Q secret t w) :
    wp (admission config reverseUser K) (sendDiffieHelmanKey handshake ts) Q anyFailure t w := by
  refine (wp_bind _ _).mpr (wp_seen trivial fun secret => ?_)
  refine (wp_bind _ _).mpr (wp_seen trivial fun _ => ?_)
  exact (wp_bind _ _).mpr (wp_orFail_seen fun _ _ => hQ secret)

/-- The key that was received is signed under the public ID of this user. -/
def KeySigned (user : SharedUser) (w w' : Sight K) : Prop :=
  ∃ publicKey signature id, w' = { w with key := some (publicKey, signature) } ∧
    Base64.decode user.publicId = .ok id ∧ K.verify id publicKey signature = true

/-- **The key is that of a user who is looked for.** -/
theorem seen_receiveDiffieHelmanKey {ts : TransmiticStream}
    {Q : K.Public × TransmiticStream → Thread SingleUploader → Sight K → Prop}
    (hQ : ∀ publicKey user w', user ∈ ts.sharedUsers → KeySigned user w w' →
      Q (publicKey, { ts with matchedSharedUser := some user }) t w') :
    wp (admission config reverseUser K) (receiveDiffieHelmanKey handshake ts) Q anyFailure t w := by
  refine (wp_bind _ _).mpr (wp_seen trivial fun a => (wp_bind _ _).mpr (wp_orFail_seen fun key hkey => ?_))
  cases a with
  | error e => cases hkey
  | ok received =>
    cases hkey
    obtain ⟨publicKey, signature⟩ := key
    refine (wp_bind _ _).mpr (wp_orFail_seen fun matched hmatched => ?_)
    cases matched with
    | none => exact (wp_bind _ _).mpr (wp_seen trivial fun _ => trivial)
    | some user =>
      obtain ⟨hmem, id, hid, hv⟩ := matchSharedUser_some hmatched
      exact hQ publicKey user _ hmem ⟨publicKey, signature, id, rfl, hid, hv⟩

theorem seen_getEncryptedStream {ts : TransmiticStream} {key : K.Key}
    (hmatched : ts.matchedSharedUser = some user)
    {Q : K.Key × EncryptedStream → Thread SingleUploader → Sight K → Prop}
    (hQ : Q (key, EncryptedStream.new user ts.privateIdBytes) t w) :
    wp (admission config reverseUser K) (getEncryptedStream handshake ts key) Q anyFailure t w := by
  refine (wp_bind _ _).mpr (wp_seen trivial fun _ => (wp_bind _ _).mpr (wp_orFail_seen fun _ _ => ?_))
  rw [hmatched]
  exact hQ

/-- **A handshake leads to the user whose key came**, from either side. -/
theorem seen_connect {ts : TransmiticStream}
    {Q : K.Key × EncryptedStream → Thread SingleUploader → Sight K → Prop}
    (hQ : ∀ key es w', es.sharedUser ∈ ts.sharedUsers → KeySigned es.sharedUser w w' → Q (key, es) t w') :
    wp (admission config reverseUser K) (ts.connect handshake) Q anyFailure t w := by
  refine (wp_bind _ _).mpr (seen_sendTransmiticHeader ?_)
  refine (wp_bind _ _).mpr (seen_receiveTransmiticHeader ?_)
  refine (wp_bind _ _).mpr (seen_sendDiffieHelmanKey fun secret => ?_)
  refine (wp_bind _ _).mpr (seen_receiveDiffieHelmanKey fun publicKey user w' hmem hsigned => ?_)
  exact seen_getEncryptedStream rfl (hQ _ _ w' hmem hsigned)

theorem seen_waitForIncoming {ts : TransmiticStream}
    {Q : K.Key × EncryptedStream → Thread SingleUploader → Sight K → Prop}
    (hQ : ∀ key es w', es.sharedUser ∈ ts.sharedUsers → KeySigned es.sharedUser w w' → Q (key, es) t w') :
    wp (admission config reverseUser K) (ts.waitForIncoming handshake) Q anyFailure t w := by
  refine (wp_bind _ _).mpr (seen_receiveTransmiticHeader ?_)
  refine (wp_bind _ _).mpr (seen_sendTransmiticHeader ?_)
  refine (wp_bind _ _).mpr (seen_receiveDiffieHelmanKey fun publicKey user w' hmem hsigned => ?_)
  refine (wp_bind _ _).mpr (seen_sendDiffieHelmanKey fun secret => ?_)
  exact seen_getEncryptedStream rfl (hQ _ _ w' hmem hsigned)

/-- More hosts were resolved. -/
structure Resolves (w w' : Sight K) : Prop where
  peer : w'.peer = w.peer
  due : w'.due = w.due
  resolved : w.resolved ⊆ w'.resolved

omit [Crates] in
theorem Resolves.refl (w : Sight K) : Resolves w w := ⟨rfl, rfl, List.Subset.refl _⟩

omit [Crates] in
theorem Resolves.trans {w' w'' : Sight K} (h : Resolves w w') (h' : Resolves w' w'') : Resolves w w'' :=
  ⟨h'.peer.trans h.peer, h'.due.trans h.due, List.Subset.trans h.resolved h'.resolved⟩

omit [Crates] in
theorem isPeer_iff {peer address : IpAddr} : IpAddr.isPeer peer address = true ↔
    (address.text = peer.text ∨
      address.isIpv4 = true ∧ peer.isIpv4 = false ∧ "::ffff:".toList ++ address.text = peer.text) := by
  simp only [IpAddr.isPeer, Bool.or_eq_true, Bool.and_eq_true, Bool.not_eq_true', decide_eq_true_eq,
    and_assoc]

/-- **The users that are looked for have the address of the peer.** -/
theorem seen_retainedUsers {peer : IpAddr} : ∀ {sharedUsers : List SharedUser} {w : Sight K}
    {Q : List SharedUser → Thread SingleUploader → Sight K → Prop}, w.peer = some peer →
    (∀ retained w', Resolves w w' → (∀ user ∈ retained, user ∈ sharedUsers ∧ w'.Addresses user) →
      Q retained t w') →
    wp (admission config reverseUser K) (retainedUsers peer sharedUsers) Q anyFailure t w
  | [], w, Q, _, hQ => hQ [] w (Resolves.refl w) fun _ h => absurd h List.not_mem_nil
  | sharedUser :: sharedUsers, w, Q, hpeer, hQ => by
    refine (wp_bind _ _).mpr (wp_seen trivial fun resolved => ?_)
    cases resolved with
    | error e =>
      refine (wp_bind _ _).mpr (seen_retainedUsers hpeer fun retained w' hw' hretained => ?_)
      refine hQ retained w' hw' fun user hmem => ?_
      exact ⟨List.mem_cons_of_mem _ (hretained user hmem).1, (hretained user hmem).2⟩
    | ok addresses =>
      have hnext : Resolves w (w.after (.inr (.resolveAddress sharedUser.ip ['0'])) (.ok addresses)) :=
        ⟨rfl, rfl, List.subset_cons_self _ _⟩
      refine (wp_bind _ _).mpr (seen_retainedUsers hpeer fun retained w' hw' hretained => ?_)
      have hmore : ∀ user ∈ retained, user ∈ sharedUser :: sharedUsers ∧ w'.Addresses user :=
        fun user hmem => ⟨List.mem_cons_of_mem _ (hretained user hmem).1, (hretained user hmem).2⟩
      show Q (if addresses.any (IpAddr.isPeer peer) = true then sharedUser :: retained else retained) t w'
      refine hQ _ w' (hnext.trans hw') ?_
      split
      · rename_i hany
        obtain ⟨address, hmem, haddress⟩ := List.any_eq_true.mp hany
        intro user huser
        rcases List.mem_cons.mp huser with rfl | huser
        · refine ⟨List.mem_cons_self, peer, addresses, address, (hnext.trans hw').peer.trans hpeer, ?_,
            hmem, isPeer_iff.mp haddress⟩
          exact hw'.resolved List.mem_cons_self
        · exact hmore user huser
      · exact hmore

/-- The user is of the config, and has the address of the peer where it matters. -/
def Candidate (config : Config) (reverseUser : Option SharedUser) (w : Sight K) (user : SharedUser) :
    Prop :=
  user ∈ config.configFile.sharedUsers ∧
    (config.configFile.ignoreIncoming = false → reverseUser = none → w.Addresses user)

/-- The users the handshake looks for. -/
theorem seen_candidates {peer : IpAddr} {Q : List SharedUser → Thread SingleUploader → Sight K → Prop}
    (hreverse : ∀ user, reverseUser = some user → user ∈ config.configFile.sharedUsers)
    (hconfig : t.self.config = config) (hpeer : w.peer = some peer)
    (hQ : ∀ sharedUsers w', Resolves w w' →
      (∀ user ∈ sharedUsers, Candidate config reverseUser w' user) → Q sharedUsers t w') :
    wp (admission config reverseUser K) (candidates peer reverseUser) Q anyFailure t w := by
  unfold candidates
  refine (wp_bind self _).mpr ?_
  show wp _ _ _ _ t w
  subst hconfig
  cases reverseUser with
  | some sharedUser =>
    refine (wp_ite _ _ _).mpr ?_
    split
    · exact (wp_bind _ _).mpr (wp_seen trivial fun never => nomatch never)
    · refine hQ [sharedUser] w (Resolves.refl w) fun user hmem => ?_
      rw [List.mem_singleton.mp hmem]
      exact ⟨hreverse sharedUser rfl, fun _ hnone => by cases hnone⟩
  | none =>
    refine (wp_ite _ _ _).mpr ?_
    split
    · rename_i hignore
      refine hQ _ w (Resolves.refl w) fun user hmem => ⟨hmem, fun hoff => ?_⟩
      rw [hignore] at hoff
      cases hoff
    · exact seen_retainedUsers hpeer fun retained w' hw' hretained =>
        hQ retained w' hw' fun user hmem => ⟨(hretained user hmem).1, fun _ _ => (hretained user hmem).2⟩

/-! ## 5. The thread -/

/-- Writing a message leaves the user of the connection alone. -/
theorem keeps_write_sharedUser (msg : UInt16) (payload : List UInt8) :
    Keeps (wireAnd fun _ => True) (fun t : Thread SingleUploader => t.encryptedStream.sharedUser)
      (write msg payload : Up K Unit) :=
  (steady_write_part (fun _ _ _ => rfl) (fun _ _ => trivial) msg payload).keeps

/-- The greeting of a reverse connection has no content. -/
theorem seen_write_greeting {msg : UInt16} (hmsg : msg = msgReverse ∨ msg = msgReverseNoList)
    (hreverse : reverseUser ≠ none) (hdue : w.due = none) :
    wp (admission config reverseUser K) (write msg [] : Up K Unit)
      (fun _ t' w' => t'.self = t.self ∧ w' = w) anyFailure t w := by
  have hwrite : w.write (header msg ([] : List UInt8).length) = w := by
    have hsize : sizeOf' (header msg ([] : List UInt8).length) = 0 := sizeOf'_header_only (by decide) msg
    have hsame : w.write (header msg ([] : List UInt8).length) = { w with due := none } := by
      rw [Sight.write, hsize]
      simp
    rw [hsame, ← hdue]
  refine wp_write_frames (J := fun w' => w' = w) (Nat.zero_le _)
    (fun t' n _ => ⟨admits_header n hdue (.inr ⟨hreverse, ?_⟩), fun a w' hs => hs.trans hwrite⟩)
    (fun _ t' w' ht hw' => ⟨ht, hw'⟩) (fun hne => absurd rfl hne) fun _ _ _ _ _ => trivial
  rcases hmsg with rfl | rfl
  · exact .inl rfl
  · exact .inr rfl

omit [Crates] in
/-- A candidate whose key came is matched. -/
theorem matched_of_signed {w' : Sight K} (hcandidate : Candidate config reverseUser w user)
    (hsigned : KeySigned user w w') : Matched config reverseUser w' user := by
  obtain ⟨publicKey, signature, id, rfl, hid, hv⟩ := hsigned
  exact ⟨hcandidate.1, ⟨publicKey, signature, id, rfl, hid, hv⟩, hcandidate.2⟩

/-- **A connection is opened to a user who is matched.** -/
theorem seen_openStream {ts : TransmiticStream} (hdue : w.due = none)
    (hts : ∀ user ∈ ts.sharedUsers, Candidate config reverseUser w user) :
    wp (admission config reverseUser K) (openStream ts reverseUser) (fun _ t' w' => t'.self = t.self ∧
      w'.due = none ∧ Matched config reverseUser w' t'.encryptedStream.sharedUser) anyFailure t w := by
  unfold openStream
  cases reverseUser with
  | some sharedUser =>
    refine (wp_bind _ _).mpr ((wp_bind (command _) _).mpr (wp_seen trivial fun (hasList : Bool) => ?_))
    refine (wp_bind _ _).mpr (seen_connect fun key es w' hmem hsigned => ?_)
    refine (wp_bind _ _).mpr ((wp_modifyStream _).mpr ?_)
    have hgreeting : (if hasList = true then msgReverseNoList else msgReverse) = msgReverse ∨
        (if hasList = true then msgReverseNoList else msgReverse) = msgReverseNoList := by
      split
      · exact .inr rfl
      · exact .inl rfl
    have hdue' : w'.due = none := by
      obtain ⟨publicKey, signature, id, rfl, -, -⟩ := hsigned
      exact hdue
    refine wp_conseq (wp_keeps (keeps_write_sharedUser _ _)
      (seen_write_greeting hgreeting (Option.some_ne_none _) hdue')) (fun _ t' w'' h => ?_)
      fun _ _ _ _ => trivial
    obtain ⟨⟨hself, rfl⟩, huser⟩ := h
    rw [huser]
    exact ⟨hself, hdue', matched_of_signed (hts _ hmem) hsigned⟩
  | none =>
    refine (wp_bind _ _).mpr (seen_waitForIncoming fun key es w' hmem hsigned => ?_)
    refine (wp_modifyStream _).mpr ⟨rfl, ?_, matched_of_signed (hts _ hmem) hsigned⟩
    obtain ⟨publicKey, signature, id, rfl, -, -⟩ := hsigned
    exact hdue

/-- **The user of the handshake is served**, if he is allowed. -/
theorem seen_serveUser (fuel : Nat) (hconfig : t.self.config = config) (hdue : w.due = none)
    (hmatched : Matched config reverseUser w t.encryptedStream.sharedUser) :
    wp (admission config reverseUser K) (serveUser fuel) (fun _ _ _ => True) anyFailure t w := by
  show wp _ (if (!t.encryptedStream.sharedUser.allowed) = true then _ else _) _ _
    { t with self := { t.self with nickname := t.encryptedStream.sharedUser.nickname } } w
  refine (wp_ite _ _ _).mpr ?_
  split
  · exact (wp_bind (command _) _).mpr (wp_seen trivial fun _ => trivial)
  rename_i hallowed
  have hentitled : Entitled config reverseUser w t.encryptedStream.sharedUser :=
    ⟨hmatched, by simpa using hallowed⟩
  refine (wp_bind (command .fileSystem) _).mpr (wp_seen trivial fun (fs : FileSystem) => ?_)
  show wp _ (orThrow (getEverythingFile fs t.self.config t.encryptedStream.sharedUser.nickname) >>=
    fun _ => _) _ _ _ _
  rw [hconfig]
  cases hlisting : getEverythingFile fs config t.encryptedStream.sharedUser.nickname with
  | error e => exact trivial
  | ok listing =>
    show wp _ (orThrow (orErr id (Crates.listingToJson listing)) >>= fun _ => _) _ _ _ _
    cases hjson : Crates.listingToJson listing with
    | error e => exact trivial
    | ok json =>
      refine (wp_bind (orThrow (.ok json)) _).mpr ((wp_orThrow_ok json).mpr ?_)
      have hlisted : ListedFor config reverseUser t.encryptedStream.sharedUser fs
          (w.after (.inr .fileSystem) fs) := ⟨hentitled.congr rfl rfl rfl, rfl⟩
      exact wp_conseq (controls_serveRequests hlisting hjson fuel fuel _ _ ⟨hdue, hlisted⟩)
        (fun _ _ _ _ => trivial) fun _ _ _ _ => trivial

theorem seen_run (fuel : Nat)
    (hreverse : ∀ user, reverseUser = some user → user ∈ config.configFile.sharedUsers)
    (hconfig : t.self.config = config) (hdue : w.due = none) :
    wp (admission config reverseUser K) (run fuel reverseUser) (fun _ _ _ => True) anyFailure t w := by
  refine (wp_bind (command .peerAddr) _).mpr (wp_seen trivial fun a => ?_)
  refine (wp_bind (tryIo a) _).mpr (wp_tryIo_seen fun peer ha => ?_)
  subst ha
  refine (wp_bind _ _).mpr (seen_candidates hreverse hconfig rfl fun sharedUsers w' hw' hcandidates => ?_)
  refine (wp_bind self _).mpr ((wp_ite _ _ _).mpr ?_)
  split
  · exact (wp_bind (command _) _).mpr (wp_seen trivial fun _ => trivial)
  refine (wp_bind (handshake .tryClone) _).mpr (wp_seen trivial fun a => ?_)
  refine (wp_bind (tryIo a) _).mpr (wp_tryIo_seen fun _ _ => ?_)
  show wp _ (orThrow (TransmiticStream.new peer.text sharedUsers t.self.config.localPrivateKeyBytes) >>=
    fun _ => _) _ _ t w'
  unfold TransmiticStream.new
  cases Crates.ed25519FromPkcs8 t.self.config.localPrivateKeyBytes with
  | error e => exact trivial
  | ok pair =>
    refine (wp_bind (orThrow (.ok _)) _).mpr ((wp_orThrow_ok _).mpr ?_)
    refine wp_seq (seen_openStream (hw'.due.trans hdue) hcandidates) (fun _ t₁ w₁ h₁ => ?_)
      fun _ _ _ _ => trivial
    exact seen_serveUser fuel ((congrArg SingleUploader.config h₁.1).trans hconfig) h₁.2.1 h₁.2.2

/-- Whatever it fails with, the thread ends. -/
theorem seen_afterFailure (x : Exc) :
    wp (admission config reverseUser K) (afterFailure x) (fun _ _ _ => True) anyFailure t w := by
  cases x with
  | err e =>
    refine (wp_bind self _).mpr ((wp_ite _ _ _).mpr ?_)
    split
    · exact (wp_bind (command _) _).mpr (wp_seen trivial fun _ => trivial)
    · exact trivial
  | panic => exact trivial
  | fuel => exact trivial

/-- **An uploader serves the user it has matched, if he is allowed, and nobody else.** -/
theorem seen_singleThread (fuel : Nat)
    (hreverse : ∀ user, reverseUser = some user → user ∈ config.configFile.sharedUsers)
    (hconfig : t.self.config = config) (hdue : w.due = none) :
    wp (admission config reverseUser K) (singleThread fuel reverseUser) (fun _ _ _ => True) anyFailure t
      w := by
  have hcatch : wp (admission config reverseUser K) (tryCatch (run fuel reverseUser) afterFailure)
      (fun _ _ _ => True) anyFailure t w :=
    (wp_tryCatch _ _).mpr (wp_conseq (seen_run fuel hreverse hconfig hdue) (fun _ _ _ h => h)
      fun x _ _ _ => seen_afterFailure x)
  refine wp_seq hcatch (fun result t₁ w₁ _ => ?_) fun _ _ _ _ => trivial
  cases result with
  | success => exact wp_seen trivial fun _ => trivial
  | reverseConnection => exact trivial

theorem seen_spawned (fuel : Nat)
    (hreverse : ∀ user, reverseUser = some user → user ∈ config.configFile.sharedUsers)
    (hconfig : t.self.config = config) (hdue : w.due = none) :
    wp (admission config reverseUser K) (spawned fuel reverseUser) (fun _ _ _ => True) anyFailure t w := by
  cases reverseUser with
  | none => exact seen_singleThread fuel hreverse hconfig hdue
  | some sharedUser =>
    refine (wp_bind (command (.resolveAddress sharedUser.ip sharedUser.port)) _).mpr
      (wp_seen trivial fun a => ?_)
    cases a with
    | error e => exact trivial
    | ok addresses =>
      refine (wp_bind (command (.tcpConnect addresses)) _).mpr (wp_seen trivial fun (b : Bool) => ?_)
      refine (wp_ite _ _ _).mpr ?_
      split
      · exact seen_singleThread fuel hreverse hconfig hdue
      · exact trivial

end Peer

end SingleUploader

/-! ## 6. All uploaders -/

section Runs

variable {K : Suite}

/-- What uploader `i` has got to see after one more turn. -/
def UploadTurn.shows (i : Nat) (w : Sight K) : UploadTurn K → Sight K
  | .thread j _ c a => if j = i then w.after c a else w
  | _ => w

/-- What uploader `i` has got to see in these turns. -/
def sightOf (i : Nat) (turns : List (UploadTurn K)) : Sight K := turns.foldl (UploadTurn.shows i) .start

/-- The manager has started uploader `i` with this config, for an incoming connection or this user. -/
def StartedWith (turns : List (UploadTurn K)) (i : Nat) (config : Config)
    (reverseUser : Option SharedUser) : Prop :=
  ∃ m reverseFileList a, .manager m (.spawn i reverseUser reverseFileList config) a ∈ turns

variable [Crates] {turns : List (UploadTurn K)} {turn : UploadTurn K} {s s' : UploadSystem K}
  {w w' : UploadWorld K} {i : Nat} {u : Uploader K}

/-- What uploader `i` has still to do is what it may do. -/
structure Bound (turns : List (UploadTurn K)) (i : Nat) (u : Uploader K) : Prop where
  unused : u.config = none → u.program = none ∧ sightOf i turns = .start
  holds : ∀ p, u.program = some p → ∃ config reverseUser, u.config = some config ∧
    StartedWith turns i config reverseUser ∧ p.Holds (admission config reverseUser K) (fun _ _ _ => True)
      SingleUploader.anyFailure (sightOf i turns)

/-- What is known of all of them. -/
structure AllBound (turns : List (UploadTurn K)) (uploaders : List (Uploader K)) : Prop where
  bound : ∀ i u, uploaders[i]? = some u → Bound turns i u
  unmade : ∀ i, uploaders.length ≤ i → sightOf i turns = .start

omit [Crates] in
theorem sightOf_snoc (i : Nat) (turns : List (UploadTurn K)) (turn : UploadTurn K) :
    sightOf i (turns ++ [turn]) = turn.shows i (sightOf i turns) := by
  unfold sightOf
  rw [List.foldl_append]
  rfl

omit [Crates] in
theorem StartedWith.snoc {config : Config} {reverseUser : Option SharedUser}
    (h : StartedWith turns i config reverseUser) (turn : UploadTurn K) :
    StartedWith (turns ++ [turn]) i config reverseUser := by
  obtain ⟨m, reverseFileList, a, hmem⟩ := h
  exact ⟨m, reverseFileList, a, List.mem_append_left _ hmem⟩

/-- A turn that shows uploader `i` nothing, and leaves it its config and its program. -/
theorem Bound.keep {u' : Uploader K} (h : Bound turns i u) (hconfig : u'.config = u.config)
    (hprogram : u'.program = u.program) (hshows : turn.shows i (sightOf i turns) = sightOf i turns) :
    Bound (turns ++ [turn]) i u' := by
  have hsight := (sightOf_snoc i turns turn).trans hshows
  refine ⟨fun hnone => ?_, fun p hp => ?_⟩
  · obtain ⟨hp, hs⟩ := h.unused (hconfig.symm.trans hnone)
    exact ⟨hprogram.trans hp, hsight.trans hs⟩
  · obtain ⟨config, reverseUser, hc, hstarted, hholds⟩ := h.holds p (hprogram.symm.trans hp)
    rw [← hsight] at hholds
    exact ⟨config, reverseUser, hconfig.trans hc, hstarted.snoc turn, hholds⟩

/-- One uploader changes. -/
theorem AllBound.modify {uploaders : List (Uploader K)} {j : Nat} {f : Uploader K → Uploader K}
    (h : AllBound turns uploaders)
    (hothers : ∀ i, i ≠ j → turn.shows i (sightOf i turns) = sightOf i turns)
    (hj : ∀ u, uploaders[j]? = some u → Bound (turns ++ [turn]) j (f u))
    (hunmade : uploaders.length ≤ j → turn.shows j (sightOf j turns) = sightOf j turns) :
    AllBound (turns ++ [turn]) (uploaders.modify j f) := by
  refine ⟨fun i u hi => ?_, fun i hi => ?_⟩
  · rw [List.getElem?_modify, Option.map_eq_map] at hi
    obtain ⟨v, hv, rfl⟩ := Option.map_eq_some_iff.mp hi
    by_cases hij : j = i
    · subst hij
      rw [if_pos rfl]
      exact hj v hv
    · rw [if_neg hij]
      exact (h.bound i v hv).keep rfl rfl (hothers i (Ne.symm hij))
  · rw [List.length_modify] at hi
    rw [sightOf_snoc]
    by_cases hij : i = j
    · subst hij
      exact (hunmade hi).trans (h.unmade i hi)
    · exact (hothers i hij).trans (h.unmade i hi)

/-- No uploader changes. -/
theorem AllBound.keep {uploaders : List (Uploader K)} (h : AllBound turns uploaders)
    (hshows : ∀ i, turn.shows i (sightOf i turns) = sightOf i turns) :
    AllBound (turns ++ [turn]) uploaders :=
  ⟨fun i u hi => (h.bound i u hi).keep rfl rfl (hshows i),
    fun i hi => (sightOf_snoc i turns turn).trans ((hshows i).trans (h.unmade i hi))⟩

/-- **A command of the manager**: what it starts is an uploader for a user of its config. -/
theorem AllBound.manager {m : UploaderManager} {c : ManagerCmd} {a : c.Ans}
    (h : AllBound turns w.uploaders) (hs : w.ManagerStep c a w')
    (hspawn : ∀ i user list config, c = .spawn i (some user) list config →
      user ∈ config.configFile.sharedUsers) :
    AllBound (turns ++ [.manager m c a]) w'.uploaders := by
  have hkeep : AllBound (turns ++ [.manager m c a]) w.uploaders := h.keep fun _ => rfl
  have hmodify : ∀ (j : Nat) (f : Uploader K → Uploader K), (∀ u, (f u).config = u.config) →
      (∀ u, (f u).program = u.program) →
        AllBound (turns ++ [.manager m c a]) (w.uploaders.modify j f) := fun j f hconfig hprogram =>
    h.modify (fun _ _ => rfl) (fun u hu => (h.bound j u hu).keep (hconfig u) (hprogram u) rfl) fun _ => rfl
  cases c with
  | tryRecv =>
    cases a with
    | value message =>
      obtain ⟨-, rfl⟩ := hs
      exact hkeep
    | empty =>
      obtain ⟨-, rfl⟩ := hs
      exact hkeep
    | disconnected => exact hs.elim
  | send i message =>
    obtain ⟨u, -, -, rfl⟩ := hs
    split
    · exact hmodify i _ (fun _ => rfl) fun _ => rfl
    · exact hkeep
  | dropSender i =>
    obtain rfl : w' = _ := hs
    exact hmodify i _ (fun _ => rfl) fun _ => rfl
  | newReverseList =>
    obtain ⟨-, rfl⟩ := hs
    exact hkeep
  | newChannel =>
    obtain ⟨-, rfl⟩ := hs
    refine ⟨fun i u hi => ?_, fun i hi => hkeep.unmade i ?_⟩
    · by_cases hlt : i < w.uploaders.length
      · rw [List.getElem?_append_left hlt] at hi
        exact hkeep.bound i u hi
      · have hnew : u = Uploader.new := by
          rw [List.getElem?_append_right (Nat.le_of_not_lt hlt)] at hi
          exact List.mem_singleton.mp (List.mem_of_getElem? hi)
        rw [hnew]
        exact ⟨fun _ => ⟨rfl, hkeep.unmade i (Nat.le_of_not_lt hlt)⟩, fun p hp => by cases hp⟩
    · rw [List.length_append] at hi
      exact (Nat.le_add_right _ _).trans hi
  | spawn j user list config =>
    obtain ⟨u, fuel, encryptedStream, hj, hnone, rfl⟩ := hs
    refine h.modify (fun _ _ => rfl) (fun v hv => ?_) fun _ => rfl
    obtain rfl : u = v := Option.some.inj (hj.symm.trans hv)
    obtain ⟨-, hstart⟩ := (h.bound j u hj).unused hnone
    refine ⟨fun hc => absurd hc (Option.some_ne_none config), fun p hp => ⟨config, user, rfl, ?_, ?_⟩⟩
    · exact ⟨m, list, a, List.mem_append_right _ List.mem_cons_self⟩
    · cases hp
      rw [sightOf_snoc]
      show Prog.Holds _ _ _ _ (sightOf j turns)
      rw [hstart]
      refine SingleUploader.seen_spawned fuel (fun sharedUser huser => ?_) rfl rfl
      rw [huser] at hspawn
      exact hspawn j sharedUser list config rfl
  | postSelf message =>
    obtain rfl : w' = _ := hs
    exact hkeep
  | _ =>
    obtain rfl : w' = w := hs
    exact hkeep

/-- **A turn of an uploader.** -/
theorem AllBound.thread {t : Thread SingleUploader} {c : Wire ⊕ UploaderCmd K}
    {k : Ans (@UploaderCmd.Ans K) c → UpProgram K} {a : Ans (@UploaderCmd.Ans K) c}
    (h : AllBound turns w.uploaders) (hi : w.uploaders[i]? = some u)
    (hp : u.program = some (.call t c k)) (hs : w.ThreadStep i u c a w') :
    AllBound (turns ++ [.thread i t c a])
      (w'.update i fun u => { u with program := some (k a) }).uploaders := by
  have huploaders : (w'.update i fun u => { u with program := some (k a) }).uploaders =
      w.uploaders.modify i fun u => { u.after c a with program := some (k a) } := by
    unfold UploadWorld.update
    rw [(threadStep_spec hi hs).1]
    exact List.modify_modify_eq _ _ _ _
  rw [huploaders]
  refine h.modify (fun j hj => if_neg fun hji => hj hji.symm) (fun v hv => ?_) fun hle => ?_
  · obtain rfl : u = v := Option.some.inj (hi.symm.trans hv)
    obtain ⟨config, reverseUser, hconfig, hstarted, hholds⟩ := (h.bound i u hi).holds _ hp
    have hfixed := u.fixed_after (c := c) (a := a)
    unfold Uploader.fixed at hfixed
    simp only [Prod.mk.injEq] at hfixed
    have hconfig' : (u.after c a).config = some config := hfixed.2.1.trans hconfig
    refine ⟨fun hnone => ?_, fun p hp' => ⟨config, reverseUser, hconfig', hstarted.snoc _, ?_⟩⟩
    · rw [show (u.after c a).config = none from hnone] at hconfig'
      cases hconfig'
    · cases hp'
      have hshows : (UploadTurn.thread i t c a).shows i (sightOf i turns) = (sightOf i turns).after c a :=
        if_pos rfl
      rw [sightOf_snoc, hshows]
      exact hholds.2 a _ rfl
  · exact absurd (List.getElem?_eq_some_iff.mp hi).1 (Nat.not_lt_of_le hle)

/-- What is known of a run. -/
structure Overseen (turns : List (UploadTurn K)) (s : UploadSystem K) : Prop where
  manager : ∃ v, s.manager.Holds UploaderManager.drainedEnv UploaderManager.synced UploaderManager.synced v
  uploaders : AllBound turns s.world.uploaders

theorem Overseen.step (h : Overseen turns s) (hs : s.Step turn s') : Overseen (turns ++ [turn]) s' := by
  obtain ⟨v, hv⟩ := h.manager
  cases hs with
  | manager m c k a w hmanager hstep =>
    rw [hmanager] at hv
    obtain ⟨v', hv', -⟩ := v.next c a
    refine ⟨⟨v', hv.2 a v' hv'⟩, h.uploaders.manager hstep fun i user list config hspawn => ?_⟩
    subst hspawn
    obtain ⟨hreverses, rfl⟩ := hv.1
    exact hreverses.user
  | thread i u t c k a w hi hp hstep => exact ⟨⟨v, hv⟩, h.uploaders.thread hi hp hstep⟩
  | ended i u p hi hp hend =>
    exact ⟨⟨v, hv⟩, h.uploaders.modify (fun _ _ => rfl)
      (fun u hu => (h.uploaders.bound i u hu).keep rfl rfl rfl) fun _ => rfl⟩
  | posted m => exact ⟨⟨v, hv⟩, h.uploaders.keep fun _ => rfl⟩

theorem overseen_run {fuel n : Nat} {config : Config}
    (hr : (UploadSystem.start fuel n config).Run turns s) : Overseen turns s := by
  induction hr with
  | start =>
    have hnone : ∀ (i : Nat) (u : Uploader K), ([] : List (Uploader K))[i]? = some u → Bound [] i u :=
      fun i u hi => by cases hi
    exact ⟨⟨UploaderManager.Drained.start config .off,
      UploaderManager.managerThread_spec fuel n ⟨rfl, rfl⟩⟩, hnone, fun _ _ => rfl⟩
  | step turns s s' turn _ hs ih => exact ih.step hs

/-- **An uploader writes for the users it is meant for, and what they may have.** In every run of the
    manager, with any peers, disks and configs: what any uploader, of an incoming or a reverse connection,
    is about to do is what its config admits after what it has seen. -/
theorem upload_access_controlled {fuel n : Nat} {config₀ : Config}
    (hr : (UploadSystem.start fuel n config₀).Run turns s) (hi : s.world.uploaders[i]? = some u)
    {t : Thread SingleUploader} {c : Wire ⊕ UploaderCmd K} {k : Ans (@UploaderCmd.Ans K) c → UpProgram K}
    (hp : u.program = some (.call t c k)) :
    ∃ config reverseUser, u.config = some config ∧ StartedWith turns i config reverseUser ∧
      (sightOf i turns).Admits config reverseUser c := by
  obtain ⟨config, reverseUser, hconfig, hstarted, hholds⟩ :=
    ((overseen_run hr).uploaders.bound i u hi).holds _ hp
  exact ⟨config, reverseUser, hconfig, hstarted, hholds.1⟩

end Runs

/-! ## 7. Bob gets his listing -/

/-- Bob has connected. -/
def bobAccepted [Crates] : UploadSystem openSuite :=
  ((UploadSystem.start 9 1 (homeConfig pathA)).post (.sharingStateMsg .local)).managed 13

def bobServed [Crates] (n : Nat) : UploadSystem openSuite := bobAccepted.served 0 (SingleUploader.askingForList twoDirsFs) n

theorem bobServed_run [Crates] (n : Nat) :
    ∃ turns, (UploadSystem.start 9 1 (homeConfig pathA)).Run turns (bobServed n) := by
  obtain ⟨turns, hposted⟩ := run_post
    (.start : (UploadSystem.start 9 1 (homeConfig pathA)).Run [] (UploadSystem.start 9 1 (homeConfig pathA)))
    (.sharingStateMsg .local)
  obtain ⟨turns', haccepted⟩ := run_managed hposted 13
  exact run_served haccepted 0 (SingleUploader.askingForList twoDirsFs) n

/-- His listing is about to be written, and he is entitled to it. -/
theorem upload_access_controlled_bob : ∃ (turns : List (UploadTurn openSuite)) (config : Config)
    (reverseUser : Option SharedUser), @StartedWith openSuite turns 0 config reverseUser ∧
      @Sight.Admits openSuite config reverseUser openCrates (sightOf 0 turns)
        (.inl (.seal 2 (@body openCrates msgFileListFinal (utf8 oneFileJson)))) := by
  obtain ⟨turns, h⟩ := @bobServed_run openCrates 14
  have hnext : (@bobServed openCrates 14).sealsNext 0 =
      some (2, @body openCrates msgFileListFinal (utf8 oneFileJson)) := by decide +kernel
  obtain ⟨u, t, k, hi, hp⟩ := program_of_sealsNext hnext
  obtain ⟨config, reverseUser, -, hstarted, hadmits⟩ :=
    @upload_access_controlled _ openCrates _ _ _ _ _ _ _ h hi _ _ _ hp
  exact ⟨turns, config, reverseUser, hstarted, hadmits⟩

end Transmitic
