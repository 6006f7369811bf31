/-
  File:      Transmitic/SingleUploader.lean
  Subject:   THE UPLOADER OF ONE CONNECTION (incoming_uploader.rs, `SingleUploader`).

  A thread for each connection. It looks for the users the peer may be, shakes hands, makes the listing
  of the user, and answers his requests. Between two answers it polls a channel for the message that
  shuts it down.

  Left out: messages to the log. The receiver of the app's messages lives as long as the process, so
  sending one does not fail. A loop carries a bound on its passes (`fuel`).

  * `UploaderCmd` -- what the thread asks of its surroundings: its channel, the network, the handshake,
    the file system, the list of users who have the listing;
  * the methods, inner ones first; `singleThread` is `single_thread`, `reverseThread` what the manager
    starts for a reverse connection.
-/
import Transmitic.Listing
import Transmitic.OutgoingDownloader
import Transmitic.TransmiticStream

namespace Transmitic

open Lib

/-! ## 1. Data -/

inductive MessageSingleUploader where
  | shutdownConn
  | doNothing
  deriving DecidableEq, Repr

inductive RunLoopResult where
  | success
  | reverseConnection
  deriving DecidableEq, Repr

structure SingleUploadState where
  nickname : Str
  path : Str
  percent : UInt64
  isOnline : Bool

/-- The messages of an uploader to the app. -/
inductive UploadMessage where
  | uploadStateChange (state : SingleUploadState)
  | uploadDisconnected (nickname : Str)
  | reverseConnection (enc : EncryptedStream)

/-- An IP address: its text, and its version. -/
structure IpAddr where
  text : Str
  isIpv4 : Bool
  deriving DecidableEq, Repr

/-- The bytes of one `read` into a buffer of `MAX_DATA_SIZE` bytes. -/
abbrev ReadBytes : Type := { bytes : List UInt8 // bytes.length ≤ maxDataSize }

structure SingleUploader where
  config : Config
  nickname : Str
  shouldShutdown : Bool
  activeMsg : UInt16

/-- `SingleUploader::new`. -/
def SingleUploader.new (config : Config) : SingleUploader :=
  { config, nickname := [], shouldShutdown := false, activeMsg := 0 }

/-! ## 2. Commands -/

inductive UploaderCmd (K : Suite) where
  | tryRecv
  | app (m : UploadMessage)
  | sleep (millis : Nat)
  /-- `progress_current_time.elapsed().as_secs() > 1`; the time is set anew if so. -/
  | progressElapsed
  /-- `std::process::exit`, which does not return. -/
  | exit
  | peerAddr
  | resolveAddress (ip port : Str)
  | tcpConnect (addresses : List IpAddr)
  | handshake (c : HandshakeCmd K)
  /-- Has the user the latest listing? -/
  | reverseListContains (nickname : Str)
  /-- Put the user among those who have it, if he is not among them. -/
  | reverseListPush (nickname : Str)
  /-- All that the listing is made of. -/
  | fileSystem
  | fileOpen (path : Str)
  | fileSeek (position : UInt64)
  | fileRead
  | shutdownStream

def UploaderCmd.Ans {K : Suite} : UploaderCmd K → Type
  | .tryRecv => TryRecv MessageSingleUploader
  | .app _ => Unit
  | .sleep _ => Unit
  | .progressElapsed => Bool
  | .exit => Empty
  | .peerAddr => Except Str IpAddr
  | .resolveAddress _ _ => Except Str (List IpAddr)
  | .tcpConnect _ => Bool
  | .handshake c => c.Ans
  | .reverseListContains _ => Bool
  | .reverseListPush _ => Unit
  | .fileSystem => FileSystem
  | .fileOpen _ => Except Str Unit
  | .fileSeek _ => Except Str Unit
  | .fileRead => Except Str ReadBytes
  | .shutdownStream => Unit

/-- A method of `SingleUploader`. -/
abbrev Up (K : Suite) (α : Type) : Type := Method SingleUploader (@UploaderCmd.Ans K) α

namespace SingleUploader

variable {K : Suite}

/-- Issue a command of the uploader. -/
def command (c : UploaderCmd K) : Up K c.Ans := ask c

def self : Up K SingleUploader := do return (← get).self

def sendApp (m : UploadMessage) : Up K Unit := command (.app m)

/-- An error of a system call. -/
def tryIo {α : Type} (r : Except Str α) : Up K α := orThrow (orErr id r)

/-! ## 3. The channel -/

def readReceiver : Nat → Up K Unit
  | 0 => throw .fuel
  | fuel + 1 => do
    match ← command .tryRecv with
    | .value .shutdownConn =>
      modifySelf fun u => { u with shouldShutdown := true }
      readReceiver fuel
    -- Useful to reset the dead uploaders because the Sender fails
    | .value .doNothing => readReceiver fuel
    | .empty => pure ()
    | .disconnected => modifySelf fun u => { u with shouldShutdown := true }

/-! ## 4. The listing -/

section Listing

variable [Crates]

/-- The payload and the message of the next piece of the listing. -/
def listPiece (everythingFileJsonBytes : List UInt8) (sentBytes remainingBytes : Nat) :
    Option (List UInt8) × UInt16 :=
  if remainingBytes ≤ maxDataSize then
    (slice everythingFileJsonBytes sentBytes (remainingBytes + sentBytes), msgFileListFinal)
  else (slice everythingFileJsonBytes sentBytes (maxDataSize + sentBytes), msgFileListPiece)

omit [Crates] in
theorem listPiece_length {bytes payload : List UInt8} {sent remaining : Nat}
    (h : (listPiece bytes sent remaining).1 = some payload) : payload.length ≤ maxDataSize := by
  unfold listPiece at h
  split at h
  · have hlen := length_slice h
    omega
  · have hlen := length_slice h
    omega

/-- The loop over the pieces of the listing. -/
def sendList (receiverFuel : Nat) (everythingFileJsonBytes : List UInt8) : Nat → Nat → Nat → Up K Unit
  | 0, _, _ => throw .fuel
  | fuel + 1, sentBytes, remainingBytes => do
    let (slice, msg) := listPiece everythingFileJsonBytes sentBytes remainingBytes
    let payload ← orPanic slice
    write msg payload
    readReceiver receiverFuel
    if (← self).shouldShutdown then pure ()
    else if msg = msgFileListFinal then
      -- Reverse list data only used when in Reverse Connection
      command (.reverseListPush (← self).nickname)
    else
      sendList receiverFuel everythingFileJsonBytes fuel (sentBytes + maxDataSize)
        (remainingBytes - maxDataSize)

/-! ## 5. A file -/

/-- Tell the app how far the upload of a file is. -/
def uploadState (path : Str) (percent : UInt64) : Up K Unit := do
  sendApp (.uploadStateChange { nickname := (← self).nickname, path, percent, isOnline := true })

/-- Throttle updates. -/
def updateProgress (path : Str) (currentSentBytes fileSize : UInt64) : Up K Unit := do
  let elapsed : Bool ← command .progressElapsed
  if elapsed then
    let downloadPercent := percent currentSentBytes fileSize
    -- 100 will be sent outside this loop
    uploadState path (if downloadPercent < 100 then downloadPercent else 99)

/-- The loop over the chunks of a file; is the file sent? -/
def sendFile (receiverFuel : Nat) (path : Str) (fileSize : UInt64) : Nat → UInt64 → Up K Bool
  | 0, _ => throw .fuel
  | fuel + 1, currentSentBytes => do
    let readBuffer ← tryIo (← command .fileRead)
    let currentSentBytes := currentSentBytes + UInt64.ofNat readBuffer.1.length
    let writeMessage :=
      if fileSize ≤ currentSentBytes ∨ readBuffer.1.length = 0 then msgFileFinished else msgFileChunk
    write writeMessage readBuffer.1
    if writeMessage = msgFileFinished then pure true
    else
      updateProgress path currentSentBytes fileSize
      readReceiver receiverFuel
      if (← self).shouldShutdown then pure false
      else sendFile receiverFuel path fileSize fuel currentSentBytes

/-- The answer to a request for a file. -/
def serveFile (fuel : Nat) (everythingFile : SharedFile) : Up K Unit := do
  let payloadBytes ← getPayload
  let seekBytes ← orPanic (slice payloadBytes 0 8)
  let fileSeekPoint := UInt64.ofNat (ofBe seekBytes)
  let clientFileChoice ← orThrow (match fromUtf8 (payloadBytes.drop 8) with
    | some clientFileChoice => .ok clientFileChoice
    | none => .error (.err "invalid utf-8 sequence".toList))
  -- Determine if client's choice is valid
  match getFileByPath clientFileChoice everythingFile with
  | none => write msgFileInvalidFile []
  | some clientSharedFile =>
    -- Client cannot select a directory. Client should not allow this to happen.
    if clientSharedFile.isDirectory then write msgCannotSelectDirectory []
    else
      tryIo (← command (.fileOpen clientFileChoice))
      tryIo (← command (.fileSeek fileSeekPoint))
      uploadState clientFileChoice 0
      let sent : Bool ← sendFile fuel clientFileChoice clientSharedFile.fileSize fuel fileSeekPoint
      if sent then uploadState clientFileChoice 100

/-! ## 6. Requests -/

def runLoop (fuel : Nat) (everythingFile : SharedFile) (everythingFileJsonBytes : List UInt8) :
    Up K RunLoopResult := do
  read
  readReceiver fuel
  if (← self).shouldShutdown then return .success
  else
    let clientMessage ← getMessage
    modifySelf fun u => { u with activeMsg := clientMessage }
    if clientMessage = msgFileList then
      sendList fuel everythingFileJsonBytes fuel 0 everythingFileJsonBytes.length
      return .success
    else if clientMessage = msgFileSelectionContinue then
      serveFile fuel everythingFile
      return .success
    else if clientMessage = msgReverse ∨ clientMessage = msgReverseNoList then
      modifyStream fun es => { es with reverseMessage := clientMessage }
      return .reverseConnection
    else
      throw (.err ('\'' :: (← self).nickname ++ "' Invalid client selection '".toList ++
        natText clientMessage.toNat ++ ['\'']))

/-- The loop of `run` over the requests. -/
def serveRequests (fuel : Nat) (everythingFile : SharedFile) (everythingFileJsonBytes : List UInt8) :
    Nat → Up K RunLoopResult
  | 0 => throw .fuel
  | n + 1 => do
    readReceiver fuel
    if (← self).shouldShutdown then return .success
    else
      match ← runLoop fuel everythingFile everythingFileJsonBytes with
      | .success => serveRequests fuel everythingFile everythingFileJsonBytes n
      | .reverseConnection =>
        sendApp (.reverseConnection (← get).encryptedStream)
        return .reverseConnection

/-! ## 7. The peer -/

/-- Is this resolved address the one the peer connects from? -/
def IpAddr.isPeer (peer address : IpAddr) : Bool :=
  address.text = peer.text ||
    address.isIpv4 && !peer.isIpv4 && "::ffff:".toList ++ address.text = peer.text

/-- The users the peer may be, by his address. -/
def retainedUsers (peer : IpAddr) : List SharedUser → Up K (List SharedUser)
  | [] => pure []
  | sharedUser :: sharedUsers => do
    let resolved : Except Str (List IpAddr) ← command (.resolveAddress sharedUser.ip ['0'])
    let retained ← retainedUsers peer sharedUsers
    match resolved with
    | .ok addresses =>
      return if addresses.any (IpAddr.isPeer peer) then sharedUser :: retained else retained
    | .error _ => return retained

/-- The users the handshake looks for; the reverse user has the IP set by the user. -/
def candidates (peer : IpAddr) (reverseUser : Option SharedUser) : Up K (List SharedUser) := do
  let u ← self
  match reverseUser with
  | some sharedUser =>
    -- Invalid state
    if u.config.configFile.ignoreIncoming then
      let never : Empty ← command .exit
      nomatch never
    else return [sharedUser]
  | none =>
    if u.config.configFile.ignoreIncoming then return u.config.configFile.sharedUsers
    else retainedUsers peer u.config.configFile.sharedUsers

/-- A command of the handshake. -/
def handshake (c : HandshakeCmd K) : Up K c.Ans := command (.handshake c)

/-- The greeting of a reverse connection. -/
def reverseGreeting (nickname : Str) : Up K UInt16 := do
  let hasList : Bool ← command (.reverseListContains nickname)
  return if hasList then msgReverseNoList else msgReverse

/-- The encrypted stream of the connection, with the user of the handshake. -/
def openStream (ts : TransmiticStream) (reverseUser : Option SharedUser) : Up K Unit := do
  match reverseUser with
  | some user =>
    let revMessage ← reverseGreeting user.nickname
    let (_, encryptedStream) ← TransmiticStream.connect handshake ts
    modifyStream fun _ => encryptedStream
    write revMessage []
  | none =>
    let (_, encryptedStream) ← TransmiticStream.waitForIncoming handshake ts
    modifyStream fun _ => encryptedStream

/-- The user of the handshake is known: make his listing, and answer his requests. -/
def serveUser (fuel : Nat) : Up K RunLoopResult := do
  let sharedUser := (← get).encryptedStream.sharedUser
  modifySelf fun u => { u with nickname := sharedUser.nickname }
  if !sharedUser.allowed then
    command (.sleep (1000 * deniedSleep))
    return .success
  else
    let fs : FileSystem ← command .fileSystem
    let everythingFile ← orThrow (getEverythingFile fs (← self).config sharedUser.nickname)
    let everythingFileJson ← orThrow (orErr id (Crates.listingToJson everythingFile))
    serveRequests fuel everythingFile (utf8 everythingFileJson) fuel

def run (fuel : Nat) (reverseUser : Option SharedUser) : Up K RunLoopResult := do
  let clientConnectingIp ← tryIo (← command .peerAddr)
  let sharedUsers ← candidates clientConnectingIp reverseUser
  if sharedUsers = [] ∧ reverseUser.isNone ∧ (← self).config.configFile.ignoreIncoming = false then
    command (.sleep (1000 * deniedSleep))
    return .success
  else
    tryIo (← handshake .tryClone)
    let ts ← orThrow (TransmiticStream.new clientConnectingIp.text sharedUsers
      (← self).config.localPrivateKeyBytes)
    openStream ts reverseUser
    serveUser fuel

/-! ## 8. The thread -/

/-- What the thread does where `run` failed. -/
def afterFailure : Exc → Up K RunLoopResult
  | .err _ => do
    -- Mid download. Upload is now disconnected.
    let u ← self
    if u.activeMsg = msgFileSelectionContinue then sendApp (.uploadDisconnected u.nickname)
    return .success
  | .panic => return .success
  | .fuel => throw .fuel

def singleThread (fuel : Nat) (reverseUser : Option SharedUser) : Up K Unit := do
  match ← tryCatch (run fuel reverseUser) afterFailure with
  | .success => command .shutdownStream
  | .reverseConnection => pure ()

/-- The thread of a reverse connection; the `unwrap` of the addresses panics. -/
def reverseThread (fuel : Nat) (sharedUser : SharedUser) : Up K Unit := do
  let resolved : Except Str (List IpAddr) ← command (.resolveAddress sharedUser.ip sharedUser.port)
  let remoteSocketAddress ← orPanic resolved.toOption
  let isConnected : Bool ← command (.tcpConnect remoteSocketAddress)
  if isConnected then singleThread fuel (some sharedUser)

end Listing

end SingleUploader

end Transmitic
