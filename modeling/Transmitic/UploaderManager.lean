/-
  File:      Transmitic/UploaderManager.lean
  Subject:   WHO ACCEPTS CONNECTIONS AND STARTS THEM (incoming_uploader.rs, `UploaderManager`).

  One thread listens for peers, or connects to them, as the sharing state and the config say. It polls a
  channel for new ones, and on each it shuts all uploaders down.

  The receiver of the app's messages lives as long as the process, so a send whose failure the source
  returns may fail here only where the surroundings say so (`log`). A loop carries a bound on its passes
  (`fuel`).

  * `ManagerCmd` -- what the manager asks of its surroundings: its channel, listeners, threads;
  * the methods, inner ones first; `managerThread` is the loop around `run` in `IncomingUploader::new`.
-/
import Transmitic.SingleUploader

namespace Transmitic

open Lib

/-! ## 1. Data -/

inductive SharingState where
  | off
  | «local»
  | internet
  deriving DecidableEq, Repr

inductive MessageUploadManager where
  | sharingStateMsg (state : SharingState)
  | newConfig (config : Config)

/-- `UploadErrorGeneric`: no error of `run` is an I/O error, so none is `UploadErrorPortInUse`. -/
inductive IncomingUploaderError where
  | portInUse
  | generic (text : Str)

/-- The host and the port of an address to listen on. -/
structure SocketAddr where
  host : Str
  port : Nat
  deriving DecidableEq, Repr

/-- `single_uploaders` and `single_uploaders_rev` have the number of the thread at the other end of each
    channel, `reverse_file_list_cache` the number of the list. -/
structure UploaderManager where
  stopIncoming : Bool
  config : Config
  sharingState : SharingState
  singleUploaders : List Nat
  singleUploadersRev : List (Str × Nat)
  reverseFileListCache : Nat

/-- `UploaderManager::new`, with the number of its list. -/
def UploaderManager.new (config : Config) (sharingState : SharingState)
    (reverseFileListCache : Nat) : UploaderManager :=
  { stopIncoming := false
    config
    sharingState
    singleUploaders := []
    singleUploadersRev := []
    reverseFileListCache }

/-! ## 2. Commands -/

/-- `accept` on a nonblocking listener. -/
inductive Accepted where
  | stream
  | wouldBlock
  | failed (e : Str)

inductive ManagerCmd where
  | tryRecv
  | sleep (millis : Nat)
  /-- A message to the log whose failure is returned. -/
  | log
  /-- `send` on the channel of a thread: is there a receiver? -/
  | send (thread : Nat) (message : MessageSingleUploader)
  /-- The sender of a thread's channel goes out of scope. -/
  | dropSender (thread : Nat)
  /-- A new list of the users who have the listing. -/
  | newReverseList
  /-- A channel for a thread to be. -/
  | newChannel
  /-- `bind` and `set_nonblocking`. -/
  | bind (address : SocketAddr)
  | accept (listener : Nat)
  /-- `thread::spawn`, for the connection accepted last or for a reverse connection. -/
  | spawn (thread : Nat) (reverseUser : Option SharedUser) (reverseFileList : Nat) (config : Config)
  /-- `send` on the manager's own channel. -/
  | postSelf (message : MessageUploadManager)
  | appError (e : IncomingUploaderError)
  /-- `std::process::exit`, which does not return. -/
  | exit

def ManagerCmd.Ans : ManagerCmd → Type
  | .tryRecv => TryRecv MessageUploadManager
  | .sleep _ => Unit
  | .log => Except Str Unit
  | .send _ _ => Bool
  | .dropSender _ => Unit
  | .newReverseList => Nat
  | .newChannel => Nat
  | .bind _ => Except Str Nat
  | .accept _ => Accepted
  | .spawn _ _ _ _ => Unit
  | .postSelf _ => Unit
  | .appError _ => Unit
  | .exit => Empty

/-- A method of `UploaderManager`. -/
abbrev Mgr (α : Type) : Type := Act UploaderManager ManagerCmd ManagerCmd.Ans Exc α

namespace UploaderManager

def command (c : ManagerCmd) : Mgr c.Ans := issue c

/-- `self.app_sender.send(...)?` of a message to the log. -/
def log : Mgr Unit := do
  match ← command .log with
  | .ok () => pure ()
  | .error e => throw (.err e)

/-! ## 3. The channels of the threads -/

/-- `retain` of the senders that still have a receiver; the others are dropped. -/
def sendToUploaders (message : MessageSingleUploader) : List Nat → Mgr (List Nat)
  | [] => pure []
  | uploader :: uploaders => do
    let sent : Bool ← command (.send uploader message)
    if sent then return uploader :: (← sendToUploaders message uploaders)
    else
      command (.dropSender uploader)
      sendToUploaders message uploaders

def sendToUploadersRev (message : MessageSingleUploader) : List (Str × Nat) → Mgr (List (Str × Nat))
  | [] => pure []
  | (nickname, uploader) :: uploaders => do
    let sent : Bool ← command (.send uploader message)
    if sent then return (nickname, uploader) :: (← sendToUploadersRev message uploaders)
    else
      command (.dropSender uploader)
      sendToUploadersRev message uploaders

def sendMessageToAllUploaders (message : MessageSingleUploader) : Mgr Unit := do
  let singleUploaders ← sendToUploaders message (← get).singleUploaders
  modify fun m => { m with singleUploaders }
  let singleUploadersRev ← sendToUploadersRev message (← get).singleUploadersRev
  modify fun m => { m with singleUploadersRev }

def removeDeadUploaders : Mgr Unit := sendMessageToAllUploaders .doNothing

/-- `clear` of the senders. -/
def dropSenders : List Nat → Mgr Unit
  | [] => pure ()
  | uploader :: uploaders => do
    command (.dropSender uploader)
    dropSenders uploaders

def resetConnections : Mgr Unit := do
  modify fun m => { m with stopIncoming := true }
  sendMessageToAllUploaders .shutdownConn
  let m ← get
  dropSenders m.singleUploaders
  dropSenders (m.singleUploadersRev.map Prod.snd)
  modify fun m => { m with singleUploaders := [], singleUploadersRev := [] }
  -- We set a _new_ Vec, not just clear it, so that existing threads won't update it out of sync
  let reverseFileListCache ← command .newReverseList
  modify fun m => { m with reverseFileListCache }

/-! ## 4. The manager's own channel -/

def receive : MessageUploadManager → Mgr Unit
  | .sharingStateMsg state => do
    modify fun m => { m with sharingState := state }
    resetConnections
  | .newConfig config => do
    modify fun m => { m with config }
    resetConnections

def readReceiver : Nat → Mgr Unit
  | 0 => throw .fuel
  | fuel + 1 => do
    match ← command .tryRecv with
    | .value message =>
      receive message
      readReceiver fuel
    | .empty => pure ()
    | .disconnected =>
      let never : Empty ← command .exit
      nomatch never

/-! ## 5. Reverse connections -/

/-- `MAX_REV_SLEEP` of a release. -/
def maxRevSleep : Nat := 1800

def isLoopback (ip : Str) : Bool :=
  ip = "127.0.0.1".toList || ip = "::1".toList || ip = "[::1]".toList

def startReverse (sharedUser : SharedUser) : Mgr Unit := do
  let m ← get
  -- Connection in progress
  if (m.singleUploadersRev.lookup sharedUser.nickname).isSome then pure ()
  else if m.sharingState = .local ∧ !isLoopback sharedUser.ip then pure ()
  else
    log
    let thread : Nat ← command .newChannel
    modify fun m =>
      { m with singleUploadersRev := (sharedUser.nickname, thread) :: m.singleUploadersRev }
    command (.spawn thread (some sharedUser) m.reverseFileListCache m.config)

def startReverseAll : List SharedUser → Mgr Unit
  | [] => pure ()
  | sharedUser :: sharedUsers => do
    startReverse sharedUser
    startReverseAll sharedUsers

/-- Sleep for `seconds` more; has the manager to stop? -/
def reverseWait (fuel : Nat) : Nat → Mgr Bool
  | 0 => do
    readReceiver fuel
    return (← get).stopIncoming
  | seconds + 1 => do
    readReceiver fuel
    if (← get).stopIncoming then return true
    else
      command (.sleep 1000)
      reverseWait fuel seconds

def reverseLoop : Nat → Nat → Mgr Unit
  | 0, _ => throw .fuel
  | fuel + 1, sleep => do
    log
    let stop ← reverseWait fuel (sleep - 1)
    if stop then pure ()
    else
      removeDeadUploaders
      startReverseAll (← get).config.configFile.sharedUsers
      reverseLoop fuel (min (sleep * 3) maxRevSleep)

/-! ## 6. Incoming connections -/

def bindListeners : List SocketAddr → Mgr (List Nat)
  | [] => pure []
  | socketAddr :: ipAddresses => do
    let bound : Except Str Nat ← command (.bind socketAddr)
    let listeners ← bindListeners ipAddresses
    match bound with
    | .ok listener => return listener :: listeners
    | .error _ => return listeners

/-- A thread for the connection just accepted. -/
def startUploader : Mgr Unit := do
  let thread : Nat ← command .newChannel
  removeDeadUploaders
  modify fun m => { m with singleUploaders := m.singleUploaders ++ [thread] }
  let m ← get
  command (.spawn thread none m.reverseFileListCache m.config)

/-- One pass over the listeners; has the manager to stop? -/
def acceptAll (fuel : Nat) : List Nat → Mgr Bool
  | [] => return false
  | listener :: listeners => do
    readReceiver fuel
    if (← get).stopIncoming then return true
    else
      match ← command (.accept listener) with
      | .stream => startUploader
      | .wouldBlock => command (.sleep 375)
      | .failed _ => log
      acceptAll fuel listeners

def acceptLoop (listeners : List Nat) : Nat → Mgr Unit
  | 0 => throw .fuel
  | fuel + 1 => do
    let stop ← acceptAll fuel listeners
    if stop then pure () else acceptLoop listeners fuel

def errAllListenersFailed : Str :=
  "All TcpListeners failed. No incoming connections can be accepted. See log.".toList

def listen (fuel : Nat) (ipAddresses : List SocketAddr) : Mgr Unit := do
  let listeners ← bindListeners ipAddresses
  if listeners = [] then throw (.err errAllListenersFailed)
  else acceptLoop listeners fuel

/-! ## 7. The thread -/

/-- `SocketAddr::from_str` of a host and a port. -/
def socketAddr (host port : Str) : Option SocketAddr :=
  (parseDigits port).bind fun n => if n ≤ 65535 then some { host, port := n } else none

/-- The addresses to listen on. -/
def ipAddresses (sharingState : SharingState) (port : Str) : List (Option SocketAddr) :=
  match sharingState with
  | .off => []
  | .local => [socketAddr "[::1]".toList port, socketAddr "127.0.0.1".toList port]
  | .internet => [socketAddr "[::0]".toList port, socketAddr "0.0.0.0".toList port]

/-- `unwrap` of the addresses. -/
def unwrapAll : List (Option SocketAddr) → Mgr (List SocketAddr)
  | [] => pure []
  | some address :: addresses => do return address :: (← unwrapAll addresses)
  | none :: _ => throw .panic

def run : Nat → Mgr Unit
  | 0 => throw .fuel
  | fuel + 1 => do
    modify fun m => { m with stopIncoming := false }
    readReceiver fuel
    let m ← get
    if m.sharingState = .off then
      command (.sleep 1000)
      run fuel
    else
      let addresses ← unwrapAll (ipAddresses m.sharingState m.config.configFile.sharingPort)
      if m.config.configFile.reverseConnection then
        log
        reverseLoop fuel 1
      else listen fuel addresses
      run fuel

/-- What the thread does where `run` failed. -/
def afterFailure : Exc → Mgr Unit
  | .err e => do
    command (.postSelf (.sharingStateMsg .off))
    command (.appError (.generic e))
  | .panic => throw .panic
  | .fuel => throw .fuel

def managerThread (fuel : Nat) : Nat → Mgr Unit
  | 0 => throw .fuel
  | n + 1 => do
    tryCatch (do
      run fuel
      let never : Empty ← command .exit
      nomatch never) afterFailure
    managerThread fuel n

end UploaderManager

end Transmitic
