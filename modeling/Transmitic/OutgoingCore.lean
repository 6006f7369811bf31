/-
  File:      Transmitic/OutgoingCore.lean
  Subject:   WHAT STARTS THE DOWNLOADERS AND TELLS THEM (outgoing_downloader.rs, `OutgoingDownloader`).

  The core of the program and the loop over the app's messages share one `OutgoingDownloader` behind
  a lock. It knows a pair of channels for each downloader it has started and not given up, sends
  messages down these channels, and starts a new downloader where it knows none.

  Left out: messages to the log, and the data the user interface reads.

  * `CoreCmd` -- what its methods ask of their surroundings: channels, queue files, threads, and the
    cache of listings;
  * the methods, in the order of the source; `Operation.follow` is what the core calls after a change
    of the config (transmitic_core.rs).
-/
import Transmitic.ConfigOps
import Transmitic.OutgoingDownloader

namespace Transmitic

open Lib

/-! ## 1. Data -/

/-- `channel_map` has the number of the thread at the other end of each pair of channels. The sends to
    all of them go in the order of this list. -/
structure OutgoingDownloader where
  config : Config
  channelMap : List (Str × Nat)
  isDownloadingPaused : Bool

/-- `OutgoingDownloader::new`. -/
def OutgoingDownloader.new (config : Config) : OutgoingDownloader :=
  { config, channelMap := [], isDownloadingPaused := false }

structure SelectedDownload where
  path : Str
  owner : Str
  fileSize : UInt64

/-! ## 2. Commands -/

inductive CoreCmd where
  /-- `send` on the first channel of a thread: is there a receiver? -/
  | send (thread : Nat) (message : MessageSingleDownloader)
  /-- `send` on the second channel; a failure is ignored. -/
  | sendReverse (thread : Nat) (enc : EncryptedStream)
  /-- The senders of both channels go out of scope. -/
  | dropSenders (thread : Nat)
  | queueExists (path : Str)
  /-- Open for appending, or create, and `write_all`. -/
  | queueAppend (path : Str) (bytes : List UInt8)
  /-- Two channels for a thread to be. -/
  | newChannels (nickname : Str)
  /-- `thread::spawn` with `SingleDownloader::new`. -/
  | spawn (thread : Nat) (user : SharedUser) (pathQueueFile : Str) (isDownloadingPaused : Bool)
      (reverseConnection : Option EncryptedStream) (config : Config)
  /-- `set_refresh_data`, with the nicknames of the config. -/
  | setRefreshData (nicknames : List Str)
  /-- A channel for the entry of the user in the cache, and a thread that fetches the listing. -/
  | startRefresh (nickname : Str) (config : Config)
  /-- The listings that have come are taken into the cache. -/
  | pollRefresh

def CoreCmd.Ans : CoreCmd → Type
  | .send _ _ => Bool
  | .sendReverse _ _ => Unit
  | .dropSenders _ => Unit
  | .queueExists _ => Bool
  | .queueAppend _ _ => Except Str Unit
  | .newChannels _ => Nat
  | .spawn _ _ _ _ _ _ => Unit
  | .setRefreshData _ => Unit
  | .startRefresh _ _ => Unit
  | .pollRefresh => Unit

/-- A method of `OutgoingDownloader`. -/
abbrev Core (α : Type) : Type := Act OutgoingDownloader CoreCmd CoreCmd.Ans Exc α

def coreCommand (c : CoreCmd) : Core c.Ans := issue c

/-! ## 3. The channels -/

/-- The thread that has the channels of a user. -/
def OutgoingDownloader.channel (d : OutgoingDownloader) (nickname : Str) : Option Nat :=
  d.channelMap.lookup nickname

/-- `channel_map.remove`. -/
def removeChannel (nickname : Str) : Core Unit := do
  match (← get).channel nickname with
  | some thread =>
    modify fun d => { d with channelMap := d.channelMap.filter fun entry => entry.1 ≠ nickname }
    coreCommand (.dropSenders thread)
  | none => pure ()

/-- `channel_map.insert`. -/
def insertChannel (nickname : Str) (thread : Nat) : Core Unit := do
  removeChannel nickname
  modify fun d => { d with channelMap := (nickname, thread) :: d.channelMap }

/-! ## 4. Starting downloaders -/

/-- `path_queue_file`. -/
def queueFilePath (config : Config) (nickname : Str) : Str :=
  join config.pathDirConfig (nickname ++ ".txt".toList)

/-- Does the config still name the user and the ID of a reverse connection? -/
def userMatches (config : Config) (enc : EncryptedStream) : Bool :=
  config.configFile.sharedUsers.any fun sharedUser =>
    sharedUser.nickname = enc.sharedUser.nickname && sharedUser.publicId = enc.sharedUser.publicId &&
      config.localPrivateKeyBytes = enc.privateIdBytes

/-- The end of `start_downloading_single_user`. -/
def startThread (user : SharedUser) (pathQueueFile : Str)
    (reverseConnection : Option EncryptedStream) : Core Unit := do
  let thread ← coreCommand (.newChannels user.nickname)
  insertChannel user.nickname thread
  let d ← get
  coreCommand (.spawn thread user pathQueueFile d.isDownloadingPaused reverseConnection d.config)

def startDownloadingSingleUser (user : SharedUser) (reverseConnection : Option EncryptedStream) :
    Core Unit := do
  let d ← get
  let pathQueueFile := queueFilePath d.config user.nickname
  match reverseConnection with
  | none =>
    -- Don't start download thread if there is nothing to download
    let pathExists : Bool ← coreCommand (.queueExists pathQueueFile)
    if pathExists then startThread user pathQueueFile none else pure ()
  | some enc =>
    if userMatches d.config enc then
      match d.channel user.nickname with
      | some thread => coreCommand (.sendReverse thread enc)
      | none => startThread user pathQueueFile (some enc)
    else pure ()

def startDownloadingUsers : List SharedUser → Core Unit
  | [] => pure ()
  | user :: users => do
    startDownloadingSingleUser user none
    startDownloadingUsers users

def startDownloading : Core Unit := do
  startDownloadingUsers (← get).config.configFile.sharedUsers

/-! ## 5. Messages to the downloaders -/

/-- The keys whose thread is gone. -/
def sendToEach (message : MessageSingleDownloader) : List (Str × Nat) → Core (List Str)
  | [] => pure []
  | (key, thread) :: channels => do
    let sent : Bool ← coreCommand (.send thread message)
    let removeKeys ← sendToEach message channels
    return if sent then removeKeys else key :: removeKeys

def removeChannels : List Str → Core Unit
  | [] => pure ()
  | key :: keys => do
    removeChannel key
    removeChannels keys

def sendMessageToAllDownloads (message : MessageSingleDownloader) : Core Unit := do
  let removeKeys ← sendToEach message (← get).channelMap
  removeChannels removeKeys

namespace OutgoingDownloader

def setNewConfig (config : Config) : Core Unit := do
  modify fun d => { d with config }
  sendMessageToAllDownloads (.newConfig config)
  coreCommand (.setRefreshData (config.configFile.sharedUsers.map SharedUser.nickname))

def restartConnections : Core Unit := sendMessageToAllDownloads .restartConnection

def downloadsCancelAll : Core Unit := sendMessageToAllDownloads .cancelAllDownloads

/-- A message to the downloader of one user, if there is one. -/
def sendMessageToDownload (nickname : Str) (message : MessageSingleDownloader) : Core Unit := do
  match (← get).channel nickname with
  | some thread =>
    let sent : Bool ← coreCommand (.send thread message)
    if sent then pure () else removeChannel nickname
  | none => pure ()

def downloadsCancelSingle (nickname filePath : Str) : Core Unit :=
  sendMessageToDownload nickname (.cancelDownload filePath)

def updateUser (nickname : Str) : Core Unit := do
  match (← get).config.configFile.sharedUsers.find? fun user => user.nickname = nickname with
  | some sharedUser => sendMessageToDownload nickname (.newSharedUser sharedUser)
  | none => throw (.err ("Failed to find shared user ".toList ++ nickname))

def downloadsPauseAll : Core Unit := do
  modify fun d => { d with isDownloadingPaused := true }
  sendMessageToAllDownloads .pauseDownloads

def downloadsResumeAll : Core Unit := do
  modify fun d => { d with isDownloadingPaused := false }
  sendMessageToAllDownloads .resumeDownloads

def addToQueueFileAndStartDownloader (downloadOwner downloadPath : Str) (downloadFileSize : UInt64) :
    Core Unit := do
  let d ← get
  let written : Except Str Unit ← coreCommand (.queueAppend (queueFilePath d.config downloadOwner)
    (Transmitic.queueAppend downloadPath downloadFileSize))
  match written with
  | .error e => throw (.err e)
  | .ok () =>
    match d.config.configFile.sharedUsers.find? fun user => user.nickname = downloadOwner with
    | some user => startDownloadingSingleUser user none
    | none => pure ()

/-- The body of the loop of `download_selected`. -/
def downloadOne (download : SelectedDownload) : Core Unit := do
  match (← get).channel download.owner with
  | some thread =>
    let sent : Bool ← coreCommand (.send thread
      (.newDownload { path := download.path, fileSize := download.fileSize }))
    if sent then pure ()
    else addToQueueFileAndStartDownloader download.owner download.path download.fileSize
  | none => addToQueueFileAndStartDownloader download.owner download.path download.fileSize

def downloadSelected : List SelectedDownload → Core Unit
  | [] => pure ()
  | download :: downloads => do
    downloadOne download
    downloadSelected downloads

def removeUser (nickname : Str) : Core Unit := do
  match (← get).channel nickname with
  | some thread =>
    let _ ← coreCommand (.send thread .removeUser)
    removeChannel nickname
  | none => pure ()

/-! ## 6. The cache of listings -/

def startRefreshSharedWithMeSingleUser (nickname : Str) : Core Unit := do
  coreCommand (.startRefresh nickname (← get).config)

def startRefreshUsers : List SharedUser → Core Unit
  | [] => pure ()
  | user :: users => do
    startRefreshSharedWithMeSingleUser user.nickname
    startRefreshUsers users

def startRefreshSharedWithMeAll : Core Unit := do
  startRefreshUsers (← get).config.configFile.sharedUsers

def getSharedWithMeData : Core Unit := coreCommand .pollRefresh

end OutgoingDownloader

/-! ## 7. The core -/

/-- What the core tells the downloaders after a successful operation on the config. -/
def Operation.follow (config : Config) : Operation → Core Unit
  | .addNewUser _ _ _ _ => OutgoingDownloader.setNewConfig config
  | .createNewId => OutgoingDownloader.setNewConfig config
  | .setPathDownloadsDir _ => OutgoingDownloader.setNewConfig config
  | .removeUser nickname => do
    OutgoingDownloader.setNewConfig config
    OutgoingDownloader.removeUser nickname
  | .setIgnoreIncoming _ => do
    OutgoingDownloader.setNewConfig config
    OutgoingDownloader.restartConnections
  | .updateUser nickname _ _ _ => do
    OutgoingDownloader.setNewConfig config
    OutgoingDownloader.updateUser nickname
  | _ => pure ()

/-- The other operations on the downloads, and the hand-over of a reverse connection by the loop over
    the app's messages. -/
inductive DownloadOperation where
  | cancelAll
  | cancelSingle (nickname filePath : Str)
  | pauseAll
  | resumeAll
  | downloadSelected (downloads : List SelectedDownload)
  | startRefreshAll
  | startRefreshSingle (nickname : Str)
  | getSharedWithMeData
  | reverseConnection (enc : EncryptedStream)

def DownloadOperation.run : DownloadOperation → Core Unit
  | .cancelAll => OutgoingDownloader.downloadsCancelAll
  | .cancelSingle nickname filePath => OutgoingDownloader.downloadsCancelSingle nickname filePath
  | .pauseAll => OutgoingDownloader.downloadsPauseAll
  | .resumeAll => OutgoingDownloader.downloadsResumeAll
  | .downloadSelected downloads => OutgoingDownloader.downloadSelected downloads
  | .startRefreshAll => OutgoingDownloader.startRefreshSharedWithMeAll
  | .startRefreshSingle nickname => OutgoingDownloader.startRefreshSharedWithMeSingleUser nickname
  | .getSharedWithMeData => OutgoingDownloader.getSharedWithMeData
  | .reverseConnection enc => startDownloadingSingleUser enc.sharedUser (some enc)

end Transmitic
