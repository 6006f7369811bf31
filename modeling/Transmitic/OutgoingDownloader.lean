/-
  File:      Transmitic/OutgoingDownloader.lean
  Subject:   THE DOWNLOADER OF ONE USER (outgoing_downloader.rs, `SingleDownloader`).

  A thread that keeps a queue of downloads in memory and in a file, connects to the user, gets the
  listing, and downloads the queue front to back. It is stopped and changed by messages it polls
  for between two steps.

  Left out: messages to the log. The receiver of the app's messages lives as long as the process,
  so sending one does not fail. A loop carries a bound on its passes (`fuel`).

  * `DownloaderCmd` -- what the thread asks of its surroundings: its two channels, the clock, the
    file system, the cache of listings, the network;
  * the methods, in the order of the source; `runThread` is the loop around `run` in
    `start_downloading_single_user`.
-/
import Transmitic.EncryptedStream

namespace Transmitic

open Lib

/-! ## 1. Data -/

def errRecDisconnected : Str := "Uploader receiver disconnected".toList

def errRemoteIdMismatch : Str := "PublicID for user is rejected.".toList

def maxEverythingFileSize : Nat := 100000000

structure DownloadQueueItem where
  path : Str
  fileSize : UInt64
  deriving DecidableEq, Repr

inductive MessageSingleDownloader where
  | newConfig (config : Config)
  | newSharedUser (sharedUser : SharedUser)
  | newDownload (item : DownloadQueueItem)
  | cancelAllDownloads
  | cancelDownload (path : Str)
  | pauseDownloads
  | resumeDownloads
  | removeUser
  | restartConnection

/-- `try_recv` of a channel. -/
inductive TryRecv (α : Type) where
  | value (a : α)
  | empty
  | disconnected

structure InvalidFileMessage where
  nickname : Str
  activePath : Option Str
  invalidPath : Str
  downloadQueue : List Str
  message : Str

structure InProgressMessage where
  nickname : Str
  path : Option Str
  percent : UInt64
  downloadQueue : List Str
  pathLocalDisk : Option Str
  sizeString : Str

structure CompletedMessage where
  nickname : Str
  path : Str
  downloadQueue : List Str
  pathLocalDisk : Str
  sizeString : Str

structure OfflineMessage where
  nickname : Str
  downloadQueue : List Str

structure OfflineErrorMessage where
  nickname : Str
  error : Str

/-- The messages of a downloader to the app. -/
inductive AppAggMessage where
  | invalidFile (m : InvalidFileMessage)
  | inProgress (m : InProgressMessage)
  | completed (m : CompletedMessage)
  | offline (m : OfflineMessage)
  | offlineError (m : OfflineErrorMessage)

structure SingleDownloader where
  sharedUser : SharedUser
  pathQueueFile : Str
  downloadQueue : List DownloadQueueItem
  isDownloadingPaused : Bool
  stopDownloading : Bool
  activeDownloadPath : Option DownloadQueueItem
  activeDownloadSize : UInt64
  activeDownloadedCurrentBytes : UInt64
  activeDownloadLocalPath : Option Str
  activeDownloadTotalSize : Str
  shutdown : Bool
  reverseConnection : Option EncryptedStream
  config : Config

/-- `SingleDownloader::new`. -/
def SingleDownloader.new (sharedUser : SharedUser) (pathQueueFile : Str)
    (isDownloadingPaused : Bool) (reverseConnection : Option EncryptedStream) (config : Config) :
    SingleDownloader :=
  { sharedUser
    pathQueueFile
    downloadQueue := []
    isDownloadingPaused
    stopDownloading := false
    activeDownloadPath := none
    activeDownloadSize := 0
    activeDownloadedCurrentBytes := 0
    activeDownloadLocalPath := none
    activeDownloadTotalSize := []
    shutdown := false
    reverseConnection
    config }

/-! ## 2. Commands -/

/-- `fs::remove_file`. -/
inductive Removed where
  | done
  | notFound
  | failed (e : Str)

inductive DownloaderCmd where
  | revTryRecv
  | tryRecv
  | app (m : AppAggMessage)
  | sleep (millis : Nat)
  /-- `progress_current_time.elapsed().as_secs() > 1`; the time is set anew if so. -/
  | progressElapsed
  | queueRead (path : Str)
  | queueRemove (path : Str)
  | queueWrite (path : Str) (bytes : List UInt8)
  | pathExists (path : Str)
  | metadataLen (path : Str)
  | createDirAll (path : Str)
  /-- `File::create`. -/
  | fileCreate (path : Str)
  /-- Open for writing and seek to the end. -/
  | fileOpenEnd (path : Str)
  /-- `write_all` on the file opened last at `path`. -/
  | fileWrite (path : Str) (bytes : List UInt8)
  /-- `TRAN_PATH_DOWNLOADS`, or the directory of the program. -/
  | downloadsBase
  /-- The listing the cache has for a user; the outer `none` where it has no entry. -/
  | refreshGet (nickname : Str)
  | refreshInsert (nickname : Str) (everythingFile : SharedFile)
  | resolveAddress (ip port : Str)
  | tcpConnect (addresses : List Str)
  /-- `TransmiticStream::connect` over the connection just made. -/
  | connect (sharedUser : SharedUser) (privateIdBytes : List UInt8)

def DownloaderCmd.Ans : DownloaderCmd → Type
  | .revTryRecv => TryRecv EncryptedStream
  | .tryRecv => TryRecv MessageSingleDownloader
  | .app _ => Unit
  | .sleep _ => Unit
  | .progressElapsed => Bool
  | .queueRead _ => Option (List UInt8)
  | .queueRemove _ => Removed
  | .queueWrite _ _ => Except Str Unit
  | .pathExists _ => Bool
  | .metadataLen _ => Except Str UInt64
  | .createDirAll _ => Except Str Unit
  | .fileCreate _ => Except Str Unit
  | .fileOpenEnd _ => Except Str Unit
  | .fileWrite _ _ => Except Str Unit
  | .downloadsBase => Except Str Str
  | .refreshGet _ => Option (Option SharedFile)
  | .refreshInsert _ _ => Unit
  | .resolveAddress _ _ => Except Str (List Str)
  | .tcpConnect _ => Bool
  | .connect _ _ => Except Exc EncryptedStream

/-- A method of `SingleDownloader`. -/
abbrev Dl (α : Type) : Type := Method SingleDownloader DownloaderCmd.Ans α

/-- Issue a command of the downloader. -/
def command (c : DownloaderCmd) : Dl c.Ans := ask c

/-- An error of a system call. -/
def tryIo {α : Type} (r : Except Str α) : Dl α := orThrow (orErr id r)

def sendApp (m : AppAggMessage) : Dl Unit := command (.app m)

def self : Dl SingleDownloader := do return (← get).self

/-! ## 3. Messages to the app -/

def getQueueWithoutActive (d : SingleDownloader) : List Str :=
  let queue : List DownloadQueueItem := match d.activeDownloadPath with
    | some path => d.downloadQueue.filter fun f => f.path ≠ path.path
    | none => d.downloadQueue
  queue.map DownloadQueueItem.path

def appUpdateOffline : Dl Unit := do
  let d ← self
  sendApp (.offline
    { nickname := d.sharedUser.nickname
      downloadQueue := d.downloadQueue.map DownloadQueueItem.path })

/-- `((current as f64 / size as f64) * 100_f64) as u64`. -/
def percent (current size : UInt64) : UInt64 :=
  (current.toFloat / size.toFloat * 100).toUInt64

def appUpdateInProgress : Dl Unit := do
  let d ← self
  sendApp (.inProgress
    { nickname := d.sharedUser.nickname
      path := d.activeDownloadPath.map DownloadQueueItem.path
      percent := percent d.activeDownloadedCurrentBytes d.activeDownloadSize
      downloadQueue := getQueueWithoutActive d
      pathLocalDisk := d.activeDownloadLocalPath
      sizeString := d.activeDownloadTotalSize })

def appUpdateCompleted (path pathLocalDisk size : Str) : Dl Unit := do
  let d ← self
  sendApp (.completed
    { nickname := d.sharedUser.nickname
      path
      downloadQueue := getQueueWithoutActive d
      pathLocalDisk
      sizeString := size })

def appUpdateInvalidFile (path message : Str) : Dl Unit := do
  let d ← self
  sendApp (.invalidFile
    { nickname := d.sharedUser.nickname
      activePath := d.activeDownloadPath.map DownloadQueueItem.path
      invalidPath := path
      downloadQueue := getQueueWithoutActive d
      message })

/-! ## 4. The queue file -/

/-- `writeln!(write_string, "{}:{}", file_size, path)`. -/
def queueLine (item : DownloadQueueItem) : Str :=
  natText item.fileSize.toNat ++ ':' :: item.path ++ ['\n']

/-- The text `write_queue_file` writes. -/
def queueText (queue : List DownloadQueueItem) : Str := queue.flatMap queueLine

def writeQueueFile : Dl Unit := do
  let d ← self
  tryIo (← command (.queueWrite d.pathQueueFile (utf8 (queueText d.downloadQueue))))

/-- An empty queue file, for a queue file that cannot be removed. -/
def writeQueue : Dl Unit := do
  let d ← self
  if d.downloadQueue = [] then
    match ← command (.queueRemove d.pathQueueFile) with
    | .done => pure ()
    | .notFound => pure ()
    | .failed _ => writeQueueFile
  else writeQueueFile

/-- `str::parse::<u64>`. -/
def parseU64 (s : Str) : Option UInt64 :=
  (parseNat s).bind fun n => if n < 2 ^ 64 then some (UInt64.ofNat n) else none

/-- What one line of the queue file adds to the queue. -/
def parseQueueLine (nickname line : Str) : Except Exc (List DownloadQueueItem) :=
  let line := trim line
  if line = [] then .ok []
  else
    match line.splitOn ':' with
    | size :: part :: parts =>
      match parseU64 size with
      | some fileSize => .ok [{ path := [':'].intercalate (part :: parts), fileSize }]
      | none => .error (.err ("Failed to parse queue file. Invalid file size in line. '".toList ++
          nickname ++ "', '".toList ++ line ++ "'".toList))
    | _ => .error (.err ("Failed to parse queue file. Invalid line. '".toList ++ nickname ++
        "', '".toList ++ line ++ "'".toList))

/-- The loop over the lines. -/
def pushQueueLines : List Str → Dl Unit
  | [] => pure ()
  | line :: lines => do
    let items ← orThrow (parseQueueLine (← self).sharedUser.nickname line)
    modifySelf fun d => { d with downloadQueue := d.downloadQueue ++ items }
    pushQueueLines lines

def initializeDownloadQueue : Dl Unit := do
  modifySelf fun d => { d with downloadQueue := [] }
  -- Rev connection can init without a queue file
  match (← command (.queueRead (← self).pathQueueFile)).bind fromUtf8 with
  | none => pure ()
  | some contents => pushQueueLines (lines contents)

/-- The bytes `add_to_queue_file_and_start_downloader` appends to the queue file of a user. -/
def queueAppend (downloadPath : Str) (downloadFileSize : UInt64) : List UInt8 :=
  utf8 (queueLine { path := downloadPath, fileSize := downloadFileSize })

def setActiveDownloadFinished : Dl Unit := do
  modifySelf fun d => { d with downloadQueue := d.downloadQueue.tail }
  writeQueue
  modifySelf fun d => { d with activeDownloadPath := none }

/-! ## 5. The channels -/

/-- One message of `receiver`. -/
def receive : MessageSingleDownloader → Dl Unit
  | .newDownload s => do
    modifySelf fun d => { d with downloadQueue := d.downloadQueue ++ [s] }
    writeQueue
  | .cancelDownload s => do
    modifySelf fun d =>
      { d with
        stopDownloading := true
        downloadQueue := d.downloadQueue.filter fun f => f.path ≠ s
        activeDownloadPath := d.activeDownloadPath.filter fun p => p.path ≠ s }
    writeQueue
    appUpdateInProgress
  | .pauseDownloads =>
    modifySelf fun d => { d with stopDownloading := true, isDownloadingPaused := true }
  | .resumeDownloads => modifySelf fun d => { d with isDownloadingPaused := false }
  | .cancelAllDownloads => do
    modifySelf fun d =>
      { d with stopDownloading := true, downloadQueue := [], activeDownloadPath := none }
    writeQueue
    appUpdateInProgress
  | .removeUser => do
    modifySelf fun d =>
      { d with
        shutdown := true, stopDownloading := true, downloadQueue := [], activeDownloadPath := none }
    writeQueue
  | .newSharedUser s => modifySelf fun d => { d with stopDownloading := true, sharedUser := s }
  | .restartConnection => modifySelf fun d => { d with stopDownloading := true }
  | .newConfig config => modifySelf fun d => { d with stopDownloading := true, config }

/-- The first `match` of `read_receiver`: a reverse connection handed over. -/
def receiveReverse : Dl Unit := do
  match ← command .revTryRecv with
  | .value enc =>
    modifySelf fun d => { d with stopDownloading := true, reverseConnection := some enc }
  | .empty => pure ()
  | .disconnected => throw (.err errRecDisconnected)

def readReceiver : Nat → Dl Unit
  | 0 => throw .fuel
  | fuel + 1 => do
    receiveReverse
    match ← command .tryRecv with
    | .value m =>
      receive m
      readReceiver fuel
    | .empty => pure ()
    | .disconnected => throw (.err errRecDisconnected)

/-! ## 6. The listing of the user -/

section Listing

variable {T L : Type} {LA : L → Type} [Crates]

/-- The loop of `download_everything_file`. -/
def readEverythingFile : Nat → List UInt8 → Method T LA (List UInt8)
  | 0, _ => throw .fuel
  | fuel + 1, jsonBytes => do
    read
    let clientMessage ← getMessage
    let jsonBytes := jsonBytes ++ (← getPayload)
    throwIf (maxEverythingFileSize < jsonBytes.length)
      (.err ("File list is too large. ".toList ++ (← get).encryptedStream.sharedUser.nickname ++
        " needs to share fewer files with you.".toList))
    if clientMessage = msgFileListFinal then pure jsonBytes
    else readEverythingFile fuel jsonBytes

def downloadEverythingFile (fuel : Nat) : Method T LA SharedFile := do
  write msgFileList []
  let jsonBytes ← readEverythingFile fuel []
  let filesStr ← orThrow (match fromUtf8 jsonBytes with
    | some filesStr => .ok filesStr
    | none => .error (.err "invalid utf-8 sequence".toList))
  let everythingFile ← orThrow (orErr id (Crates.listingFromJson filesStr))
  return resetFileSizeString (removeInvalidFiles everythingFile)

end Listing

/-- Is the cache of no use for this connection? -/
def shouldDownloadEverythingFile (forceDownload : Bool) : Dl Bool := do
  let t ← get
  if t.encryptedStream.reverseMessage = msgReverse ∨ forceDownload then pure true
  else
    match ← command (.refreshGet t.self.sharedUser.nickname) with
    | some data => pure data.isNone
    | none => throw (.err ("Cache missing. User no longer being shared with: '".toList ++
        t.self.sharedUser.nickname ++ "'".toList))

def setEverythingFile [Crates] (fuel : Nat) (forceDownload : Bool) : Dl Unit := do
  if ← shouldDownloadEverythingFile forceDownload then
    let everythingFile ← downloadEverythingFile fuel
    command (.refreshInsert (← self).sharedUser.nickname everythingFile)

/-! ## 7. Names on the local disk -/

/-- `replace` of two backslashes by one. -/
def replaceBackslashes : Str → Str
  | '\\' :: '\\' :: s => '\\' :: replaceBackslashes s
  | c :: s => c :: replaceBackslashes s
  | [] => []

/-- The loop of `sanitize_disk_path`, with `counter` attempts left. -/
def sanitizeLoop (originalPath : Str) : Nat → Str → Except Exc Str
  | 0, _ => .error (.err ("Path could not be sanitized after 10 tries. ".toList ++ originalPath))
  | counter + 1, comparePath =>
    if replaceChar comparePath '\x00' '0' ≠ comparePath then
      sanitizeLoop originalPath counter (replaceChar comparePath '\x00' '0')
    else if replaceBackslashes comparePath ≠ comparePath then
      sanitizeLoop originalPath counter (replaceBackslashes comparePath)
    else .ok comparePath

def sanitizeDiskPath (path : Str) : Except Exc Str :=
  sanitizeLoop path 10 (replaceChar path '\\' '/')

def getSanitizedDiskFileName (sharedFile : SharedFile) : Except Exc Str := do
  match fileName (← sanitizeDiskPath sharedFile.path) with
  | some name => .ok name
  | none => .error .panic

/-- A directory path with the separator behind it. -/
def endInSeparator (path : Str) : Str := if path.getLast? = some '/' then path else path ++ ['/']

/-- `path` without a front `start`. -/
def stripFront (start path : Str) : Str :=
  if start.isPrefixOf path then path.drop start.length else path

/-- `Config::get_path_downloads_dir`. -/
def getPathDownloadsDir (config : Config) : Dl Str :=
  if config.configFile.pathDownloads = [] then do
    let path := join (← tryIo (← command .downloadsBase)) "Transmitic Downloads".toList
    return endInSeparator (stripFront "\\\\?\\".toList path)
  else pure (endInSeparator config.configFile.pathDownloads)

def getPathDownloadsDirUser (user : Str) (config : Config) : Dl Str := do
  return (← getPathDownloadsDir config) ++ user

/-! ## 8. One file -/

/-- What one transfer works on: the file, the queue item it belongs to, and where it goes. -/
structure Transfer where
  downloadDir : Str
  destinationPath : Str
  sharedFile : SharedFile
  queueDownload : DownloadQueueItem

namespace Transfer

/-- Is this the file of the queue item, or a file below its directory? -/
def isQueueFileDownloading (t : Transfer) : Bool := t.sharedFile.path = t.queueDownload.path

/-- The length at which the local file is finished. -/
def expectedSize (t : Transfer) : UInt64 :=
  if t.isQueueFileDownloading then t.queueDownload.fileSize else t.sharedFile.fileSize

end Transfer

/-- Take the queue item off the queue and report it as completed. -/
def completeQueueItem (path destinationPath : Str) : Dl Unit := do
  setActiveDownloadFinished
  appUpdateCompleted path destinationPath (← self).activeDownloadTotalSize

/-- Take the queue item off the queue and report it as invalid. -/
def invalidateQueueItem (path message : Str) : Dl Unit := do
  setActiveDownloadFinished
  appUpdateInvalidFile path message

/-- Create the valid, empty file, to avoid asking server. -/
def createEmptyFile (t : Transfer) (doesFileExist : Bool) : Dl Unit := do
  if !doesFileExist && t.sharedFile.fileSize = 0 then
    tryIo (← command (.createDirAll t.downloadDir))
    tryIo (← command (.fileCreate t.destinationPath))

/-- The checks on the file of the queue item: has it to be transferred? -/
def checkQueueFile (t : Transfer) (doesFileExist : Bool) (fileLength : UInt64) : Dl Bool :=
  if t.queueDownload.fileSize ≠ t.sharedFile.fileSize then do
    invalidateQueueItem t.queueDownload.path ("Expected file size has changed. ".toList ++
      "Suggestion: Delete file and restart download.".toList)
    return false
  else if fileLength < t.queueDownload.fileSize then return true
  else if fileLength = t.queueDownload.fileSize then do
    createEmptyFile t doesFileExist
    completeQueueItem t.queueDownload.path t.destinationPath
    return false
  else do
    invalidateQueueItem t.queueDownload.path ("File is larger than expected. ".toList ++
      "Suggestion: Delete file and restart download.".toList)
    return false

def directoryTooLarge : Str :=
  "Directory is larger than expected. ".toList ++
    "Suggestion: Delete directory and restart download.".toList

/-- The checks on a file below the directory of the queue item. -/
def checkSubfile (t : Transfer) (doesFileExist : Bool) (fileLength : UInt64) : Dl Bool := do
  if t.queueDownload.fileSize < (← self).activeDownloadedCurrentBytes then
    invalidateQueueItem t.queueDownload.path directoryTooLarge
    -- Err to stop the directory from continuing to download
    throw (.err directoryTooLarge)
  else if fileLength < t.sharedFile.fileSize then return true
  else if fileLength = t.sharedFile.fileSize then
    createEmptyFile t doesFileExist
    return false
  else
    appUpdateInvalidFile t.sharedFile.path ("Directory subfile is larger than expected. ".toList ++
      "Suggestion: Delete file and restart download.".toList)
    return false

/-- `metadata(path)?.len()` of an existing file, else nothing. -/
def localFileLength (path : Str) (doesFileExist : Bool) : Dl UInt64 := do
  if doesFileExist then tryIo (← command (.metadataLen path)) else pure 0

def pathExists (path : Str) : Dl Bool := command (.pathExists path)

def progressElapsed : Dl Bool := command .progressElapsed

/-- Open the local file at its end, or create it. -/
def openDestination (t : Transfer) : Dl Unit := do
  tryIo (← command (.createDirAll t.downloadDir))
  if ← pathExists t.destinationPath then
    tryIo (← command (.fileOpenEnd t.destinationPath))
  else tryIo (← command (.fileCreate t.destinationPath))

/-- Throttle updates. -/
def updateProgress : Dl Unit := do
  if ← progressElapsed then appUpdateInProgress

/-- A message that is neither a chunk nor the last chunk. -/
def isUnexpected (remoteMessage : UInt16) : Prop :=
  remoteMessage ≠ msgFileChunk ∧ remoteMessage ≠ msgFileFinished

instance (remoteMessage : UInt16) : Decidable (isUnexpected remoteMessage) := by
  unfold isUnexpected
  infer_instance

def boolText (b : Bool) : Str := if b then "true".toList else "false".toList

/-- The text of an error of this downloader. -/
def unexpectedText (nickname text : Str) (remoteMessage : UInt16) : Str :=
  nickname ++ text ++ natText remoteMessage.toNat

/-- Both sides agree that the file is finished. -/
def finishTransfer (t : Transfer) : Dl Unit :=
  -- Directory subfiles do NOT go into completed list
  if t.isQueueFileDownloading then completeQueueItem t.queueDownload.path t.destinationPath
  else pure ()

/-- One side says that the file is finished, the other that it is not. -/
def failTransfer (t : Transfer) (isLocalFinished isRemoteFinished : Bool) : Dl Unit := do
  let err := "Remote and local disagreement on finished download. Is Local Finished: ".toList ++
    boolText isLocalFinished ++ ". Is Remote Finished: ".toList ++ boolText isRemoteFinished ++
    ". Suggestion: Delete file and download again.".toList
  (if t.isQueueFileDownloading then setActiveDownloadFinished else pure ())
  appUpdateInvalidFile t.sharedFile.path err
  throw (.err err)

/-- The loop over the chunks of a file. -/
def transferLoop [Crates] (t : Transfer) : Nat → UInt16 → UInt64 → Dl Unit
  | 0, _, _ => throw .fuel
  | fuel + 1, remoteMessage, currentDownloadedBytes => do
    let payloadBytes ← getPayload
    let payloadLen := UInt64.ofNat payloadBytes.length
    let currentDownloadedBytes := currentDownloadedBytes + payloadLen
    modifySelf fun d =>
      { d with activeDownloadedCurrentBytes := d.activeDownloadedCurrentBytes + payloadLen }
    tryIo (← command (.fileWrite t.destinationPath payloadBytes))
    updateProgress
    let isRemoteFinished := decide (remoteMessage = msgFileFinished)
    let isLocalFinished := decide (currentDownloadedBytes = t.expectedSize)
    if isRemoteFinished && isLocalFinished then finishTransfer t
    else if isRemoteFinished != isLocalFinished then
      failTransfer t isLocalFinished isRemoteFinished
    else
      read
      let remoteMessage ← getMessage
      throwIf (isUnexpected remoteMessage) (.err (unexpectedText (← self).sharedUser.nickname
        " Mid file download unexpected msg ".toList remoteMessage))
      readReceiver fuel
      if (← self).stopDownloading then pure ()
      else transferLoop t fuel remoteMessage currentDownloadedBytes

/-- Everything file out of date: get a new copy, and let the loop restart. -/
def invalidOnFirstRead [Crates] (fuel : Nat) (t : Transfer) : Dl Unit := do
  setEverythingFile fuel true
  throw (.err ((← self).sharedUser.nickname ++ " Invalid file on first read. ".toList ++
    t.sharedFile.path))

/-- Ask for the file from `fileLength` on, and receive it. -/
def transferFile [Crates] (fuel : Nat) (t : Transfer) (fileLength : UInt64) : Dl Unit := do
  write msgFileSelectionContinue (beBytes 8 fileLength.toNat ++ utf8 t.sharedFile.path)
  read
  let remoteMessage ← getMessage
  if remoteMessage = msgFileInvalidFile then invalidOnFirstRead fuel t
  else
    throwIf (isUnexpected remoteMessage) (.err (unexpectedText (← self).sharedUser.nickname
      " Initial file download unexpected msg ".toList remoteMessage))
    openDestination t
    transferLoop t fuel remoteMessage fileLength

/-- `download_shared_file` for a file that is not a directory. -/
def downloadFile [Crates] (fuel : Nat) (downloadDir destinationPath : Str)
    (sharedFile : SharedFile) : Dl Unit := do
  let doesFileExist ← pathExists destinationPath
  let fileLength ← localFileLength destinationPath doesFileExist
  modifySelf fun d =>
    { d with activeDownloadedCurrentBytes := d.activeDownloadedCurrentBytes + fileLength }
  let queueDownload ← orPanic (← self).activeDownloadPath
  let t : Transfer := { downloadDir, destinationPath, sharedFile, queueDownload }
  if ← (if t.isQueueFileDownloading then checkQueueFile t doesFileExist fileLength
    else checkSubfile t doesFileExist fileLength) then transferFile fuel t fileLength

/-! ## 9. A listed file or directory -/

mutual

def downloadSharedFile [Crates] (fuel : Nat) (downloadDir : Str) : SharedFile → Dl Unit
  | ⟨path, isDirectory, files, fileSize, sizeString⟩ => do
    let sharedFile : SharedFile := ⟨path, isDirectory, files, fileSize, sizeString⟩
    let currentPathName ← orThrow (getSanitizedDiskFileName sharedFile)
    if isDirectory then downloadFiles fuel (downloadDir ++ currentPathName ++ ['/']) files
    else downloadFile fuel downloadDir (downloadDir ++ currentPathName) sharedFile

/-- The loop over the files of a directory. -/
def downloadFiles [Crates] (fuel : Nat) (newDownloadDir : Str) : List SharedFile → Dl Unit
  | [] => pure ()
  | aFile :: files => do
    downloadSharedFile fuel newDownloadDir aFile
    readReceiver fuel
    if (← self).stopDownloading then pure () else downloadFiles fuel newDownloadDir files

end

/-! ## 10. The queue -/

/-- Make the item at the front of the queue the active one. -/
def startItem (rootDownloadDir : Str) (item : DownloadQueueItem) (sharedFile : SharedFile) :
    Dl Str := do
  modifySelf fun d =>
    { d with
      activeDownloadPath := some item
      activeDownloadSize := sharedFile.fileSize
      activeDownloadedCurrentBytes := 0
      activeDownloadTotalSize := sharedFile.sizeString }
  let currentPathName ← orThrow (getSanitizedDiskFileName sharedFile)
  let destinationPath :=
    if sharedFile.isDirectory then rootDownloadDir ++ currentPathName else rootDownloadDir
  modifySelf fun d => { d with activeDownloadLocalPath := some destinationPath }
  return destinationPath

/-- Download was _not_ interrupted, therefore it completed. Queue files update completed in
    download loop, so only directory check here. -/
def finishDirectory (item : DownloadQueueItem) (sharedFile : SharedFile) (destinationPath : Str) :
    Dl Unit := do
  if !(← self).stopDownloading && sharedFile.isDirectory then
    completeQueueItem item.path destinationPath

/-- The item at the front of the queue, with the file it names in the listing. -/
def downloadItem [Crates] (fuel : Nat) (rootDownloadDir : Str) (item : DownloadQueueItem)
    (sharedFile : SharedFile) : Dl Unit := do
  let destinationPath ← startItem rootDownloadDir item sharedFile
  appUpdateInProgress
  downloadSharedFile fuel rootDownloadDir sharedFile
  finishDirectory item sharedFile destinationPath
  appUpdateInProgress

/-- The inner loop of `run`: the queue from the front on. -/
def queueLoop [Crates] (rootDownloadDir : Str) (everythingFile : SharedFile) : Nat → Dl Unit
  | 0 => throw .fuel
  | fuel + 1 => do
    match (← self).downloadQueue with
    | [] => pure ()
    | item :: _ =>
      match getFileByPath item.path everythingFile with
      | none =>
        invalidateQueueItem item.path "No longer shared with you".toList
        queueLoop rootDownloadDir everythingFile fuel
      | some sharedFile =>
        downloadItem fuel rootDownloadDir item sharedFile
        readReceiver fuel
        if (← self).stopDownloading then pure ()
        else queueLoop rootDownloadDir everythingFile fuel

/-- `run` from the moment it has an encrypted stream to the moment it lets go of it. -/
def serveConnection [Crates] (fuel : Nat) (rootDownloadDir : Str) : Dl Unit := do
  setEverythingFile fuel false
  match ← command (.refreshGet (← self).sharedUser.nickname) with
  | some (some everythingFile) => queueLoop rootDownloadDir everythingFile fuel
  | _ => pure ()

/-! ## 11. The thread -/

def maxRetrySleep : Nat := 30

def tcpConnect (socketAddrs : List Str) : Dl Bool := command (.tcpConnect socketAddrs)

/-- A connection to the user; `false` where none can be made. -/
def connectNew : Dl Bool := do
  let d ← self
  let resolved ← command (.resolveAddress d.sharedUser.ip d.sharedUser.port)
  let remoteSocketAddress ← tryIo resolved
  if ← tcpConnect remoteSocketAddress then
    let encryptedStream ←
      orThrow (← command (.connect d.sharedUser d.config.localPrivateKeyBytes))
    modifyStream fun _ => encryptedStream
    return true
  else return false

/-- The encrypted stream of the next pass: the reverse connection handed over, or a new one. -/
def takeStream : Dl Bool := do
  match (← self).reverseConnection with
  | some enc =>
    modifySelf fun d => { d with reverseConnection := none }
    modifyStream fun _ => enc
    return true
  | none => connectNew

/-- The outer loop of `run`. -/
def runLoop [Crates] : Nat → Nat → Dl Unit
  | 0, _ => throw .fuel
  | fuel + 1, sleepSecs => do
    readReceiver fuel
    if (← self).shutdown then appUpdateInProgress
    else
      modifySelf fun d => { d with stopDownloading := false } -- Must come after read_receiver
      let d ← self
      if d.isDownloadingPaused then
        command (.sleep 1000)
        runLoop fuel sleepSecs
      else if d.downloadQueue = [] ∧ d.reverseConnection.isNone then
        command (.sleep 500)
        runLoop fuel sleepSecs
      else
        let rootDownloadDir ← getPathDownloadsDirUser d.sharedUser.nickname d.config
        if ← takeStream then
          serveConnection fuel (rootDownloadDir ++ ['/'])
          runLoop fuel 5
        else
          appUpdateOffline
          command (.sleep (1000 * sleepSecs))
          runLoop fuel (min (sleepSecs + 5) maxRetrySleep)

def run [Crates] (fuel : Nat) : Dl Unit := do
  initializeDownloadQueue
  appUpdateOffline
  runLoop fuel 5

def reportMismatch : Dl Unit := do
  sendApp (.offlineError
    { nickname := (← self).sharedUser.nickname, error := errRemoteIdMismatch })
  command (.sleep 30000)

/-- What the thread does where `run` failed; is `run` called again? -/
def afterFailure : Exc → Dl Bool
  | .err e => do
    (if errRemoteIdMismatch.isPrefixOf e then reportMismatch else pure ())
    return e ≠ errRecDisconnected
  | .panic => return true
  | .fuel => throw .fuel

/-- The loop around `run` in `start_downloading_single_user`. -/
def runThread [Crates] (fuel : Nat) : Nat → Dl Unit
  | 0 => throw .fuel
  | n + 1 => do
    if ← tryCatch (do run fuel; return false) afterFailure then runThread fuel n else pure ()

end Transmitic
