/-
  File:      Transmitic/DownloaderSystem.lean
  Subject:   THE CORE AND ITS DOWNLOADERS SIDE BY SIDE.

  The core, the downloaders and the threads that refresh the cache of listings take turns in any order.
  A turn is one command, so an operation of the core is interrupted by the downloaders between any two
  of its sends, and a downloader between any two of its commands.

  * `Channels` -- the two channels of a downloader, with all that was ever sent on them;
  * `World` -- the threads, the queue files and the cache of listings;
  * `System.Step` -- one turn (`Turn`); `System.Run`: runs whose turns are all of a kind.

  A listing in the cache carries the public ID of the connection it was received over. The code has no
  such field; nothing here looks at it but statements.
-/
import Transmitic.OutgoingCore
import Transmitic.Lib.Interference

namespace Transmitic

open Lib

/-! ## 1. Channels -/

/-- The channels from the core to a downloader. -/
structure Channels where
  /-- All messages ever sent on the first one, and how many of them the thread has received. -/
  posted : List MessageSingleDownloader
  taken : Nat
  revPosted : List EncryptedStream
  revTaken : Nat
  /-- There are senders. -/
  connected : Bool
  /-- There are receivers. -/
  received : Bool

namespace Channels

def new : Channels :=
  { posted := [], taken := 0, revPosted := [], revTaken := 0, connected := true, received := true }

/-- The messages on their way. -/
def inbox (ch : Channels) : List MessageSingleDownloader := ch.posted.drop ch.taken

def revInbox (ch : Channels) : List EncryptedStream := ch.revPosted.drop ch.revTaken

/-- The user of the thread was removed. -/
def removed (ch : Channels) : Prop := .removeUser ∈ ch.posted

/-- `try_recv` on the first channel. -/
def TryRecv (ch : Channels) : TryRecv MessageSingleDownloader → Channels → Prop
  | .value m, ch' => ch.inbox.head? = some m ∧ ch' = { ch with taken := ch.taken + 1 }
  | .empty, ch' => ch.inbox = [] ∧ ch.connected = true ∧ ch' = ch
  | .disconnected, ch' => ch.inbox = [] ∧ ch.connected = false ∧ ch' = ch

/-- `try_recv` on the second channel. -/
def RevTryRecv (ch : Channels) : Transmitic.TryRecv EncryptedStream → Channels → Prop
  | .value enc, ch' => ch.revInbox.head? = some enc ∧ ch' = { ch with revTaken := ch.revTaken + 1 }
  | .empty, ch' => ch.revInbox = [] ∧ ch.connected = true ∧ ch' = ch
  | .disconnected, ch' => ch.revInbox = [] ∧ ch.connected = false ∧ ch' = ch

end Channels

/-! ## 2. The world -/

/-- A listing, and the public ID of the connection it was received over. -/
structure Listing where
  everythingFile : SharedFile
  source : Str

/-- An entry of the cache: the listing, and the number of the thread that fetches a new one. -/
structure InternalRefreshData where
  data : Option Listing
  recv : Option Nat

def InternalRefreshData.new : InternalRefreshData := { data := none, recv := none }

/-- A thread that refreshes the listing of a user, and what it has sent. A thread that ends without
    sending counts as one that has sent an error. -/
structure Fetch where
  sharedUser : Option SharedUser
  sent : Option (Except Str SharedFile)

/-- The text of a downloader. -/
abbrev DlProgram : Type :=
  Prog (Thread SingleDownloader) (Wire ⊕ DownloaderCmd) (Ans DownloaderCmd.Ans) Exc Unit

/-- A downloader, from the moment its channels are made; `program` is what it has still to do. -/
structure Downloader where
  nickname : Str
  channels : Channels
  program : Option DlProgram

structure World where
  threads : List Downloader
  queueFiles : Str → Option (List UInt8)
  refreshData : Str → Option InternalRefreshData
  fetches : List Fetch

namespace World

def channels (w : World) (i : Nat) : Option Channels := w.threads[i]?.map Downloader.channels

/-- Thread `i` after a change. -/
def update (w : World) (i : Nat) (f : Downloader → Downloader) : World :=
  { w with threads := w.threads.modify i f }

def setChannels (w : World) (i : Nat) (ch : Channels) : World :=
  w.update i fun th => { th with channels := ch }

def setProgram (w : World) (i : Nat) (p : DlProgram) : World :=
  w.update i fun th => { th with program := some p }

def setQueueFile (w : World) (path : Str) (file : Option (List UInt8)) : World :=
  { w with queueFiles := Function.update w.queueFiles path file }

def setRefresh (w : World) (nickname : Str) (entry : Option InternalRefreshData) : World :=
  { w with refreshData := Function.update w.refreshData nickname entry }

end World

/-! ## 3. The commands of a downloader -/

/-- `i` is the number of the thread; `ioFails` says whether the operations on queue files may fail. A
    connection that is made is one to the user it was asked for. -/
def World.ThreadStep (ioFails : Prop) (i : Nat) (w : World) (t : Thread SingleDownloader) :
    (c : Wire ⊕ DownloaderCmd) → Ans DownloaderCmd.Ans c → World → Prop
  | .inr .revTryRecv, a, w' =>
    ∃ ch ch', w.channels i = some ch ∧ ch.RevTryRecv a ch' ∧ w' = w.setChannels i ch'
  | .inr .tryRecv, a, w' =>
    ∃ ch ch', w.channels i = some ch ∧ ch.TryRecv a ch' ∧ w' = w.setChannels i ch'
  | .inr (.queueRead path), a, w' => (a = w.queueFiles path ∨ ioFails ∧ a = none) ∧ w' = w
  | .inr (.queueRemove path), .done, w' =>
    (w.queueFiles path).isSome = true ∧ w' = w.setQueueFile path none
  | .inr (.queueRemove path), .notFound, w' => w.queueFiles path = none ∧ w' = w
  | .inr (.queueRemove _), .failed _, w' => ioFails ∧ w' = w
  | .inr (.queueWrite path bytes), .ok (), w' => w' = w.setQueueFile path (some bytes)
  | .inr (.queueWrite path _), .error _, w' => ioFails ∧ ∃ file, w' = w.setQueueFile path file
  | .inr (.refreshGet nickname), a, w' =>
    a = (w.refreshData nickname).map (fun entry => entry.data.map Listing.everythingFile) ∧ w' = w
  | .inr (.refreshInsert nickname everythingFile), (), w' =>
    w' = w.setRefresh nickname (some
      { data := some ⟨everythingFile, t.encryptedStream.sharedUser.publicId⟩, recv := none })
  | .inr (.connect sharedUser privateIdBytes), .ok enc, w' =>
    enc.sharedUser = sharedUser ∧ enc.privateIdBytes = privateIdBytes ∧ w' = w
  | _, _, w' => w' = w

/-! ## 4. The commands of the core -/

/-- `set_refresh_data`. -/
def setRefreshData (nicknames : List Str) (refreshData : Str → Option InternalRefreshData)
    (nickname : Str) : Option InternalRefreshData :=
  if nickname ∈ nicknames then some ((refreshData nickname).getD .new) else none

/-- `get_shared_with_me_data` for one entry. -/
def pollRefresh (fetches : List Fetch) (entry : InternalRefreshData) : InternalRefreshData :=
  match entry.recv.bind fun i => fetches[i]? with
  | none => entry
  | some fetch =>
    match fetch.sent with
    | none => entry
    | some (.ok everythingFile) =>
      { data := some ⟨everythingFile, (fetch.sharedUser.map SharedUser.publicId).getD []⟩
        recv := none }
    | some (.error _) => { entry with recv := none }

def World.CoreStep [Crates] (ioFails : Prop) (w : World) : (c : CoreCmd) → c.Ans → World → Prop
  | .send i m, a, w' => ∃ ch, w.channels i = some ch ∧
      (a = true ∧ ch.received = true ∧ w' = w.setChannels i { ch with posted := ch.posted ++ [m] } ∨
        a = false ∧ ch.received = false ∧ w' = w)
  | .sendReverse i enc, (), w' => ∃ ch, w.channels i = some ch ∧
      (ch.received = true ∧
          w' = w.setChannels i { ch with revPosted := ch.revPosted ++ [enc] } ∨
        ch.received = false ∧ w' = w)
  | .dropSenders i, (), w' =>
    ∃ ch, w.channels i = some ch ∧ w' = w.setChannels i { ch with connected := false }
  | .queueExists path, a, w' => a = (w.queueFiles path).isSome ∧ w' = w
  | .queueAppend path bytes, .ok (), w' =>
    w' = w.setQueueFile path (some ((w.queueFiles path).getD [] ++ bytes))
  | .queueAppend path _, .error _, w' => ioFails ∧ ∃ file, w' = w.setQueueFile path file
  | .newChannels nickname, i, w' => i = w.threads.length ∧
      w' = { w with threads := w.threads ++ [{ nickname, channels := .new, program := none }] }
  | .spawn i user path isPaused reverse config, (), w' => ∃ fuel n encryptedStream, w' = w.setProgram i
      (runThread fuel n
        { self := SingleDownloader.new user path isPaused reverse config, encryptedStream })
  | .setRefreshData nicknames, (), w' =>
    w' = { w with refreshData := setRefreshData nicknames w.refreshData }
  | .startRefresh nickname config, (), w' => w' =
      { w with
        refreshData := Function.update w.refreshData nickname ((w.refreshData nickname).map
          fun entry => { entry with recv := some w.fetches.length })
        fetches := w.fetches ++ [{
          sharedUser := config.configFile.sharedUsers.find? fun user => user.nickname = nickname
          sent := none }] }
  | .pollRefresh, (), w' =>
    w' = { w with refreshData := fun nickname =>
        (w.refreshData nickname).map (Transmitic.pollRefresh w.fetches) }

/-! ## 5. The system -/

/-- The core has a config of its own and a lock on the downloads; `core` is what the holder of the lock
    has still to do. -/
structure System where
  config : Config
  core : Prog OutgoingDownloader CoreCmd CoreCmd.Ans Exc Unit
  world : World

/-- What the lock guards. -/
def System.downloads (s : System) : OutgoingDownloader := s.core.state

/-- The program has been started. -/
def System.Start [Crates] (s : System) : Prop :=
  ∃ configDir isFirstStart password o disk disk',
    Config.new configDir isFirstStart password o disk = .ok (s.config, disk') ∧
      s.core = startDownloading (OutgoingDownloader.new s.config) ∧ s.world.threads = [] ∧
      s.world.fetches = [] ∧ s.world.refreshData = setRefreshData
        (s.config.configFile.sharedUsers.map SharedUser.nickname) fun _ => none

/-- Who takes a turn, and what it is. -/
inductive Turn where
  /-- The holder of the lock goes on. -/
  | core (d : OutgoingDownloader) (c : CoreCmd) (a : c.Ans)
  /-- The core changes the config, and tells the downloads if it has. -/
  | operation (op : Operation) (config : Config)
  | operationFails (op : Operation) (config : Config)
  /-- The core, or the loop over the app's messages, takes the lock. -/
  | downloadOperation (op : DownloadOperation)
  /-- A downloader goes on. -/
  | thread (i : Nat) (t : Thread SingleDownloader) (c : Wire ⊕ DownloaderCmd)
      (a : Ans DownloaderCmd.Ans c)
  /-- A downloader that has come to its end lets go of its receivers. -/
  | ended (i : Nat)
  /-- A listing was fetched over a connection to the user, or could not be. -/
  | fetched (i : Nat)

inductive System.Step [Crates] (ioFails : Prop) (s : System) : Turn → System → Prop where
  | core (d : OutgoingDownloader) (c : CoreCmd) (k : c.Ans → Prog OutgoingDownloader CoreCmd CoreCmd.Ans
      Exc Unit) (a : c.Ans) (w : World) (hcore : s.core = .call d c k)
      (h : s.world.CoreStep ioFails c a w) :
      Step ioFails s (.core d c a) { s with core := k a, world := w }
  | operation (op : Operation) (o : Outcomes) (disk disk' : Disk) (config : Config)
      (hidle : s.core.issued = none)
      (h : op.run s.config.pathDirConfig s.config o disk = (.ok (), config, disk')) :
      Step ioFails s (.operation op config) { s with config, core := op.follow config s.downloads }
  | operationFails (op : Operation) (o : Outcomes) (disk disk' : Disk) (config : Config) (e : Exc)
      (h : op.run s.config.pathDirConfig s.config o disk = (.error e, config, disk')) :
      Step ioFails s (.operationFails op config) { s with config }
  | downloadOperation (op : DownloadOperation) (hidle : s.core.issued = none) :
      Step ioFails s (.downloadOperation op) { s with core := op.run s.downloads }
  | thread (i : Nat) (th : Downloader) (t : Thread SingleDownloader) (c : Wire ⊕ DownloaderCmd)
      (k : Ans DownloaderCmd.Ans c → DlProgram) (a : Ans DownloaderCmd.Ans c) (w : World)
      (hi : s.world.threads[i]? = some th) (hprogram : th.program = some (.call t c k))
      (h : s.world.ThreadStep ioFails i t c a w) :
      Step ioFails s (.thread i t c a) { s with world := w.setProgram i (k a) }
  | ended (i : Nat) (th : Downloader) (t : Thread SingleDownloader) (hi : s.world.threads[i]? = some th)
      (hprogram : th.program = some (.ret () t)) :
      Step ioFails s (.ended i)
        { s with world := s.world.setChannels i { th.channels with received := false } }
  | fetched (i : Nat) (fetch : Fetch) (r : Except Str SharedFile) (hi : s.world.fetches[i]? = some fetch)
      (hsent : fetch.sent = none) (huser : fetch.sharedUser = none → ∃ e, r = .error e) :
      Step ioFails s (.fetched i) { s with world := { s.world with
        fetches := s.world.fetches.set i { fetch with sent := some r } } }

/-- The runs whose turns are all `allowed` where they are taken, with their turns. -/
inductive System.Run [Crates] (ioFails : Prop) (allowed : System → Turn → Prop) (s₀ : System) :
    List Turn → System → Prop where
  | start : Run ioFails allowed s₀ [] s₀
  | step (turns : List Turn) (s s' : System) (turn : Turn) (h : Run ioFails allowed s₀ turns s)
      (hs : s.Step ioFails turn s') (ha : allowed s turn) :
      Run ioFails allowed s₀ (turns ++ [turn]) s'

end Transmitic
