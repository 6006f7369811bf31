/-
  File:      Transmitic/UploaderSystem.lean
  Subject:   THE MANAGER AND ITS UPLOADERS SIDE BY SIDE.

  The manager, the threads it has started, and those who send it messages take turns in any order. A
  turn is one command.

  * `Uploader` -- a thread with its channel, and what it has done so far;
  * `UploadWorld` -- the threads, the manager's channel, the lists of users who have the listing;
  * `UploadSystem.Step` -- one turn (`UploadTurn`); `UploadSystem.Run`.
-/
import Transmitic.UploaderManager

namespace Transmitic

open Lib

/-! ## 1. The world -/

/-- The text of an uploader. -/
abbrev UpProgram (K : Suite) : Type :=
  Prog (Thread SingleUploader) (Wire ⊕ UploaderCmd K) (Ans (@UploaderCmd.Ans K)) Exc Unit

/-- An uploader, from the moment its channel is made; `program` is what it has still to do. -/
structure Uploader (K : Suite) where
  /-- All messages ever sent to it, and how many of them it has received. -/
  posted : List MessageSingleUploader
  taken : Nat
  /-- There is a sender. -/
  connected : Bool
  /-- There is a receiver. -/
  received : Bool
  /-- The number of its list of the users who have the listing. -/
  reverseFileList : Nat
  /-- The config it was started with. -/
  config : Option Config
  program : Option (UpProgram K)
  /-- All frames it has encrypted, in their order. -/
  sealed : List (List UInt8)
  /-- The commands it has issued, but for those that took a message off its channel. -/
  commands : Nat

namespace Uploader

variable {K : Suite}

def new : Uploader K :=
  { posted := []
    taken := 0
    connected := true
    received := true
    reverseFileList := 0
    config := none
    program := none
    sealed := []
    commands := 0 }

/-- The messages on their way. -/
def inbox (u : Uploader K) : List MessageSingleUploader := u.posted.drop u.taken

end Uploader

structure UploadWorld (K : Suite) where
  uploaders : List (Uploader K)
  /-- The messages on their way to the manager. -/
  inbox : List MessageUploadManager
  reverseFileLists : List (List Str)

namespace UploadWorld

variable {K : Suite} (w : UploadWorld K)

/-- Uploader `i` after a change. -/
def update (i : Nat) (f : Uploader K → Uploader K) : UploadWorld K :=
  { w with uploaders := w.uploaders.modify i f }

end UploadWorld

/-! ## 2. The commands of an uploader -/

section Steps

variable {K : Suite}

/-- `try_recv` of an uploader. -/
def Uploader.TryRecv (u : Uploader K) : TryRecv MessageSingleUploader → Uploader K → Prop
  | .value m, u' => u.inbox.head? = some m ∧ u' = { u with taken := u.taken + 1 }
  | .empty, u' => u.inbox = [] ∧ u.connected = true ∧ u' = { u with commands := u.commands + 1 }
  | .disconnected, u' =>
    u.inbox = [] ∧ u.connected = false ∧ u' = { u with commands := u.commands + 1 }

/-- One more command of uploader `u`. -/
def Uploader.issued (u : Uploader K) : Uploader K := { u with commands := u.commands + 1 }

/-- The commands of uploader `i`, in its state `u`. The network, the disk and the clock may answer
    anything; `std::process::exit` does not return. -/
def UploadWorld.ThreadStep (w : UploadWorld K) (i : Nat) (u : Uploader K) :
    (c : Wire ⊕ UploaderCmd K) → Ans (@UploaderCmd.Ans K) c → UploadWorld K → Prop
  | .inl (.seal _ plain), _, w' =>
    w' = w.update i fun u => { u.issued with sealed := u.sealed ++ [plain] }
  | .inr .tryRecv, a, w' => ∃ u', u.TryRecv a u' ∧ w' = w.update i fun _ => u'
  | .inr (.reverseListContains nickname), (a : Bool), w' =>
    a = (w.reverseFileLists[u.reverseFileList]?.any (nickname ∈ ·)) ∧ w' = w.update i Uploader.issued
  | .inr (.reverseListPush nickname), _, w' =>
    w' = { w.update i Uploader.issued with
      reverseFileLists := w.reverseFileLists.modify u.reverseFileList fun nicknames =>
        if nickname ∈ nicknames then nicknames else nicknames ++ [nickname] }
  | _, _, w' => w' = w.update i Uploader.issued

/-! ## 3. The commands of the manager -/

/-- What `thread::spawn` starts. -/
def spawned [Crates] (fuel : Nat) : Option SharedUser → Up K Unit
  | none => SingleUploader.singleThread fuel none
  | some sharedUser => SingleUploader.reverseThread fuel sharedUser

def UploadWorld.ManagerStep [Crates] (w : UploadWorld K) :
    (c : ManagerCmd) → c.Ans → UploadWorld K → Prop
  | .tryRecv, .value m, w' => w.inbox.head? = some m ∧ w' = { w with inbox := w.inbox.tail }
  | .tryRecv, .empty, w' => w.inbox = [] ∧ w' = w
  -- the thread of the manager has a sender of its own
  | .tryRecv, .disconnected, _ => False
  | .send i m, (a : Bool), w' => ∃ u, w.uploaders[i]? = some u ∧ a = u.received ∧
      w' = if u.received then w.update i fun u => { u with posted := u.posted ++ [m] } else w
  | .dropSender i, _, w' => w' = w.update i fun u => { u with connected := false }
  | .newReverseList, (a : Nat), w' => a = w.reverseFileLists.length ∧
      w' = { w with reverseFileLists := w.reverseFileLists ++ [[]] }
  | .newChannel, (a : Nat), w' =>
    a = w.uploaders.length ∧ w' = { w with uploaders := w.uploaders ++ [Uploader.new] }
  -- the receiver is moved into the thread, so there is one thread for a channel
  | .spawn i reverseUser reverseFileList config, _, w' => ∃ u fuel encryptedStream,
      w.uploaders[i]? = some u ∧ u.config = none ∧ w' = w.update i fun u =>
        { u with
          reverseFileList
          config := some config
          program := some (spawned fuel reverseUser
            { self := SingleUploader.new config, encryptedStream }) }
  | .postSelf m, _, w' => w' = { w with inbox := w.inbox ++ [m] }
  | _, _, w' => w' = w

end Steps

/-! ## 4. Runs -/

structure UploadSystem (K : Suite) where
  manager : Prog UploaderManager ManagerCmd ManagerCmd.Ans Exc Unit
  world : UploadWorld K

/-- Whose turn it is. -/
inductive UploadTurn (K : Suite) where
  | manager (m : UploaderManager) (c : ManagerCmd) (a : c.Ans)
  | thread (i : Nat) (t : Thread SingleUploader) (c : Wire ⊕ UploaderCmd K)
      (a : Ans (@UploaderCmd.Ans K) c)
  /-- An uploader that has come to its end lets go of its receiver. -/
  | ended (i : Nat)
  /-- The core sends the manager a message. -/
  | posted (m : MessageUploadManager)

/-- The manager right after it was made, with the config of the core. -/
def UploadSystem.start {K : Suite} (fuel n : Nat) (config : Config) : UploadSystem K :=
  { manager := UploaderManager.managerThread fuel n (UploaderManager.new config .off 0)
    world := { uploaders := [], inbox := [], reverseFileLists := [[]] } }

inductive UploadSystem.Step [Crates] {K : Suite} (s : UploadSystem K) :
    UploadTurn K → UploadSystem K → Prop where
  | manager (m : UploaderManager) (c : ManagerCmd) (k : c.Ans → Prog UploaderManager ManagerCmd
      ManagerCmd.Ans Exc Unit) (a : c.Ans) (w : UploadWorld K) (hmanager : s.manager = .call m c k)
      (h : s.world.ManagerStep c a w) : Step s (.manager m c a) { manager := k a, world := w }
  | thread (i : Nat) (u : Uploader K) (t : Thread SingleUploader) (c : Wire ⊕ UploaderCmd K)
      (k : Ans (@UploaderCmd.Ans K) c → UpProgram K) (a : Ans (@UploaderCmd.Ans K) c)
      (w : UploadWorld K) (hi : s.world.uploaders[i]? = some u)
      (hprogram : u.program = some (.call t c k)) (h : s.world.ThreadStep i u c a w) :
      Step s (.thread i t c a)
        { s with world := w.update i fun u => { u with program := some (k a) } }
  | ended (i : Nat) (u : Uploader K) (p : UpProgram K) (hi : s.world.uploaders[i]? = some u)
      (hprogram : u.program = some p) (hend : p.issued = none) :
      Step s (.ended i) { s with world := s.world.update i fun u => { u with received := false } }
  | posted (m : MessageUploadManager) :
      Step s (.posted m) { s with world := { s.world with inbox := s.world.inbox ++ [m] } }

/-- The runs, with their turns. -/
inductive UploadSystem.Run [Crates] {K : Suite} (s₀ : UploadSystem K) :
    List (UploadTurn K) → UploadSystem K → Prop where
  | start : Run s₀ [] s₀
  | step (turns : List (UploadTurn K)) (s s' : UploadSystem K) (turn : UploadTurn K)
      (h : Run s₀ turns s) (hs : s.Step turn s') : Run s₀ (turns ++ [turn]) s'

end Transmitic
