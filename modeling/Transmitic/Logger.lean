/-
  File:      Transmitic/Logger.lean
  Subject:   THE LOG AND ITS FILE (logger.rs).

  The logger keeps the newest messages in memory, and appends to a file as well where file logging is on.
  After so many appends it writes the file anew, from what it has in memory. Switching file logging on
  does the same, and leaves the count of the appends alone.

  * `logMessage`, `setIsFileLogging` -- the methods, over the commands they issue (`LogCmd`);
  * `workingDisk` -- a disk on which every file opens and every write is whole;
  * `Retains` -- the lines in memory and in the file are the newest ones that were printed;
  * `log_file_ends_with_log` -- **after any calls**.
-/
import Transmitic.Lib.Invariant
import Transmitic.Lib.Text

namespace Transmitic

open Lib

/-! ## 1. Data -/

/-- `LOG_MESSAGES_COUNT`. -/
def logMessagesCount : Nat := 1000

/-- `LOG_FILE_ROTATE_COUNT`. -/
def logFileRotateCount : Nat := logMessagesCount * 2

inductive LogLevel where
  | critical
  | error
  | warning
  | info
  | debug
  deriving DecidableEq, Repr

/-- `as u8`. -/
def LogLevel.toNat : LogLevel → Nat
  | .critical => 50
  | .error => 40
  | .warning => 30
  | .info => 20
  | .debug => 10

/-- What a line of the level starts with. -/
def LogLevel.logString : LogLevel → Str
  | .critical => "[CRITICAL]".toList
  | .error => "[ERROR]   ".toList
  | .warning => "[WARNING] ".toList
  | .info => "[INFO]    ".toList
  | .debug => "[DEBUG]   ".toList

/-- `log_lines` has the newest line in front. -/
structure Logger where
  logLines : List Str
  activeLogLevel : LogLevel
  isLogToFile : Bool
  logPath : Str
  logFileWriteCount : Nat

/-! ## 2. Commands -/

inductive LogCmd where
  /-- `fs::remove_file`, whose error is ignored. -/
  | removeFile (path : Str)
  /-- The seconds since the epoch; none where the clock is before it. -/
  | now
  | println (message : Str)
  | openAppend (path : Str)
  | openTruncate (path : Str)
  /-- `write` to the file opened last, whose result is ignored. -/
  | write (bytes : List UInt8)

def LogCmd.Ans : LogCmd → Type
  | .removeFile _ => Unit
  | .now => Option Nat
  | .println _ => Unit
  | .openAppend _ => Except Str Unit
  | .openTruncate _ => Except Str Unit
  | .write _ => Unit

/-- A method of `Logger`. -/
abbrev Log (α : Type) : Type := Act Logger LogCmd LogCmd.Ans Exc α

namespace Logger

def command (c : LogCmd) : Log c.Ans := issue c

/-! ## 3. Methods -/

/-- `Logger::new`, for the path of its file. -/
def new (logLevel : LogLevel) (isLogToFile : Bool) (logPath : Str) : Logger :=
  { logLines := []
    activeLogLevel := logLevel
    isLogToFile
    logPath
    logFileWriteCount := 0 }

/-- What `new` does to the disk. -/
def start : Log Unit := do command (.removeFile (← get).logPath)

/-- The bytes of a line. -/
def lineBytes (message : Str) : List UInt8 := utf8 (message ++ ['\n'])

def pushFront (message : Str) : Log Unit := modify fun l => { l with logLines := message :: l.logLines }

def writeLines : List Str → Log Unit
  | [] => pure ()
  | message :: messages => do
    command (.write (lineBytes message))
    writeLines messages

def writeAllToLog : Log Unit := do
  let l ← get
  match ← command (.openTruncate l.logPath) with
  | .ok () => writeLines l.logLines.reverse
  | .error e => pushFront ("[ERROR] | Failed to open truncate log ".toList ++ e)

def logToFile (message : Str) : Log Unit := do
  let l ← get
  if logFileRotateCount ≤ l.logFileWriteCount then
    writeAllToLog
    modify fun l => { l with logFileWriteCount := 0 }
  else
    match ← command (.openAppend l.logPath) with
    | .ok () => command (.write (lineBytes message))
    | .error e => pushFront ("[ERROR] | Failed to open append log ".toList ++ e)
    modify fun l => { l with logFileWriteCount := l.logFileWriteCount + 1 }

/-- The loop of `pop_back`. -/
def popBackWhileFull (logLines : List Str) : List Str :=
  if _h : logMessagesCount ≤ logLines.length then popBackWhileFull logLines.dropLast else logLines
termination_by logLines.length
decreasing_by
  have hpositive : 0 < logLines.length := Nat.lt_of_lt_of_le (by decide) _h
  simp only [List.length_dropLast]
  omega

def timeText : Option Nat → Str
  | some n => natText n
  | none => "TimeError".toList

/-- The text of a line. -/
def logLine (logLevel : LogLevel) (timeString message : Str) : Str :=
  logLevel.logString ++ " ".toList ++ timeString ++ " |  ".toList ++ message

def logMessage (logLevel : LogLevel) (message : Str) : Log Unit := do
  if logLevel.toNat < (← get).activeLogLevel.toNat then pure ()
  else
    let time : Option Nat ← command .now
    let message := logLine logLevel (timeText time) message
    command (.println message)
    modify fun l => { l with logLines := message :: popBackWhileFull l.logLines }
    if (← get).isLogToFile then logToFile message else pure ()

def setLogLevel (logLevel : LogLevel) : Log Unit := modify fun l => { l with activeLogLevel := logLevel }

def setIsFileLogging (state : Bool) : Log Unit := do
  modify fun l => { l with isLogToFile := state }
  if state then writeAllToLog else pure ()

end Logger

/-! ## 4. Calls -/

inductive LogCall where
  | logMessage (logLevel : LogLevel) (message : Str)
  | setLogLevel (logLevel : LogLevel)
  | setIsFileLogging (state : Bool)

def LogCall.run : LogCall → Log Unit
  | .logMessage logLevel message => Logger.logMessage logLevel message
  | .setLogLevel logLevel => Logger.setLogLevel logLevel
  | .setIsFileLogging state => Logger.setIsFileLogging state

def logCalls : List LogCall → Log Unit
  | [] => pure ()
  | call :: calls => do
    call.run
    logCalls calls

/-- The messages of the calls that pass the level, where `active` is the level before them. -/
def passing (active : LogLevel) : List LogCall → List (LogLevel × Str)
  | [] => []
  | .logMessage logLevel message :: calls =>
    if logLevel.toNat < active.toNat then passing active calls
    else (logLevel, message) :: passing active calls
  | .setLogLevel logLevel :: calls => passing logLevel calls
  | .setIsFileLogging _ :: calls => passing active calls

/-- The line is that of the message, at some time. -/
def LineOf (message : LogLevel × Str) (line : Str) : Prop :=
  ∃ timeString, line = Logger.logLine message.1 timeString message.2

/-! ## 5. A working disk -/

/-- The files of the disk, the one opened last, and all lines printed, the oldest in front. -/
structure LogDisk where
  file : Str → Option (List UInt8)
  opened : Str
  printed : List Str

/-- The disk with this file, opened. -/
def LogDisk.open (w : LogDisk) (path : Str) (bytes : List UInt8) : LogDisk :=
  { w with file := Function.update w.file path (some bytes), opened := path }

/-- Every file opens, and every write is whole. -/
def workingDisk : Env Logger LogCmd LogCmd.Ans LogDisk where
  ok _ _ _ := True
  step w _ c a w' := match c, a with
    | .removeFile path, _ => w' = { w with file := Function.update w.file path none }
    | .now, _ => w' = w
    | .println message, _ => w' = { w with printed := w.printed ++ [message] }
    | .openAppend path, a => a = .ok () ∧ w' = w.open path ((w.file path).getD [])
    | .openTruncate path, a => a = .ok () ∧ w' = w.open path []
    | .write bytes, _ => w' = w.open w.opened ((w.file w.opened).getD [] ++ bytes)

/-- The file has these lines; where there is none it has none. -/
def LogDisk.HasLines (w : LogDisk) (path : Str) (ls : List Str) : Prop :=
  (w.file path).getD [] = ls.flatMap Logger.lineBytes

section Retains

variable {path : Str} {l : Logger} {w : LogDisk}

/-- **What the logger retains** of the lines it has printed, in memory and in the file at `path`. -/
structure Retains (path : Str) (l : Logger) (w : LogDisk) : Prop where
  logPath : l.logPath = path
  /-- The newest lines, the newest one in front. -/
  memory : l.logLines = w.printed.reverse.take logMessagesCount
  count : l.logFileWriteCount ≤ logFileRotateCount
  /-- The file: as long as file logging is on it has the newest lines, and all that are in memory. -/
  file : ∃ ls, w.HasLines path ls ∧ ls.length ≤ logMessagesCount + l.logFileWriteCount ∧
    (l.isLogToFile = true → ls <:+ w.printed ∧ l.logLines.length ≤ ls.length)

theorem Retains.length_le (h : Retains path l w) : l.logLines.length ≤ logMessagesCount := by
  rw [h.memory]
  exact List.length_take_le _ _

/-- What is in memory ends the lines that were printed. -/
theorem Retains.memory_suffix (h : Retains path l w) : l.logLines.reverse <:+ w.printed := by
  rw [h.memory, ← List.reverse_prefix, List.reverse_reverse]
  exact List.take_prefix _ _

/-- **As long as file logging is on**, the file ends with what is in memory, in the order it was printed. -/
theorem Retains.file_suffix (h : Retains path l w) : ∃ ls, w.HasLines path ls ∧
    ls.length ≤ logMessagesCount + logFileRotateCount ∧
    (l.isLogToFile = true → ls <:+ w.printed ∧ l.logLines.reverse <:+ ls) := by
  obtain ⟨ls, hlines, hlength, hon⟩ := h.file
  refine ⟨ls, hlines, hlength.trans (Nat.add_le_add_left h.count _), fun htrue => ?_⟩
  obtain ⟨hsuffix, hmemory⟩ := hon htrue
  refine ⟨hsuffix, List.suffix_of_suffix_length_le h.memory_suffix hsuffix ?_⟩
  simpa using hmemory

end Retains

namespace Logger

/-! ## 6. What the methods do there -/

section Steps

variable {path : Str} {l : Logger} {w : LogDisk} {ls : List Str}

theorem popBackWhileFull_eq (logLines : List Str) :
    popBackWhileFull logLines = logLines.take (logMessagesCount - 1) := by
  induction logLines using popBackWhileFull.induct with
  | case1 logLines h ih =>
    rw [popBackWhileFull, dif_pos h, ih, List.dropLast_eq_take, List.take_take]
    congr 1
    omega
  | case2 logLines h =>
    rw [popBackWhileFull, dif_neg h, List.take_of_length_le (by omega)]

/-- A new line pushes the oldest one out. -/
theorem memory_push (message : Str) (printed : List Str) :
    message :: popBackWhileFull (printed.reverse.take logMessagesCount) =
      (printed ++ [message]).reverse.take logMessagesCount := by
  rw [popBackWhileFull_eq, List.take_take, List.reverse_append, List.reverse_singleton,
    List.singleton_append]
  rfl

@[simp] theorem open_printed (path : Str) (bytes : List UInt8) :
    (w.open path bytes).printed = w.printed := rfl

@[simp] theorem open_opened (path : Str) (bytes : List UInt8) : (w.open path bytes).opened = path := rfl

@[simp] theorem open_file (path : Str) (bytes : List UInt8) :
    (w.open path bytes).file path = some bytes := Function.update_self _ _ _

/-- A command in front of the rest. -/
theorem wp_command {α : Type} {c : LogCmd} {f : c.Ans → Log α} {Q : α → Logger → LogDisk → Prop}
    {R : Exc → Logger → LogDisk → Prop}
    (h : ∀ a w', workingDisk.step w l c a w' → wp workingDisk (f a) Q R l w') :
    wp workingDisk (command c >>= f) Q R l w := (wp_bind _ _).mpr ⟨trivial, h⟩

theorem wp_writeLines (messages : List Str) : ∀ w : LogDisk, w.opened = l.logPath → w.HasLines l.logPath ls →
    wp workingDisk (writeLines messages)
      (fun _ l' w' => l' = l ∧ w'.printed = w.printed ∧ w'.HasLines l.logPath (ls ++ messages))
      (fun _ _ _ => False) l w := by
  induction messages generalizing ls with
  | nil =>
    intro w _ hlines
    exact ⟨rfl, rfl, by rwa [List.append_nil]⟩
  | cons message messages ih =>
    intro w hopened hlines
    refine wp_command fun _ w' hw' => ?_
    subst hw'
    have hnext := @ih (ls ++ [message])
      (w.open w.opened ((w.file w.opened).getD [] ++ lineBytes message)) hopened ?_
    · simpa using hnext
    · unfold LogDisk.HasLines at hlines ⊢
      rw [← hopened] at hlines ⊢
      simp [hlines]

/-- The file is written anew from what is in memory. -/
theorem wp_writeAllToLog : wp workingDisk writeAllToLog
    (fun _ l' w' => l' = l ∧ w'.printed = w.printed ∧ w'.HasLines l.logPath l.logLines.reverse)
    (fun _ _ _ => False) l w := by
  unfold writeAllToLog
  rw [wp_bind, wp_get]
  refine wp_command fun a w' hw' => ?_
  obtain ⟨rfl, rfl⟩ := hw'
  have hnone : (w.open l.logPath []).HasLines l.logPath [] := by simp [LogDisk.HasLines]
  simpa using wp_writeLines l.logLines.reverse (w.open l.logPath []) rfl hnone

/-- **A line is added to the file**, or the file is written anew. -/
theorem wp_logToFile {message : Str} {printed : List Str} (hpath : l.logPath = path)
    (hprinted : w.printed = printed ++ [message])
    (hmemory : l.logLines = w.printed.reverse.take logMessagesCount)
    (hcount : l.logFileWriteCount ≤ logFileRotateCount) (hlines : w.HasLines path ls)
    (hlength : ls.length ≤ logMessagesCount + l.logFileWriteCount) (hsuffix : ls <:+ printed)
    (hall : l.logLines.length ≤ ls.length + 1) :
    wp workingDisk (logToFile message)
      (fun _ l' w' => Retains path l' w' ∧ w'.printed = w.printed ∧ l'.activeLogLevel = l.activeLogLevel)
      (fun _ _ _ => False) l w := by
  subst hpath
  unfold logToFile
  rw [wp_bind, wp_get, wp_ite]
  split
  · refine wp_seq wp_writeAllToLog ?_ fun _ _ _ h => h
    rintro _ l' w' ⟨rfl, hsame, hnew⟩
    refine ⟨⟨rfl, by rw [hsame]; exact hmemory, Nat.zero_le _, l'.logLines.reverse, hnew, ?_, fun _ => ?_⟩,
      hsame, rfl⟩
    · rw [List.length_reverse, hmemory]
      exact List.length_take_le _ _
    · refine ⟨?_, (List.length_reverse).ge⟩
      rw [hmemory, hsame, ← List.reverse_prefix, List.reverse_reverse]
      exact List.take_prefix _ _
  · rename_i hless
    refine wp_command fun a w' hw' => ?_
    obtain ⟨rfl, rfl⟩ := hw'
    refine wp_command fun _ w' hw' => ?_
    subst hw'
    have hroom : l.logFileWriteCount + 1 ≤ logFileRotateCount := by omega
    refine ⟨⟨rfl, hmemory, hroom, ls ++ [message], ?_, ?_, fun _ => ⟨?_, ?_⟩⟩, rfl, rfl⟩
    · unfold LogDisk.HasLines at hlines ⊢
      simp [hlines]
    · show (ls ++ [message]).length ≤ logMessagesCount + (l.logFileWriteCount + 1)
      rw [List.length_append, List.length_singleton]
      omega
    · show ls ++ [message] <:+ w.printed
      obtain ⟨front, hfront⟩ := hsuffix
      exact ⟨front, by rw [hprinted, ← hfront, List.append_assoc]⟩
    · simpa using hall

/-- **A message is logged**: its line is printed where it passes, and what the logger retains is kept. -/
theorem wp_logMessage (h : Retains path l w) (logLevel : LogLevel) (message : Str) :
    wp workingDisk (logMessage logLevel message)
      (fun _ l' w' => Retains path l' w' ∧ l'.activeLogLevel = l.activeLogLevel ∧
        ∃ lines, w'.printed = w.printed ++ lines ∧
          List.Forall₂ LineOf (passing l.activeLogLevel [.logMessage logLevel message]) lines)
      (fun _ _ _ => False) l w := by
  unfold logMessage
  rw [wp_bind, wp_get, wp_ite]
  unfold passing
  split
  · exact ⟨h, rfl, [], by simp, .nil⟩
  refine wp_command fun time w' hw' => ?_
  obtain rfl : w' = w := hw'
  dsimp only
  generalize timeText time = timeString
  refine wp_command fun _ w'' hw'' => ?_
  subst hw''
  rw [wp_bind, wp_modify, wp_bind, wp_get, wp_ite]
  have hmemory := memory_push (logLine logLevel timeString message) w'.printed
  rw [← h.memory] at hmemory
  have hline : List.Forall₂ LineOf [(logLevel, message)] [logLine logLevel timeString message] :=
    .cons ⟨timeString, rfl⟩ .nil
  obtain ⟨ls, hlines, hlength, hon⟩ := h.file
  split
  · rename_i htrue
    obtain ⟨hsuffix, hall⟩ := hon htrue
    refine wp_conseq (wp_logToFile h.logPath rfl hmemory h.count hlines hlength hsuffix ?_) ?_ fun _ _ _ h => h
    · have hpop := congrArg List.length (popBackWhileFull_eq l.logLines)
      rw [List.length_take] at hpop
      simp only [List.length_cons]
      omega
    · rintro _ l' w'' ⟨hretains, hprinted, hlevel⟩
      exact ⟨hretains, hlevel, _, hprinted, hline⟩
  · rename_i hoff
    exact ⟨⟨h.logPath, hmemory, h.count, ls, hlines, hlength, fun htrue => absurd htrue hoff⟩, rfl, _, rfl, hline⟩

/-- **File logging is switched**: on, the file is written anew; off, it stays as it is. -/
theorem wp_setIsFileLogging (h : Retains path l w) (state : Bool) :
    wp workingDisk (setIsFileLogging state)
      (fun _ l' w' => Retains path l' w' ∧ l'.activeLogLevel = l.activeLogLevel ∧ w'.printed = w.printed)
      (fun _ _ _ => False) l w := by
  unfold setIsFileLogging
  rw [wp_bind, wp_modify, wp_ite]
  split
  · refine wp_conseq wp_writeAllToLog ?_ fun _ _ _ h => h
    rintro _ l' w' ⟨rfl, hsame, hnew⟩
    rw [h.logPath] at hnew
    refine ⟨⟨h.logPath, hsame ▸ h.memory, h.count, l.logLines.reverse, hnew, ?_, fun _ => ⟨?_, ?_⟩⟩, rfl, hsame⟩
    · rw [List.length_reverse]
      exact h.length_le.trans (Nat.le_add_right _ _)
    · exact hsame ▸ h.memory_suffix
    · exact (List.length_reverse).ge
  · rename_i hoff
    obtain ⟨ls, hlines, hlength, -⟩ := h.file
    exact ⟨⟨h.logPath, h.memory, h.count, ls, hlines, hlength, fun htrue => absurd htrue hoff⟩, rfl, rfl⟩

end Steps

end Logger

/-! ## 7. Every run -/

section Runs

variable {path : Str} {l : Logger} {w : LogDisk}

/-- **A call keeps what the logger retains**, and prints the lines of the messages that pass. -/
theorem wp_logCall (h : Retains path l w) (call : LogCall) (calls : List LogCall) :
    wp workingDisk call.run
      (fun _ l' w' => Retains path l' w' ∧ ∃ messages lines, w'.printed = w.printed ++ lines ∧
        List.Forall₂ LineOf messages lines ∧
        passing l.activeLogLevel (call :: calls) = messages ++ passing l'.activeLogLevel calls)
      (fun _ _ _ => False) l w := by
  cases call with
  | logMessage logLevel message =>
    refine wp_conseq (Logger.wp_logMessage h logLevel message) ?_ fun _ _ _ h => h
    rintro _ l' w' ⟨hretains, hlevel, lines, hprinted, hlines⟩
    refine ⟨hretains, _, lines, hprinted, hlines, ?_⟩
    simp only [passing, hlevel]
    split <;> simp
  | setLogLevel logLevel =>
    exact ⟨⟨h.logPath, h.memory, h.count, h.file⟩, [], [], by simp, .nil, rfl⟩
  | setIsFileLogging state =>
    refine wp_conseq (Logger.wp_setIsFileLogging h state) ?_ fun _ _ _ h => h
    rintro _ l' w' ⟨hretains, hlevel, hprinted⟩
    exact ⟨hretains, [], [], by simp [hprinted], .nil, by rw [hlevel]; rfl⟩

theorem wp_logCalls (calls : List LogCall) : ∀ l w, Retains path l w → wp workingDisk (logCalls calls)
    (fun _ l' w' => Retains path l' w' ∧ ∃ lines, w'.printed = w.printed ++ lines ∧
      List.Forall₂ LineOf (passing l.activeLogLevel calls) lines)
    (fun _ _ _ => False) l w := by
  induction calls with
  | nil =>
    intro l w h
    exact ⟨h, [], by simp, .nil⟩
  | cons call calls ih =>
    intro l w h
    refine wp_seq (wp_logCall h call calls) ?_ fun _ _ _ h => h
    rintro _ l' w' ⟨hretains, messages, lines, hprinted, hlines, hpassing⟩
    refine wp_conseq (ih l' w' hretains) ?_ fun _ _ _ h => h
    rintro _ l'' w'' ⟨hretains, more, hmore, hlines'⟩
    refine ⟨hretains, lines ++ more, by rw [hmore, hprinted, List.append_assoc], ?_⟩
    rw [hpassing]
    exact List.rel_append hlines hlines'

/-- A new logger, whose file is removed. -/
theorem retains_new (logLevel : LogLevel) (isLogToFile : Bool) (logPath : Str)
    (hprinted : w.printed = []) (hfile : w.file logPath = none) :
    Retains logPath (Logger.new logLevel isLogToFile logPath) w := by
  refine ⟨rfl, by simp [Logger.new, hprinted], Nat.zero_le _, [], ?_, Nat.zero_le _, fun _ => ⟨?_, le_rfl⟩⟩
  · simp [LogDisk.HasLines, hfile]
  · exact List.nil_suffix

/-- **The log file ends with the retained log.** After any calls, from a new logger on any disk: the
    lines in memory are the newest ones of the messages that passed, the newest in front; the file never has
    more lines than it should; and while file logging is on its lines are the last ones that were printed,
    and end with those in memory. -/
theorem log_file_ends_with_log (calls : List LogCall) (logLevel : LogLevel) (isLogToFile : Bool)
    (logPath : Str) (file : Str → Option (List UInt8)) (opened : Str) :
    wp workingDisk (do Logger.start; logCalls calls)
      (fun _ l w => List.Forall₂ LineOf (passing logLevel calls) w.printed ∧
        l.logLines = w.printed.reverse.take logMessagesCount ∧ l.logLines.length ≤ logMessagesCount ∧
        ∃ ls, w.HasLines logPath ls ∧ ls.length ≤ logMessagesCount + logFileRotateCount ∧
          (l.isLogToFile = true → ls <:+ w.printed ∧ l.logLines.reverse <:+ ls))
      (fun _ _ _ => False) (Logger.new logLevel isLogToFile logPath)
      { file, opened, printed := [] } := by
  have hstart : wp workingDisk Logger.start
      (fun _ l w => l = Logger.new logLevel isLogToFile logPath ∧ w.printed = [] ∧ w.file logPath = none)
      (fun _ _ _ => False) (Logger.new logLevel isLogToFile logPath) { file, opened, printed := [] } := by
    refine ⟨trivial, fun _ w hw => ?_⟩
    subst hw
    exact ⟨rfl, rfl, Function.update_self _ _ _⟩
  refine wp_seq hstart ?_ fun _ _ _ h => h
  rintro _ l w ⟨rfl, hprinted, hfile⟩
  refine wp_conseq (wp_logCalls calls _ w (retains_new logLevel isLogToFile logPath hprinted hfile)) ?_
    fun _ _ _ h => h
  rintro _ l w' ⟨hretains, lines, hlines, hall⟩
  rw [hprinted, List.nil_append] at hlines
  exact ⟨hlines ▸ hall, hretains.memory, hretains.length_le, hretains.file_suffix⟩

end Runs

end Transmitic
