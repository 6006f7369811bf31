/-
  File:      Transmitic/CoreMethods.lean
  Subject:   WHAT THE CORE DOES WHEN IT TELLS ITS DOWNLOADERS SOMETHING.

  A message goes to all downloaders, and the channels of those that are gone are removed. None of this
  fails, and of the core's state only the channels change; so whatever the commands keep, the methods keep.

  * `endsIn_removeChannel`, `endsIn_sendMessageToAllDownloads` -- the methods, with what is to be kept and
    their commands as hypotheses.
-/
import Transmitic.Lib.Invariant
import Transmitic.OutgoingCore

namespace Transmitic

open Lib

section Told

variable {W : Type} {E : Env OutgoingDownloader CoreCmd CoreCmd.Ans W} {R : Exc → Prop}
  {I : OutgoingDownloader → W → Prop}

/-- Facts that have nothing to do with the channels. -/
def Channelless (I : OutgoingDownloader → W → Prop) : Prop :=
  ∀ d channelMap w, I d w → I { d with channelMap } w

theorem endsIn_removeChannel (hI : Channelless I)
    (hdrop : ∀ thread, EndsIn E I R (coreCommand (.dropSenders thread))) (nickname : Str) :
    EndsIn E I R (removeChannel nickname) := by
  refine endsIn_bind endsIn_get fun d => ?_
  cases d.channel nickname with
  | some thread => exact endsIn_bind (endsIn_modify fun d w h => hI d _ w h) fun _ => hdrop thread
  | none => exact endsIn_pure _

theorem endsIn_sendToEach {m : MessageSingleDownloader}
    (hsend : ∀ thread, EndsIn E I R (coreCommand (.send thread m))) : ∀ channels : List (Str × Nat),
    EndsIn E I R (sendToEach m channels)
  | [] => endsIn_pure _
  | (_, thread) :: channels => endsIn_bind (hsend thread) fun (_ : Bool) =>
      endsIn_bind (endsIn_sendToEach hsend channels) fun _ => endsIn_pure _

theorem endsIn_removeChannels (hI : Channelless I)
    (hdrop : ∀ thread, EndsIn E I R (coreCommand (.dropSenders thread))) : ∀ keys : List Str,
    EndsIn E I R (removeChannels keys)
  | [] => endsIn_pure _
  | key :: keys => endsIn_bind (endsIn_removeChannel hI hdrop key) fun _ =>
      endsIn_removeChannels hI hdrop keys

/-- **A message to all downloaders.** -/
theorem endsIn_sendMessageToAllDownloads (hI : Channelless I) {m : MessageSingleDownloader}
    (hsend : ∀ thread, EndsIn E I R (coreCommand (.send thread m)))
    (hdrop : ∀ thread, EndsIn E I R (coreCommand (.dropSenders thread))) :
    EndsIn E I R (sendMessageToAllDownloads m) :=
  endsIn_bind endsIn_get fun d => endsIn_bind (endsIn_sendToEach hsend d.channelMap) fun _ =>
    endsIn_removeChannels hI hdrop _

end Told

end Transmitic
