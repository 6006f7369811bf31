/-
  File:      Transmitic/ManagerMethods.lean
  Subject:   WHAT THE METHODS OF THE MANAGER DO AT ALL.

  Most methods of the manager of the uploaders log, tell threads and drop senders. Whatever is to be shown
  of the manager, they are the same walk over the text; it is made here, with the commands a method issues
  as hypotheses.

  * `mode` -- what the loops of the manager go by;
  * `steady_log`, `steady_sendMessageToAllUploaders`, `steady_startUploader`, ... -- the methods that leave
    it alone.
-/
import Transmitic.Lib.Invariant
import Transmitic.UploaderManager

namespace Transmitic

open Lib

namespace UploaderManager

/-- What the loops go by. -/
def mode (m : UploaderManager) : Config × SharingState × Bool :=
  (m.config, m.sharingState, m.stopIncoming)

section Steady

variable {V : Type} {P : ManagerCmd → Prop} {r : UploaderManager → V}

theorem steady_log (hlog : P .log) : Steady P r log := by
  refine steady_bind (steady_issue hlog) fun a => ?_
  cases a with
  | ok u => exact steady_pure _
  | error e => exact steady_throw _

/-- The senders are looked at one by one; who keeps them is another method. -/
theorem steady_sendToUploaders (hsend : ∀ thread message, P (.send thread message))
    (hdrop : ∀ thread, P (.dropSender thread)) (message : MessageSingleUploader) :
    ∀ uploaders : List Nat, Steady P r (sendToUploaders message uploaders)
  | [] => steady_pure _
  | uploader :: uploaders => by
    have hrest := steady_sendToUploaders hsend hdrop message uploaders
    refine steady_bind (steady_issue (hsend _ _)) fun (sent : Bool) => steady_ite ?_ ?_
    · exact steady_bind hrest fun _ => steady_pure _
    · exact steady_bind (steady_issue (hdrop _)) fun _ => hrest

theorem steady_sendToUploadersRev (hsend : ∀ thread message, P (.send thread message))
    (hdrop : ∀ thread, P (.dropSender thread)) (message : MessageSingleUploader) :
    ∀ uploaders : List (Str × Nat), Steady P r (sendToUploadersRev message uploaders)
  | [] => steady_pure _
  | (_, _) :: uploaders => by
    have hrest := steady_sendToUploadersRev hsend hdrop message uploaders
    refine steady_bind (steady_issue (hsend _ _)) fun (sent : Bool) => steady_ite ?_ ?_
    · exact steady_bind hrest fun _ => steady_pure _
    · exact steady_bind (steady_issue (hdrop _)) fun _ => hrest

theorem steady_sendMessageToAllUploaders (hsend : ∀ thread message, P (.send thread message))
    (hdrop : ∀ thread, P (.dropSender thread)) (message : MessageSingleUploader) :
    Steady P mode (sendMessageToAllUploaders message) := by
  refine steady_bind steady_get fun _ => steady_bind (steady_sendToUploaders hsend hdrop _ _) fun _ => ?_
  refine steady_bind (steady_modify fun _ => rfl) fun _ => steady_bind steady_get fun _ => ?_
  exact steady_bind (steady_sendToUploadersRev hsend hdrop _ _) fun _ => steady_modify fun _ => rfl

theorem steady_dropSenders (hdrop : ∀ thread, P (.dropSender thread)) : ∀ uploaders : List Nat,
    Steady P r (dropSenders uploaders)
  | [] => steady_pure _
  | _ :: uploaders => steady_bind (steady_issue (hdrop _)) fun _ => steady_dropSenders hdrop uploaders

/-- The connections are reset: the manager has to stop, and the rest leaves that alone. -/
theorem resetConnections_steady (hsend : ∀ thread message, P (.send thread message))
    (hdrop : ∀ thread, P (.dropSender thread)) (hnew : P .newReverseList) : ∃ rest : Mgr Unit,
    resetConnections = (modify fun m => { m with stopIncoming := true }) >>= (fun _ => rest) ∧
      Steady P mode rest := by
  refine ⟨_, rfl, ?_⟩
  refine steady_bind (steady_sendMessageToAllUploaders hsend hdrop _) fun _ => ?_
  refine steady_bind steady_get fun _ => steady_bind (steady_dropSenders hdrop _) fun _ => ?_
  refine steady_bind (steady_dropSenders hdrop _) fun _ => steady_bind (steady_modify fun _ => rfl) fun _ => ?_
  exact steady_bind (steady_issue hnew) fun _ => steady_modify fun _ => rfl

theorem steady_startUploader (hsend : ∀ thread message, P (.send thread message))
    (hdrop : ∀ thread, P (.dropSender thread)) (hnew : P .newChannel)
    (hspawn : ∀ thread cache config, P (.spawn thread none cache config)) :
    Steady P mode startUploader := by
  refine steady_bind (steady_issue hnew) fun _ => ?_
  refine steady_bind (steady_sendMessageToAllUploaders hsend hdrop _) fun _ => ?_
  refine steady_bind (steady_modify fun _ => rfl) fun _ => steady_bind steady_get fun _ => ?_
  exact steady_issue (hspawn _ _ _)

theorem steady_bindListeners (hbind : ∀ address, P (.bind address)) : ∀ ipAddresses : List SocketAddr,
    Steady P r (bindListeners ipAddresses)
  | [] => steady_pure _
  | _ :: ipAddresses => by
    refine steady_bind (steady_issue (hbind _)) fun bound => ?_
    refine steady_bind (steady_bindListeners hbind ipAddresses) fun _ => ?_
    cases bound with
    | ok listener => exact steady_pure _
    | error e => exact steady_pure _

/-- No command at all. -/
theorem steady_unwrapAll : ∀ addresses : List (Option SocketAddr), Steady P r (unwrapAll addresses)
  | [] => steady_pure _
  | none :: _ => steady_throw _
  | some _ :: addresses => steady_bind (steady_unwrapAll addresses) fun _ => steady_pure _

end Steady

end UploaderManager

end Transmitic
