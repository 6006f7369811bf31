/-
  File:      Transmitic/DownloaderHeeds.lean
  Subject:   A DOWNLOADER GOES BY WHAT IT WAS TOLD LAST.

  The user and the config of a downloader are copies. Nothing the thread does changes them but a
  message, however often `run` fails and is called again.

  * `Briefing`, `Briefing.hear` -- the two copies, and what a message makes of them;
  * `briefed_runThread` -- **at every command of the thread they are what its messages have made of
    them**.
-/
import Transmitic.DownloaderSession

namespace Transmitic

open Lib

/-! ## 1. What a downloader is told -/

/-- The copies a downloader has of its user and of the config. -/
structure Briefing where
  sharedUser : SharedUser
  config : Config

/-- What a message makes of them. -/
def Briefing.hear (x : Briefing) : MessageSingleDownloader → Briefing
  | .newSharedUser sharedUser => { x with sharedUser }
  | .newConfig config => { x with config }
  | _ => x

def briefing (t : Thread SingleDownloader) : Briefing := ⟨t.self.sharedUser, t.self.config⟩

theorem briefing_effect (m : MessageSingleDownloader) (t : Thread SingleDownloader) :
    briefing { t with self := m.effect t.self } = (briefing t).hear m := by
  cases m <;> rfl

/-- A message that was received is heard. -/
def HearStep (x : Briefing) : (c : Wire ⊕ DownloaderCmd) → Ans DownloaderCmd.Ans c → Briefing → Prop
  | .inr .tryRecv, .value m, x' => x' = x.hear m
  | _, _, x' => x' = x

/-- Surroundings that keep what the thread was told; they admit a command only from a thread that goes
    by it. -/
def briefedEnv : DlEnv Briefing where
  ok x t _ := briefing t = x
  step x _ c a x' := HearStep x c a x'

def Briefed (t : Thread SingleDownloader) (x : Briefing) : Prop := briefing t = x

/-! ## 2. The life of a downloader -/

/-- All commands but `try_recv` on the first channel. -/
def noMessage (c : Wire ⊕ DownloaderCmd) : Prop := c ≠ .inr .tryRecv

theorem hearStep_noMessage {c : Wire ⊕ DownloaderCmd} {a : Ans DownloaderCmd.Ans c} {x x' : Briefing}
    (hc : noMessage c) (h : HearStep x c a x') : x' = x := by
  unfold HearStep at h
  split at h
  · exact absurd rfl hc
  · exact h

/-- Methods that leave the user and the config alone, and receive no message. -/
theorem briefed_of_steady {α V : Type} {P : Wire ⊕ DownloaderCmd → Prop}
    {r : Thread SingleDownloader → V} {m : Dl α} (h : Steady P r m) (hP : ∀ c, P c → noMessage c)
    (g : V → Briefing) (hg : ∀ t, g (r t) = briefing t) : Maintains briefedEnv Briefed m := by
  refine maintains_of_steady (h.map g) (fun t t' x hr hb => ?_) (fun _ _ _ hb _ => hb)
    fun t x c a x' hb hc hs => ?_
  · rw [hg, hg] at hr
    exact hr.trans hb
  · rw [hearStep_noMessage (hP c hc) hs]
    exact hb

theorem noMessage_of_own {P : DownloaderCmd → Prop} (h : ¬ P .tryRecv) : ∀ c, own P c → noMessage c := by
  intro c hc he
  rw [he] at hc
  exact h hc

theorem noMessage_of_wireAnd {P : DownloaderCmd → Prop} (h : ¬ P .tryRecv) :
    ∀ c, wireAnd P c → noMessage c := by
  intro c hc he
  rw [he] at hc
  exact h hc

theorem briefed_of_local {α : Type} {P : DownloaderCmd → Prop} {m : Dl α} (h : Local P m)
    (hP : ¬ P .tryRecv) : Maintains briefedEnv Briefed m :=
  briefed_of_steady h (noMessage_of_own hP) (fun v => ⟨v.2.1.sharedUser, v.2.1.config⟩) fun _ => rfl

theorem briefed_of_controlled {P : DownloaderCmd → Prop} {m : Dl Unit}
    (h : Steady (own P) controlled m) (hP : ¬ P .tryRecv) : Maintains briefedEnv Briefed m :=
  briefed_of_steady h (noMessage_of_own hP) (fun v => ⟨v.1.sharedUser, v.1.config⟩) fun _ => rfl

theorem briefed_of_self {α : Type} {P : DownloaderCmd → Prop} {m : Dl α}
    (h : Steady (wireAnd P) Thread.self m) (hP : ¬ P .tryRecv) : Maintains briefedEnv Briefed m :=
  briefed_of_steady h (noMessage_of_wireAnd hP) (fun d => ⟨d.sharedUser, d.config⟩) fun _ => rfl

/-- **A message**, which has been heard. -/
theorem briefed_receive (m : MessageSingleDownloader) {t : Thread SingleDownloader} {x : Briefing}
    (h : Briefed t x) :
    wp briefedEnv (receive m) (fun _ => Briefed) (fun _ => Briefed) t (x.hear m) := by
  rw [receive_eq]
  refine (wp_bind _ _).mpr ((wp_modifySelf _).mpr ?_)
  refine briefed_of_local (local_follow m) (fun hc => ?_) _ _ ?_
  · rcases hc with hc | hc
    · exact hc
    · exact hc.1
  · exact (briefing_effect m t).trans (congrArg (fun x : Briefing => x.hear m) h)

theorem briefed_readReceiver : ∀ fuel : Nat, Maintains briefedEnv Briefed (readReceiver fuel)
  | 0 => maintains_throw _
  | fuel + 1 => by
    refine maintains_bind (maintains_bind ?_ fun a => ?_) fun _ => ?_
    · exact briefed_of_local (local_command (P := fun c => c = .revTryRecv) rfl) nofun
    · cases a with
      | value enc => exact maintains_modify fun _ _ h => h
      | empty => exact maintains_pure ()
      | disconnected => exact maintains_throw _
    · intro t x h
      refine ⟨h, fun a x' hs => ?_⟩
      cases a with
      | value m =>
        rw [show x' = x.hear m from hs]
        exact wp_seq (m := receive m) (briefed_receive m h)
          (fun _ t' x' h' => briefed_readReceiver fuel t' x' h') fun _ _ _ h' => h'
      | empty =>
        rw [show x' = x from hs]
        exact h
      | disconnected =>
        rw [show x' = x from hs]
        exact h

section Parts

variable [Crates]

theorem sessionParts_briefed : SessionParts briefedEnv Briefed fun _ => True where
  transfer t α m ht hm := briefed_of_local hm fun hc => by
    rcases hc with hc | hc | hc
    · exact hc
    · cases hc
    · cases hc
  inner _ _ _ _ _ := trivial
  bookkeeping :=
    { plain := fun α m hm => briefed_of_local hm id
      finished := briefed_of_controlled steady_setActiveDownloadFinished id }
  receiver := briefed_readReceiver
  read := briefed_of_self (P := fun _ => False) steady_read id
  request payload := maintains_working (briefed_of_self (P := fun _ => False) (steady_write _ _) id)
    ((keeps_write (P := fun _ => True) _ _).map fun d : SingleDownloader => d.stopDownloading)
  everything fuel forceDownload := maintains_working
    (briefed_of_self (steady_setEverythingFile fuel forceDownload) id)
    ((keeps_setEverythingFile fuel forceDownload).map fun d => d.stopDownloading)
  listing nickname := briefed_of_local (local_command (P := fun c => c = .refreshGet nickname) rfl) nofun

theorem threadParts_briefed : ThreadParts briefedEnv Briefed Briefed Briefed fun _ => True where
  session := sessionParts_briefed
  ended _ _ h := h
  polled _ _ h := h
  poll := briefed_readReceiver
  resume _ _ h := h
  outside _ _ hm := briefed_of_local hm id
  waiting _ _ hm := briefed_of_local hm id
  start := briefed_of_controlled steady_initializeDownloadQueue nofun
  take t x h := by
    have htake : Maintains briefedEnv Briefed takeStream :=
      briefed_of_steady steady_takeStream (noMessage_of_own id) (fun d => ⟨d.sharedUser, d.config⟩)
        fun _ => rfl
    have hstop := wp_keeps (keeps_takeStream.map fun d => d.stopDownloading) (htake t x h.1)
    refine wp_conseq hstop (fun taken t' x' h' => ?_) fun _ _ _ h' => h'.1
    split
    · exact ⟨h'.1, h'.2.trans h.2⟩
    · exact h'.1
  root _ _ _ _ := trivial

/-- **A downloader goes by what it was told last**, at every command. -/
theorem briefed_runThread (fuel n : Nat) : Maintains briefedEnv Briefed (runThread fuel n) :=
  threadParts_briefed.runThread fuel n

end Parts

end Transmitic
