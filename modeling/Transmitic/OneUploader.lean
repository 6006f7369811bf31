/-
  File:      Transmitic/OneUploader.lean
  Subject:   ONE REVERSE UPLOADER PER USER (incoming_uploader.rs, `single_uploaders_rev`).

  The manager has no other sign of the end of a thread than a send to it that fails: its receiver is
  gone. Each pass sends to all threads first, and starts one for every user whose sender is not there.

  * `SinceReset` -- the threads that were started since the last reset, and the users who are owed one;
  * `Tracked`, `Running` -- what the manager has in `single_uploaders_rev`;
  * `Due` -- in the middle of a pass, who has still to be looked at;
  * `managerThread_served` -- **when the manager next looks into its channel nobody is owed a thread**
    but those the `Local` filter skips;
  * `one_reverse_uploader` -- the same in every run of the manager and its threads.
-/
import Transmitic.RevocationRuns
import Transmitic.SharingMode
import Transmitic.TransmiticCore

namespace Transmitic

open Lib

/-! ## 1. Since the last reset -/

@[ext] structure SinceReset where
  /-- The threads that were started for users. -/
  spawned : List (Str × Nat)
  /-- The users whose sender was removed, and who got no thread since. -/
  owed : List Str
  /-- `run` has failed, and the manager has told itself to stop sharing. -/
  broken : Bool

def SinceReset.new : SinceReset := { spawned := [], owed := [], broken := false }

/-- For each message it receives the manager calls `reset_connections`. -/
def SinceReset.after (since : SinceReset) : (c : ManagerCmd) → c.Ans → SinceReset
  | .tryRecv, .value _ => .new
  | .dropSender i, _ =>
    { since with owed := (since.spawned.filter fun entry => entry.2 = i).map Prod.fst ++ since.owed }
  | .spawn i (some sharedUser) _ _, _ =>
    { since with
      spawned := (sharedUser.nickname, i) :: since.spawned
      owed := since.owed.filter fun nickname => nickname ≠ sharedUser.nickname }
  | .postSelf _, _ => { since with broken := true }
  | _, _ => since

namespace UploaderManager

/-- The `Local` filter skips this user. -/
def Skips (m : UploaderManager) (sharedUser : SharedUser) : Prop :=
  m.sharingState = .local ∧ isLoopback sharedUser.ip = false

/-- Who is owed a thread is skipped. -/
def Served (m : UploaderManager) (since : SinceReset) : Prop :=
  ∀ nickname ∈ since.owed, ∀ user ∈ m.config.configFile.sharedUsers,
    user.nickname = nickname → m.Skips user

/-! ## 2. What the manager has seen -/

structure PassView where
  since : SinceReset
  /-- The threads a send to which has failed. -/
  failed : List Nat
  /-- So many channels were made. -/
  made : Nat

/-- What is started since the last reset is in `single_uploaders_rev`, or a send to it has failed. -/
structure Tracked (m : UploaderManager) (w : PassView) : Prop where
  covered : ∀ entry ∈ w.since.spawned, entry.2 ∈ w.failed ∨ entry ∈ m.singleUploadersRev
  distinct : (m.singleUploadersRev.map Prod.fst).Nodup
  named : ∀ entry ∈ w.since.spawned, ∃ user ∈ m.config.configFile.sharedUsers, user.nickname = entry.1
  owing : ∀ nickname ∈ w.since.owed, ∃ i, (nickname, i) ∈ w.since.spawned

def PassStep (w : PassView) : (c : ManagerCmd) → c.Ans → PassView → Prop
  | .tryRecv, .value _, w' => w' = { w with since := .new }
  | .tryRecv, .empty, w' => w.since.broken = false ∧ w' = w
  | .tryRecv, .disconnected, _ => False
  | .send i _, (sent : Bool), w' => w' = if sent then w else { w with failed := i :: w.failed }
  | .dropSender i, a, w' => w' = { w with since := w.since.after (.dropSender i) a }
  | .newChannel, (i : Nat), w' => i = w.made ∧ w' = { w with made := w.made + 1 }
  | .spawn i user list config, a, w' =>
    w' = { w with since := w.since.after (.spawn i user list config) a }
  | .postSelf message, a, w' => w' = { w with since := w.since.after (.postSelf message) a }
  | _, _, w' => w' = w

/-- Where the manager looks into its channel, and `run` has not failed, nobody is owed a thread. -/
def passEnv : Env UploaderManager ManagerCmd ManagerCmd.Ans PassView where
  ok w m c := Tracked m w ∧ (c = .tryRecv → w.since.broken = false → Served m w.since)
  step w _ c a w' := PassStep w c a w'

/-- Between two commands that are not of a reset. -/
structure Running (m : UploaderManager) (w : PassView) : Prop extends Tracked m w where
  once : (w.since.spawned.map Prod.snd).Nodup
  made : ∀ entry ∈ w.since.spawned, entry.2 < w.made
  current : ∀ entry ∈ m.singleUploadersRev, entry ∈ w.since.spawned
  reverses : m.config.configFile.reverseConnection = true → m.singleUploaders = []
  listens : m.config.configFile.reverseConnection = false → w.since.spawned = []

/-- Between two passes. -/
structure Resting (m : UploaderManager) (w : PassView) : Prop extends Running m w where
  served : w.since.broken = false → Served m w.since

/-- In a pass, with the users still to come: who is owed a thread has no sender, and will be looked at. -/
def Due (remaining : List SharedUser) (m : UploaderManager) (w : PassView) : Prop :=
  w.since.broken = false → ∀ nickname ∈ w.since.owed, ∀ user ∈ m.config.configFile.sharedUsers,
    user.nickname = nickname →
      m.Skips user ∨ user ∈ remaining ∧ nickname ∉ m.singleUploadersRev.map Prod.fst

section Views

variable {α : Type} {m m' : UploaderManager} {w w' : PassView} {i : Nat}

theorem ok_other {c : ManagerCmd} (h : Tracked m w) (hc : c ≠ .tryRecv) : passEnv.ok w m c :=
  ⟨h, fun he => absurd he hc⟩

/-- Where no thread was started for a user, a sender that goes leaves nobody owed one. -/
theorem dropSender_none {since : SinceReset} (h : since.spawned = []) :
    since.after (.dropSender i) () = since := by
  obtain ⟨spawned, owed, broken⟩ := since
  obtain rfl : spawned = [] := h
  rfl

theorem since_passStep {c : ManagerCmd} {a : c.Ans} (h : PassStep w c a w') :
    w'.since = w.since.after c a := by
  cases c with
  | tryRecv =>
    cases a with
    | value message =>
      rw [show w' = _ from h]
      rfl
    | empty =>
      rw [h.2]
      rfl
    | disconnected => exact h.elim
  | send i message =>
    rw [show w' = _ from h]
    split <;> rfl
  | newChannel =>
    rw [h.2]
    rfl
  | _ =>
    obtain rfl : w' = _ := h
    rfl

/-- Where no thread was started for a user, nobody is owed one. -/
theorem Tracked.nobody (h : Tracked m w) (hnone : w.since.spawned = []) : w.since.owed = [] := by
  refine List.eq_nil_iff_forall_not_mem.mpr fun nickname hn => ?_
  obtain ⟨i, hi⟩ := h.owing nickname hn
  rw [hnone] at hi
  cases hi

theorem Tracked.fail (h : Tracked m w) (i : Nat) : Tracked m { w with failed := i :: w.failed } :=
  ⟨fun entry hentry => (h.covered entry hentry).imp_left (List.mem_cons_of_mem i), h.distinct, h.named,
    h.owing⟩

theorem Tracked.drop (h : Tracked m w) (i : Nat) :
    Tracked m { w with since := w.since.after (.dropSender i) () } := by
  refine ⟨h.covered, h.distinct, h.named, fun nickname hn => ?_⟩
  rcases List.mem_append.mp hn with hn | hn
  · obtain ⟨entry, hentry, rfl⟩ := List.mem_map.mp hn
    exact ⟨entry.2, (List.mem_filter.mp hentry).1⟩
  · exact h.owing nickname hn

/-! ## 3. Messages to the uploaders -/

/-- Of the senders to `uploaders`, `kept` are left; a send to each of the others has failed. -/
structure Pruned (w : PassView) (uploaders kept : List (Str × Nat)) (w' : PassView) : Prop where
  spawned : w'.since.spawned = w.since.spawned
  broken : w'.since.broken = w.since.broken
  made : w'.made = w.made
  sublist : kept.Sublist uploaders
  gone : ∀ entry ∈ uploaders, entry ∈ kept ∨ entry.2 ∈ w'.failed
  failed : ∀ i ∈ w.failed, i ∈ w'.failed
  owed : ∀ nickname ∈ w'.since.owed, nickname ∈ w.since.owed ∨
    ∃ entry ∈ uploaders, entry.1 ∉ kept.map Prod.fst ∧ (nickname, entry.2) ∈ w.since.spawned

variable {uploaders kept : List (Str × Nat)} {entry : Str × Nat}

theorem Pruned.nil (w : PassView) : Pruned w [] [] w :=
  ⟨rfl, rfl, rfl, List.Sublist.refl _, fun _ he => absurd he List.not_mem_nil, fun _ hi => hi,
    fun _ hn => .inl hn⟩

theorem Pruned.sent (h : Pruned w uploaders kept w') (hnot : entry.1 ∉ uploaders.map Prod.fst) :
    Pruned w (entry :: uploaders) (entry :: kept) w' := by
  refine ⟨h.spawned, h.broken, h.made, h.sublist.cons_cons entry, fun e he => ?_, h.failed,
    fun n hn => ?_⟩
  · rcases List.mem_cons.mp he with rfl | he
    · exact .inl List.mem_cons_self
    · exact (h.gone e he).imp_left (List.mem_cons_of_mem entry)
  · refine (h.owed n hn).imp_right fun howed => ?_
    obtain ⟨e, he, hkept, hspawned⟩ := howed
    refine ⟨e, List.mem_cons_of_mem entry he, ?_, hspawned⟩
    have hne : e.1 ≠ entry.1 := fun heq => hnot (heq ▸ List.mem_map_of_mem he)
    simp only [List.map_cons, List.mem_cons, not_or]
    exact ⟨hne, hkept⟩

/-- A send fails, and the sender is dropped. -/
def PassView.failing (w : PassView) (i : Nat) : PassView :=
  { w with failed := i :: w.failed, since := w.since.after (.dropSender i) () }

theorem Tracked.failing (h : Tracked m w) (i : Nat) : Tracked m (w.failing i) := (h.fail i).drop i

theorem Pruned.dropped (h : Pruned (w.failing entry.2) uploaders kept w')
    (hnot : entry.1 ∉ uploaders.map Prod.fst) : Pruned w (entry :: uploaders) kept w' := by
  have hkeys : entry.1 ∉ kept.map Prod.fst := fun hmem => hnot ((h.sublist.map Prod.fst).subset hmem)
  refine ⟨h.spawned, h.broken, h.made, h.sublist.cons entry, fun e he => ?_, fun i hi => ?_,
    fun n hn => ?_⟩
  · rcases List.mem_cons.mp he with rfl | he
    · exact .inr (h.failed _ List.mem_cons_self)
    · exact h.gone e he
  · exact h.failed i (List.mem_cons_of_mem _ hi)
  · rcases h.owed n hn with howed | ⟨e, he, hkept, hspawned⟩
    · rcases List.mem_append.mp howed with hmem | howed
      · obtain ⟨e, he, rfl⟩ := List.mem_map.mp hmem
        obtain ⟨hspawned, hthread⟩ := List.mem_filter.mp he
        have hthread : e.2 = entry.2 := of_decide_eq_true hthread
        exact .inr ⟨entry, List.mem_cons_self, hkeys, hthread ▸ hspawned⟩
      · exact .inl howed
    · exact .inr ⟨e, List.mem_cons_of_mem entry he, hkept, hspawned⟩

theorem sendToUploadersRev_prunes (message : MessageSingleUploader) : ∀ (uploaders : List (Str × Nat))
    {m : UploaderManager} {w : PassView}, Tracked m w → (uploaders.map Prod.fst).Nodup →
    wp passEnv (sendToUploadersRev message uploaders)
      (fun kept m' w' => m' = m ∧ Tracked m w' ∧ Pruned w uploaders kept w') (fun _ _ _ => False) m w
  | [], m, w, h, _ => ⟨rfl, h, Pruned.nil w⟩
  | (nickname, uploader) :: uploaders, m, w, h, hnodup => by
    obtain ⟨hnot, hnodup⟩ := List.nodup_cons.mp hnodup
    refine (wp_bind _ _).mpr ⟨ok_other h (by simp), fun (sent : Bool) w₁ hs => ?_⟩
    obtain rfl : w₁ = _ := hs
    cases sent with
    | true =>
      refine wp_seq (sendToUploadersRev_prunes message uploaders h hnodup) (fun kept m' w' h' => ?_)
        fun _ _ _ h' => h'
      obtain ⟨hm, htracked, hpruned⟩ := h'
      exact ⟨hm, htracked, hpruned.sent hnot⟩
    | false =>
      have hfail := h.fail uploader
      refine (wp_bind _ _).mpr ⟨ok_other hfail (by simp), fun _ w₂ hs => ?_⟩
      obtain rfl : w₂ = w.failing uploader := hs
      refine wp_conseq (m := sendToUploadersRev message uploaders)
        (sendToUploadersRev_prunes message uploaders (h.failing uploader) hnodup)
        (fun kept m' w' h' => ?_) fun _ _ _ h' => h'
      obtain ⟨hm, htracked, hpruned⟩ := h'
      exact ⟨hm, htracked, hpruned.dropped hnot⟩

/-- What a message to all leaves where no thread was started for a user. -/
structure Undisturbed (w w' : PassView) : Prop where
  since : w'.since = w.since
  made : w'.made = w.made

theorem sendToUploaders_tells (message : MessageSingleUploader) : ∀ (uploaders : List Nat)
    {m : UploaderManager} {w : PassView}, Tracked m w → w.since.spawned = [] →
    wp passEnv (sendToUploaders message uploaders)
      (fun _ m' w' => m' = m ∧ Tracked m w' ∧ Undisturbed w w') (fun _ _ _ => False) m w
  | [], m, w, h, _ => ⟨rfl, h, rfl, rfl⟩
  | uploader :: uploaders, m, w, h, hnone => by
    refine (wp_bind _ _).mpr ⟨ok_other h (by simp), fun (sent : Bool) w₁ hs => ?_⟩
    obtain rfl : w₁ = _ := hs
    cases sent with
    | true =>
      exact wp_seq (sendToUploaders_tells message uploaders h hnone) (fun _ _ _ h' => h')
        fun _ _ _ h' => h'
    | false =>
      have hfail := h.fail uploader
      refine (wp_bind _ _).mpr ⟨ok_other hfail (by simp), fun _ w₂ hs => ?_⟩
      obtain rfl : w₂ = w.failing uploader := hs
      refine wp_conseq (m := sendToUploaders message uploaders)
        (sendToUploaders_tells message uploaders (h.failing uploader) hnone) (fun _ m' w' h' => ?_)
        fun _ _ _ h' => h'
      obtain ⟨hm, htracked, htold⟩ := h'
      exact ⟨hm, htracked, htold.since.trans (dropSender_none hnone), htold.made⟩

theorem dropSenders_tells : ∀ (uploaders : List Nat) {m : UploaderManager} {w : PassView}, Tracked m w →
    w.since.spawned = [] → wp passEnv (dropSenders uploaders) (fun _ m' w' => m' = m ∧ w' = w)
      (fun _ _ _ => False) m w
  | [], _, _, _, _ => ⟨rfl, rfl⟩
  | uploader :: uploaders, m, w, h, hnone => by
    refine (wp_bind _ _).mpr ⟨ok_other h (by simp), fun _ w₁ hs => ?_⟩
    have hw : w₁ = { w with since := w.since.after (.dropSender uploader) () } := hs
    rw [dropSender_none hnone] at hw
    obtain rfl : w₁ = w := hw
    exact dropSenders_tells uploaders h hnone

/-- **A message to all** where no thread was started for a user. -/
theorem sendMessageToAllUploaders_tells (message : MessageSingleUploader) (h : Tracked m w)
    (hnone : w.since.spawned = []) : wp passEnv (sendMessageToAllUploaders message)
      (fun _ m' w' => mode m' = mode m ∧ Tracked m' w' ∧ Undisturbed w w' ∧
        m'.singleUploadersRev.Sublist m.singleUploadersRev) (fun _ _ _ => False) m w := by
  refine wp_seq (m := sendToUploaders message m.singleUploaders)
    (sendToUploaders_tells message m.singleUploaders h hnone) (fun kept m₁ w₁ h₁ => ?_) fun _ _ _ h' => h'
  obtain ⟨rfl, htracked, htold⟩ := h₁
  have hnone₁ : w₁.since.spawned = [] := htold.since ▸ hnone
  have htracked₁ : Tracked { m₁ with singleUploaders := kept } w₁ :=
    ⟨htracked.covered, htracked.distinct, htracked.named, htracked.owing⟩
  refine wp_seq (m := sendToUploadersRev message m₁.singleUploadersRev)
    (sendToUploadersRev_prunes message m₁.singleUploadersRev htracked₁ h.distinct)
    (fun keptRev m₂ w₂ h₂ => ?_) fun _ _ _ h' => h'
  obtain ⟨rfl, htracked₂, hpruned⟩ := h₂
  have hnone₂ : w₂.since.spawned = [] := hpruned.spawned.trans hnone₁
  refine ⟨rfl, ⟨?_, h.distinct.sublist (hpruned.sublist.map Prod.fst), ?_, htracked₂.owing⟩, ⟨?_, ?_⟩,
    hpruned.sublist⟩
  · rw [hnone₂]
    exact fun _ he => absurd he List.not_mem_nil
  · rw [hnone₂]
    exact fun _ he => absurd he List.not_mem_nil
  · refine Eq.trans (SinceReset.ext hpruned.spawned ?_ hpruned.broken) htold.since
    rw [htracked₂.nobody hnone₂, htracked₁.nobody hnone₁]
  · exact hpruned.made.trans htold.made

/-- **Dead senders are removed** in reverse mode: who is owed a thread then has no sender. -/
theorem removeDeadUploaders_due (h : Resting m w) (hmode : m.config.configFile.reverseConnection = true) :
    wp passEnv removeDeadUploaders (fun _ m' w' => mode m' = mode m ∧ Running m' w' ∧
      Due m.config.configFile.sharedUsers m' w') (fun _ _ _ => False) m w := by
  unfold removeDeadUploaders sendMessageToAllUploaders
  rw [wp_bind, wp_get, h.reverses hmode]
  show wp passEnv (sendToUploadersRev .doNothing m.singleUploadersRev >>= _) _ _
    { m with singleUploaders := [] } w
  have htracked : Tracked { m with singleUploaders := [] } w := ⟨h.covered, h.distinct, h.named, h.owing⟩
  refine wp_seq (sendToUploadersRev_prunes .doNothing m.singleUploadersRev htracked h.distinct)
    (fun kept m₁ w₁ h₁ => ?_) fun _ _ _ h' => h'
  obtain ⟨rfl, htracked₁, hpruned⟩ := h₁
  refine ⟨rfl, ⟨⟨fun entry hentry => ?_, h.distinct.sublist (hpruned.sublist.map Prod.fst),
    htracked₁.named, htracked₁.owing⟩, ?_, ?_, ?_, fun _ => rfl, ?_⟩,
    fun hgoes nickname hn user huser hnick => ?_⟩
  · rw [hpruned.spawned] at hentry
    rcases h.covered entry hentry with hfailed | hmem
    · exact .inl (hpruned.failed _ hfailed)
    · exact (hpruned.gone entry hmem).symm
  · rw [hpruned.spawned]
    exact h.once
  · rw [hpruned.spawned, hpruned.made]
    exact h.made
  · rw [hpruned.spawned]
    exact fun entry hentry => h.current entry (hpruned.sublist.subset hentry)
  · rw [hpruned.spawned]
    exact h.listens
  · rcases hpruned.owed nickname hn with howed | ⟨entry, hentry, hkept, hspawned⟩
    · exact .inl (h.served (hpruned.broken ▸ hgoes) nickname howed user huser hnick)
    · -- a thread has one nickname
      have hsame : (nickname, entry.2) = entry :=
        List.inj_on_of_nodup_map h.once hspawned (h.current entry hentry) rfl
      have hname : nickname = entry.1 := congrArg Prod.fst hsame
      exact .inr ⟨huser, hname ▸ hkept⟩

/-! ## 4. A pass -/

/-- Commands that have to do with no thread and drain nothing. -/
def aloof : ManagerCmd → Prop
  | .log => True
  | .sleep _ => True
  | .bind _ => True
  | .accept _ => True
  | .appError _ => True
  | _ => False

/-- Nothing but such commands. -/
theorem wp_aloof {method : Mgr α} (hs : Steady aloof id method) (h : Tracked m w) :
    wp passEnv method (fun _ m' w' => m' = m ∧ w' = w) (fun _ m' w' => m' = m ∧ w' = w) m w := by
  refine maintains_of_steady (I := fun m' w' => m' = m ∧ w' = w) hs
    (fun s s' w' he hi => ⟨he.trans hi.1, hi.2⟩) (fun s w' c hi hc => ?_)
    (fun s w' c a w'' hi hc hstep => ?_) m w ⟨rfl, rfl⟩
  · obtain ⟨rfl, rfl⟩ := hi
    refine ok_other h fun he => ?_
    subst he
    exact hc.elim
  · refine ⟨hi.1, Eq.trans ?_ hi.2⟩
    cases c with
    | log => exact hstep
    | sleep => exact hstep
    | bind => exact hstep
    | accept => exact hstep
    | appError => exact hstep
    | _ => exact hc.elim

/-- A log, and what is done if it succeeds. -/
theorem running_log {f : Unit → Mgr α} {Q : α → UploaderManager → PassView → Prop} (h : Running m w)
    (hf : wp passEnv (f ()) Q (fun _ => Running) m w) :
    wp passEnv (log >>= f) Q (fun _ => Running) m w := by
  refine wp_seq (wp_aloof (steady_log trivial) h.toTracked) (fun _ m' w' h' => ?_) fun _ m' w' h' => ?_
  · obtain ⟨rfl, rfl⟩ := h'
    exact hf
  · obtain ⟨rfl, rfl⟩ := h'
    exact h

/-- A thread is started for a user who has no sender. -/
theorem Running.start {sharedUser : SharedUser} (h : Running m w)
    (hmode : m.config.configFile.reverseConnection = true)
    (huser : sharedUser ∈ m.config.configFile.sharedUsers)
    (hnone : sharedUser.nickname ∉ m.singleUploadersRev.map Prod.fst) :
    Running { m with singleUploadersRev := (sharedUser.nickname, w.made) :: m.singleUploadersRev }
      { w with
        since := w.since.after (.spawn w.made (some sharedUser) m.reverseFileListCache m.config) ()
        made := w.made + 1 } := by
  have hfresh : w.made ∉ w.since.spawned.map Prod.snd := by
    intro hmem
    obtain ⟨entry, hentry, he⟩ := List.mem_map.mp hmem
    exact absurd (h.made entry hentry) (he ▸ lt_irrefl _)
  refine ⟨⟨fun entry hentry => ?_, List.nodup_cons.mpr ⟨hnone, h.distinct⟩, fun entry hentry => ?_,
    fun nickname hn => ?_⟩, List.nodup_cons.mpr ⟨hfresh, h.once⟩, fun entry hentry => ?_,
    fun entry hentry => ?_, h.reverses, fun hlistens => ?_⟩
  · rcases List.mem_cons.mp hentry with rfl | hentry
    · exact .inr List.mem_cons_self
    · exact (h.covered entry hentry).imp_right (List.mem_cons_of_mem _)
  · rcases List.mem_cons.mp hentry with rfl | hentry
    · exact ⟨sharedUser, huser, rfl⟩
    · exact h.named entry hentry
  · obtain ⟨i, hi⟩ := h.owing nickname (List.mem_filter.mp hn).1
    exact ⟨i, List.mem_cons_of_mem _ hi⟩
  · rcases List.mem_cons.mp hentry with rfl | hentry
    · exact Nat.lt_succ_self _
    · exact Nat.lt_succ_of_lt (h.made entry hentry)
  · rcases List.mem_cons.mp hentry with rfl | hentry
    · exact List.mem_cons_self
    · exact List.mem_cons_of_mem _ (h.current entry hentry)
  · rw [show m.config.configFile.reverseConnection = false from hlistens] at hmode
    cases hmode

/-- **One user of a pass** is looked at. -/
theorem startReverse_due {sharedUser : SharedUser} {remaining : List SharedUser} (h : Running m w)
    (hdue : Due (sharedUser :: remaining) m w) (hmode : m.config.configFile.reverseConnection = true)
    (huser : sharedUser ∈ m.config.configFile.sharedUsers) :
    wp passEnv (startReverse sharedUser) (fun _ m' w' => mode m' = mode m ∧ Running m' w' ∧
      Due remaining m' w') (fun _ => Running) m w := by
  show wp passEnv (if _ then _ else if _ then _ else _) _ _ m w
  rw [wp_ite]
  split
  · rename_i hsome
    refine ⟨rfl, h, fun hgoes nickname hn user hmem hnick => ?_⟩
    refine (hdue hgoes nickname hn user hmem hnick).imp_right fun hremaining => ⟨?_, hremaining.2⟩
    rcases List.mem_cons.mp hremaining.1 with rfl | hrest
    · -- a connection is in progress, so it is not he who is owed one
      obtain ⟨entry, hentry, he⟩ := List.lookup_isSome_iff.mp hsome
      have hkey : entry.1 = nickname := (beq_iff_eq.mp he).symm.trans hnick
      exact absurd (List.mem_map.mpr ⟨entry, hentry, hkey⟩) hremaining.2
    · exact hrest
  rename_i hlookup
  rw [wp_ite]
  split
  · rename_i hlocal
    refine ⟨rfl, h, fun hgoes nickname hn user hmem hnick => ?_⟩
    rcases hdue hgoes nickname hn user hmem hnick with hskips | ⟨hremaining, hkey⟩
    · exact .inl hskips
    · rcases List.mem_cons.mp hremaining with rfl | hrest
      · exact .inl ⟨hlocal.1, by simpa using hlocal.2⟩
      · exact .inr ⟨hrest, hkey⟩
  have hnone : sharedUser.nickname ∉ m.singleUploadersRev.map Prod.fst := by
    intro hmem
    obtain ⟨entry, hentry, he⟩ := List.mem_map.mp hmem
    exact hlookup (List.lookup_isSome_iff.mpr ⟨entry, hentry, beq_iff_eq.mpr he.symm⟩)
  refine running_log h ?_
  refine (wp_bind _ _).mpr ⟨ok_other h.toTracked (by simp), fun thread w₁ hs => ?_⟩
  obtain ⟨rfl, rfl⟩ := hs
  have hadded : Tracked
      { m with singleUploadersRev := (sharedUser.nickname, w.made) :: m.singleUploadersRev }
      { w with made := w.made + 1 } :=
    ⟨fun entry hentry => (h.covered entry hentry).imp_right (List.mem_cons_of_mem _),
      List.nodup_cons.mpr ⟨hnone, h.distinct⟩, h.named, h.owing⟩
  refine (wp_bind _ _).mpr ((wp_modify _).mpr ⟨ok_other hadded (by simp), fun _ w₂ hs => ?_⟩)
  obtain rfl : w₂ = _ := hs
  refine ⟨rfl, h.start hmode huser hnone, fun hgoes nickname hn user hmem hnick => ?_⟩
  obtain ⟨howed, hne⟩ := List.mem_filter.mp hn
  have hne : nickname ≠ sharedUser.nickname := of_decide_eq_true hne
  refine (hdue hgoes nickname howed user hmem hnick).imp_right fun hremaining => ⟨?_, ?_⟩
  · rcases List.mem_cons.mp hremaining.1 with rfl | hrest
    · exact absurd hnick.symm hne
    · exact hrest
  · exact fun hkey => (List.mem_cons.mp hkey).elim hne hremaining.2

/-- **A pass over the users**: nobody is left. -/
theorem startReverseAll_due : ∀ {remaining : List SharedUser} {m : UploaderManager} {w : PassView},
    Running m w → Due remaining m w → m.config.configFile.reverseConnection = true →
    (∀ user ∈ remaining, user ∈ m.config.configFile.sharedUsers) →
    wp passEnv (startReverseAll remaining)
      (fun _ m' w' => mode m' = mode m ∧ Running m' w' ∧ Due [] m' w') (fun _ => Running) m w
  | [], _, _, h, hdue, _, _ => ⟨rfl, h, hdue⟩
  | user :: remaining, m, w, h, hdue, hmode, husers => by
    refine wp_seq (startReverse_due h hdue hmode (husers user List.mem_cons_self)) (fun _ m₁ w₁ h₁ => ?_)
      fun _ _ _ h' => h'
    obtain ⟨hsame, h₁, hdue₁⟩ := h₁
    have hconfig : m₁.config = m.config := congrArg Prod.fst hsame
    refine wp_conseq (m := startReverseAll remaining) (startReverseAll_due h₁ hdue₁ (hconfig ▸ hmode)
      fun u hu => hconfig ▸ husers u (List.mem_cons_of_mem user hu)) (fun _ m₂ w₂ h₂ => ?_)
      fun _ _ _ h' => h'
    exact ⟨h₂.1.trans hsame, h₂.2⟩

theorem Running.rest (h : Running m w) (hdue : Due [] m w) : Resting m w := by
  refine ⟨h, fun hgoes nickname hn user huser hnick => ?_⟩
  rcases hdue hgoes nickname hn user huser hnick with hskips | ⟨hmem, -⟩
  · exact hskips
  · cases hmem

/-! ## 5. The drain -/

/-- **A reset** leaves nothing behind. -/
theorem resetConnections_rests (h : Tracked m w) (hnew : w.since = .new) :
    wp passEnv resetConnections (fun _ m' w' => Resting m' w' ∧ m'.stopIncoming = true)
      (fun _ _ _ => False) m w := by
  have hnone : ∀ {w : PassView}, w.since = .new → w.since.spawned = [] := fun hw => by rw [hw]; rfl
  have h₀ : Tracked { m with stopIncoming := true } w := ⟨h.covered, h.distinct, h.named, h.owing⟩
  refine (wp_bind _ _).mpr ((wp_modify _).mpr ?_)
  refine wp_seq (sendMessageToAllUploaders_tells .shutdownConn h₀ (hnone hnew)) (fun _ m₁ w₁ h₁ => ?_)
    fun _ _ _ h' => h'
  obtain ⟨hsame, htracked₁, htold, -⟩ := h₁
  have hnew₁ : w₁.since = .new := htold.since.trans hnew
  refine (wp_bind _ _).mpr ((wp_get).mpr ?_)
  refine wp_seq (dropSenders_tells m₁.singleUploaders htracked₁ (hnone hnew₁)) (fun _ m₂ w₂ h₂ => ?_)
    fun _ _ _ h' => h'
  obtain ⟨rfl, rfl⟩ := h₂
  refine wp_seq (dropSenders_tells (m₂.singleUploadersRev.map Prod.snd) htracked₁ (hnone hnew₁))
    (fun _ m₃ w₃ h₃ => ?_) fun _ _ _ h' => h'
  obtain ⟨rfl, rfl⟩ := h₃
  have hempty : ∀ {P : Str × Nat → Prop}, ∀ entry ∈ w₃.since.spawned, P entry := by
    intro P entry hentry
    rw [hnone hnew₁] at hentry
    cases hentry
  have hcleared : Tracked { m₃ with singleUploaders := [], singleUploadersRev := [] } w₃ :=
    ⟨hempty, List.nodup_nil, hempty, htracked₁.owing⟩
  refine (wp_bind _ _).mpr ((wp_modify _).mpr ((wp_bind _ _).mpr ⟨ok_other hcleared (by simp),
    fun cache w₄ hs => ?_⟩))
  obtain rfl : w₄ = w₃ := hs
  refine ⟨⟨⟨⟨hempty, List.nodup_nil, hempty, htracked₁.owing⟩, ?_, hempty, ?_, fun _ => rfl,
    fun _ => hnone hnew₁⟩, fun _ nickname hn => ?_⟩, stop_of_mode hsame⟩
  · rw [hnone hnew₁]
    exact List.nodup_nil
  · exact fun entry hentry => absurd hentry List.not_mem_nil
  · rw [hnew₁] at hn
    cases hn

theorem receive_rests (message : MessageUploadManager) (h : Tracked m w) (hnew : w.since = .new) :
    wp passEnv (receive message) (fun _ m' w' => Resting m' w' ∧ m'.stopIncoming = true)
      (fun _ _ _ => False) m w := by
  have hnone : ∀ {P : Str × Nat → Prop}, ∀ entry ∈ w.since.spawned, P entry := by
    intro P entry hentry
    rw [hnew] at hentry
    cases hentry
  cases message with
  | sharingStateMsg state =>
    have h₀ : Tracked { m with sharingState := state } w := ⟨h.covered, h.distinct, hnone, h.owing⟩
    exact resetConnections_rests h₀ hnew
  | newConfig config =>
    have h₀ : Tracked { m with config } w := ⟨h.covered, h.distinct, hnone, h.owing⟩
    exact resetConnections_rests h₀ hnew

/-- Nothing was drained, or the manager has to stop. -/
def StopsOrStays (m : UploaderManager) (w : PassView) (m' : UploaderManager) (w' : PassView) : Prop :=
  m'.stopIncoming = true ∨ m' = m ∧ w' = w

theorem readReceiver_rests : ∀ (fuel : Nat) {m : UploaderManager} {w : PassView}, Resting m w →
    wp passEnv (readReceiver fuel) (fun _ m' w' => Resting m' w' ∧ StopsOrStays m w m' w')
      (fun _ => Running) m w
  | 0, _, _, h => h.toRunning
  | fuel + 1, m, w, h => by
    refine (wp_bind _ _).mpr ⟨⟨h.toTracked, fun _ => h.served⟩, fun a w₁ hs => ?_⟩
    cases a with
    | value message =>
      obtain rfl : w₁ = { w with since := .new } := hs
      have hnew : Tracked m { w with since := .new } :=
        ⟨fun _ he => absurd he List.not_mem_nil, h.distinct, fun _ he => absurd he List.not_mem_nil,
          fun _ hn => absurd hn List.not_mem_nil⟩
      refine wp_seq (receive_rests message hnew rfl) (fun _ m₂ w₂ h₂ => ?_) fun _ _ _ h' => h'.elim
      obtain ⟨h₂, hstop⟩ := h₂
      refine wp_conseq (m := readReceiver fuel) (readReceiver_rests fuel h₂) (fun _ m₃ w₃ h₃ => ?_)
        fun _ _ _ h' => h'
      obtain ⟨h₃, hstop₃ | ⟨rfl, rfl⟩⟩ := h₃
      · exact ⟨h₃, .inl hstop₃⟩
      · exact ⟨h₃, .inl hstop⟩
    | empty =>
      obtain ⟨-, rfl⟩ := hs
      exact ⟨h, .inr ⟨rfl, rfl⟩⟩
    | disconnected => exact hs.elim

/-! ## 6. The loops -/

/-- After a wait the manager has to stop, or is where it was. -/
theorem reverseWait_rests (fuel : Nat) : ∀ (seconds : Nat) {m : UploaderManager} {w : PassView},
    Resting m w → wp passEnv (reverseWait fuel seconds)
      (fun stop m' w' => Resting m' w' ∧ (stop = true ∨ m' = m ∧ w' = w)) (fun _ => Running) m w
  | 0, m, w, h => by
    refine wp_seq (readReceiver_rests fuel h) (fun _ m₁ w₁ h₁ => ?_) fun _ _ _ h' => h'
    exact h₁
  | seconds + 1, m, w, h => by
    refine wp_seq (readReceiver_rests fuel h) (fun _ m₁ w₁ h₁ => ?_) fun _ _ _ h' => h'
    obtain ⟨h₁, hstop⟩ := h₁
    show wp passEnv (if _ then _ else _) _ _ m₁ w₁
    rw [wp_ite]
    split
    · exact ⟨h₁, .inl rfl⟩
    rename_i hgoes
    obtain ⟨rfl, rfl⟩ := hstop.resolve_left hgoes
    refine (wp_bind _ _).mpr ⟨ok_other h₁.toTracked (by simp), fun _ w₂ hs => ?_⟩
    obtain rfl : w₂ = w₁ := hs
    exact reverseWait_rests fuel seconds h₁

/-- **The passes in reverse mode.** -/
theorem reverseLoop_rests : ∀ (fuel sleep : Nat) {m : UploaderManager} {w : PassView}, Resting m w →
    m.config.configFile.reverseConnection = true →
    wp passEnv (reverseLoop fuel sleep) (fun _ => Resting) (fun _ => Running) m w
  | 0, _, _, _, h, _ => h.toRunning
  | fuel + 1, sleep, m, w, h, hmode => by
    refine running_log h.toRunning ?_
    refine wp_seq (reverseWait_rests fuel _ h) (fun stop m₁ w₁ h₁ => ?_) fun _ _ _ h' => h'
    obtain ⟨h₁, hstop⟩ := h₁
    show wp passEnv (if stop = true then _ else _) _ _ m₁ w₁
    rw [wp_ite]
    split
    · exact h₁
    rename_i hgoes
    obtain ⟨rfl, rfl⟩ := hstop.resolve_left hgoes
    refine wp_seq (removeDeadUploaders_due h₁ hmode) (fun _ m₂ w₂ h₂ => ?_) fun _ _ _ h' => h'.elim
    obtain ⟨hsame, hrunning, hdue⟩ := h₂
    have hconfig : m₂.config = m₁.config := congrArg Prod.fst hsame
    rw [← hconfig] at hdue hmode
    show wp passEnv (startReverseAll m₂.config.configFile.sharedUsers >>= fun _ => _) _ _ m₂ w₂
    refine wp_seq (startReverseAll_due hrunning hdue hmode fun _ hu => hu) (fun _ m₃ w₃ h₃ => ?_)
      fun _ _ _ h' => h'
    obtain ⟨hsame₃, hrunning₃, hdue₃⟩ := h₃
    have hconfig₃ : m₃.config = m₂.config := congrArg Prod.fst hsame₃
    exact reverseLoop_rests fuel _ (hrunning₃.rest hdue₃) (hconfig₃ ▸ hmode)

/-- Where the manager listens it has started no thread for a user. -/
theorem resting_of_none (h : Tracked m w) (hnone : w.since.spawned = []) (hrev : m.singleUploadersRev = [])
    (hmode : m.config.configFile.reverseConnection = false) : Resting m w := by
  refine ⟨⟨h, ?_, ?_, ?_, fun hreverses => ?_, fun _ => hnone⟩, fun _ nickname hn => ?_⟩
  · rw [hnone]
    exact List.nodup_nil
  · rw [hnone]
    exact fun _ he => absurd he List.not_mem_nil
  · rw [hrev]
    exact fun _ he => absurd he List.not_mem_nil
  · rw [show m.config.configFile.reverseConnection = true from hreverses] at hmode
    cases hmode
  · rw [h.nobody hnone] at hn
    cases hn

theorem startUploader_rests (h : Resting m w) (hmode : m.config.configFile.reverseConnection = false) :
    wp passEnv startUploader (fun _ m' w' => Resting m' w' ∧ m'.config = m.config)
      (fun _ => Running) m w := by
  have hnone : w.since.spawned = [] := h.listens hmode
  have hrev : m.singleUploadersRev = [] := by
    refine List.eq_nil_iff_forall_not_mem.mpr fun entry hentry => ?_
    have hmem := h.current entry hentry
    rw [hnone] at hmem
    cases hmem
  refine (wp_bind _ _).mpr ⟨ok_other h.toTracked (by simp), fun thread w₁ hs => ?_⟩
  obtain ⟨rfl, rfl⟩ := hs
  have hmade : Tracked m { w with made := w.made + 1 } := ⟨h.covered, h.distinct, h.named, h.owing⟩
  refine wp_seq (m := removeDeadUploaders) (sendMessageToAllUploaders_tells .doNothing hmade hnone)
    (fun _ m₂ w₂ h₂ => ?_) fun _ _ _ h' => h'.elim
  obtain ⟨hsame, htracked, htold, hsub⟩ := h₂
  have hnone₂ : w₂.since.spawned = [] := htold.since ▸ hnone
  rw [hrev] at hsub
  have hconfig : m₂.config = m.config := congrArg Prod.fst hsame
  have hpushed : Tracked { m₂ with singleUploaders := m₂.singleUploaders ++ [w.made] } w₂ :=
    ⟨htracked.covered, htracked.distinct, htracked.named, htracked.owing⟩
  refine (wp_bind _ _).mpr ((wp_modify _).mpr ((wp_bind _ _).mpr ((wp_get).mpr
    ⟨ok_other hpushed (by simp), fun _ w₃ hs => ?_⟩)))
  obtain rfl : w₃ = w₂ := hs
  exact ⟨resting_of_none hpushed hnone₂ (List.sublist_nil.mp hsub) (hconfig ▸ hmode), hconfig⟩

theorem acceptAll_rests (fuel : Nat) : ∀ {listeners : List Nat} {m : UploaderManager} {w : PassView},
    Resting m w → m.config.configFile.reverseConnection = false →
    wp passEnv (acceptAll fuel listeners)
      (fun stop m' w' => Resting m' w' ∧ (stop = true ∨ m'.config = m.config)) (fun _ => Running) m w
  | [], _, _, h, _ => ⟨h, .inr rfl⟩
  | listener :: listeners, m, w, h, hmode => by
    refine wp_seq (readReceiver_rests fuel h) (fun _ m₁ w₁ h₁ => ?_) fun _ _ _ h' => h'
    obtain ⟨h₁, hstop⟩ := h₁
    show wp passEnv (if _ then _ else _) _ _ m₁ w₁
    rw [wp_ite]
    split
    · exact ⟨h₁, .inl rfl⟩
    rename_i hgoes
    obtain ⟨rfl, rfl⟩ := hstop.resolve_left hgoes
    refine (wp_bind _ _).mpr ⟨ok_other h₁.toTracked (by simp), fun a w₂ hs => ?_⟩
    obtain rfl : w₂ = w₁ := hs
    cases a with
    | stream =>
      refine wp_seq (startUploader_rests h₁ hmode) (fun _ m₃ w₃ h₃ => ?_) fun _ _ _ h' => h'
      obtain ⟨h₃, hconfig⟩ := h₃
      rw [← hconfig] at hmode ⊢
      exact acceptAll_rests fuel h₃ hmode
    | wouldBlock =>
      refine (wp_bind _ _).mpr ⟨ok_other h₁.toTracked (by simp), fun _ w₃ hs => ?_⟩
      obtain rfl : w₃ = w₂ := hs
      exact acceptAll_rests fuel h₁ hmode
    | failed e => exact running_log h₁.toRunning (acceptAll_rests fuel h₁ hmode)

theorem acceptLoop_rests {listeners : List Nat} : ∀ (fuel : Nat) {m : UploaderManager} {w : PassView},
    Resting m w → m.config.configFile.reverseConnection = false →
    wp passEnv (acceptLoop listeners fuel) (fun _ => Resting) (fun _ => Running) m w
  | 0, _, _, h, _ => h.toRunning
  | fuel + 1, m, w, h, hmode => by
    refine wp_seq (acceptAll_rests fuel h hmode) (fun stop m₁ w₁ h₁ => ?_) fun _ _ _ h' => h'
    obtain ⟨h₁, hstop⟩ := h₁
    show wp passEnv (if stop = true then _ else _) _ _ m₁ w₁
    rw [wp_ite]
    split
    · exact h₁
    rename_i hgoes
    have hconfig : m₁.config = m.config := hstop.resolve_left hgoes
    exact acceptLoop_rests fuel h₁ (hconfig ▸ hmode)

theorem listen_rests {fuel : Nat} {addresses : List SocketAddr} (h : Resting m w)
    (hmode : m.config.configFile.reverseConnection = false) :
    wp passEnv (listen fuel addresses) (fun _ => Resting) (fun _ => Running) m w := by
  refine wp_seq (wp_aloof (steady_bindListeners (fun _ => trivial) addresses) h.toTracked) (fun listeners m₁ w₁ h₁ => ?_)
    fun _ m₁ w₁ h₁ => ?_
  · obtain ⟨rfl, rfl⟩ := h₁
    show wp passEnv (if listeners = [] then _ else _) _ _ m₁ w₁
    rw [wp_ite]
    split
    · exact h.toRunning
    · exact acceptLoop_rests fuel h hmode
  · obtain ⟨rfl, rfl⟩ := h₁
    exact h.toRunning

theorem run_rests : ∀ (fuel : Nat) {m : UploaderManager} {w : PassView}, Resting m w →
    wp passEnv (run fuel) (fun _ => Resting) (fun _ => Running) m w
  | 0, _, _, h => h.toRunning
  | fuel + 1, m, w, h => by
    have h₀ : Resting { m with stopIncoming := false } w := ⟨⟨⟨h.covered, h.distinct, h.named, h.owing⟩,
      h.once, h.made, h.current, h.reverses, h.listens⟩, h.served⟩
    refine (wp_bind _ _).mpr ?_
    refine wp_seq (readReceiver_rests fuel h₀) (fun _ m₁ w₁ h₁ => ?_) fun _ _ _ h' => h'
    obtain ⟨h₁, -⟩ := h₁
    show wp passEnv (if _ then _ else _) _ _ m₁ w₁
    rw [wp_ite]
    split
    · refine (wp_bind _ _).mpr ⟨ok_other h₁.toTracked (by simp), fun _ w₂ hs => ?_⟩
      obtain rfl : w₂ = w₁ := hs
      exact run_rests fuel h₁
    refine wp_seq (wp_aloof (steady_unwrapAll _) h₁.toTracked) (fun addresses m₂ w₂ h₂ => ?_)
      fun _ m₂ w₂ h₂ => ?_
    · obtain ⟨rfl, rfl⟩ := h₂
      show wp passEnv (if m₂.config.configFile.reverseConnection = true then
        log >>= fun _ => reverseLoop fuel 1 >>= fun _ => run fuel
        else listen fuel addresses >>= fun _ => run fuel) _ _ m₂ w₂
      rw [wp_ite]
      split
      · rename_i hmode
        exact running_log h₁.toRunning (wp_seq (reverseLoop_rests fuel 1 h₁ hmode)
          (fun _ _ _ h' => run_rests fuel h') fun _ _ _ h' => h')
      · rename_i hmode
        exact wp_seq (listen_rests h₁ (Bool.eq_false_iff.mpr hmode)) (fun _ _ _ h' => run_rests fuel h')
          fun _ _ _ h' => h'
    · obtain ⟨rfl, rfl⟩ := h₂
      exact h₁.toRunning

/-- **The manager's thread.** Where `run` fails the manager tells itself to stop sharing, so a reset
    follows. -/
theorem managerThread_served (fuel : Nat) : ∀ (n : Nat) {m : UploaderManager} {w : PassView}, Resting m w →
    wp passEnv (managerThread fuel n) (fun _ => Running) (fun _ => Running) m w
  | 0, _, _, h => h.toRunning
  | n + 1, m, w, h => by
    have hrest := fun (_ : Unit) m' w' (h' : Resting m' w') => managerThread_served fuel n h'
    refine wp_seq ((wp_tryCatch _ _).mpr ?_) hrest fun _ _ _ h' => h'
    refine wp_conseq (wp_seq (run_rests fuel h) (fun _ m' w' h' => ?_) fun _ _ _ h' => h')
      (fun _ _ _ h' => h') fun e m' w' h' => ?_
    · exact (wp_bind _ _).mpr ⟨ok_other h'.toTracked (by simp), fun never => never.elim⟩
    · cases e with
      | err text =>
        have hbroken : Running m' { w' with since := { w'.since with broken := true } } :=
          ⟨⟨h'.covered, h'.distinct, h'.named, h'.owing⟩, h'.once, h'.made, h'.current, h'.reverses,
            h'.listens⟩
        refine (wp_bind _ _).mpr ⟨ok_other h'.toTracked (by simp), fun _ w₁ hs => ?_⟩
        obtain rfl : w₁ = { w' with since := { w'.since with broken := true } } := hs
        refine ⟨ok_other hbroken.toTracked (by simp), fun _ w₂ hs => ?_⟩
        obtain rfl : w₂ = _ := hs
        exact ⟨hbroken, fun hnot => by cases hnot⟩
      | panic => exact h'
      | fuel => exact h'

end Views

end UploaderManager

/-! ## 7. Every run -/

open UploaderManager (PassView PassStep passEnv Running Resting)

variable {K : Suite}

def UploadTurn.account (since : SinceReset) : UploadTurn K → SinceReset
  | .manager _ c a => since.after c a
  | _ => since

/-- What was done since the last reset of a run with these turns. -/
def sinceReset (turns : List (UploadTurn K)) : SinceReset := turns.foldl UploadTurn.account .new

/-- The thread has its receiver. -/
def UploadWorld.Live (w : UploadWorld K) (i : Nat) : Prop :=
  ∃ u, w.uploaders[i]? = some u ∧ u.received = true

/-- The thread has let go of its receiver. -/
def UploadWorld.Dead (w : UploadWorld K) (i : Nat) : Prop :=
  ∃ u, w.uploaders[i]? = some u ∧ u.received = false

/-- Runs in which a thread may end wherever it is. `single_thread` lets go of the receiver before its last
    messages to the log and the app, and so does a panic. -/
inductive UploadSystem.EndingRun [Crates] (s₀ : UploadSystem K) :
    List (UploadTurn K) → UploadSystem K → Prop where
  | start : EndingRun s₀ [] s₀
  | step (turns : List (UploadTurn K)) (s s' : UploadSystem K) (turn : UploadTurn K)
      (h : EndingRun s₀ turns s) (hs : s.Step turn s') : EndingRun s₀ (turns ++ [turn]) s'
  | ends (turns : List (UploadTurn K)) (s : UploadSystem K) (i : Nat) (u : Uploader K) (p : UpProgram K)
      (h : EndingRun s₀ turns s) (hi : s.world.uploaders[i]? = some u) (hprogram : u.program = some p) :
      EndingRun s₀ (turns ++ [.ended i])
        { s with world := s.world.update i fun u => { u with received := false } }

/-- The manager's account of its threads and its channel. -/
structure Accounts (v : PassView) (w : UploadWorld K) : Prop where
  failed : ∀ i ∈ v.failed, w.Dead i
  made : v.made = w.uploaders.length
  posted : v.since.broken = true → w.inbox ≠ []

section Runs

variable {w w' : UploadWorld K} {v : PassView} {i j : Nat}

theorem dead_update {f : Uploader K → Uploader K} (h : w.Dead i)
    (hf : ∀ u : Uploader K, u.received = false → (f u).received = false) : (w.update j f).Dead i := by
  obtain ⟨u, hi, hu⟩ := h
  unfold UploadWorld.Dead UploadWorld.update
  rw [List.getElem?_modify, hi]
  by_cases hij : j = i
  · exact ⟨f u, by simp [hij], hf u hu⟩
  · exact ⟨u, by simp [hij], hu⟩

theorem Accounts.update {f : Uploader K → Uploader K} (h : Accounts v w)
    (hf : ∀ u : Uploader K, u.received = false → (f u).received = false) : Accounts v (w.update j f) :=
  ⟨fun i hi => dead_update (h.failed i hi) hf, h.made.trans (List.length_modify _ _ _).symm, h.posted⟩

theorem Accounts.manager [Crates] {c : ManagerCmd} {a : c.Ans} (h : Accounts v w)
    (hs : w.ManagerStep c a w') : ∃ v', PassStep v c a v' ∧ Accounts v' w' := by
  cases c with
  | tryRecv =>
    cases a with
    | value message =>
      obtain ⟨-, rfl⟩ := hs
      exact ⟨_, rfl, h.failed, h.made, fun hp => by cases hp⟩
    | empty =>
      obtain ⟨hinbox, rfl⟩ := hs
      refine ⟨v, ⟨?_, rfl⟩, h⟩
      exact Bool.eq_false_iff.mpr fun hp => h.posted hp hinbox
    | disconnected => exact hs.elim
  | send i message =>
    obtain ⟨u, hi, rfl, rfl⟩ := hs
    refine ⟨_, rfl, ?_⟩
    split
    · exact h.update fun _ hu => hu
    · rename_i hgone
      refine ⟨fun j hj => ?_, h.made, h.posted⟩
      rcases List.mem_cons.mp hj with rfl | hj
      · exact ⟨u, hi, Bool.eq_false_iff.mpr hgone⟩
      · exact h.failed j hj
  | dropSender i =>
    obtain rfl : w' = _ := hs
    have haccounts := h.update (j := i) (f := fun u => { u with connected := false }) fun _ hu => hu
    exact ⟨_, rfl, haccounts.failed, haccounts.made, haccounts.posted⟩
  | newReverseList =>
    obtain ⟨-, rfl⟩ := hs
    exact ⟨v, rfl, h.failed, h.made, h.posted⟩
  | newChannel =>
    obtain ⟨rfl, rfl⟩ := hs
    refine ⟨_, ⟨h.made.symm, rfl⟩, fun i hi => ?_, ?_, h.posted⟩
    · obtain ⟨u, hu, hgone⟩ := h.failed i hi
      exact ⟨u, by rw [List.getElem?_append_left (List.getElem?_eq_some_iff.mp hu).1]; exact hu, hgone⟩
    · show v.made + 1 = _
      rw [h.made, List.length_append]
      rfl
  | spawn i user list config =>
    obtain ⟨u, fuel, encryptedStream, -, -, rfl⟩ := hs
    refine ⟨_, rfl, fun j hj => dead_update (h.failed j hj) fun _ hu => hu,
      h.made.trans (List.length_modify _ _ _).symm, fun hbroken => h.posted ?_⟩
    cases user <;> exact hbroken
  | postSelf message =>
    obtain rfl : w' = _ := hs
    exact ⟨_, rfl, h.failed, h.made, fun _ => by simp⟩
  | _ =>
    obtain rfl : w' = w := hs
    exact ⟨v, rfl, h⟩

theorem received_after {u : Uploader K} {c : Wire ⊕ UploaderCmd K} {a : Ans (@UploaderCmd.Ans K) c} :
    (u.after c a).received = u.received := by
  unfold Uploader.after
  split <;> rfl

theorem Accounts.thread {u : Uploader K} {c : Wire ⊕ UploaderCmd K} {a : Ans (@UploaderCmd.Ans K) c}
    {p : UpProgram K} (h : Accounts v w) (hi : w.uploaders[i]? = some u) (hs : w.ThreadStep i u c a w') :
    Accounts v (w'.update i fun u => { u with program := some p }) := by
  have huploaders := (threadStep_spec hi hs).1
  have hafter : Accounts v w' := by
    have hupdated := h.update (j := i) (f := fun u => u.after c a) fun _ hu => received_after.trans hu
    refine ⟨fun j hj => ?_, ?_, ?_⟩
    · have hdead := hupdated.failed j hj
      unfold UploadWorld.Dead at hdead ⊢
      rw [huploaders]
      exact hdead
    · rw [huploaders]
      exact hupdated.made
    · rw [inbox_threadStep hs]
      exact h.posted
  exact hafter.update fun _ hu => hu

theorem sinceReset_snoc (turns : List (UploadTurn K)) (turn : UploadTurn K) :
    sinceReset (turns ++ [turn]) = turn.account (sinceReset turns) := by
  unfold sinceReset
  rw [List.foldl_append]
  rfl

variable [Crates] {s s' : UploadSystem K} {turns : List (UploadTurn K)}

/-- What is known of a run. -/
structure Accounted (turns : List (UploadTurn K)) (s : UploadSystem K) (v : PassView) : Prop where
  manager : s.manager.Holds passEnv (fun _ => Running) (fun _ => Running) v
  since : v.since = sinceReset turns
  accounts : Accounts v s.world

omit [Crates] in
theorem accounted_start (fuel n : Nat) (config : Config) :
    Accounted [] (UploadSystem.start fuel n config : UploadSystem K)
      { since := .new, failed := [], made := 0 } := by
  have hresting : Resting (UploaderManager.new config .off 0)
      { since := .new, failed := [], made := 0 } := by
    have hnone : ∀ {P : Str × Nat → Prop}, ∀ entry ∈ ([] : List (Str × Nat)), P entry :=
      fun _ he => absurd he List.not_mem_nil
    exact ⟨⟨⟨hnone, List.nodup_nil, hnone, fun _ hn => absurd hn List.not_mem_nil⟩, List.nodup_nil, hnone,
      hnone, fun _ => rfl, fun _ => rfl⟩, fun _ _ hn => absurd hn List.not_mem_nil⟩
  exact ⟨UploaderManager.managerThread_served fuel n hresting, rfl,
    fun _ hi => absurd hi List.not_mem_nil, rfl, fun hb => by cases hb⟩

/-- **One turn.** -/
theorem Accounted.step {turn : UploadTurn K} (h : Accounted turns s v) (hs : s.Step turn s') :
    ∃ v', Accounted (turns ++ [turn]) s' v' := by
  have hsince := sinceReset_snoc turns turn
  cases hs with
  | manager m c k a w hmanager hstep =>
    have hholds := h.manager
    rw [hmanager] at hholds
    obtain ⟨v', hpass, haccounts⟩ := h.accounts.manager hstep
    refine ⟨v', hholds.2 a v' hpass, ?_, haccounts⟩
    rw [UploaderManager.since_passStep hpass, h.since, hsince]
    rfl
  | thread i u t c k a w hi hprogram hstep =>
    exact ⟨v, h.manager, h.since.trans hsince.symm, h.accounts.thread hi hstep⟩
  | ended i u p hi hprogram hend =>
    exact ⟨v, h.manager, h.since.trans hsince.symm, h.accounts.update fun _ _ => rfl⟩
  | posted m =>
    exact ⟨v, h.manager, h.since.trans hsince.symm, h.accounts.failed, h.accounts.made,
      fun _ => by simp⟩

/-- **Every run.** -/
theorem accounted_run {fuel n : Nat} {config : Config}
    (hr : (UploadSystem.start fuel n config : UploadSystem K).EndingRun turns s) :
    ∃ v, Accounted turns s v := by
  induction hr with
  | start => exact ⟨_, accounted_start fuel n config⟩
  | step turns s s' turn _ hs ih =>
    obtain ⟨v, h⟩ := ih
    exact h.step hs
  | ends turns s i u p _ hi hprogram ih =>
    obtain ⟨v, h⟩ := ih
    exact ⟨v, h.manager, h.since.trans (sinceReset_snoc turns (.ended i)).symm,
      h.accounts.update fun _ _ => rfl⟩

omit [Crates] in
theorem Accounted.tracked (h : Accounted turns s v) : UploaderManager.Tracked s.manager.state v := by
  have hholds := h.manager
  cases hmanager : s.manager with
  | ret a m =>
    rw [hmanager] at hholds
    exact hholds.toTracked
  | fail x m =>
    rw [hmanager] at hholds
    exact hholds.toTracked
  | call m c k =>
    rw [hmanager] at hholds
    exact hholds.1.1

/-- **One reverse uploader per user.** At any time of any run of the manager and its threads, of the
    threads that were started since the last reset at most one for each nickname is live, and the sender of
    each live one is in `single_uploaders_rev`. When the manager looks into its channel after a pass, every
    user whose dead sender was removed has got a new thread, but for those the `Local` filter skips; or
    `run` has failed, and then a reset is what comes next. -/
theorem one_reverse_uploader {fuel n : Nat} {config : Config}
    (hr : (UploadSystem.start fuel n config : UploadSystem K).EndingRun turns s) :
    (∀ nickname i j, (nickname, i) ∈ (sinceReset turns).spawned →
      (nickname, j) ∈ (sinceReset turns).spawned → s.world.Live i → s.world.Live j → i = j) ∧
    (∀ entry ∈ (sinceReset turns).spawned, s.world.Live entry.2 →
      entry ∈ s.manager.state.singleUploadersRev) ∧
    (s.manager.issued = some .tryRecv → (sinceReset turns).broken = false →
      ∀ nickname ∈ (sinceReset turns).owed,
        (∃ user ∈ s.manager.state.config.configFile.sharedUsers, user.nickname = nickname) ∧
        ∀ user ∈ s.manager.state.config.configFile.sharedUsers, user.nickname = nickname →
          s.manager.state.Skips user) ∧
    ((sinceReset turns).broken = true → s.world.inbox ≠ []) := by
  obtain ⟨v, h⟩ := accounted_run hr
  have htracked := h.tracked
  rw [← h.since]
  have hsender : ∀ entry ∈ v.since.spawned, s.world.Live entry.2 →
      entry ∈ s.manager.state.singleUploadersRev := by
    intro entry hentry hlive
    refine (htracked.covered entry hentry).resolve_left fun hfailed => ?_
    obtain ⟨u, hu, hreceived⟩ := hlive
    obtain ⟨u', hu', hgone⟩ := h.accounts.failed entry.2 hfailed
    rw [hu] at hu'
    cases hu'
    rw [hreceived] at hgone
    cases hgone
  refine ⟨fun nickname i j hi hj hlivei hlivej => ?_, hsender,
    fun hissued hgoes nickname hn => ⟨?_, ?_⟩, h.accounts.posted⟩
  · have hsame := List.inj_on_of_nodup_map htracked.distinct (hsender _ hi hlivei)
      (hsender _ hj hlivej) rfl
    exact congrArg Prod.snd hsame
  · obtain ⟨i, hi⟩ := htracked.owing nickname hn
    exact htracked.named _ hi
  · obtain ⟨m, k, hcall⟩ := Prog.issued_eq_some.mp hissued
    have hholds := h.manager
    rw [hcall] at hholds
    rw [show s.manager.state = m by rw [hcall]; rfl]
    exact hholds.1.2 rfl hgoes nickname hn

/-! ## 8. Bob's thread ends, and gets a successor -/

/-- A run goes on. -/
theorem UploadSystem.EndingRun.append {s₀ : UploadSystem K} {turns' : List (UploadTurn K)}
    (h : s₀.EndingRun turns s) (hr : s.Run turns' s') : s₀.EndingRun (turns ++ turns') s' := by
  induction hr with
  | start =>
    rw [List.append_nil]
    exact h
  | step turns' s₁ s₂ turn _ hs ih =>
    rw [← List.append_assoc]
    exact .step _ _ _ _ ih hs

/-- The manager has `n` turns. -/
theorem UploadSystem.EndingRun.managed {s₀ : UploadSystem K} (h : s₀.EndingRun turns s) (n : Nat) :
    ∃ turns', s₀.EndingRun turns' (s.managed n) := by
  have hstart : s.Run [] s := .start
  obtain ⟨turns', hr⟩ := run_managed hstart n
  exact ⟨_, h.append hr⟩

end Runs

/-- Bob is connected to, on this computer. -/
def reverseMemory : Config :=
  { usersMemory [sampleBob] with configFile := { usersConfig [sampleBob] with reverseConnection := true } }

/-- His first thread was started. -/
def firstThread [Crates] : UploadSystem openSuite :=
  ((UploadSystem.start 9 1 reverseMemory).post (.sharingStateMsg .local)).managed 14

/-- It has ended. -/
def threadEnded [Crates] : UploadSystem openSuite :=
  { firstThread with world := firstThread.world.update 0 fun u => { u with received := false } }

/-- The manager has sent to it, and started another one. -/
def secondThread [Crates] : UploadSystem openSuite := threadEnded.managed 11

section Sample

variable [Crates]

theorem secondThread_run :
    ∃ turns, (UploadSystem.start 9 1 reverseMemory).EndingRun turns secondThread := by
  have hposted : (UploadSystem.start 9 1 reverseMemory : UploadSystem openSuite).EndingRun _
      ((UploadSystem.start 9 1 reverseMemory).post (.sharingStateMsg .local)) :=
    .step [] _ _ _ .start (.posted _)
  obtain ⟨turns, hfirst⟩ := hposted.managed 14
  have hended : (UploadSystem.start 9 1 reverseMemory).EndingRun _ threadEnded :=
    .ends turns firstThread 0 _ _ hfirst rfl rfl
  exact hended.managed 11

end Sample

/-- The manager has one sender for Bob, that of the second thread. -/
theorem one_reverse_uploader_bob : ∃ turns : List (UploadTurn openSuite),
    (∀ entry ∈ (sinceReset turns).spawned, (@secondThread idleCrates).world.Live entry.2 →
      entry ∈ (@secondThread idleCrates).manager.state.singleUploadersRev) ∧
    (@secondThread idleCrates).manager.state.singleUploadersRev = [(sampleBob.nickname, 1)] := by
  obtain ⟨turns, hrun⟩ := @secondThread_run idleCrates
  exact ⟨turns, (@one_reverse_uploader _ idleCrates _ _ _ _ _ hrun).2.1, rfl⟩

end Transmitic
