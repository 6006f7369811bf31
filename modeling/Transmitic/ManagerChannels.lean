/-
  File:      Transmitic/ManagerChannels.lean
  Subject:   WHICH CHANNELS THE MANAGER HAS. It knows every channel that has a sender, so when it resets
             the connections there is none left; and it starts one thread for a channel.

  * `Channel` -- has it a sender, and was its thread started?
  * `Known` -- the senders are those in the lists of the manager, and `extra`, each once;
  * `managerThread_idle` -- **at the end of a reset no channel has a sender, and nothing else is done
    before**.
-/
import Transmitic.ManagerMethods

namespace Transmitic

open Lib

namespace UploaderManager

/-! ## 1. The channels -/

/-- A channel of a thread: the manager has its sender; the thread has begun. -/
structure Channel where
  connected : Bool
  started : Bool
  deriving DecidableEq, Repr

/-- The channel `i` has a sender. -/
def Connected (channels : List Channel) (i : Nat) : Prop :=
  ∃ channel, channels[i]? = some channel ∧ channel.connected = true

/-- The channels, and has a message come that the manager is not done with? -/
structure ChannelsView where
  channels : List Channel
  draining : Bool

/-- The manager makes a new list only where no channel has a sender, sends where there is one, and starts
    one thread for a channel. It does nothing else until it is done with a message. -/
def channelsOk (w : ChannelsView) : ManagerCmd → Prop
  | .newReverseList => ∀ i, ¬ Connected w.channels i
  | .send i _ => Connected w.channels i
  | .dropSender _ => True
  | .spawn i _ _ _ =>
    w.draining = false ∧ ∃ channel, w.channels[i]? = some channel ∧ channel.started = false
  | _ => w.draining = false

def ChannelsStep (w : ChannelsView) : (c : ManagerCmd) → c.Ans → ChannelsView → Prop
  | .tryRecv, .value _, w' => w' = { w with draining := true }
  | .newReverseList, _, w' => w' = { w with draining := false }
  | .newChannel, (i : Nat), w' => i = w.channels.length ∧
    w' = { w with channels := w.channels ++ [{ connected := true, started := false }] }
  | .dropSender i, _, w' =>
    w' = { w with channels := w.channels.modify i fun channel => { channel with connected := false } }
  | .spawn i _ _ _, _, w' =>
    w' = { w with channels := w.channels.modify i fun channel => { channel with started := true } }
  | _, _, w' => w' = w

/-- The surroundings of the manager, where a thread may be gone at any time, and any command may fail. -/
def channelsEnv : Env UploaderManager ManagerCmd ManagerCmd.Ans ChannelsView where
  ok w _ c := channelsOk w c
  step w _ c a w' := ChannelsStep w c a w'

/-- The channels the manager has a sender of. -/
def senders (m : UploaderManager) : List Nat := m.singleUploaders ++ m.singleUploadersRev.map Prod.snd

/-- The senders are those the manager has, and `extra`. -/
structure Known (extra : List Nat) (m : UploaderManager) (channels : List Channel) : Prop where
  nodup : (m.senders ++ extra).Nodup
  connected : ∀ i, Connected channels i ↔ i ∈ m.senders ∨ i ∈ extra

/-- Of the senders to `uploaders`, `kept` are left. -/
structure Kept (channels : List Channel) (uploaders kept : List Nat) (channels' : List Channel) :
    Prop where
  sublist : kept.Sublist uploaders
  connected : ∀ i : Nat, Connected channels' i ↔ Connected channels i ∧ (i ∈ uploaders → i ∈ kept)
  started : ∀ i : Nat, (channels'[i]?).map Channel.started = (channels[i]?).map Channel.started

section Drop

variable {channels channels' : List Channel} {i j : Nat} {uploaders kept : List Nat}

/-- One sender goes out of scope, and no other one. -/
theorem connected_drop :
    Connected (channels.modify i fun channel => { channel with connected := false }) j ↔
      Connected channels j ∧ j ≠ i := by
  unfold Connected
  simp only [List.getElem?_modify, Option.map_eq_map, Option.map_eq_some_iff]
  constructor
  · intro h
    obtain ⟨_, ⟨channel, hj, rfl⟩, hc⟩ := h
    by_cases hij : i = j
    · rw [if_pos hij] at hc
      cases hc
    · rw [if_neg hij] at hc
      exact ⟨⟨channel, hj, hc⟩, Ne.symm hij⟩
  · intro h
    obtain ⟨⟨channel, hj, hc⟩, hne⟩ := h
    exact ⟨_, ⟨channel, hj, rfl⟩, by rw [if_neg (Ne.symm hne)]; exact hc⟩

/-- Which does not undo that a thread has begun. -/
theorem started_drop :
    ((channels.modify i fun channel => { channel with connected := false })[j]?).map Channel.started =
      (channels[j]?).map Channel.started := by
  rw [List.getElem?_modify, Option.map_eq_map, Option.map_map]
  congr 1
  funext channel
  by_cases hij : i = j <;> simp [hij]

theorem Kept.nil : Kept channels [] [] channels :=
  ⟨List.Sublist.refl _, fun _ => by simp, fun _ => rfl⟩

/-- A thread with a receiver keeps its sender. -/
theorem Kept.sent (h : Kept channels uploaders kept channels') (hi : i ∉ uploaders) :
    Kept channels (i :: uploaders) (i :: kept) channels' := by
  refine ⟨h.sublist.cons_cons i, fun j => (h.connected j).trans (and_congr_right fun _ => ?_),
    h.started⟩
  by_cases hj : j = i
  · subst hj
    simp [hi]
  · simp [hj]

/-- **A thread without a receiver loses its sender**, which goes out of scope. -/
theorem Kept.dropped (h : Kept (channels.modify i fun channel => { channel with connected := false })
    uploaders kept channels') (hi : i ∉ uploaders) : Kept channels (i :: uploaders) kept channels' := by
  refine ⟨h.sublist.cons i, fun j => ?_, fun j => (h.started j).trans started_drop⟩
  rw [h.connected j, connected_drop, and_assoc]
  refine and_congr_right fun _ => ?_
  have hkept : i ∉ kept := fun hmem => hi (h.sublist.subset hmem)
  by_cases hj : j = i
  · subst hj
    simp [hkept]
  · simp [hj]

end Drop

/-! ## 2. Messages to the uploaders -/

section Sends

variable {α : Type} {m : UploaderManager} {w : ChannelsView} {channels : List Channel} {extra : List Nat}

/-- A command that changes no channel and is admitted in every state of them, between messages. -/
def unrelated : ManagerCmd → Prop
  | .tryRecv => False
  | .send _ _ => False
  | .newChannel => False
  | .dropSender _ => False
  | .newReverseList => False
  | .spawn _ _ _ _ => False
  | _ => True

theorem ok_unrelated {c : ManagerCmd} (h : unrelated c) (hw : w.draining = false) :
    channelsEnv.ok w m c := by
  cases c with
  | newReverseList => exact h.elim
  | send i message => exact h.elim
  | dropSender i => exact h.elim
  | spawn i user list config => exact h.elim
  | _ => exact hw

theorem step_unrelated {c : ManagerCmd} {a : c.Ans} {w' : ChannelsView} (h : unrelated c)
    (hs : channelsEnv.step w m c a w') : w' = w := by
  unfold channelsEnv ChannelsStep at hs
  dsimp only at hs
  split at hs
  · exact h.elim
  · exact h.elim
  · exact h.elim
  · exact h.elim
  · exact h.elim
  · exact hs

/-- Nothing but commands that have to do with no channel. -/
theorem wp_unrelated {V : Type} {r : UploaderManager → V} {method : Mgr α}
    (h : Keeps unrelated r method) (hw : w.draining = false) : wp channelsEnv method
      (fun _ m' w' => r m' = r m ∧ w' = w) (fun _ m' w' => r m' = r m ∧ w' = w) m w := by
  refine wp_of_keeps h (fun w₁ _ _ h₁ hc => ok_unrelated hc (h₁ ▸ hw)) (fun w₁ s c a w₂ h₁ hc hs => ?_) rfl
  exact (step_unrelated hc hs).trans h₁

/-- **The senders that are retained** are the ones that stay connected. Over the senders. -/
theorem sendToUploaders_spec (message : MessageSingleUploader) : ∀ (uploaders : List Nat)
    {m : UploaderManager} {w : ChannelsView}, uploaders.Nodup → (∀ i ∈ uploaders, Connected w.channels i) →
    wp channelsEnv (sendToUploaders message uploaders) (fun kept m' w' => m' = m ∧
      w'.draining = w.draining ∧ Kept w.channels uploaders kept w'.channels) (fun _ _ _ => False) m w
  | [], m, w, _, _ => ⟨rfl, rfl, Kept.nil⟩
  | uploader :: uploaders, m, w, hnodup, hc => by
    obtain ⟨hnot, hnodup⟩ := List.nodup_cons.mp hnodup
    have hrest : ∀ i ∈ uploaders, Connected w.channels i := fun i hi => hc i (List.mem_cons_of_mem _ hi)
    refine (wp_bind _ _).mpr ⟨hc uploader List.mem_cons_self, fun (sent : Bool) w₁ hs => ?_⟩
    obtain rfl : w₁ = w := hs
    show wp _ (if sent = true then _ else _) _ _ m w₁
    rw [wp_ite]
    split
    · refine wp_seq (sendToUploaders_spec message uploaders hnodup hrest)
        (fun kept m' w' h => ?_) fun _ _ _ h => h
      exact ⟨h.1, h.2.1, h.2.2.sent hnot⟩
    · refine (wp_bind _ _).mpr ⟨trivial, fun _ w₂ hs => ?_⟩
      obtain rfl : w₂ = _ := hs
      refine wp_conseq (m := sendToUploaders message uploaders)
        (sendToUploaders_spec message uploaders hnodup fun i hi => ?_) (fun kept m' w' h => ?_) fun _ _ _ h => h
      · exact connected_drop.mpr ⟨hrest i hi, fun he => hnot (he ▸ hi)⟩
      · exact ⟨h.1, h.2.1, h.2.2.dropped hnot⟩

/-- The same for the reverse connections, whose senders have a nickname beside them. -/
theorem sendToUploadersRev_spec (message : MessageSingleUploader) : ∀ (uploaders : List (Str × Nat))
    {m : UploaderManager} {w : ChannelsView}, (uploaders.map Prod.snd).Nodup →
    (∀ i ∈ uploaders.map Prod.snd, Connected w.channels i) →
    wp channelsEnv (sendToUploadersRev message uploaders) (fun kept m' w' => m' = m ∧
      w'.draining = w.draining ∧ Kept w.channels (uploaders.map Prod.snd) (kept.map Prod.snd) w'.channels)
      (fun _ _ _ => False) m w
  | [], m, w, _, _ => ⟨rfl, rfl, Kept.nil⟩
  | (nickname, uploader) :: uploaders, m, w, hnodup, hc => by
    obtain ⟨hnot, hnodup⟩ := List.nodup_cons.mp hnodup
    have hrest : ∀ i ∈ uploaders.map Prod.snd, Connected w.channels i :=
      fun i hi => hc i (List.mem_cons_of_mem _ hi)
    refine (wp_bind _ _).mpr ⟨hc uploader List.mem_cons_self, fun (sent : Bool) w₁ hs => ?_⟩
    obtain rfl : w₁ = w := hs
    show wp _ (if sent = true then _ else _) _ _ m w₁
    rw [wp_ite]
    split
    · refine wp_seq (sendToUploadersRev_spec message uploaders hnodup hrest)
        (fun kept m' w' h => ?_) fun _ _ _ h => h
      exact ⟨h.1, h.2.1, h.2.2.sent hnot⟩
    · refine (wp_bind _ _).mpr ⟨trivial, fun _ w₂ hs => ?_⟩
      obtain rfl : w₂ = _ := hs
      refine wp_conseq (m := sendToUploadersRev message uploaders)
        (sendToUploadersRev_spec message uploaders hnodup fun i hi => ?_) (fun kept m' w' h => ?_) fun _ _ _ h => h
      · exact connected_drop.mpr ⟨hrest i hi, fun he => hnot (he ▸ hi)⟩
      · exact ⟨h.1, h.2.1, h.2.2.dropped hnot⟩

/-- The senders that are left of two lists. -/
theorem Known.kept {kept : List Nat} {keptRev : List (Str × Nat)} {channels₁ channels₂ : List Channel}
    (h : Known extra m channels) (h₁ : Kept channels m.singleUploaders kept channels₁)
    (h₂ : Kept channels₁ (m.singleUploadersRev.map Prod.snd) (keptRev.map Prod.snd) channels₂) :
    Known extra { m with singleUploaders := kept, singleUploadersRev := keptRev } channels₂ := by
  have hnodup := h.nodup
  unfold senders at hnodup
  have hsub : ((kept ++ keptRev.map Prod.snd) ++ extra).Sublist
      ((m.singleUploaders ++ m.singleUploadersRev.map Prod.snd) ++ extra) :=
    (h₁.sublist.append h₂.sublist).append (List.Sublist.refl _)
  refine ⟨hnodup.sublist hsub, fun i => ?_⟩
  rw [h₂.connected i, h₁.connected i, h.connected i]
  have hkept : i ∈ kept → i ∈ m.singleUploaders := fun hi => h₁.sublist.subset hi
  have hkeptRev : i ∈ keptRev.map Prod.snd → i ∈ m.singleUploadersRev.map Prod.snd :=
    fun hi => h₂.sublist.subset hi
  unfold senders
  simp only [List.nodup_append, List.mem_append] at hnodup ⊢
  obtain ⟨⟨-, -, hdisjoint⟩, -, hdisjoint'⟩ := hnodup
  constructor
  · grind
  · grind

/-- **A message to all**: the senders are those the manager has. -/
theorem sendMessageToAllUploaders_spec (message : MessageSingleUploader)
    (h : Known extra m w.channels) : wp channelsEnv (sendMessageToAllUploaders message)
      (fun _ m' w' => Known extra m' w'.channels ∧ w'.draining = w.draining ∧
        ∀ i : Nat, (w'.channels[i]?).map Channel.started = (w.channels[i]?).map Channel.started)
      (fun _ _ _ => False) m w := by
  have hnodup := h.nodup
  unfold senders at hnodup
  obtain ⟨hnodup, -, -⟩ := List.nodup_append.mp hnodup
  obtain ⟨hnodup₁, hnodup₂, hdisjoint⟩ := List.nodup_append.mp hnodup
  refine wp_seq (m := sendToUploaders message m.singleUploaders)
    (sendToUploaders_spec message m.singleUploaders hnodup₁ fun i hi => ?_) (fun kept m₁ w₁ h₁ => ?_) fun _ _ _ h' => h'
  · exact (h.connected i).mpr (.inl (List.mem_append_left _ hi))
  obtain ⟨rfl, hdraining₁, h₁⟩ := h₁
  refine wp_seq (m := sendToUploadersRev message m₁.singleUploadersRev)
    (sendToUploadersRev_spec message m₁.singleUploadersRev hnodup₂ fun i hi => ?_) (fun keptRev m₂ w₂ h₂ => ?_) fun _ _ _ h' => h'
  · refine (h₁.connected i).mpr ⟨(h.connected i).mpr (.inl (List.mem_append_right _ hi)), fun hmem => ?_⟩
    exact absurd rfl (hdisjoint i hmem i hi)
  obtain ⟨rfl, hdraining₂, h₂⟩ := h₂
  exact ⟨h.kept h₁ h₂, hdraining₂.trans hdraining₁, fun i => (h₂.started i).trans (h₁.started i)⟩

/-- Clearing a list of senders. -/
theorem dropSenders_spec : ∀ (uploaders : List Nat) {m : UploaderManager} {w : ChannelsView},
    wp channelsEnv (dropSenders uploaders) (fun _ m' w' => m' = m ∧
      ∀ i, Connected w'.channels i ↔ Connected w.channels i ∧ i ∉ uploaders)
      (fun _ _ _ => False) m w
  | [], m, w => ⟨rfl, fun _ => by simp⟩
  | uploader :: uploaders, m, w => by
    refine (wp_bind _ _).mpr ⟨trivial, fun _ w₁ hs => ?_⟩
    obtain rfl : w₁ = _ := hs
    refine wp_conseq (m := dropSenders uploaders) (dropSenders_spec uploaders)
      (fun _ m' w' h => ?_) fun _ _ _ h => h
    obtain ⟨hm, hconnected⟩ := h
    refine ⟨hm, fun i => ?_⟩
    rw [hconnected i, connected_drop, List.mem_cons, not_or, and_assoc]

/-! ## 3. The drain -/

/-- The manager knows its channels, and is done with every message. -/
structure Idle (m : UploaderManager) (w : ChannelsView) : Prop extends Known [] m w.channels where
  done : w.draining = false

/-- The manager knows its channels at least. -/
abbrev idle {β : Type} : β → UploaderManager → ChannelsView → Prop := fun _ => Idle

/-- In the middle of a reset nothing fails. -/
theorem resetConnections_idle (h : Known [] m w.channels) :
    wp channelsEnv resetConnections idle (fun _ _ _ => False) m w := by
  have h₀ : Known [] { m with stopIncoming := true } w.channels := ⟨h.nodup, h.connected⟩
  refine (wp_bind _ _).mpr ((wp_modify _).mpr ?_)
  refine wp_seq (sendMessageToAllUploaders_spec .shutdownConn h₀) (fun _ m₁ w₁ h₁ => ?_)
    fun _ _ _ h' => h'
  obtain ⟨h₁, -, -⟩ := h₁
  refine (wp_bind _ _).mpr ((wp_get).mpr ?_)
  refine wp_seq (dropSenders_spec m₁.singleUploaders) (fun _ m₂ w₂ h₂ => ?_) fun _ _ _ h' => h'
  obtain ⟨rfl, h₂⟩ := h₂
  refine wp_seq (dropSenders_spec (m₂.singleUploadersRev.map Prod.snd)) (fun _ m₃ w₃ h₃ => ?_)
    fun _ _ _ h' => h'
  obtain ⟨rfl, h₃⟩ := h₃
  -- whoever still had a sender is in one of the lists that were cleared
  have hnone : ∀ i, ¬ Connected w₃.channels i := by
    intro i hi
    obtain ⟨hi, hrev⟩ := (h₃ i).mp hi
    obtain ⟨hi, hup⟩ := (h₂ i).mp hi
    rcases (h₁.connected i).mp hi with hmem | hmem
    · rcases List.mem_append.mp hmem with hmem | hmem
      · exact hup hmem
      · exact hrev hmem
    · exact absurd hmem List.not_mem_nil
  refine (wp_bind _ _).mpr ((wp_modify _).mpr ((wp_bind _ _).mpr ⟨hnone, fun cache w₄ hs => ?_⟩))
  obtain rfl : w₄ = { w₃ with draining := false } := hs
  refine ⟨⟨List.nodup_nil, fun i => ⟨fun hi => (hnone i hi).elim, fun hi => ?_⟩⟩, rfl⟩
  simp [senders] at hi

/-- A message is followed by a reset, so it is dealt with completely. -/
theorem receive_idle (message : MessageUploadManager) (h : Known [] m w.channels) :
    wp channelsEnv (receive message) idle (fun _ _ _ => False) m w := by
  cases message with
  | sharingStateMsg state =>
    have h₀ : Known [] { m with sharingState := state } w.channels := ⟨h.nodup, h.connected⟩
    exact resetConnections_idle h₀
  | newConfig config =>
    have h₀ : Known [] { m with config } w.channels := ⟨h.nodup, h.connected⟩
    exact resetConnections_idle h₀

/-- **Between two messages** the manager knows its channels; a failure leaves it so. -/
theorem readReceiver_idle : ∀ (fuel : Nat) {m : UploaderManager} {w : ChannelsView},
    Idle m w → wp channelsEnv (readReceiver fuel) idle idle m w
  | 0, _, _, h => h
  | fuel + 1, m, w, h => by
    refine (wp_bind _ _).mpr ⟨h.done, fun a w₁ hs => ?_⟩
    cases a with
    | value message =>
      obtain rfl : w₁ = { w with draining := true } := hs
      have hknown : Known [] m w.channels := h.toKnown
      exact wp_seq (receive_idle message hknown) (fun _ _ _ h' => readReceiver_idle fuel h')
        fun _ _ _ h' => h'.elim
    | empty =>
      obtain rfl : w₁ = w := hs
      exact h
    | disconnected =>
      obtain rfl : w₁ = w := hs
      exact (wp_bind _ _).mpr ⟨h.done, fun never => nomatch never⟩

/-! ## 4. Threads are started -/

/-- The order of the senders does not matter, nor in which list they are. -/
theorem Known.of_perm {extra' : List Nat} {m' : UploaderManager} (h : Known extra m channels)
    (hp : (m'.senders ++ extra').Perm (m.senders ++ extra)) : Known extra' m' channels := by
  refine ⟨hp.nodup_iff.mpr h.nodup, fun i => ?_⟩
  have hmem := hp.mem_iff (a := i)
  rw [List.mem_append, List.mem_append] at hmem
  exact (h.connected i).trans hmem.symm

/-- A new channel has a sender, and no thread yet. -/
theorem Known.newChannel (h : Known extra m channels) : Known (channels.length :: extra) m
    (channels ++ [{ connected := true, started := false }]) := by
  have hfresh : ¬ Connected channels channels.length := by
    intro hc
    obtain ⟨channel, hi, -⟩ := hc
    rw [List.getElem?_eq_none (Nat.le_refl _)] at hi
    cases hi
  -- no list can hold a channel that is not there yet
  have hnot : channels.length ∉ m.senders ++ extra := fun hmem =>
    hfresh ((h.connected _).mpr (List.mem_append.mp hmem))
  refine ⟨List.nodup_middle.mpr (List.nodup_cons.mpr ⟨hnot, h.nodup⟩), fun i => ?_⟩
  have hi : Connected (channels ++ [{ connected := true, started := false }]) i ↔
      Connected channels i ∨ i = channels.length := by
    unfold Connected
    rcases Nat.lt_trichotomy i channels.length with hlt | rfl | hgt
    · rw [List.getElem?_append_left hlt]
      simp [Nat.ne_of_lt hlt]
    · simp
    · have hnone : (channels ++ [({ connected := true, started := false } : Channel)])[i]? = none :=
        List.getElem?_eq_none (by rw [List.length_append]; exact hgt)
      rw [hnone, List.getElem?_eq_none (Nat.le_of_lt hgt)]
      simp [Nat.ne_of_gt hgt]
  rw [hi, h.connected i, List.mem_cons]
  tauto

/-- A thread that begins does not change who has its sender. -/
theorem Known.spawn {i : Nat} (h : Known extra m channels) : Known extra m
    (channels.modify i fun channel => { channel with started := true }) := by
  refine ⟨h.nodup, fun j => Iff.trans ?_ (h.connected j)⟩
  unfold Connected
  simp only [List.getElem?_modify, Option.map_eq_map, Option.map_eq_some_iff]
  constructor
  · intro hc
    obtain ⟨_, ⟨channel, hj, rfl⟩, hc⟩ := hc
    refine ⟨channel, hj, ?_⟩
    split at hc <;> exact hc
  · intro hc
    obtain ⟨channel, hj, hc⟩ := hc
    refine ⟨_, ⟨channel, hj, rfl⟩, ?_⟩
    split <;> exact hc

/-- A method that has to do with no channel and leaves the lists alone. -/
theorem idle_unrelated {method : Mgr α} (hk : Keeps unrelated senders method) (h : Idle m w) :
    wp channelsEnv method idle idle m w := by
  have hkeep : ∀ m' : UploaderManager, m'.senders = m.senders → Idle m' w :=
    fun m' hs => ⟨h.toKnown.of_perm (by rw [hs]), h.done⟩
  refine wp_conseq (wp_unrelated hk h.done) (fun _ m' w' h' => ?_) fun _ m' w' h' => ?_
  · obtain ⟨hs, rfl⟩ := h'
    exact hkeep m' hs
  · obtain ⟨hs, rfl⟩ := h'
    exact hkeep m' hs

/-- One user: the sender is kept before the thread is started. -/
theorem startReverse_idle {sharedUser : SharedUser} (h : Idle m w) :
    wp channelsEnv (startReverse sharedUser) idle idle m w := by
  show wp channelsEnv (if _ then _ else if _ then _ else _) _ _ m w
  rw [wp_ite]
  split
  · exact h
  rw [wp_ite]
  split
  · exact h
  refine wp_seq (idle_unrelated (steady_log trivial).keeps h) (fun _ m₁ w₁ h₁ => ?_)
    fun _ _ _ h' => h'
  refine (wp_bind _ _).mpr ⟨h₁.done, fun thread w₂ hs => ?_⟩
  obtain ⟨rfl, rfl⟩ := hs
  refine (wp_bind _ _).mpr ((wp_modify _).mpr ⟨⟨h₁.done, { connected := true, started := false }, ?_,
    rfl⟩, fun _ w₃ hs => ?_⟩)
  · exact List.getElem?_concat_length
  · obtain rfl := hs
    refine ⟨Known.spawn (h₁.toKnown.newChannel.of_perm ?_), h₁.done⟩
    unfold senders
    rw [List.append_nil]
    exact List.perm_middle.trans (List.perm_append_singleton _ _).symm

theorem startReverseAll_idle : ∀ {sharedUsers : List SharedUser} {m : UploaderManager} {w : ChannelsView},
    Idle m w → wp channelsEnv (startReverseAll sharedUsers) idle idle m w
  | [], _, _, h => h
  | _ :: _, _, _, h =>
    wp_seq (startReverse_idle h) (fun _ _ _ h' => startReverseAll_idle h') fun _ _ _ h' => h'

/-- The accepted connection: the dead threads are forgotten, and the sender of the new one kept. -/
theorem startUploader_idle (h : Idle m w) : wp channelsEnv startUploader idle idle m w := by
  refine (wp_bind _ _).mpr ⟨h.done, fun thread w₁ hs => ?_⟩
  obtain ⟨rfl, rfl⟩ := hs
  refine wp_seq (sendMessageToAllUploaders_spec .doNothing h.toKnown.newChannel)
    (fun _ m₂ w₂ h₂ => ?_) fun _ _ _ h' => h'.elim
  obtain ⟨h₂, hdraining, hstarted⟩ := h₂
  have hdone : w₂.draining = false := hdraining.trans h.done
  refine (wp_bind _ _).mpr ((wp_modify _).mpr ((wp_bind _ _).mpr ((wp_get).mpr ⟨⟨hdone, ?_⟩,
    fun _ w₃ hs => ?_⟩)))
  · -- messages start no thread
    have hfresh := hstarted w.channels.length
    rw [List.getElem?_concat_length] at hfresh
    obtain ⟨channel, hi, hc⟩ := Option.map_eq_some_iff.mp hfresh
    exact ⟨channel, hi, hc⟩
  · obtain rfl := hs
    refine ⟨Known.spawn (h₂.of_perm ?_), hdone⟩
    unfold senders
    rw [List.append_nil, List.append_assoc]
    exact (List.perm_append_comm.append_left _).trans (by rw [List.append_assoc])

/-! ## 5. The loops -/

theorem reverseWait_idle (fuel : Nat) : ∀ (seconds : Nat) {m : UploaderManager} {w : ChannelsView},
    Idle m w → wp channelsEnv (reverseWait fuel seconds) idle idle m w
  | 0, _, _, h => wp_seq (readReceiver_idle fuel h) (fun _ _ _ h' => h') fun _ _ _ h' => h'
  | seconds + 1, m, w, h => by
    refine wp_seq (readReceiver_idle fuel h) (fun _ m₁ w₁ h₁ => ?_) fun _ _ _ h' => h'
    show wp channelsEnv (if _ then _ else _) _ _ m₁ w₁
    rw [wp_ite]
    split
    · exact h₁
    · refine (wp_bind _ _).mpr ⟨h₁.done, fun _ w₂ hs => ?_⟩
      obtain rfl : w₂ = w₁ := hs
      exact reverseWait_idle fuel seconds h₁

theorem reverseLoop_idle : ∀ (fuel sleep : Nat) {m : UploaderManager} {w : ChannelsView},
    Idle m w → wp channelsEnv (reverseLoop fuel sleep) idle idle m w
  | 0, _, _, _, h => h
  | fuel + 1, sleep, m, w, h => by
    refine wp_seq (idle_unrelated (steady_log trivial).keeps h) (fun _ m₁ w₁ h₁ => ?_)
      fun _ _ _ h' => h'
    refine wp_seq (reverseWait_idle fuel _ h₁) (fun stop m₂ w₂ h₂ => ?_) fun _ _ _ h' => h'
    show wp channelsEnv (if stop = true then _ else _) _ _ m₂ w₂
    rw [wp_ite]
    split
    · exact h₂
    refine wp_seq (sendMessageToAllUploaders_spec .doNothing h₂.toKnown) (fun _ m₃ w₃ h₃ => ?_)
      fun _ _ _ h' => h'.elim
    show wp channelsEnv (startReverseAll _ >>= fun _ => _) _ _ m₃ w₃
    have hidle : Idle m₃ w₃ := ⟨h₃.1, h₃.2.1.trans h₂.done⟩
    exact wp_seq (startReverseAll_idle hidle) (fun _ _ _ h₄ => reverseLoop_idle fuel _ h₄)
      fun _ _ _ h' => h'

/-- A pass over the listeners, with a drain before each of them. -/
theorem acceptAll_idle (fuel : Nat) : ∀ {listeners : List Nat} {m : UploaderManager} {w : ChannelsView},
    Idle m w → wp channelsEnv (acceptAll fuel listeners) idle idle m w
  | [], _, _, h => h
  | listener :: listeners, m, w, h => by
    refine wp_seq (readReceiver_idle fuel h) (fun _ m₁ w₁ h₁ => ?_) fun _ _ _ h' => h'
    show wp channelsEnv (if _ then _ else _) _ _ m₁ w₁
    rw [wp_ite]
    split
    · exact h₁
    refine (wp_bind _ _).mpr ⟨h₁.done, fun a w₂ hs => ?_⟩
    obtain rfl : w₂ = w₁ := hs
    have hnext : ∀ {method : Mgr Unit}, Keeps unrelated senders method →
        wp channelsEnv (method >>= fun _ => acceptAll fuel listeners) idle idle m₁ w₂ :=
      fun hk => wp_seq (idle_unrelated hk h₁) (fun _ _ _ h' => acceptAll_idle fuel h')
        fun _ _ _ h' => h'
    cases a with
    | stream =>
      exact wp_seq (startUploader_idle h₁) (fun _ _ _ h' => acceptAll_idle fuel h') fun _ _ _ h' => h'
    | wouldBlock => exact hnext (keeps_issue trivial)
    | failed e => exact hnext (steady_log trivial).keeps

theorem acceptLoop_idle {listeners : List Nat} : ∀ (fuel : Nat) {m : UploaderManager} {w : ChannelsView},
    Idle m w → wp channelsEnv (acceptLoop listeners fuel) idle idle m w
  | 0, _, _, h => h
  | fuel + 1, m, w, h => by
    refine wp_seq (acceptAll_idle fuel h) (fun stop m₁ w₁ h₁ => ?_) fun _ _ _ h' => h'
    show wp channelsEnv (if stop = true then _ else _) _ _ m₁ w₁
    rw [wp_ite]
    split
    · exact h₁
    · exact acceptLoop_idle fuel h₁

theorem listen_idle {fuel : Nat} {addresses : List SocketAddr} (h : Idle m w) :
    wp channelsEnv (listen fuel addresses) idle idle m w := by
  refine wp_seq (idle_unrelated (steady_bindListeners (fun _ => trivial) addresses).keeps h)
    (fun listeners m₁ w₁ h₁ => ?_) fun _ _ _ h' => h'
  show wp channelsEnv (if listeners = [] then _ else _) _ _ m₁ w₁
  rw [wp_ite]
  split
  · exact h₁
  · exact acceptLoop_idle fuel h₁

/-- Over the rounds of the thread. -/
theorem run_idle : ∀ (fuel : Nat) {m : UploaderManager} {w : ChannelsView},
    Idle m w → wp channelsEnv (run fuel) idle idle m w
  | 0, _, _, h => h
  | fuel + 1, m, w, h => by
    have h₀ : Idle { m with stopIncoming := false } w := ⟨⟨h.nodup, h.connected⟩, h.done⟩
    refine (wp_bind _ _).mpr ?_
    refine wp_seq (readReceiver_idle fuel h₀) (fun _ m₁ w₁ h₁ => ?_) fun _ _ _ h' => h'
    show wp channelsEnv (if _ then _ else _) _ _ m₁ w₁
    rw [wp_ite]
    split
    · refine (wp_bind _ _).mpr ⟨h₁.done, fun _ w₂ hs => ?_⟩
      obtain rfl : w₂ = w₁ := hs
      exact run_idle fuel h₁
    refine wp_seq (idle_unrelated (steady_unwrapAll _).keeps h₁) (fun addresses m₂ w₂ h₂ => ?_)
      fun _ _ _ h' => h'
    show wp channelsEnv (if _ then log >>= fun _ => reverseLoop fuel 1 >>= fun _ => run fuel
      else listen fuel addresses >>= fun _ => run fuel) _ _ m₂ w₂
    rw [wp_ite]
    split
    · refine wp_seq (idle_unrelated (steady_log trivial).keeps h₂)
        (fun _ m₃ w₃ h₃ => ?_) fun _ _ _ h' => h'
      exact wp_seq (reverseLoop_idle fuel 1 h₃) (fun _ _ _ h' => run_idle fuel h') fun _ _ _ h' => h'
    · exact wp_seq (listen_idle h₂) (fun _ _ _ h' => run_idle fuel h') fun _ _ _ h' => h'

/-- **The manager knows its channels**, whatever comes and whatever fails. -/
theorem managerThread_idle (fuel : Nat) : ∀ (n : Nat) {m : UploaderManager} {w : ChannelsView},
    Idle m w → wp channelsEnv (managerThread fuel n) idle idle m w
  | 0, _, _, h => h
  | n + 1, m, w, h => by
    have hrest := fun (_ : Unit) m' w' (h' : Idle m' w') => managerThread_idle fuel n h'
    refine wp_seq ((wp_tryCatch _ _).mpr ?_) hrest fun _ _ _ h' => h'
    refine wp_conseq (wp_seq (run_idle fuel h) (fun _ m' w' h' => ?_) fun _ _ _ h' => h')
      (fun _ _ _ h' => h') fun e m' w' h' => ?_
    · exact (wp_bind _ _).mpr ⟨h'.done, fun never => never.elim⟩
    · cases e with
      | err text =>
        refine (wp_bind _ _).mpr ⟨h'.done, fun _ w₁ hs => ?_⟩
        obtain rfl : w₁ = w' := hs
        refine ⟨h'.done, fun _ w₂ hs => ?_⟩
        obtain rfl : w₂ = w₁ := hs
        exact h'
      | panic => exact h'
      | fuel => exact h'

end Sends

end UploaderManager

end Transmitic
