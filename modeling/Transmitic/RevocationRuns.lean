/-
  File:      Transmitic/RevocationRuns.lean
  Subject:   REVOCATION IN EVERY RUN of the manager and its uploaders, in any order of their turns.

  What is known of the manager (it knows its channels) and what is known of an uploader (it keeps within
  what it may do) are kept by every turn of everyone.

  * `Watched` -- what is known of an uploader;
  * `Prompt` -- what is known of the system; `Prompt.step` -- **a turn keeps it**;
  * `revocation_prompt` -- **once a message is processed every uploader there was begins at most one more
    message and comes to its end**.
-/
import Transmitic.ConfigDir
import Transmitic.DownloaderCommands
import Transmitic.ManagerChannels
import Transmitic.PromptRevocation

namespace Transmitic

open Lib
open UploaderManager (ChannelsView Channel Connected channelsEnv channelsOk ChannelsStep idle)
open SingleUploader (lastCommands)

variable {K : Suite}

/-! ## 1. One uploader -/

namespace Uploader

/-- What the manager has to know of its channel. -/
def view (u : Uploader K) : Channel := { connected := u.connected, started := u.config.isSome }

/-- After a command of its own. -/
def after (u : Uploader K) :
    (c : Wire ⊕ UploaderCmd K) → Ans (@UploaderCmd.Ans K) c → Uploader K
  | .inl (.seal _ plain), _ => { u.issued with sealed := u.sealed ++ [plain] }
  | .inr .tryRecv, .value _ => { u with taken := u.taken + 1 }
  | _, _ => u.issued

/-- What the channel of an uploader answers it. -/
def Answers (u : Uploader K) :
    (c : Wire ⊕ UploaderCmd K) → Ans (@UploaderCmd.Ans K) c → Prop
  | .inr .tryRecv, .value _ => u.taken < u.posted.length
  | .inr .tryRecv, .empty => u.connected = true
  | _, _ => True

/-- A turn is one command, or one message off the channel. -/
def moves (u : Uploader K) : Nat := u.commands + u.taken

/-- What no turn of the uploader changes. -/
def fixed (u : Uploader K) : Bool × Option Config × List MessageSingleUploader × Option (UpProgram K) :=
  (u.connected, u.config, u.posted, u.program)

section After

variable {u : Uploader K} {c : Wire ⊕ UploaderCmd K} {a : Ans (@UploaderCmd.Ans K) c}

theorem fixed_after : (u.after c a).fixed = u.fixed := by
  unfold after
  split <;> rfl

theorem moves_after : (u.after c a).moves = u.moves + 1 := by
  unfold after
  split
  · show u.commands + 1 + u.taken = u.commands + u.taken + 1
    omega
  · rfl
  · show u.commands + 1 + u.taken = u.commands + u.taken + 1
    omega

theorem taken_after (h : u.Answers c a) (hu : u.taken ≤ u.posted.length) :
    (u.after c a).taken ≤ u.posted.length := by
  unfold after
  split
  · exact hu
  · exact h
  · exact hu

end After

end Uploader

/-- `watch` is of this uploader. -/
structure Watched (u : Uploader K) (watch : Watch) : Prop where
  revoked : watch.revoked.isSome = !u.connected
  scan : scanFrames u.sealed = (watch.writes, watch.pending)
  commands : u.commands = watch.commands
  taken : u.taken ≤ u.posted.length
  /-- It has not been started. -/
  unused : u.config = none → u.program = none ∧ u.sealed = [] ∧ u.commands = 0
  since : ∀ writes commands, watch.revoked = some (writes, commands) →
    writes ≤ watch.writes ∧ commands ≤ watch.commands
  within : ∀ config, u.config = some config → ∀ writes commands,
    watch.revoked = some (writes, commands) →
      watch.writes ≤ writes + 1 ∧ watch.commands ≤ commands + lastCommands config
  holds : ∀ config p, u.config = some config → u.program = some p →
    p.Holds (watchAmong (lastCommands config)) SingleUploader.anyEnd SingleUploader.anyEnd watch

namespace Watched

variable {u : Uploader K} {watch : Watch}

theorem new : Watched (Uploader.new : Uploader K) ⟨none, 0, false, 0⟩ where
  revoked := rfl
  scan := rfl
  commands := rfl
  taken := Nat.le_refl 0
  unused _ := ⟨rfl, rfl, rfl⟩
  since _ _ h := nomatch h
  within _ h := nomatch h
  holds _ _ h := nomatch h

/-- A message is sent to it. -/
theorem posted (h : Watched u watch) (m : MessageSingleUploader) :
    Watched { u with posted := u.posted ++ [m] } watch where
  revoked := h.revoked
  scan := h.scan
  commands := h.commands
  taken := by
    rw [List.length_append]
    exact Nat.le_add_right_of_le h.taken
  unused := h.unused
  since := h.since
  within := h.within
  holds := h.holds

/-- It lets go of its receiver. -/
theorem ended (h : Watched u watch) : Watched { u with received := false } watch :=
  ⟨h.revoked, h.scan, h.commands, h.taken, h.unused, h.since, h.within, h.holds⟩

/-- The watch after the sender was dropped. -/
def dropped (watch : Watch) : Watch :=
  match watch.revoked with
  | none => { watch with revoked := some (watch.writes, watch.commands) }
  | some _ => watch

theorem others_dropped : watch.Others (dropped watch) := by
  unfold dropped
  split
  · rename_i h
    exact .inr ⟨h, rfl⟩
  · exact .inl rfl

theorem revoked_dropped {since : Nat × Nat} (h : watch.revoked = some since) :
    (dropped watch).revoked = some since := by
  unfold dropped
  rw [h]
  exact h

/-- **The sender is dropped**: what the uploader may still do is what it may do from now on. -/
theorem drop (h : Watched u watch) : Watched { u with connected := false } (dropped watch) := by
  have hholds : ∀ config p, u.config = some config → u.program = some p →
      p.Holds (watchAmong (lastCommands config)) SingleUploader.anyEnd SingleUploader.anyEnd
        (dropped watch) := fun config p hconfig hp =>
    (h.holds config p hconfig hp).interfere Watch.interference (fun _ _ _ _ _ _ => trivial)
      (fun _ _ _ _ _ _ => trivial) others_dropped
  unfold dropped at hholds ⊢
  split
  · rename_i hr
    rw [hr] at hholds
    refine ⟨rfl, h.scan, h.commands, h.taken, h.unused, fun writes commands hs => ?_,
      fun config _ writes commands hs => ?_, hholds⟩
    · obtain ⟨rfl, rfl⟩ := Prod.mk.inj (Option.some.inj hs)
      exact ⟨Nat.le_refl _, Nat.le_refl _⟩
    · obtain ⟨rfl, rfl⟩ := Prod.mk.inj (Option.some.inj hs)
      exact ⟨Nat.le_add_right _ _, Nat.le_add_right _ _⟩
  · rename_i since hr
    rw [hr] at hholds
    exact ⟨by rw [hr]; rfl, h.scan, h.commands, h.taken, h.unused, h.since, h.within, hholds⟩

/-- **It is started**, within what it may do. -/
theorem started [Crates] {fuel : Nat} {reverseUser : Option SharedUser}
    {encryptedStream : EncryptedStream} {reverseFileList : Nat} {config : Config}
    (h : Watched u watch) (hu : u.config = none) :
    Watched (K := K) { u with
      reverseFileList
      config := some config
      program := some (spawned fuel reverseUser
        { self := SingleUploader.new config, encryptedStream }) } watch := by
  obtain ⟨-, hsealed, hcommands⟩ := h.unused hu
  have hscan := h.scan
  rw [hsealed] at hscan
  obtain ⟨hwrites, hpending⟩ := Prod.mk.inj hscan
  have hzero : watch.commands = 0 := h.commands ▸ hcommands
  have hsince : ∀ writes commands, watch.revoked = some (writes, commands) → writes = 0 ∧ commands = 0 := by
    intro writes commands hr
    obtain ⟨hw, hc⟩ := h.since writes commands hr
    rw [← hwrites] at hw
    rw [hzero] at hc
    exact ⟨Nat.le_zero.mp hw, Nat.le_zero.mp hc⟩
  refine ⟨h.revoked, h.scan, h.commands, h.taken, (nomatch ·), h.since, ?_, ?_⟩
  · intro config' _ writes commands hr
    rw [← hwrites, hzero]
    exact ⟨Nat.zero_le _, Nat.zero_le _⟩
  · intro config' p hconfig hp
    cases hconfig
    cases hp
    refine SingleUploader.room_spawned fuel reverseUser rfl ⟨⟨Nat.le_refl _, fun n c hr => ?_⟩,
      hpending.symm, fun n c hr => ?_⟩
    · obtain ⟨-, rfl⟩ := hsince n c hr
      rw [hzero]
    · rw [← hwrites]
      exact Nat.zero_le _

/-- The watch after a command. -/
def next (watch : Watch) : (c : Wire ⊕ UploaderCmd K) → Ans (@UploaderCmd.Ans K) c → Watch
  | .inl (.seal _ plain), _ => watch.sealed plain
  | .inr .tryRecv, .value _ => watch
  | _, _ => watch.issued

theorem revoked_next {c : Wire ⊕ UploaderCmd K} {a : Ans (@UploaderCmd.Ans K) c} :
    (next watch c a).revoked = watch.revoked := by
  unfold next
  split <;> rfl

/-- Where the sender is there it was not dropped. -/
theorem revoked_none (h : Watched u watch) (hu : u.connected = true) : watch.revoked = none := by
  have hr := h.revoked
  rw [hu] at hr
  exact Option.isSome_eq_false_iff.mp hr |> Option.isNone_iff_eq_none.mp

theorem step_next {bound : Nat} {t : Thread SingleUploader} {c : Wire ⊕ UploaderCmd K}
    {a : Ans (@UploaderCmd.Ans K) c} (h : Watched u watch) (ha : u.Answers c a) :
    (watchEnv bound).step watch t c a (next watch c a) := by
  rcases c with (⟨n, plain⟩ | ⟨n, size⟩) | c
  · rfl
  · rfl
  · cases c with
    | tryRecv =>
      cases a with
      | value m => rfl
      | empty => exact ⟨h.revoked_none ha, rfl⟩
      | disconnected => rfl
    | _ => rfl

theorem commands_next {c : Wire ⊕ UploaderCmd K} {a : Ans (@UploaderCmd.Ans K) c}
    (h : u.commands = watch.commands) : (u.after c a).commands = (next watch c a).commands ∧
      watch.commands ≤ (next watch c a).commands ∧ (next watch c a).commands ≤ watch.commands + 1 := by
  unfold Uploader.after next
  split
  · exact ⟨congrArg (· + 1) h, Nat.le_succ _, Nat.le_refl _⟩
  · exact ⟨h, Nat.le_refl _, Nat.le_succ _⟩
  · exact ⟨congrArg (· + 1) h, Nat.le_succ _, Nat.le_refl _⟩

theorem scan_next {c : Wire ⊕ UploaderCmd K} {a : Ans (@UploaderCmd.Ans K) c}
    (h : scanFrames u.sealed = (watch.writes, watch.pending)) :
    scanFrames (u.after c a).sealed = ((next watch c a).writes, (next watch c a).pending) := by
  unfold Uploader.after next
  split
  · rename_i n plain _
    show scanFrames (u.sealed ++ [plain]) = _
    rw [scanFrames_append, h]
    show (if watch.pending = true then _ else _) = ((if _ then _ else _), if _ then _ else _)
    split <;> rfl
  · exact h
  · exact h

/-- A command begins a message at most, and only if it may. -/
theorem writes_next {c : Wire ⊕ UploaderCmd K} {a : Ans (@UploaderCmd.Ans K) c} {writes : Nat}
    (hmay : ∀ n plain, c = .inl (.seal n plain) → watch.pending = false → watch.writes ≤ writes)
    (h : watch.writes ≤ writes + 1) :
    watch.writes ≤ (next watch c a).writes ∧ (next watch c a).writes ≤ writes + 1 := by
  unfold next
  split
  · rename_i n plain _
    have hmay := hmay n plain rfl
    show watch.writes ≤ (if _ then _ else _) ∧ (if _ then _ else _) ≤ writes + 1
    split
    · exact ⟨Nat.le_refl _, h⟩
    · rename_i hpending
      have hle := hmay (by simpa using hpending)
      exact ⟨Nat.le_succ _, Nat.succ_le_succ hle⟩
  · exact ⟨Nat.le_refl _, h⟩
  · exact ⟨Nat.le_refl _, h⟩

/-- **Its turn**: it keeps within what it may do. -/
theorem turn {t : Thread SingleUploader} {c : Wire ⊕ UploaderCmd K}
    {k : Ans (@UploaderCmd.Ans K) c → UpProgram K} {a : Ans (@UploaderCmd.Ans K) c}
    (h : Watched u watch) (hp : u.program = some (.call t c k)) (ha : u.Answers c a) :
    Watched { u.after c a with program := some (k a) } (next watch c a) := by
  obtain ⟨config, hconfig⟩ : ∃ config, u.config = some config := by
    cases hc : u.config with
    | some config => exact ⟨config, rfl⟩
    | none =>
      rw [(h.unused hc).1] at hp
      cases hp
  have hfixed := u.fixed_after (c := c) (a := a)
  unfold Uploader.fixed at hfixed
  simp only [Prod.mk.injEq] at hfixed
  obtain ⟨hconnected, hconfig', hposted, -⟩ := hfixed
  obtain ⟨hok, hrest⟩ := (h.holds config _ hconfig hp).issue Watch.interference
  obtain ⟨hcommands, hmore, hless⟩ := commands_next (a := a) h.commands
  refine ⟨?_, scan_next h.scan, hcommands, ?_, fun hnone => ?_, fun writes commands hr => ?_,
    fun config' hc writes commands hr => ?_, fun config' p hc hp' => ?_⟩
  · rw [revoked_next, h.revoked]
    exact congrArg _ hconnected.symm
  · show (u.after c a).taken ≤ (u.after c a).posted.length
    rw [hposted]
    exact Uploader.taken_after ha h.taken
  · exact absurd (hconfig'.symm.trans hnone) (by rw [hconfig]; exact nofun)
  · rw [revoked_next] at hr
    obtain ⟨hw, hc⟩ := h.since writes commands hr
    obtain ⟨hw', -⟩ := h.within config hconfig writes commands hr
    have hgrow := writes_next (a := a) (fun n plain he hpending => hok.2 n plain he hpending _ _ hr) hw'
    exact ⟨hw.trans hgrow.1, hc.trans hmore⟩
  · rw [revoked_next] at hr
    obtain rfl : config = config' := Option.some.inj ((hconfig.symm.trans hconfig'.symm).trans hc)
    obtain ⟨hw', -⟩ := h.within config hconfig writes commands hr
    have hgrow := writes_next (a := a) (fun n plain he hpending => hok.2 n plain he hpending _ _ hr) hw'
    have hpay := hok.1 writes commands hr
    exact ⟨hgrow.2, hless.trans hpay⟩
  · obtain rfl : config = config' := Option.some.inj ((hconfig.symm.trans hconfig'.symm).trans hc)
    cases hp'
    exact hrest a _ (h.step_next ha)

end Watched

/-! ## 2. All uploaders -/

/-- Whose turn it was, for the count of an uploader's turns. -/
def UploadTurn.isOf (i : Nat) : UploadTurn K → Bool
  | .thread j _ _ _ => j = i
  | _ => false

/-- An uploader goes on, with `n` turns of its own. Without a sender it gets no message. -/
structure GoesOn (n : Nat) (u u' : Uploader K) : Prop where
  config : ∀ config, u.config = some config → u'.config = some config
  gone : u.connected = false → u'.connected = false ∧ u'.posted = u.posted
  moves : u'.moves = u.moves + n

namespace GoesOn

variable {n n' : Nat} {u u' u'' : Uploader K}

theorem refl (u : Uploader K) : GoesOn 0 u u := ⟨fun _ h => h, fun h => ⟨h, rfl⟩, rfl⟩

theorem trans (h : GoesOn n u u') (h' : GoesOn n' u' u'') : GoesOn (n + n') u u'' := by
  refine ⟨fun c hc => h'.config c (h.config c hc), fun hu => ?_, ?_⟩
  · obtain ⟨hgone, hposted⟩ := h.gone hu
    obtain ⟨hgone', hposted'⟩ := h'.gone hgone
    exact ⟨hgone', hposted'.trans hposted⟩
  · have hmoves := h.moves
    have hmoves' := h'.moves
    omega

end GoesOn

/-- All uploaders and what is known of them. -/
def AllWatched (uploaders : List (Uploader K)) (watches : Nat → Watch) : Prop :=
  ∀ i u, uploaders[i]? = some u → Watched u (watches i)

/-- The uploaders go on, `moves i` is how many turns uploader `i` had; what was dropped was dropped
    then. -/
def Carried (moves : Nat → Nat) (uploaders uploaders' : List (Uploader K)) (watches watches' : Nat → Watch) :
    Prop :=
  ∀ i u, uploaders[i]? = some u → ∃ u', uploaders'[i]? = some u' ∧ GoesOn (moves i) u u' ∧
    ∀ since, (watches i).revoked = some since → (watches' i).revoked = some since

section Lists

variable {uploaders uploaders' : List (Uploader K)} {watches : Nat → Watch} {i : Nat} {u : Uploader K}

theorem carried_refl : Carried (fun _ => 0) uploaders uploaders watches watches :=
  fun _ u hu => ⟨u, hu, GoesOn.refl u, fun _ h => h⟩

/-- One uploader changes. -/
theorem allWatched_modify {f : Uploader K → Uploader K} {watch : Watch} {n : Nat}
    (h : AllWatched uploaders watches) (hi : uploaders[i]? = some u) (hw : Watched (f u) watch)
    (hgo : GoesOn n u (f u)) (hsince : ∀ since, (watches i).revoked = some since →
      watch.revoked = some since) :
    AllWatched (uploaders.modify i f) (Function.update watches i watch) ∧
      Carried (fun j => if j = i then n else 0) uploaders (uploaders.modify i f) watches
        (Function.update watches i watch) := by
  constructor
  · intro j v hj
    rw [List.getElem?_modify, Option.map_eq_map] at hj
    by_cases hji : j = i
    · subst hji
      rw [hi] at hj
      simp only [Option.map_some, if_pos, Option.some.injEq] at hj
      subst hj
      rw [Function.update_self]
      exact hw
    · rw [Function.update_of_ne hji]
      simp only [if_neg (Ne.symm hji), Option.map_id'] at hj
      exact h j v hj
  · intro j v hj
    rw [List.getElem?_modify, Option.map_eq_map, hj]
    by_cases hji : j = i
    · subst hji
      obtain rfl : u = v := Option.some.inj (hi.symm.trans hj)
      refine ⟨f u, by simp, by simpa using hgo, ?_⟩
      rw [Function.update_self]
      exact hsince
    · refine ⟨v, by simp [Ne.symm hji], by simpa [hji] using GoesOn.refl v, ?_⟩
      rw [Function.update_of_ne hji]
      exact fun _ h' => h'

/-- One uploader more. -/
theorem allWatched_append {watch : Watch} (h : AllWatched uploaders watches) (hw : Watched u watch) :
    AllWatched (uploaders ++ [u]) (Function.update watches uploaders.length watch) ∧
      Carried (fun _ => 0) uploaders (uploaders ++ [u]) watches
        (Function.update watches uploaders.length watch) := by
  have hold : ∀ j v, uploaders[j]? = some v → j < uploaders.length := fun j v hj =>
    (List.getElem?_eq_some_iff.mp hj).1
  constructor
  · intro j v hj
    by_cases hji : j = uploaders.length
    · subst hji
      rw [List.getElem?_concat_length] at hj
      cases hj
      rw [Function.update_self]
      exact hw
    · rw [Function.update_of_ne hji]
      have hlt : j < uploaders.length := by
        have hle := (List.getElem?_eq_some_iff.mp hj).1
        rw [List.length_append, List.length_singleton] at hle
        omega
      rw [List.getElem?_append_left hlt] at hj
      exact h j v hj
  · intro j v hj
    have hlt := hold j v hj
    refine ⟨v, by rw [List.getElem?_append_left hlt]; exact hj, GoesOn.refl v, ?_⟩
    rw [Function.update_of_ne (Nat.ne_of_lt hlt)]
    exact fun _ h' => h'

end Lists

/-! ## 3. One turn -/

/-- What the manager has to know. -/
def UploadWorld.view (w : UploadWorld K) (draining : Bool) : ChannelsView :=
  { channels := w.uploaders.map Uploader.view, draining }

section Turns

variable {w w' : UploadWorld K} {i : Nat} {u : Uploader K} {watches : Nat → Watch} {draining : Bool}

theorem connected_view : Connected (w.view draining).channels i ↔
    ∃ u, w.uploaders[i]? = some u ∧ u.connected = true := by
  unfold Connected UploadWorld.view
  rw [List.getElem?_map]
  constructor
  · intro h
    obtain ⟨channel, hi, hc⟩ := h
    obtain ⟨u, hu, rfl⟩ := Option.map_eq_some_iff.mp hi
    exact ⟨u, hu, hc⟩
  · intro h
    obtain ⟨u, hu, hc⟩ := h
    exact ⟨u.view, by rw [hu]; rfl, hc⟩

/-- A change of an uploader that changes its channel, seen from the manager. -/
theorem view_update (draining : Bool) {f : Uploader K → Uploader K} {g : Channel → Channel}
    (h : ∀ u, (f u).view = g u.view) :
    ((w.update i f).view draining).channels = (w.view draining).channels.modify i g := by
  unfold UploadWorld.update UploadWorld.view
  refine List.ext_getElem? fun j => ?_
  simp only [List.getElem?_map, List.getElem?_modify, Option.map_eq_map, Option.map_map]
  congr 1
  funext u
  by_cases hij : i = j
  · simp [hij, h]
  · simp [hij]

/-- An uploader whose channel stays as it is. -/
theorem view_same (draining : Bool) {f : Uploader K → Uploader K} (hi : w.uploaders[i]? = some u)
    (h : (f u).view = u.view) : (w.update i f).view draining = w.view draining := by
  unfold UploadWorld.update UploadWorld.view
  congr 1
  refine List.ext_getElem? fun j => ?_
  simp only [List.getElem?_map, List.getElem?_modify, Option.map_eq_map, Option.map_map]
  by_cases hij : i = j
  · subst hij
    simp [hi, h]
  · simp [hij, Function.comp_def]

theorem modify_const {f : Uploader K → Uploader K} {v : Uploader K} (hi : w.uploaders[i]? = some u)
    (hv : v = f u) : w.uploaders.modify i (fun _ => v) = w.uploaders.modify i f := by
  refine List.ext_getElem? fun j => ?_
  simp only [List.getElem?_modify, Option.map_eq_map]
  by_cases hij : i = j
  · subst hij
    simp [hi, hv]
  · simp [hij]

/-- A command of an uploader changes it alone. -/
theorem threadStep_spec {c : Wire ⊕ UploaderCmd K} {a : Ans (@UploaderCmd.Ans K) c}
    (hi : w.uploaders[i]? = some u) (h : w.ThreadStep i u c a w') :
    w'.uploaders = w.uploaders.modify i (fun u => u.after c a) ∧ u.Answers c a := by
  rcases c with (⟨n, plain⟩ | ⟨n, size⟩) | c
  · exact ⟨congrArg UploadWorld.uploaders h, trivial⟩
  · exact ⟨congrArg UploadWorld.uploaders h, trivial⟩
  · cases c with
    | tryRecv =>
      obtain ⟨u', ha, rfl⟩ := h
      cases a with
      | value m =>
        obtain ⟨hm, rfl⟩ := ha
        refine ⟨modify_const hi rfl, ?_⟩
        unfold Uploader.inbox at hm
        rw [List.head?_drop] at hm
        exact (List.getElem?_eq_some_iff.mp hm).1
      | empty =>
        obtain ⟨-, hconnected, rfl⟩ := ha
        exact ⟨modify_const hi rfl, hconnected⟩
      | disconnected =>
        obtain ⟨-, -, rfl⟩ := ha
        exact ⟨modify_const hi rfl, trivial⟩
    | reverseListContains nickname => exact ⟨congrArg UploadWorld.uploaders h.2, trivial⟩
    | reverseListPush nickname => exact ⟨congrArg UploadWorld.uploaders h, trivial⟩
    | _ => exact ⟨congrArg UploadWorld.uploaders h, trivial⟩

/-- What one command of the manager leaves. -/
structure ManagerTurn (w w' : UploadWorld K) (watches : Nat → Watch) (draining : Bool) (c : ManagerCmd)
    (a : c.Ans) : Prop where
  view : ∃ draining', ChannelsStep (w.view draining) c a (w'.view draining')
  watched : ∃ watches', AllWatched w'.uploaders watches' ∧
    Carried (fun _ => 0) w.uploaders w'.uploaders watches watches'

/-- A command that has to do with no uploader. -/
theorem managerTurn_same {c : ManagerCmd} {a : c.Ans} (h : AllWatched w.uploaders watches)
    (hw : w'.uploaders = w.uploaders)
    (hview : ∃ draining', ChannelsStep (w.view draining) c a (w.view draining')) :
    ManagerTurn w w' watches draining c a := by
  have hsame : ∀ d, w'.view d = w.view d := fun d => by
    unfold UploadWorld.view
    rw [hw]
  obtain ⟨d, hd⟩ := hview
  refine ⟨⟨d, by rw [hsame]; exact hd⟩, watches, ?_, ?_⟩
  · rw [hw]
    exact h
  · rw [hw]
    exact carried_refl

/-- A command about one uploader. -/
theorem managerTurn_update {c : ManagerCmd} {a : c.Ans} {f : Uploader K → Uploader K} {watch : Watch}
    (h : AllWatched w.uploaders watches) (hi : w.uploaders[i]? = some u) (hw : Watched (f u) watch)
    (hgo : GoesOn 0 u (f u))
    (hsince : ∀ since, (watches i).revoked = some since → watch.revoked = some since)
    (hview : ChannelsStep (w.view draining) c a ((w.update i f).view draining)) :
    ManagerTurn w (w.update i f) watches draining c a := by
  obtain ⟨hall, hcarried⟩ := allWatched_modify h hi hw hgo hsince
  refine ⟨⟨draining, hview⟩, _, hall, fun j v hj => ?_⟩
  obtain ⟨v', hj', hgo', hsince'⟩ := hcarried j v hj
  refine ⟨v', hj', ?_, hsince'⟩
  simpa using hgo'

theorem managerStep_spec [Crates] {m : UploaderManager} {c : ManagerCmd} {a : c.Ans}
    (h : AllWatched w.uploaders watches) (hok : channelsEnv.ok (w.view draining) m c)
    (hs : w.ManagerStep c a w') : ManagerTurn w w' watches draining c a := by
  cases c with
  | tryRecv =>
    cases a with
    | value message =>
      obtain ⟨-, rfl⟩ := hs
      exact managerTurn_same h rfl ⟨true, rfl⟩
    | empty =>
      obtain ⟨-, rfl⟩ := hs
      exact managerTurn_same h rfl ⟨draining, rfl⟩
    | disconnected => exact hs.elim
  | send i message =>
    obtain ⟨u, hi, -, rfl⟩ := hs
    split
    · -- it has a sender
      obtain ⟨v, hv, hconnected⟩ := connected_view.mp hok
      obtain rfl : u = v := Option.some.inj (hi.symm.trans hv)
      refine managerTurn_update h hi ((h i u hi).posted message) ⟨fun _ hc => hc, fun hgone => ?_, rfl⟩
        (fun _ hr => hr) (view_same draining hi rfl)
      rw [hconnected] at hgone
      cases hgone
    · exact managerTurn_same h rfl ⟨draining, rfl⟩
  | dropSender i =>
    obtain rfl : w' = _ := hs
    have hview : ChannelsStep (w.view draining) (.dropSender i) a
        ((w.update i fun u => { u with connected := false }).view draining) := by
      have hchannels := view_update (w := w) (i := i) draining
        (f := fun u => { u with connected := false })
        (g := fun channel => { channel with connected := false }) fun _ => rfl
      exact congrArg (fun channels => { channels, draining : ChannelsView }) hchannels
    cases hi : w.uploaders[i]? with
    | none =>
      have hnone : (w.update i fun u => { u with connected := false }).uploaders = w.uploaders := by
        show w.uploaders.modify i _ = _
        exact List.modify_eq_self (List.getElem?_eq_none_iff.mp hi)
      refine managerTurn_same h hnone ⟨draining, ?_⟩
      have hsame : (w.update i fun u => { u with connected := false }).view draining = w.view draining := by
        unfold UploadWorld.view
        rw [hnone]
      rw [hsame] at hview
      exact hview
    | some u =>
      exact managerTurn_update h hi (h i u hi).drop ⟨fun _ hc => hc, fun _ => ⟨rfl, rfl⟩, rfl⟩
        (fun _ hr => Watched.revoked_dropped hr) hview
  | newReverseList =>
    obtain ⟨-, rfl⟩ := hs
    exact managerTurn_same h rfl ⟨false, rfl⟩
  | newChannel =>
    obtain ⟨rfl, rfl⟩ := hs
    obtain ⟨hall, hcarried⟩ := allWatched_append h Watched.new
    refine ⟨⟨draining, ?_, ?_⟩, _, hall, hcarried⟩
    · exact (List.length_map _).symm
    · exact congrArg (fun channels => { channels, draining : ChannelsView }) List.map_append
  | spawn i user list config =>
    obtain ⟨u, fuel, encryptedStream, hi, hnone, rfl⟩ := hs
    refine managerTurn_update h hi ((h i u hi).started hnone) ⟨fun _ hc => ?_, fun hgone => ⟨hgone, rfl⟩,
      rfl⟩ (fun _ hr => hr) ?_
    · rw [hnone] at hc
      cases hc
    · have hchannels := view_update (w := w) (i := i) draining
        (f := fun u => { u with
          reverseFileList := list
          config := some config
          program := some (spawned fuel user { self := SingleUploader.new config, encryptedStream }) })
        (g := fun channel => { channel with started := true }) fun _ => rfl
      exact congrArg (fun channels => { channels, draining : ChannelsView }) hchannels
  | postSelf message =>
    obtain rfl : w' = _ := hs
    exact managerTurn_same h rfl ⟨draining, rfl⟩
  | _ =>
    obtain rfl : w' = w := hs
    exact managerTurn_same h rfl ⟨draining, rfl⟩

end Turns

/-! ## 4. Every run -/

section Runs

variable [Crates] {s s' : UploadSystem K} {watches : Nat → Watch} {draining : Bool}

/-- What is known of the system: the manager knows its channels, and every uploader keeps within what it
    may do. -/
structure Prompt (s : UploadSystem K) (draining : Bool) (watches : Nat → Watch) : Prop where
  manager : s.manager.Holds channelsEnv idle idle (s.world.view draining)
  uploaders : AllWatched s.world.uploaders watches

omit [Crates] in
theorem prompt_start (fuel n : Nat) (config : Config) :
    Prompt (UploadSystem.start fuel n config : UploadSystem K) false fun _ => ⟨none, 0, false, 0⟩ where
  manager := by
    refine UploaderManager.managerThread_idle fuel n ⟨⟨List.nodup_nil, fun i => ⟨fun h => ?_, fun h => ?_⟩⟩,
      rfl⟩
    · obtain ⟨channel, hi, -⟩ := h
      cases hi
    · simp [UploaderManager.senders, UploaderManager.new] at h
  uploaders i u hi := by cases hi

/-- What a turn is to the manager. -/
def UploadTurn.Seen (w w' : ChannelsView) : UploadTurn K → Prop
  | .manager _ c a => ChannelsStep w c a w'
  | _ => w' = w

/-- **A turn keeps what is known.** -/
theorem Prompt.step {turn : UploadTurn K} (h : Prompt s draining watches) (hs : s.Step turn s') :
    ∃ draining' watches', Prompt s' draining' watches' ∧
      turn.Seen (s.world.view draining) (s'.world.view draining') ∧
      Carried (fun i => if turn.isOf i then 1 else 0) s.world.uploaders s'.world.uploaders watches
        watches' := by
  cases hs with
  | manager m c k a w hmanager hstep =>
    have hholds := h.manager
    rw [hmanager] at hholds
    obtain ⟨hok, hrest⟩ := hholds
    obtain ⟨⟨draining', hview⟩, watches', hwatched, hcarried⟩ := managerStep_spec h.uploaders hok hstep
    exact ⟨draining', watches', ⟨hrest a _ hview, hwatched⟩, hview, hcarried⟩
  | thread i u t c k a w hi hprogram hstep =>
    obtain ⟨huploaders, hanswers⟩ := threadStep_spec hi hstep
    have hwatched := (h.uploaders i u hi).turn hprogram hanswers
    have hfixed := u.fixed_after (c := c) (a := a)
    unfold Uploader.fixed at hfixed
    simp only [Prod.mk.injEq] at hfixed
    obtain ⟨hconnected, hconfig, hposted, -⟩ := hfixed
    have hgo : GoesOn 1 u { u.after c a with program := some (k a) } :=
      ⟨fun _ hc => hconfig.trans hc, fun hgone => ⟨hconnected.trans hgone, hposted⟩, Uploader.moves_after⟩
    have hworld : (w.update i fun u => { u with program := some (k a) }).uploaders =
        s.world.uploaders.modify i fun u => { u.after c a with program := some (k a) } := by
      show w.uploaders.modify i _ = _
      rw [huploaders, List.modify_modify_eq]
      rfl
    obtain ⟨hall, hcarried⟩ := allWatched_modify (f := fun u => { u.after c a with program := some (k a) })
      h.uploaders hi hwatched hgo fun _ hr => Watched.revoked_next.trans hr
    have hview : ∀ d, (w.update i fun u => { u with program := some (k a) }).view d = s.world.view d := by
      intro d
      have hsame := view_same (w := s.world) d hi
        (f := fun u => { u.after c a with program := some (k a) }) (by
          unfold Uploader.view
          rw [show (u.after c a).connected = u.connected from hconnected,
            show (u.after c a).config = u.config from hconfig])
      rw [← hsame]
      unfold UploadWorld.view
      rw [hworld]
      rfl
    refine ⟨draining, Function.update watches i (Watched.next (watches i) c a), ⟨?_, ?_⟩, hview draining,
      fun j v hj => ?_⟩
    · rw [hview]
      exact h.manager
    · show AllWatched (w.update i fun u => { u with program := some (k a) }).uploaders _
      rw [hworld]
      exact hall
    · show ∃ v', (w.update i fun u => { u with program := some (k a) }).uploaders[j]? = some v' ∧ _
      rw [hworld]
      obtain ⟨v', hj', hgo', hsince⟩ := hcarried j v hj
      refine ⟨v', hj', ?_, hsince⟩
      have hof : (if (UploadTurn.thread i t c a).isOf j = true then 1 else 0) = if j = i then 1 else 0 := by
        simp [UploadTurn.isOf, eq_comm]
      show GoesOn (if (UploadTurn.thread i t c a).isOf j = true then 1 else 0) v v'
      rw [hof]
      exact hgo'
  | ended i u p hi hprogram hend =>
    have hgo : GoesOn 0 u { u with received := false } := ⟨fun _ hc => hc, fun hgone => ⟨hgone, rfl⟩, rfl⟩
    obtain ⟨hall, hcarried⟩ := allWatched_modify (f := fun u => { u with received := false }) h.uploaders hi
      (h.uploaders i u hi).ended hgo fun _ hr => hr
    have hview := view_same (w := s.world) draining hi
      (f := fun u => { u with received := false }) rfl
    refine ⟨draining, _, ⟨?_, hall⟩, hview, fun j v hj => ?_⟩
    · rw [hview]
      exact h.manager
    · obtain ⟨v', hj', hgo', hsince⟩ := hcarried j v hj
      exact ⟨v', hj', by simpa [UploadTurn.isOf] using hgo', hsince⟩
  | posted m => exact ⟨draining, watches, ⟨h.manager, h.uploaders⟩, rfl, carried_refl⟩

/-- A turn keeps what is known, so a run does. -/
theorem Prompt.run {turns : List (UploadTurn K)} (h : Prompt s draining watches) (hr : s.Run turns s') :
    ∃ draining' watches', Prompt s' draining' watches' ∧
      Carried (fun i => turns.countP (UploadTurn.isOf i)) s.world.uploaders s'.world.uploaders watches
        watches' := by
  induction hr with
  | start => exact ⟨draining, watches, h, carried_refl⟩
  | step turns s₁ s₂ turn hrun hs ih =>
    obtain ⟨draining₁, watches₁, h₁, hcarried₁⟩ := ih
    obtain ⟨draining₂, watches₂, h₂, -, hcarried₂⟩ := h₁.step hs
    refine ⟨draining₂, watches₂, h₂, fun i u hi => ?_⟩
    obtain ⟨u₁, hi₁, hgo₁, hsince₁⟩ := hcarried₁ i u hi
    obtain ⟨u₂, hi₂, hgo₂, hsince₂⟩ := hcarried₂ i u₁ hi₁
    refine ⟨u₂, hi₂, ?_, fun since hr => hsince₂ since (hsince₁ since hr)⟩
    have hcount : (turns ++ [turn]).countP (UploadTurn.isOf i) =
        turns.countP (UploadTurn.isOf i) + if turn.isOf i then 1 else 0 := by
      rw [List.countP_append, List.countP_singleton]
    show GoesOn ((turns ++ [turn]).countP (UploadTurn.isOf i)) u u₂
    rw [hcount]
    exact hgo₁.trans hgo₂

/-- The part of a message that is a reset. -/
def ManagerCmd.ofReset : ManagerCmd → Prop
  | .send _ _ => True
  | .dropSender _ => True
  | .newReverseList => True
  | _ => False

/-- The manager is done with all messages it has received, so it asks for something else. -/
def UploadSystem.Processed (s : UploadSystem K) : Prop :=
  ∃ c, s.manager.issued = some c ∧ ¬ c.ofReset

omit [Crates] in
/-- Done with all messages, in what the manager knows. -/
theorem Prompt.done (h : Prompt s draining watches) (hp : s.Processed) : draining = false := by
  obtain ⟨c, hc, hnot⟩ := hp
  obtain ⟨m, k, hcall⟩ := Prog.issued_eq_some.mp hc
  have hholds := h.manager
  rw [hcall] at hholds
  have hok : UploaderManager.channelsOk (s.world.view draining) c := hholds.1
  cases c with
  | newReverseList => exact absurd trivial hnot
  | send i message => exact absurd trivial hnot
  | dropSender i => exact absurd trivial hnot
  | spawn i user list config => exact hok.1
  | _ => exact hok

omit [Crates] in
/-- A message is done with at the new list. -/
theorem draining_step {w w' : ChannelsView} {c : ManagerCmd} {a : c.Ans} (h : ChannelsStep w c a w')
    (hw : w.draining = true) : w'.draining = true ∨ c = .newReverseList := by
  unfold ChannelsStep at h
  split at h
  · rw [h]
    exact .inl rfl
  · exact .inr rfl
  · rw [h.2]
    exact .inl hw
  · rw [h]
    exact .inl hw
  · rw [h]
    exact .inl hw
  · rw [h]
    exact .inl hw

/-- **After a message** the manager is not done with it, or no uploader there was has a sender. -/
theorem Prompt.drained {turns : List (UploadTurn K)} (h : Prompt s true watches) (hr : s.Run turns s') :
    ∃ draining' watches', Prompt s' draining' watches' ∧
      ∀ (i : Nat) (u : Uploader K), s.world.uploaders[i]? = some u →
        ∃ u' : Uploader K, s'.world.uploaders[i]? = some u' ∧
          (∀ config, u.config = some config → u'.config = some config) ∧ (draining' = true ∨ u'.connected = false) := by
  induction hr with
  | start => exact ⟨true, watches, h, fun i u hi => ⟨u, hi, fun _ hc => hc, .inl rfl⟩⟩
  | step turns s₁ s₂ turn hrun hs ih =>
    obtain ⟨draining₁, watches₁, h₁, hdrained⟩ := ih
    obtain ⟨draining₂, watches₂, h₂, hseen, hcarried⟩ := h₁.step hs
    refine ⟨draining₂, watches₂, h₂, fun i u hi => ?_⟩
    obtain ⟨u₁, hi₁, hconfig₁, hu₁⟩ := hdrained i u hi
    obtain ⟨u₂, hi₂, hgo, -⟩ := hcarried i u₁ hi₁
    refine ⟨u₂, hi₂, fun config hc => hgo.config config (hconfig₁ config hc), ?_⟩
    rcases hu₁ with rfl | hgone
    · cases hs with
      | manager m c k a w hmanager hstep =>
        rcases draining_step hseen rfl with hdraining | rfl
        · exact .inl hdraining
        · -- a new list is made only where no channel has a sender
          have hholds := h₁.manager
          rw [hmanager] at hholds
          have hnone : ¬ Connected (s₁.world.view true).channels i := hholds.1 i
          refine .inr (hgo.gone ?_).1
          cases hconnected : u₁.connected with
          | false => rfl
          | true => exact absurd (connected_view.mpr ⟨u₁, hi₁, hconnected⟩) hnone
      | thread => exact .inl (congrArg ChannelsView.draining hseen)
      | ended => exact .inl (congrArg ChannelsView.draining hseen)
      | posted => exact .inl (congrArg ChannelsView.draining hseen)
    · exact .inr (hgo.gone hgone).1

/-- **What an uploader without a sender still does**: it begins at most one message, it gets none, and its
    turns are numbered. -/
theorem Prompt.revoked {turns : List (UploadTurn K)} {i : Nat} {u : Uploader K} {config : Config}
    (h : Prompt s draining watches) (hr : s.Run turns s') (hi : s.world.uploaders[i]? = some u)
    (hconfig : u.config = some config) (hgone : u.connected = false) :
    ∃ u', s'.world.uploaders[i]? = some u' ∧ u'.posted = u.posted ∧ u'.writes ≤ u.writes + 1 ∧
      turns.countP (UploadTurn.isOf i) ≤ lastCommands config + u.inbox.length := by
  obtain ⟨draining', watches', h', hcarried⟩ := h.run hr
  obtain ⟨u', hi', hgo, hsince⟩ := hcarried i u hi
  refine ⟨u', hi', (hgo.gone hgone).2, ?_⟩
  have hw := h.uploaders i u hi
  have hw' := h'.uploaders i u' hi'
  obtain ⟨⟨writes, commands⟩, hrevoked⟩ : ∃ since, (watches i).revoked = some since := by
    have hsome := hw.revoked
    rw [hgone] at hsome
    exact Option.isSome_iff_exists.mp hsome
  obtain ⟨hwrites, hcommands⟩ := hw.since writes commands hrevoked
  obtain ⟨hwrites', hcommands'⟩ := hw'.within config (hgo.config config hconfig) writes commands
    (hsince _ hrevoked)
  have hscan : u.writes = (watches i).writes := congrArg Prod.fst hw.scan
  have hscan' : u'.writes = (watches' i).writes := congrArg Prod.fst hw'.scan
  have htaken := hw'.taken
  have hmoves : u'.moves = u.moves + turns.countP (UploadTurn.isOf i) := hgo.moves
  have hinbox : u.inbox.length = u.posted.length - u.taken := List.length_drop
  rw [(hgo.gone hgone).2] at htaken
  unfold Uploader.moves at hmoves
  have hc := hw.commands
  have hc' := hw'.commands
  exact ⟨by omega, by omega⟩

/-- **Revocation is prompt**: in every run, once the manager is done with a message it has received, every
    uploader there was when it came has no sender, gets no message more, begins at most one message more,
    and has a number of turns left. -/
theorem revocation_prompt {fuel n : Nat} {config₀ config : Config} {s₁ s₂ s₃ : UploadSystem K}
    {turns turns₁ turns₂ : List (UploadTurn K)} {m : UploaderManager} {message : MessageUploadManager}
    {i : Nat} {u : Uploader K} (h : (UploadSystem.start fuel n config₀).Run turns s)
    (hdrain : s.Step (.manager m .tryRecv (.value message)) s₁) (h₁ : s₁.Run turns₁ s₂)
    (hprocessed : s₂.Processed) (h₂ : s₂.Run turns₂ s₃) (hi : s.world.uploaders[i]? = some u)
    (hconfig : u.config = some config) :
    ∃ u₂ u₃, s₂.world.uploaders[i]? = some u₂ ∧ s₃.world.uploaders[i]? = some u₃ ∧
      u₂.connected = false ∧ u₃.posted = u₂.posted ∧ u₃.writes ≤ u₂.writes + 1 ∧
      turns₂.countP (UploadTurn.isOf i) ≤ lastCommands config + u₂.inbox.length := by
  obtain ⟨draining, watches, hs, -⟩ := (prompt_start fuel n config₀).run h
  obtain ⟨draining₁, watches₁, hs₁, hseen, hcarried⟩ := hs.step hdrain
  obtain rfl : draining₁ = true := congrArg ChannelsView.draining hseen
  obtain ⟨u₁, hi₁, hgo₁, -⟩ := hcarried i u hi
  obtain ⟨draining₂, watches₂, hs₂, hdrained⟩ := hs₁.drained h₁
  obtain ⟨u₂, hi₂, hconfig₂, hgone⟩ := hdrained i u₁ hi₁
  obtain rfl := hs₂.done hprocessed
  have hgone : u₂.connected = false := hgone.resolve_left Bool.false_ne_true
  obtain ⟨u₃, hi₃, hposted, hwrites, hturns⟩ :=
    hs₂.revoked h₂ hi₂ (hconfig₂ config (hgo₁.config config hconfig)) hgone
  exact ⟨u₂, u₃, hi₂, hi₃, hgone, hposted, hwrites, hturns⟩

/-! ## 5. A run -/

/-- The manager and the world alone. -/
def managerEnv : Env UploaderManager ManagerCmd ManagerCmd.Ans (UploadWorld K) where
  ok _ _ _ := True
  step w _ c a w' := w.ManagerStep c a w'

/-- Turns of the manager alone. -/
theorem UploadSystem.Run.manager {turns : List (UploadTurn K)}
    {p : Prog UploaderManager ManagerCmd ManagerCmd.Ans Exc Unit × UploadWorld K} (h : s.Run turns s')
    (hr : Reach managerEnv (s'.manager, s'.world) p) :
    ∃ turns', s.Run turns' { manager := p.1, world := p.2 } := by
  generalize hstart : (s'.manager, s'.world) = q at hr
  induction hr with
  | start =>
    subst hstart
    exact ⟨turns, h⟩
  | step m c k w w' a hreach hs ih =>
    obtain ⟨turns', h'⟩ := ih
    exact ⟨_, .step turns' _ _ _ h' (.manager m c k a w' rfl hs)⟩

/-- No user of a config. -/
def noUser : SharedUser := { nickname := [], publicId := [], ip := [], port := [], allowed := false }

/-- Everything succeeds, and a peer connects at every listener. -/
def peersConnect (c : ManagerCmd) (w : UploadWorld K) : Option (c.Ans × UploadWorld K) :=
  match c with
  | .tryRecv =>
    match w.inbox with
    | m :: inbox => some (.value m, { w with inbox })
    | [] => some (.empty, w)
  | .log => some (.ok (), w)
  | .send i m =>
    match w.uploaders[i]? with
    | some u =>
      some (u.received, if u.received then w.update i fun u => { u with posted := u.posted ++ [m] } else w)
    | none => none
  | .newReverseList => some (w.reverseFileLists.length,
    { w with reverseFileLists := w.reverseFileLists ++ [[]] })
  | .newChannel => some (w.uploaders.length, { w with uploaders := w.uploaders ++ [Uploader.new] })
  | .bind _ => some (.ok (0 : Nat), w)
  | .accept _ => some (.stream, w)
  | .sleep _ => some ((), w)
  | .dropSender i => some ((), w.update i fun u => { u with connected := false })
  | .spawn i reverseUser reverseFileList config =>
    match w.uploaders[i]? with
    | some u =>
      match u.config with
      | none => some ((), w.update i fun u =>
        { u with
          reverseFileList
          config := some config
          program := some (spawned 9 reverseUser
            { self := SingleUploader.new config
              encryptedStream := EncryptedStream.new noUser [] }) })
      | some _ => none
    | none => none
  | .postSelf m => some ((), { w with inbox := w.inbox ++ [m] })
  | .appError _ => some ((), w)
  | .exit => none

theorem peersConnect_step (w : UploadWorld K) (m : UploaderManager) : ∀ (c : ManagerCmd) (a : c.Ans)
    (w' : UploadWorld K), peersConnect c w = some (a, w') → managerEnv.step w m c a w' := by
  intro c a w' h
  cases c with
  | tryRecv =>
    unfold peersConnect at h
    dsimp only at h
    split at h
    · rename_i hinbox
      cases h
      exact ⟨by rw [hinbox]; rfl, by rw [hinbox]; rfl⟩
    · rename_i hinbox
      cases h
      exact ⟨hinbox, rfl⟩
  | send i message =>
    unfold peersConnect at h
    dsimp only at h
    split at h
    · rename_i u hu
      cases h
      exact ⟨u, hu, rfl, rfl⟩
    · cases h
  | spawn i user list config =>
    unfold peersConnect at h
    dsimp only at h
    split at h
    · rename_i u hu
      split at h
      · rename_i hconfig
        cases h
        exact ⟨u, 9, _, hu, hconfig, rfl⟩
      · cases h
    · cases h
  | newReverseList =>
    cases h
    exact ⟨rfl, rfl⟩
  | newChannel =>
    cases h
    exact ⟨rfl, rfl⟩
  | exit => cases h
  | _ =>
    cases h
    rfl

/-- The manager has `n` turns. -/
def UploadSystem.managed (s : UploadSystem K) (n : Nat) : UploadSystem K :=
  let p := s.manager.playWhile peersConnect n s.world
  { manager := p.1, world := p.2 }

theorem run_managed {turns : List (UploadTurn K)} (h : s.Run turns s') (n : Nat) :
    ∃ turns', s.Run turns' (s'.managed n) :=
  h.manager (reach_playWhile (fun w m => peersConnect_step w m) n s'.manager s'.world)

/-- The manager receives the only message there is. -/
theorem managed_drain {message : MessageUploadManager} (hissued : s.manager.issued = some .tryRecv)
    (hinbox : s.world.inbox = [message]) :
    ∃ m, s.Step (.manager m .tryRecv (.value message)) (s.managed 1) := by
  obtain ⟨m, k, hcall⟩ := Prog.issued_eq_some.mp hissued
  have hdrained : s.managed 1 =
      { manager := k (.value message), world := { s.world with inbox := [] } } := by
    unfold UploadSystem.managed
    simp only [hcall, Prog.playWhile, peersConnect, hinbox]
  rw [hdrained]
  refine ⟨m, .manager m .tryRecv k _ _ hcall ⟨?_, ?_⟩⟩
  · rw [hinbox]
    rfl
  · rw [hinbox]
    rfl

/-- The core sends the manager a message. -/
def UploadSystem.post (s : UploadSystem K) (m : MessageUploadManager) : UploadSystem K :=
  { s with world := { s.world with inbox := s.world.inbox ++ [m] } }

theorem run_post {s₀ : UploadSystem K} {turns : List (UploadTurn K)} (h : s₀.Run turns s)
    (m : MessageUploadManager) : ∃ turns', s₀.Run turns' (s.post m) :=
  ⟨_, .step turns _ _ _ h (.posted m)⟩

/-- The manager polls its channel. -/
def UploadSystem.polls (s : UploadSystem K) : Bool :=
  match s.manager with
  | .call _ .tryRecv _ => true
  | _ => false

omit [Crates] in
theorem issued_of_polls (h : s.polls = true) : s.manager.issued = some .tryRecv := by
  unfold UploadSystem.polls at h
  split at h
  · rename_i m k hcall
    rw [hcall]
    rfl
  · cases h

/-- The world after this answer to uploader `i`; messages and the list of users who have the listing are
    left out. -/
def answeredWorld (w : UploadWorld K) (i : Nat) (u : Uploader K) :
    (c : Wire ⊕ UploaderCmd K) → Ans (@UploaderCmd.Ans K) c → Option (UploadWorld K)
  | .inl (.seal _ plain), _ => some (w.update i fun u => { u.issued with sealed := u.sealed ++ [plain] })
  | .inr .tryRecv, .empty =>
    if u.inbox = [] ∧ u.connected = true then
      some (w.update i fun _ => { u with commands := u.commands + 1 })
    else none
  | .inr .tryRecv, .disconnected =>
    if u.inbox = [] ∧ u.connected = false then
      some (w.update i fun _ => { u with commands := u.commands + 1 })
    else none
  | .inr .tryRecv, .value _ => none
  | .inr (.reverseListContains _), _ => none
  | .inr (.reverseListPush _), _ => none
  | _, _ => some (w.update i Uploader.issued)

/-- The channel of the uploader answers it, and `reply` does so for everything else. -/
def Uploader.polling (u : Uploader K)
    (reply : (c : Wire ⊕ UploaderCmd K) → Option (Ans (@UploaderCmd.Ans K) c)) :
    (c : Wire ⊕ UploaderCmd K) → Option (Ans (@UploaderCmd.Ans K) c)
  | .inr .tryRecv => some (if u.connected then TryRecv.empty else TryRecv.disconnected)
  | c => reply c

/-- Uploader `i` has a turn. -/
def UploadSystem.replied (s : UploadSystem K) (i : Nat)
    (reply : (c : Wire ⊕ UploaderCmd K) → Option (Ans (@UploaderCmd.Ans K) c)) : UploadSystem K :=
  match s.world.uploaders[i]? with
  | none => s
  | some u =>
    match u.program with
    | some (.call _ c k) =>
      match u.polling reply c with
      | none => s
      | some a =>
        match answeredWorld s.world i u c a with
        | none => s
        | some w => { s with world := w.update i fun u => { u with program := some (k a) } }
    | _ => s

/-- Uploader `i` has `n` turns. -/
def UploadSystem.served (s : UploadSystem K) (i : Nat)
    (reply : (c : Wire ⊕ UploaderCmd K) → Option (Ans (@UploaderCmd.Ans K) c)) (n : Nat) : UploadSystem K :=
  (fun s => s.replied i reply)^[n] s

/-- The frame uploader `i` is about to write, with its number. -/
def UploadSystem.sealsNext (s : UploadSystem K) (i : Nat) : Option (Nat × List UInt8) :=
  match (s.world.uploaders[i]?).bind Uploader.program with
  | some (.call _ (.inl (.seal n plain)) _) => some (n, plain)
  | _ => none

omit [Crates] in
theorem answeredWorld_step {w w' : UploadWorld K} {i : Nat} {u : Uploader K} {c : Wire ⊕ UploaderCmd K}
    {a : Ans (@UploaderCmd.Ans K) c} (h : answeredWorld w i u c a = some w') :
    w.ThreadStep i u c a w' := by
  rcases c with (⟨n, plain⟩ | ⟨n, size⟩) | c
  · exact (Option.some.inj h).symm
  · exact (Option.some.inj h).symm
  · cases c with
    | tryRecv =>
      cases a with
      | value m => cases h
      | empty =>
        unfold answeredWorld at h
        dsimp only at h
        split at h
        · rename_i hempty
          exact ⟨_, ⟨hempty.1, hempty.2, rfl⟩, (Option.some.inj h).symm⟩
        · cases h
      | disconnected =>
        unfold answeredWorld at h
        dsimp only at h
        split at h
        · rename_i hgone
          exact ⟨_, ⟨hgone.1, hgone.2, rfl⟩, (Option.some.inj h).symm⟩
        · cases h
    | reverseListContains nickname => cases h
    | reverseListPush nickname => cases h
    | _ => exact (Option.some.inj h).symm

omit [Crates] in
theorem answeredWorld_inbox {w w' : UploadWorld K} {i : Nat} {u : Uploader K} {c : Wire ⊕ UploaderCmd K}
    {a : Ans (@UploaderCmd.Ans K) c} (h : answeredWorld w i u c a = some w') : w'.inbox = w.inbox := by
  unfold answeredWorld at h
  split at h
  · cases h
    rfl
  · split at h
    · cases h
      rfl
    · cases h
  · split at h
    · cases h
      rfl
    · cases h
  · cases h
  · cases h
  · cases h
  · cases h
    rfl

omit [Crates] in
/-- A turn of an uploader leaves the manager and its inbox alone. -/
theorem replied_manager (s : UploadSystem K) (i : Nat)
    (reply : (c : Wire ⊕ UploaderCmd K) → Option (Ans (@UploaderCmd.Ans K) c)) :
    (s.replied i reply).manager = s.manager ∧ (s.replied i reply).world.inbox = s.world.inbox := by
  unfold UploadSystem.replied
  split
  · exact ⟨rfl, rfl⟩
  · split
    · split
      · exact ⟨rfl, rfl⟩
      · split
        · exact ⟨rfl, rfl⟩
        · rename_i w hw
          have hinbox := answeredWorld_inbox hw
          exact ⟨rfl, hinbox⟩
    · exact ⟨rfl, rfl⟩

omit [Crates] in
theorem served_manager (s : UploadSystem K) (i : Nat)
    (reply : (c : Wire ⊕ UploaderCmd K) → Option (Ans (@UploaderCmd.Ans K) c)) (n : Nat) :
    (s.served i reply n).manager = s.manager ∧ (s.served i reply n).world.inbox = s.world.inbox := by
  induction n with
  | zero => exact ⟨rfl, rfl⟩
  | succ n ih =>
    unfold UploadSystem.served
    rw [Function.iterate_succ_apply']
    obtain ⟨hmanager, hinbox⟩ := replied_manager (s.served i reply n) i reply
    exact ⟨hmanager.trans ih.1, hinbox.trans ih.2⟩

/-- A turn of an uploader is a turn, or none. -/
theorem run_replied {s₀ s : UploadSystem K} {turns : List (UploadTurn K)} (h : s₀.Run turns s) (i : Nat)
    (reply : (c : Wire ⊕ UploaderCmd K) → Option (Ans (@UploaderCmd.Ans K) c)) :
    ∃ turns', s₀.Run turns' (s.replied i reply) := by
  unfold UploadSystem.replied
  split
  · exact ⟨turns, h⟩
  · rename_i u hi
    split
    · rename_i t c k hp
      split
      · exact ⟨turns, h⟩
      · rename_i a _
        split
        · exact ⟨turns, h⟩
        · rename_i w hw
          exact ⟨_, .step turns _ _ _ h (.thread i u t c k a w hi hp (answeredWorld_step hw))⟩
    · exact ⟨turns, h⟩

/-- Over the turns. -/
theorem run_served {s₀ s : UploadSystem K} {turns : List (UploadTurn K)} (h : s₀.Run turns s) (i : Nat)
    (reply : (c : Wire ⊕ UploaderCmd K) → Option (Ans (@UploaderCmd.Ans K) c)) (n : Nat) :
    ∃ turns', s₀.Run turns' (s.served i reply n) := by
  induction n with
  | zero => exact ⟨turns, h⟩
  | succ n ih =>
    obtain ⟨turns', h'⟩ := ih
    unfold UploadSystem.served
    rw [Function.iterate_succ_apply']
    exact run_replied h' i reply

omit [Crates] in
theorem program_of_sealsNext {s : UploadSystem K} {i n : Nat} {plain : List UInt8}
    (h : s.sealsNext i = some (n, plain)) : ∃ u t k, s.world.uploaders[i]? = some u ∧
      u.program = some (.call t (.inl (.seal n plain)) k) := by
  unfold UploadSystem.sealsNext at h
  split at h
  · rename_i t n' plain' k hp
    cases h
    obtain ⟨u, hi, hprogram⟩ := Option.bind_eq_some_iff.mp hp
    exact ⟨u, t, k, hi, hprogram⟩
  · cases h

end Runs

/-! ## 6. Bob is revoked -/

/-- Every signature is everyone's. -/
def openSuite : Suite :=
  { Secret := Unit
    Public := Unit
    Signature := Unit
    Key := Unit
    publicKey := fun _ => ()
    sign := fun _ _ => ()
    verify := fun _ _ _ => true
    diffieHellman := fun _ _ => () }

namespace SingleUploader

/-- The address of the peer. -/
def bobsAddress : IpAddr := { text := "192.0.2.1".toList, isIpv4 := true }

/-- The user of the config. -/
def bob : SharedUser :=
  { nickname := "bob".toList
    publicId := Base64.encode samplePublicKey
    ip := "192.0.2.1".toList
    port := "45454".toList
    allowed := true }

/-- His side of the handshake. -/
def greetingReply : (c : HandshakeCmd openSuite) → c.Ans
  | .writeAll _ => (.ok () : Except Str Unit)
  | .readExact _ => (.ok transmiticHeader : Except Str (List UInt8))
  | .randomSecret => ()
  | .writeKey _ _ => (.ok () : Except Str Unit)
  | .readKey => (.ok ((), ()) : Except Str (Unit × Unit))
  | .tryClone => (.ok () : Except Str Unit)
  | .sleep _ => ()

/-- The answers to an uploader bob connects to, in the file system `fs`. -/
def bobsAnswers (fs : FileSystem) : (c : UploaderCmd openSuite) → Option c.Ans
  | .tryRecv => some TryRecv.empty
  | .app _ => some ()
  | .sleep _ => some ()
  | .progressElapsed => some false
  | .exit => none
  | .peerAddr => some (.ok bobsAddress : Except Str IpAddr)
  | .resolveAddress _ _ => some (.ok [bobsAddress] : Except Str (List IpAddr))
  | .tcpConnect _ => some true
  | .handshake c => some (greetingReply c)
  | .reverseListContains _ => some false
  | .reverseListPush _ => some ()
  | .fileSystem => some fs
  | .fileOpen _ => some (.ok () : Except Str Unit)
  | .fileSeek _ => some (.ok () : Except Str Unit)
  | .fileRead => some (.ok ⟨[], Nat.zero_le _⟩ : Except Str ReadBytes)
  | .shutdownStream => some ()

/-- He asks for the listing. -/
def askingForList (fs : FileSystem) : (c : Wire ⊕ UploaderCmd openSuite) → Option (Ans UploaderCmd.Ans c)
  | .inl (.seal _ _) => some Sealed.done
  | .inl (.unseal _ _) => some (Unsealed.plain (header msgFileList 0))
  | .inr c => bobsAnswers fs c

end SingleUploader

/-- Every key is one, and every listing is the same text. -/
@[reducible] def keyCrates : Crates :=
  { idleCrates with
    ed25519FromPkcs8 := fun _ => .ok samplePublicKey
    listingToJson := fun _ => .ok ['x'] }

/-- His home directory is shared with bob. -/
def homeShared : Config := homeConfig "/home/u".toList

/-- Bob has connected. -/
def connectedSystem [Crates] : UploadSystem openSuite :=
  ((UploadSystem.start 9 1 homeShared).post (.sharingStateMsg .local)).managed 13

/-- He has asked for the listing. -/
def askedSystem [Crates] : UploadSystem openSuite :=
  connectedSystem.served 0 (SingleUploader.askingForList homeFs) 13

/-- A new config is on its way. -/
def servingSystem [Crates] : UploadSystem openSuite := askedSystem.post (.newConfig homeShared)

/-- The manager has received it. -/
def drainedSystem [Crates] : UploadSystem openSuite := servingSystem.managed 1

/-- And is done with it. -/
def revokedSystem [Crates] : UploadSystem openSuite := drainedSystem.managed 3

/-- The uploader goes on. -/
def endedSystem [Crates] : UploadSystem openSuite :=
  revokedSystem.served 0 (SingleUploader.askingForList homeFs) 9

section Sample

variable [Crates]

theorem connectedSystem_run : ∃ turns, (UploadSystem.start 9 1 homeShared).Run turns connectedSystem := by
  obtain ⟨turns, h⟩ := run_post
    (.start : (UploadSystem.start 9 1 homeShared).Run [] (UploadSystem.start 9 1 homeShared))
    (.sharingStateMsg .local)
  exact run_managed h 13

theorem servingSystem_run : ∃ turns, (UploadSystem.start 9 1 homeShared).Run turns servingSystem := by
  obtain ⟨turns, h⟩ := connectedSystem_run
  obtain ⟨turns', h'⟩ := run_served h 0 (SingleUploader.askingForList homeFs) 13
  exact run_post h' (.newConfig homeShared)

theorem revokedSystem_run : ∃ turns, drainedSystem.Run turns revokedSystem := run_managed .start 3

theorem endedSystem_run : ∃ turns, revokedSystem.Run turns endedSystem := run_served .start 0 _ 9

end Sample

theorem drainedSystem_step : ∃ m, @UploadSystem.Step keyCrates _ (@servingSystem keyCrates)
    (.manager m .tryRecv (.value (.newConfig homeShared))) (@drainedSystem keyCrates) := by
  have hpolls : (@servingSystem keyCrates).polls = true := by decide +kernel
  have hempty : (@connectedSystem keyCrates).world.inbox.isEmpty = true := by decide +kernel
  refine @managed_drain _ keyCrates _ _ (issued_of_polls hpolls) ?_
  have hinbox := (served_manager (@connectedSystem keyCrates) 0 (SingleUploader.askingForList homeFs) 13).2
  rw [List.isEmpty_iff.mp hempty] at hinbox
  exact congrArg (· ++ [MessageUploadManager.newConfig homeShared]) hinbox

/-- An uploader that has been asked for its listing is revoked before it begins to send it: it begins to,
    and is at its end. -/
theorem revocation_prompt_bob : ∃ (turns₂ : List (UploadTurn openSuite)) (u₂ u₃ : Uploader openSuite),
    (@revokedSystem keyCrates).world.uploaders[0]? = some u₂ ∧
      (@endedSystem keyCrates).world.uploaders[0]? = some u₃ ∧ u₂.writes = 0 ∧ u₃.writes = 1 ∧
      u₂.connected = false ∧ u₃.posted = u₂.posted ∧ u₃.writes ≤ u₂.writes + 1 ∧
      turns₂.countP (UploadTurn.isOf 0) ≤ lastCommands homeShared + u₂.inbox.length := by
  obtain ⟨turns, h⟩ := @servingSystem_run keyCrates
  obtain ⟨m, hdrain⟩ := drainedSystem_step
  obtain ⟨turns₁, h₁⟩ := @revokedSystem_run keyCrates
  obtain ⟨turns₂, h₂⟩ := @endedSystem_run keyCrates
  have hserving : ((@servingSystem keyCrates).world.uploaders[0]?).bind Uploader.config = some homeShared := by
    decide +kernel
  have hwrites : ((@revokedSystem keyCrates).world.uploaders[0]?).map Uploader.writes = some 0 := by
    decide +kernel
  have hends : ((@endedSystem keyCrates).world.uploaders[0]?).map Uploader.writes = some 1 := by
    decide +kernel
  have hpolls : (@revokedSystem keyCrates).polls = true := by decide +kernel
  obtain ⟨u, hi, hconfig⟩ := Option.bind_eq_some_iff.mp hserving
  obtain ⟨u₂, u₃, hi₂, hi₃, hgone, hposted, hwrote, hturns⟩ :=
    @revocation_prompt _ keyCrates _ _ _ _ _ _ _ _ _ _ _ _ _ _ _ h hdrain h₁
      ⟨.tryRecv, issued_of_polls hpolls, id⟩ h₂ hi hconfig
  rw [hi₂] at hwrites
  rw [hi₃] at hends
  exact ⟨turns₂, u₂, u₃, hi₂, hi₃, Option.some.inj hwrites, Option.some.inj hends, hgone, hposted, hwrote,
    hturns⟩

end Transmitic
