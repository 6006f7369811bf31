/-
  File:      Transmitic/DownloaderLedger.lean
  Subject:   WHAT THE CORE HAS TOLD ITS DOWNLOADERS of its config.

  A downloader gets its user and its config when it is started, and a message after each change. The
  user of one started for a reverse connection is the copy the uploads had when the connection was
  made; nickname, public ID and own ID are checked again then, the address is not.

  * `Tracks` -- what a config says of the users, the own ID and the downloads is said by another one;
  * `failed_tracks`, `unannounced_tracks` -- **an operation that tells the downloads nothing** changes
    nothing of that;
  * `Ledger`, `Informed` -- what each downloader comes to once it has received all messages;
  * `ledger_follow`, `keeps_downloadOperation` -- **every method leaves the registered downloaders
    informed**, where one is started for a reverse connection with an address the config has.
-/
import Transmitic.DownloaderHeeds
import Transmitic.Registry
import Transmitic.UploaderConfig

namespace Transmitic

open Lib

/-! ## 1. What the downloaders need of a config -/

/-- Who a user is, and where. -/
def SharedUser.contact (user : SharedUser) : Str × Str × Str × Str :=
  (user.nickname, user.publicId, user.ip, user.port)

/-- The config has a user like this one. -/
def HasContact (c : Config) (user : SharedUser) : Prop :=
  ∃ u ∈ c.configFile.sharedUsers, u.contact = user.contact

/-- The users, the own ID and the downloads of `a` are those of `b`. -/
structure Tracks (a b : Config) : Prop where
  contacts : ∀ user, HasContact a user → HasContact b user
  privateId : a.localPrivateKeyBytes = b.localPrivateKeyBytes
  pathDownloads : a.configFile.pathDownloads = b.configFile.pathDownloads

theorem Tracks.refl (c : Config) : Tracks c c := ⟨fun _ h => h, rfl, rfl⟩

theorem Tracks.trans {a b c : Config} (h : Tracks a b) (h' : Tracks b c) : Tracks a c where
  contacts user hu := h'.contacts user (h.contacts user hu)
  privateId := h.privateId.trans h'.privateId
  pathDownloads := h.pathDownloads.trans h'.pathDownloads

theorem Tracks.of_file {a b : Config} (hfile : b.configFile = a.configFile)
    (hkey : b.localPrivateKeyBytes = a.localPrivateKeyBytes) : Tracks a b := by
  refine ⟨fun user hu => ?_, hkey.symm, by rw [hfile]⟩
  unfold HasContact at hu ⊢
  rwa [hfile]

theorem contact_nickname {u v : SharedUser} (h : u.contact = v.contact) : u.nickname = v.nickname :=
  congrArg (fun c : Str × Str × Str × Str => c.1) h

theorem hasContact_of_mem {c : Config} {u : SharedUser} (h : u ∈ c.configFile.sharedUsers) :
    HasContact c u := ⟨u, h, rfl⟩

/-! ## 2. The operations of the core -/

/-- The user an operation changes or removes. -/
def Operation.changes : Operation → Option Str
  | .removeUser nickname => some nickname
  | .updateUser nickname _ _ _ => some nickname
  | _ => none

/-- The operations the downloads are told of. -/
def Operation.announces : Operation → Bool
  | .addNewUser _ _ _ _ => true
  | .createNewId => true
  | .setPathDownloadsDir _ => true
  | .removeUser _ => true
  | .setIgnoreIncoming _ => true
  | .updateUser _ _ _ _ => true
  | _ => false

section Operations

variable [Crates] {configDir : Str} {m m' : Config} {disk disk' : Disk} {o : Outcomes}
  {r : Except Exc Unit} {op : Operation}

omit [Crates] in
theorem updateFirst_of_mem {α : Type} {p : α → Bool} {f : α → α} {l : List α} {x : α} (h : x ∈ l) :
    x ∈ Config.updateFirst p f l ∨ p x = true ∧ f x ∈ Config.updateFirst p f l := by
  induction l with
  | nil => cases h
  | cons y l ih =>
    unfold Config.updateFirst
    by_cases hy : p y = true
    · rw [if_pos hy]
      rcases List.mem_cons.mp h with rfl | h
      · exact .inr ⟨hy, List.mem_cons_self⟩
      · exact .inl (List.mem_cons_of_mem _ h)
    · rw [if_neg hy]
      rcases List.mem_cons.mp h with rfl | h
      · exact .inl List.mem_cons_self
      · rcases ih h with ih | ⟨hp, ih⟩
        · exact .inl (List.mem_cons_of_mem _ ih)
        · exact .inr ⟨hp, List.mem_cons_of_mem _ ih⟩

omit [Crates] in
/-- The edit leaves a user it does not concern as he is, but for his permission. -/
theorem edited_contact (key : List UInt8) (c : ConfigFile) {u : SharedUser} (hu : u ∈ c.sharedUsers)
    (hop : op.changes ≠ some u.nickname) :
    ∃ v ∈ (op.edited key c).sharedUsers, v.contact = u.contact := by
  cases op with
  | addNewUser => exact ⟨u, List.mem_append_left _ hu, rfl⟩
  | removeUser nickname =>
    refine ⟨u, List.mem_filter.mpr ⟨hu, ?_⟩, rfl⟩
    exact decide_eq_true fun he => hop (congrArg some he.symm)
  | setUserIsAllowedState nickname isAllowed =>
    rcases updateFirst_of_mem (p := fun user => user.nickname = nickname)
      (f := fun user : SharedUser => { user with allowed := isAllowed }) hu with h | ⟨-, h⟩
    · exact ⟨u, h, rfl⟩
    · exact ⟨_, h, rfl⟩
  | updateUser nickname publicId ip port =>
    rcases updateFirst_of_mem (p := fun user => user.nickname = nickname)
      (f := fun user : SharedUser => { user with publicId, ip, port }) hu with h | ⟨hp, -⟩
    · exact ⟨u, h, rfl⟩
    · exact absurd (congrArg some (of_decide_eq_true hp).symm) hop
  | _ => exact ⟨u, hu, rfl⟩

/-- A user of a verified config has no white space around him. -/
theorem sanitizeUser_of_verified (hv : Verified configDir m) {u : SharedUser}
    (hu : u ∈ m.configFile.sharedUsers) : sanitizeUser u = u := by
  obtain ⟨raw, hraw⟩ := hv
  rw [(verifyConfig_eq_ok.mp hraw).1] at hu
  obtain ⟨v, -, rfl⟩ := List.mem_map.mp hu
  exact sanitizeUser_idem v

/-- The users of a config that was written. -/
theorem mem_written {raw : ConfigFile} (h : verifyConfig configDir raw = .ok m'.configFile)
    {v : SharedUser} (hv : v ∈ raw.sharedUsers) : sanitizeUser v ∈ m'.configFile.sharedUsers := by
  rw [(verifyConfig_eq_ok.mp h).1]
  exact List.mem_map.mpr ⟨v, (List.mem_insertionSort _).mpr hv, rfl⟩

omit [Crates] in
theorem contact_sanitizeUser {u v : SharedUser} (h : v.contact = u.contact) :
    (sanitizeUser v).contact = (sanitizeUser u).contact := by
  unfold SharedUser.contact at h
  obtain ⟨hn, hp, hi, hport⟩ : v.nickname = u.nickname ∧ v.publicId = u.publicId ∧ v.ip = u.ip ∧
      v.port = u.port := by simpa using h
  unfold sanitizeUser SharedUser.contact
  rw [hn, hp, hi, hport]

/-- **A user an operation does not concern** stays who he is, whether it succeeds or fails. -/
theorem effect_contacts (hv : Verified configDir m) (h : op.Effect configDir m r m')
    {user : SharedUser} (hu : HasContact m user) (hop : op.changes ≠ some user.nickname) :
    HasContact m' user := by
  obtain ⟨u, hmem, hcontact⟩ := hu
  cases h with
  | none hfile hkey hr => exact ⟨u, hfile ▸ hmem, hcontact⟩
  | written key hfile hid hkey =>
    rw [← contact_nickname hcontact] at hop
    obtain ⟨v, hvmem, hvu⟩ := edited_contact key m.configFile hmem hop
    refine ⟨_, mem_written hfile hvmem, ?_⟩
    rw [contact_sanitizeUser hvu, sanitizeUser_of_verified hv hmem]
    exact hcontact

/-- **An operation the downloads are not told of** changes nothing they need. -/
theorem unannounced_tracks (hop : op.announces = false) (hv : Verified configDir m)
    (h : op.Effect configDir m r m') : Tracks m m' := by
  have hchanges : op.changes = none := by
    cases op with
    | removeUser => cases hop
    | updateUser => cases hop
    | _ => rfl
  have hcontacts : ∀ user, HasContact m user → HasContact m' user := by
    intro user hu
    refine effect_contacts hv h hu ?_
    rw [hchanges]
    exact nofun
  cases h with
  | none hfile hkey hr => exact .of_file hfile hkey
  | written key hfile hid hkey =>
    have hnoId : op ≠ .createNewId := by
      intro he
      rw [he] at hop
      cases hop
    have hpath : (op.edited key m.configFile).pathDownloads = m.configFile.pathDownloads := by
      cases op with
      | setPathDownloadsDir => cases hop
      | _ => rfl
    refine ⟨hcontacts, (hkey hnoId).symm, ?_⟩
    obtain ⟨raw, hraw⟩ := hv
    rw [(verifyConfig_eq_ok.mp hfile).1]
    show _ = trim (op.edited key m.configFile).pathDownloads
    rw [hpath, (verifyConfig_eq_ok.mp hraw).1]
    exact (trim_trim raw.pathDownloads).symm

/-- **An operation that fails** changes nothing they need. -/
theorem failed_tracks (hv : Verified configDir m) (hr : r ≠ .ok ())
    (h : op.run configDir m o disk = (r, m', disk')) : Tracks m m' := by
  have hof : ∀ {forwards : Bool}, forwards = true → Spares forwards m r m' → Tracks m m' := by
    intro forwards hf hs
    obtain ⟨hfile, hkey⟩ := hs.failed hf hr
    exact .of_file hfile hkey
  cases hop : op.announces with
  | false => exact unannounced_tracks hop hv (operation_effect h)
  | true =>
    have hforwards : op.forwards = true ∨ ∃ path, op = .setPathDownloadsDir path := by
      cases op with
      | setPathDownloadsDir path => exact .inr ⟨path, rfl⟩
      | addFiles => cases hop
      | encryptConfig => cases hop
      | decryptConfig => cases hop
      | _ => exact .inl rfl
    rcases hforwards with hf | ⟨path, rfl⟩
    · exact hof hf (operation_spares h)
    · have hspares : Spares true m r m' := write_spares h
      exact hof rfl hspares

/-- The user that was updated is in the config. -/
theorem updateUser_mem {nickname publicId ip port : Str} (hv : Verified configDir m)
    (h : m.updateUser configDir nickname publicId ip port o disk = (.ok (), m', disk')) :
    ∃ u ∈ m'.configFile.sharedUsers, u.nickname = nickname := by
  unfold Config.updateUser at h
  split at h
  · rename_i hany
    obtain ⟨u, hu, hn⟩ := List.any_eq_true.mp hany
    have hn : u.nickname = nickname := of_decide_eq_true hn
    obtain ⟨-, ⟨-, hne⟩ | hw⟩ := writes_of_writeAndSetConfig h
    · exact absurd rfl hne
    have hfixed := congrArg SharedUser.nickname (sanitizeUser_of_verified hv hu)
    have hnick : ∀ v : SharedUser, v.nickname = u.nickname →
        (sanitizeUser v).nickname = nickname := by
      intro v hvu
      show trim v.nickname = nickname
      rw [hvu, ← hn]
      exact hfixed
    rcases updateFirst_of_mem (p := fun user => user.nickname = nickname)
      (f := fun user : SharedUser => { user with publicId, ip, port }) hu with hmem | ⟨-, hmem⟩
    · exact ⟨_, mem_written hw hmem, hnick _ rfl⟩
    · exact ⟨_, mem_written hw hmem, hnick _ rfl⟩
  · cases h

end Operations

/-! ## 3. What the downloaders come to -/

/-- What each downloader comes to once it has received all messages; nothing for one that is still to
    be started. -/
abbrev Ledger : Type := Nat → Option Briefing

/-- A message to some of the downloaders. -/
def Ledger.tell (comes : Ledger) (m : MessageSingleDownloader) (told : List Nat) : Ledger :=
  fun i => if i ∈ told then (comes i).map fun x => x.hear m else comes i

theorem hear_hear (x : Briefing) (m : MessageSingleDownloader) : (x.hear m).hear m = x.hear m := by
  cases m <;> rfl

theorem tell_nil (comes : Ledger) (m : MessageSingleDownloader) : comes.tell m [] = comes := by
  funext i
  exact if_neg List.not_mem_nil

/-- The same message may come twice. -/
theorem tell_tell (comes : Ledger) (m : MessageSingleDownloader) (told told' : List Nat) :
    (comes.tell m told).tell m told' = comes.tell m (told ++ told') := by
  funext i
  unfold Ledger.tell
  simp only [List.mem_append]
  by_cases h : i ∈ told <;> by_cases h' : i ∈ told' <;> simp [h, h', Function.comp_def, hear_hear]

/-- A message that is neither a user nor a config. -/
theorem tell_neutral {m : MessageSingleDownloader} (h : ∀ x : Briefing, x.hear m = x) (comes : Ledger)
    (told : List Nat) : comes.tell m told = comes := by
  funext i
  unfold Ledger.tell
  simp only [h, Option.map_id', ite_self]

theorem isSome_tell (comes : Ledger) (m : MessageSingleDownloader) (told : List Nat) (i : Nat) :
    (comes.tell m told i).isSome = (comes i).isSome := by
  unfold Ledger.tell
  split
  · exact Option.isSome_map
  · rfl

/-- What a command of the core makes of it. A downloader for a reverse connection is started with an
    address that the config has. -/
def LedgerStep (comes : Ledger) : (c : CoreCmd) → c.Ans → Ledger → Prop
  | .send i m, true, comes' => comes' = comes.tell m [i]
  | .newChannels _, i, comes' => comes i = none ∧ comes' = comes
  | .spawn i user _ _ reverse config, (), comes' =>
    (reverse.isSome → HasContact config user) ∧
      comes' = Function.update comes i (some ⟨user, config⟩)
  | _, _, comes' => comes' = comes

/-- Messages go to downloaders that were started; each is started once. -/
def LedgerOk (comes : Ledger) : CoreCmd → Prop
  | .send i _ => (comes i).isSome
  | .spawn i _ _ _ _ _ => comes i = none
  | _ => True

def ledgerEnv : Env OutgoingDownloader CoreCmd CoreCmd.Ans Ledger where
  ok comes _ c := LedgerOk comes c
  step comes _ c a comes' := LedgerStep comes c a comes'

/-- The downloaders in the map, each for its own nickname; all but that of `but` come to a user of the
    config `c`. -/
structure Registered (c : Config) (but : Option Str) (d : OutgoingDownloader) (comes : Ledger) : Prop
    where
  config : d.config = c
  keys : (d.channelMap.map Prod.fst).Nodup
  entries : ∀ entry ∈ d.channelMap, ∃ x, comes entry.2 = some x ∧ x.sharedUser.nickname = entry.1 ∧
    (but ≠ some entry.1 → HasContact c x.sharedUser)

/-- The downloader comes to the own ID and the downloads of the config. -/
def Heard (c : Config) (x : Briefing) : Prop :=
  x.config.localPrivateKeyBytes = c.localPrivateKeyBytes ∧
    x.config.configFile.pathDownloads = c.configFile.pathDownloads

/-- They all come to the own ID and the downloads of the config. -/
structure Informed (c : Config) (but : Option Str) (d : OutgoingDownloader) (comes : Ledger) : Prop
    where
  registered : Registered c but d comes
  heard : ∀ entry ∈ d.channelMap, ∀ x, comes entry.2 = some x → Heard c x

section Ledger

variable {c : Config} {but : Option Str} {d d' : OutgoingDownloader} {comes : Ledger} {n : Str}
  {keys : List Str}

/-- Some entries were removed, those of `keys` among them. -/
structure Fewer (keys : List Str) (d d' : OutgoingDownloader) : Prop where
  config : d'.config = d.config
  list : d'.channelMap.Sublist d.channelMap
  gone : ∀ entry ∈ d'.channelMap, entry.1 ∉ keys

theorem fewer_refl : Fewer [] d d := ⟨rfl, .refl _, fun _ _ => List.not_mem_nil⟩

theorem fewer_without : Fewer [n] d (without n d) := by
  refine ⟨rfl, List.filter_sublist, fun entry he hn => ?_⟩
  have hne := of_decide_eq_true (List.mem_filter.mp he).2
  exact hne (List.mem_singleton.mp hn)

theorem Fewer.cons {key : Str} (h : Fewer keys (without key d) d') : Fewer (key :: keys) d d' := by
  refine ⟨h.config, h.list.trans List.filter_sublist, fun entry he hn => ?_⟩
  rcases List.mem_cons.mp hn with hn | hn
  · have hne := of_decide_eq_true (List.mem_filter.mp (h.list.subset he)).2
    exact hne hn
  · exact h.gone entry he hn

theorem Registered.fewer (h : Registered c but d comes) (hf : Fewer keys d d') :
    Registered c but d' comes where
  config := hf.config.trans h.config
  keys := h.keys.sublist (hf.list.map _)
  entries entry he := h.entries entry (hf.list.subset he)

theorem Informed.fewer (h : Informed c but d comes) (hf : Fewer keys d d') :
    Informed c but d' comes :=
  ⟨h.registered.fewer hf, fun entry he => h.heard entry (hf.list.subset he)⟩

/-- Without the entry that was left out, it holds of all. -/
theorem Informed.whole (h : Informed c (some n) d comes) (hn : ∀ entry ∈ d.channelMap, entry.1 ≠ n) :
    Informed c none d comes := by
  refine ⟨⟨h.registered.config, h.registered.keys, fun entry he => ?_⟩, h.heard⟩
  obtain ⟨x, hx, hnick, hcontact⟩ := h.registered.entries entry he
  exact ⟨x, hx, hnick, fun _ => hcontact fun hs => hn entry he (Option.some.inj hs).symm⟩

/-- A config that is not on its way yet. -/
theorem Registered.tell (h : Registered c but d comes) (config : Config) (told : List Nat) :
    Registered c but d (comes.tell (.newConfig config) told) := by
  refine ⟨h.config, h.keys, fun entry he => ?_⟩
  obtain ⟨x, hx, hnick, hcontact⟩ := h.entries entry he
  unfold Ledger.tell
  rw [hx]
  split
  · exact ⟨_, rfl, hnick, hcontact⟩
  · exact ⟨x, rfl, hnick, hcontact⟩

end Ledger

/-! ## 4. The methods -/

section Methods

variable {c : Config} {but : Option Str} {d : OutgoingDownloader} {comes : Ledger} {i : Nat} {n : Str}

theorem ledger_send {m : MessageSingleDownloader} (h : (comes i).isSome = true) :
    wp ledgerEnv (coreCommand (.send i m)) (fun (a : Bool) d' comes' => d' = d ∧
      comes' = if a then comes.tell m [i] else comes) (fun _ _ _ => False) d comes := by
  refine ⟨h, fun a comes' hs => ⟨rfl, ?_⟩⟩
  cases a with
  | true => exact hs
  | false => exact hs

/-- Removing an entry tells nobody anything. -/
theorem ledger_removeChannel : wp ledgerEnv (removeChannel n)
    (fun _ d' comes' => d' = without n d ∧ comes' = comes) (fun _ _ _ => False) d comes := by
  unfold removeChannel
  rw [wp_bind, wp_get]
  cases hc : d.channel n with
  | none => exact ⟨(without_of_none hc).symm, rfl⟩
  | some thread => exact ⟨trivial, fun _ comes' hs => ⟨rfl, hs⟩⟩

theorem ledger_removeChannels : ∀ (keys : List Str) {d : OutgoingDownloader} {comes : Ledger},
    wp ledgerEnv (removeChannels keys) (fun _ d' comes' => Fewer keys d d' ∧ comes' = comes)
      (fun _ _ _ => False) d comes
  | [], _, _ => ⟨fewer_refl, rfl⟩
  | key :: keys, d, comes => by
    refine wp_seq ledger_removeChannel (fun _ d₁ comes₁ h => ?_) fun _ _ _ hf => hf
    obtain ⟨rfl, rfl⟩ := h
    exact wp_conseq (ledger_removeChannels keys) (fun _ _ _ h => ⟨h.1.cons, h.2⟩) fun _ _ _ hf => hf

/-- **A message to all**: who is not told is on the list of those to be removed. -/
theorem ledger_sendToEach {m : MessageSingleDownloader} : ∀ (entries : List (Str × Nat))
    {d : OutgoingDownloader} {comes : Ledger}, (∀ entry ∈ entries, (comes entry.2).isSome = true) →
    wp ledgerEnv (sendToEach m entries) (fun removeKeys d' comes' => d' = d ∧
      ∃ told, comes' = comes.tell m told ∧ ∀ entry ∈ entries, entry.2 ∈ told ∨ entry.1 ∈ removeKeys)
      (fun _ _ _ => False) d comes
  | [], _, comes, _ => ⟨rfl, [], (tell_nil comes m).symm, fun _ he => absurd he List.not_mem_nil⟩
  | (key, i) :: entries, d, comes, h => by
    refine wp_seq (ledger_send (h _ List.mem_cons_self)) (fun (sent : Bool) d₁ comes₁ h₁ => ?_)
      fun _ _ _ hf => hf
    obtain ⟨rfl, hcomes⟩ := h₁
    have hfirst : ∃ told, comes₁ = comes.tell m told ∧ (sent = true → i ∈ told) := by
      cases sent with
      | true => exact ⟨[i], hcomes, fun _ => List.mem_cons_self⟩
      | false => exact ⟨[], hcomes.trans (tell_nil comes m).symm, nofun⟩
    obtain ⟨told, rfl, hsent⟩ := hfirst
    have hrest : ∀ entry ∈ entries, (comes.tell m told entry.2).isSome = true := by
      intro entry he
      rw [isSome_tell]
      exact h entry (List.mem_cons_of_mem _ he)
    refine wp_seq (ledger_sendToEach entries hrest) (fun removeKeys d₂ comes₂ h₂ => ?_)
      fun _ _ _ hf => hf
    obtain ⟨rfl, told', rfl, hall⟩ := h₂
    refine ⟨rfl, told ++ told', tell_tell comes m told told', fun entry he => ?_⟩
    rcases List.mem_cons.mp he with rfl | he
    · by_cases hs : sent = true
      · exact .inl (List.mem_append_left _ (hsent hs))
      · rw [if_neg hs]
        exact .inr List.mem_cons_self
    · rcases hall entry he with ht | hk
      · exact .inl (List.mem_append_right _ ht)
      · refine .inr ?_
        split
        · exact hk
        · exact List.mem_cons_of_mem key hk

theorem Registered.isSome (h : Registered c but d comes) :
    ∀ entry ∈ d.channelMap, (comes entry.2).isSome = true := by
  intro entry he
  obtain ⟨x, hx, -⟩ := h.entries entry he
  rw [hx]
  rfl

theorem ledger_sendToAll {m : MessageSingleDownloader} (h : Registered c but d comes) :
    wp ledgerEnv (sendMessageToAllDownloads m) (fun _ d' comes' => ∃ keys told, Fewer keys d d' ∧
      comes' = comes.tell m told ∧ ∀ entry ∈ d'.channelMap, entry.2 ∈ told)
      (fun _ _ _ => False) d comes := by
  show wp _ (sendToEach m d.channelMap >>= _) _ _ d comes
  refine wp_seq (ledger_sendToEach d.channelMap h.isSome) (fun removeKeys d₁ comes₁ h₁ => ?_)
    fun _ _ _ hf => hf
  obtain ⟨rfl, told, rfl, hall⟩ := h₁
  refine wp_conseq (ledger_removeChannels removeKeys) (fun _ d' comes' h' => ?_) fun _ _ _ hf => hf
  obtain ⟨hfewer, rfl⟩ := h'
  refine ⟨removeKeys, told, hfewer, rfl, fun entry he => ?_⟩
  exact (hall entry (hfewer.list.subset he)).resolve_right (hfewer.gone entry he)

/-- **A new config**, from what is known of the users it has. -/
theorem ledger_setNewConfig (config : Config) (h : Registered config but { d with config } comes) :
    wp ledgerEnv (OutgoingDownloader.setNewConfig config) (fun _ => Informed config but)
      (fun _ _ _ => False) d comes := by
  show wp _ (sendMessageToAllDownloads (.newConfig config) >>= _) _ _ { d with config } comes
  refine wp_seq (ledger_sendToAll h) (fun _ d₁ comes₁ h₁ => ?_) fun _ _ _ hf => hf
  obtain ⟨keys, told, hfewer, rfl, htold⟩ := h₁
  refine ⟨trivial, fun _ comes₂ hs => ?_⟩
  rw [show comes₂ = _ from hs]
  refine ⟨(h.tell config told).fewer hfewer, fun entry he x hx => ?_⟩
  unfold Ledger.tell at hx
  rw [if_pos (htold entry he)] at hx
  obtain ⟨y, -, rfl⟩ := Option.map_eq_some_iff.mp hx
  exact ⟨rfl, rfl⟩

/-- What holds between two methods. -/
abbrev InformedOf (c : Config) (d : OutgoingDownloader) (comes : Ledger) : Prop := Informed c none d comes

theorem keeps_sendToAll {m : MessageSingleDownloader} (hm : ∀ x : Briefing, x.hear m = x) :
    Maintains ledgerEnv (InformedOf c) (sendMessageToAllDownloads m) := by
  intro d comes h
  refine wp_conseq (ledger_sendToAll h.registered) (fun _ d' comes' h' => ?_)
    fun _ _ _ hf => False.elim hf
  obtain ⟨keys, told, hfewer, rfl, -⟩ := h'
  rw [tell_neutral hm]
  exact h.fewer hfewer

theorem mem_of_channel (h : d.channel n = some i) : (n, i) ∈ d.channelMap := by
  obtain ⟨before, after, hl, -⟩ := List.lookup_eq_some_iff.mp h
  rw [hl]
  exact List.mem_append_right _ List.mem_cons_self

/-- A message to one downloader: it comes, or the entry of the downloader goes. -/
theorem ledger_sendMessageToDownload {m : MessageSingleDownloader} (h : Registered c but d comes) :
    wp ledgerEnv (OutgoingDownloader.sendMessageToDownload n m) (fun _ d' comes' =>
      (∃ i, (n, i) ∈ d.channelMap ∧ d' = d ∧ comes' = comes.tell m [i]) ∨
        d' = without n d ∧ comes' = comes) (fun _ _ _ => False) d comes := by
  unfold OutgoingDownloader.sendMessageToDownload
  rw [wp_bind, wp_get]
  cases hc : d.channel n with
  | none => exact .inr ⟨(without_of_none hc).symm, rfl⟩
  | some i =>
    have hmem : (n, i) ∈ d.channelMap := mem_of_channel hc
    refine wp_seq (ledger_send (h.isSome _ hmem)) (fun (sent : Bool) d₁ comes₁ h₁ => ?_)
      fun _ _ _ hf => hf
    obtain ⟨rfl, hcomes⟩ := h₁
    refine (wp_ite _ _ _).mpr ?_
    split
    · rename_i hsent
      rw [if_pos hsent] at hcomes
      exact .inl ⟨i, hmem, rfl, hcomes⟩
    · rename_i hsent
      rw [if_neg hsent] at hcomes
      subst hcomes
      exact wp_conseq ledger_removeChannel (fun _ _ _ h' => .inr h') fun _ _ _ hf => hf

theorem keeps_sendMessageToDownload {m : MessageSingleDownloader}
    (hm : ∀ x : Briefing, x.hear m = x) :
    Maintains ledgerEnv (InformedOf c) (OutgoingDownloader.sendMessageToDownload n m) := by
  intro d comes h
  refine wp_conseq (ledger_sendMessageToDownload h.registered) (fun _ d' comes' h' => ?_)
    fun _ _ _ hf => False.elim hf
  rcases h' with ⟨i, -, rfl, rfl⟩ | ⟨rfl, rfl⟩
  · rw [tell_neutral hm]
    exact h
  · exact h.fewer fewer_without

/-- **The new user** of one downloader makes up for what was missing. -/
theorem Informed.newUser {user : SharedUser} (h : Informed c (some n) d comes)
    (hmem : (n, i) ∈ d.channelMap) (hnick : user.nickname = n) (hcontact : HasContact c user) :
    Informed c none d (comes.tell (.newSharedUser user) [i]) := by
  obtain ⟨y, hy, hyn, -⟩ := h.registered.entries _ hmem
  refine ⟨⟨h.registered.config, h.registered.keys, fun entry he => ?_⟩, fun entry he x hx => ?_⟩
  · obtain ⟨x, hx, hxn, hxc⟩ := h.registered.entries entry he
    unfold Ledger.tell
    by_cases hi : entry.2 = i
    · -- it is the entry of the same thread, which is for one nickname only
      rw [if_pos (List.mem_singleton.mpr hi), hx]
      rw [hi, hy] at hx
      refine ⟨_, rfl, ?_, fun _ => hcontact⟩
      rw [← hxn, ← Option.some.inj hx, hyn]
      exact hnick
    · rw [if_neg fun hm => hi (List.mem_singleton.mp hm)]
      refine ⟨x, hx, hxn, fun _ => hxc fun hs => hi ?_⟩
      have hkey := lookup_of_mem h.registered.keys he
      rw [← Option.some.inj hs, lookup_of_mem h.registered.keys hmem] at hkey
      exact (Option.some.inj hkey).symm
  · unfold Ledger.tell at hx
    split at hx
    · obtain ⟨z, hz, rfl⟩ := Option.map_eq_some_iff.mp hx
      exact h.heard entry he z hz
    · exact h.heard entry he x hx

theorem ledger_updateUser (h : Informed c (some n) d comes)
    (hn : ∃ u ∈ c.configFile.sharedUsers, u.nickname = n) :
    wp ledgerEnv (OutgoingDownloader.updateUser n) (fun _ => InformedOf c) (fun _ => InformedOf c)
      d comes := by
  unfold OutgoingDownloader.updateUser
  rw [wp_bind, wp_get, h.registered.config]
  cases hf : c.configFile.sharedUsers.find? fun user => user.nickname = n with
  | none =>
    obtain ⟨u, hu, hnick⟩ := hn
    exact absurd (decide_eq_true hnick) (List.find?_eq_none.mp hf u hu)
  | some user =>
    have hnick : user.nickname = n := by simpa using List.find?_some hf
    refine wp_conseq (ledger_sendMessageToDownload h.registered) (fun _ d' comes' h' => ?_)
      fun _ _ _ hf => False.elim hf
    rcases h' with ⟨i, hmem, rfl, rfl⟩ | ⟨rfl, rfl⟩
    · exact h.newUser hmem hnick (hasContact_of_mem (List.mem_of_find?_eq_some hf))
    · exact (h.fewer fewer_without).whole fun entry he => fun hkey =>
        fewer_without.gone entry he (List.mem_singleton.mpr hkey)

/-- The user that is removed is missing for nobody. -/
theorem ledger_removeUser (h : Informed c (some n) d comes) :
    wp ledgerEnv (OutgoingDownloader.removeUser n) (fun _ => InformedOf c) (fun _ => InformedOf c)
      d comes := by
  have hgone : Informed c none (without n d) comes :=
    (h.fewer fewer_without).whole fun entry he hkey =>
      fewer_without.gone entry he (List.mem_singleton.mpr hkey)
  unfold OutgoingDownloader.removeUser
  rw [wp_bind, wp_get]
  cases hc : d.channel n with
  | none =>
    rw [without_of_none hc] at hgone
    exact hgone
  | some i =>
    refine wp_seq (ledger_send (h.registered.isSome _ (mem_of_channel hc)))
      (fun (sent : Bool) d₁ comes₁ h₁ => ?_) fun _ _ _ hf => False.elim hf
    obtain ⟨rfl, hcomes⟩ := h₁
    have hsame : comes₁ = comes := by
      rw [hcomes, tell_neutral fun _ => rfl, ite_self]
    rw [hsame]
    refine wp_conseq ledger_removeChannel (fun _ d' comes' h' => ?_) fun _ _ _ hf => False.elim hf
    obtain ⟨rfl, rfl⟩ := h'
    exact hgone

/-! ### New downloaders -/

/-- A downloader is started with the config, for a user of the config. -/
theorem Informed.spawn {user : SharedUser} (h : Informed c none (without user.nickname d) comes)
    (hi : comes i = none) (hcontact : HasContact c user) :
    Informed c none { without user.nickname d with
        channelMap := (user.nickname, i) :: (without user.nickname d).channelMap }
      (Function.update comes i (some ⟨user, c⟩)) := by
  have hold : ∀ entry ∈ (without user.nickname d).channelMap,
      Function.update comes i (some ⟨user, c⟩) entry.2 = comes entry.2 := by
    intro entry he
    refine Function.update_of_ne (fun hei => ?_) _ _
    have hsome := h.registered.isSome entry he
    rw [hei, hi] at hsome
    cases hsome
  refine ⟨⟨h.registered.config, ?_, fun entry he => ?_⟩, fun entry he x hx => ?_⟩
  · rw [List.map_cons, List.nodup_cons]
    refine ⟨fun hmem => ?_, h.registered.keys⟩
    obtain ⟨entry, he, hkey⟩ := List.mem_map.mp hmem
    exact fewer_without.gone entry he (List.mem_singleton.mpr hkey)
  · rcases List.mem_cons.mp he with rfl | he
    · exact ⟨_, Function.update_self i _ comes, rfl, fun _ => hcontact⟩
    · rw [hold entry he]
      exact h.registered.entries entry he
  · rcases List.mem_cons.mp he with rfl | he
    · rw [Function.update_self] at hx
      cases hx
      exact ⟨rfl, rfl⟩
    · rw [hold entry he] at hx
      exact h.heard entry he x hx

theorem ledger_startThread {user : SharedUser} {path : Str} {reverse : Option EncryptedStream}
    (h : Informed c none d comes) (hcontact : reverse.isSome = true ∨ HasContact c user) :
    wp ledgerEnv (startThread user path reverse) (fun _ => InformedOf c) (fun _ _ _ => False)
      d comes := by
  refine (wp_bind _ _).mpr ⟨trivial, fun (i : Nat) comes₁ hs => ?_⟩
  obtain ⟨hi, rfl⟩ : comes i = none ∧ comes₁ = comes := hs
  have hinsert : wp ledgerEnv (insertChannel user.nickname i) (fun _ d' comes' =>
      d' = { without user.nickname d with
        channelMap := (user.nickname, i) :: (without user.nickname d).channelMap } ∧
      comes' = comes₁) (fun _ _ _ => False) d comes₁ := by
    refine wp_seq ledger_removeChannel (fun _ d₁ comes₂ h₁ => ?_) fun _ _ _ hf => hf
    obtain ⟨rfl, rfl⟩ := h₁
    exact ⟨rfl, rfl⟩
  refine wp_seq (m := insertChannel user.nickname i) hinsert (fun _ d₂ comes₂ h₂ => ?_)
    fun _ _ _ hf => hf
  obtain ⟨rfl, rfl⟩ := h₂
  refine ⟨hi, fun _ comes₃ hs => ?_⟩
  obtain ⟨hreverse, rfl⟩ : (reverse.isSome → HasContact d.config user) ∧
    comes₃ = Function.update comes₂ i (some ⟨user, d.config⟩) := hs
  rw [h.registered.config] at hreverse ⊢
  exact (h.fewer fewer_without).spawn hi (hcontact.elim hreverse id)

/-! ### The other methods -/

theorem ledger_startDownloadingSingleUser {user : SharedUser} (h : Informed c none d comes)
    (hcontact : HasContact c user) :
    wp ledgerEnv (startDownloadingSingleUser user none) (fun _ => InformedOf c) (fun _ _ _ => False)
      d comes := by
  show wp _ (coreCommand (.queueExists (queueFilePath d.config user.nickname)) >>= _) _ _ d comes
  refine (wp_bind _ _).mpr ⟨trivial, fun (pathExists : Bool) comes₁ hs => ?_⟩
  obtain rfl : comes₁ = comes := hs
  show wp _ (if pathExists = true then startThread user _ none else pure ()) _ _ d comes₁
  refine (wp_ite _ _ _).mpr ?_
  split
  · exact ledger_startThread h (.inr hcontact)
  · exact h

theorem ledger_startReverse {enc : EncryptedStream} (h : Informed c none d comes) :
    wp ledgerEnv (startDownloadingSingleUser enc.sharedUser (some enc)) (fun _ => InformedOf c)
      (fun _ _ _ => False) d comes := by
  unfold startDownloadingSingleUser
  rw [wp_bind, wp_get]
  refine (wp_ite _ _ _).mpr ?_
  split
  · cases d.channel enc.sharedUser.nickname with
    | some i =>
      refine ⟨trivial, fun _ comes₁ hs => ?_⟩
      obtain rfl : comes₁ = comes := hs
      exact h
    | none => exact ledger_startThread h (.inl rfl)
  · exact h

theorem ledger_startDownloadingUsers : ∀ (users : List SharedUser) {d : OutgoingDownloader}
    {comes : Ledger}, (∀ user ∈ users, HasContact c user) → Informed c none d comes →
    wp ledgerEnv (startDownloadingUsers users) (fun _ => InformedOf c) (fun _ _ _ => False) d comes
  | [], _, _, _, h => h
  | user :: users, _, _, hall, h => by
    refine wp_seq (ledger_startDownloadingSingleUser h (hall user List.mem_cons_self))
      (fun _ d' comes' h' => ?_) fun _ _ _ hf => hf
    exact ledger_startDownloadingUsers users (fun u hu => hall u (List.mem_cons_of_mem _ hu)) h'

theorem keeps_addToQueueFile (owner path : Str) (size : UInt64) :
    Maintains ledgerEnv (InformedOf c)
      (OutgoingDownloader.addToQueueFileAndStartDownloader owner path size) := by
  intro d comes h
  unfold OutgoingDownloader.addToQueueFileAndStartDownloader
  rw [wp_bind, wp_get]
  refine (wp_bind _ _).mpr ⟨trivial, fun written comes₁ hs => ?_⟩
  obtain rfl : comes₁ = comes := hs
  cases written with
  | error e => exact h
  | ok u =>
    dsimp only
    cases hu : d.config.configFile.sharedUsers.find? fun user => user.nickname = owner with
    | none => exact h
    | some user =>
      rw [h.registered.config] at hu
      show wp _ (startDownloadingSingleUser user none) _ _ d comes₁
      exact wp_conseq (ledger_startDownloadingSingleUser h
        (hasContact_of_mem (List.mem_of_find?_eq_some hu))) (fun _ _ _ h' => h')
        fun _ _ _ hf => False.elim hf

theorem keeps_downloadOne (download : SelectedDownload) :
    Maintains ledgerEnv (InformedOf c) (OutgoingDownloader.downloadOne download) := by
  intro d comes h
  unfold OutgoingDownloader.downloadOne
  rw [wp_bind, wp_get]
  cases hc : d.channel download.owner with
  | none => exact keeps_addToQueueFile _ _ _ d comes h
  | some i =>
    refine wp_seq (ledger_send (h.registered.isSome _ (mem_of_channel hc)))
      (fun (sent : Bool) d₁ comes₁ h₁ => ?_) fun _ _ _ hf => False.elim hf
    obtain ⟨rfl, hcomes⟩ := h₁
    rw [tell_neutral fun _ => rfl, ite_self] at hcomes
    rw [hcomes]
    refine (wp_ite _ _ _).mpr ?_
    split
    · exact h
    · exact keeps_addToQueueFile _ _ _ d₁ comes h

theorem keeps_downloadSelected : ∀ downloads : List SelectedDownload,
    Maintains ledgerEnv (InformedOf c) (OutgoingDownloader.downloadSelected downloads)
  | [] => maintains_pure ()
  | download :: downloads =>
    maintains_bind (keeps_downloadOne download) fun _ => keeps_downloadSelected downloads

/-- Commands that tell no downloader anything. -/
theorem keeps_coreCommand (cmd : CoreCmd) (hok : ∀ comes, LedgerOk comes cmd)
    (hstep : ∀ comes a comes', LedgerStep comes cmd a comes' → comes' = comes) :
    Maintains ledgerEnv (InformedOf c) (coreCommand cmd) := by
  intro d comes h
  refine ⟨hok comes, fun a comes' hs => ?_⟩
  rw [hstep comes a comes' hs]
  exact h

theorem keeps_startRefreshUsers : ∀ users : List SharedUser,
    Maintains ledgerEnv (InformedOf c) (OutgoingDownloader.startRefreshUsers users)
  | [] => maintains_pure ()
  | user :: users => by
    refine maintains_bind (maintains_get fun d comes h => ?_) fun _ => keeps_startRefreshUsers users
    exact keeps_coreCommand (.startRefresh user.nickname d.config) (fun _ => trivial)
      (fun _ _ _ hs => hs) d comes h

/-- A change of what is no config and no entry. -/
theorem Informed.setPaused (h : Informed c none d comes) (isDownloadingPaused : Bool) :
    Informed c none { d with isDownloadingPaused } comes :=
  ⟨⟨h.registered.config, h.registered.keys, h.registered.entries⟩, h.heard⟩

/-- **The operations on the downloads.** -/
theorem keeps_downloadOperation (op : DownloadOperation) :
    Maintains ledgerEnv (InformedOf c) op.run := by
  cases op with
  | cancelAll => exact keeps_sendToAll fun _ => rfl
  | cancelSingle nickname filePath => exact keeps_sendMessageToDownload fun _ => rfl
  | pauseAll =>
    exact maintains_bind (maintains_modify fun _ _ h => h.setPaused true) fun _ =>
      keeps_sendToAll fun _ => rfl
  | resumeAll =>
    exact maintains_bind (maintains_modify fun _ _ h => h.setPaused false) fun _ =>
      keeps_sendToAll fun _ => rfl
  | downloadSelected downloads => exact keeps_downloadSelected downloads
  | startRefreshAll => exact maintains_get fun d comes h => keeps_startRefreshUsers _ d comes h
  | startRefreshSingle nickname =>
    refine maintains_get fun d comes h => ?_
    exact keeps_coreCommand (.startRefresh nickname d.config) (fun _ => trivial)
      (fun _ _ _ hs => hs) d comes h
  | getSharedWithMeData =>
    exact keeps_coreCommand .pollRefresh (fun _ => trivial) fun _ _ _ hs => hs
  | reverseConnection enc =>
    intro d comes h
    exact wp_conseq (ledger_startReverse h) (fun _ _ _ h' => h') fun _ _ _ hf => False.elim hf

/-- What is known of the users of a new config. -/
theorem Informed.renew {config : Config} (h : Informed c none d comes)
    (hc : ∀ user, HasContact c user → but ≠ some user.nickname → HasContact config user) :
    Registered config but { d with config } comes := by
  refine ⟨rfl, h.registered.keys, fun entry he => ?_⟩
  obtain ⟨x, hx, hnick, hcontact⟩ := h.registered.entries entry he
  refine ⟨x, hx, hnick, fun hbut => hc _ (hcontact nofun) ?_⟩
  rw [hnick]
  exact hbut

/-- **What the core tells the downloads of a successful operation.** -/
theorem ledger_follow [Crates] {configDir : Str} {m m' : Config} {o : Outcomes} {disk disk' : Disk}
    {op : Operation} (hv : Verified configDir m)
    (hrun : op.run configDir m o disk = (.ok (), m', disk')) (h : Informed c none d comes)
    (htracks : Tracks c m) :
    ∃ c', Tracks c' m' ∧ wp ledgerEnv (op.follow m') (fun _ => InformedOf c')
      (fun _ => InformedOf c') d comes := by
  have heffect := operation_effect hrun
  have hcontacts : ∀ user, HasContact c user → op.changes ≠ some user.nickname →
      HasContact m' user := fun user hu hop =>
    effect_contacts hv heffect (htracks.contacts user hu) hop
  have hnew : wp ledgerEnv (OutgoingDownloader.setNewConfig m') (fun _ => Informed m' op.changes)
      (fun _ _ _ => False) d comes := ledger_setNewConfig m' (h.renew hcontacts)
  have hnone : op.changes = none → wp ledgerEnv (OutgoingDownloader.setNewConfig m')
      (fun _ => InformedOf m') (fun _ _ _ => False) d comes := by
    intro hop
    rw [hop] at hnew
    exact hnew
  have hquiet : op.announces = false → ∃ c', Tracks c' m' ∧ Informed c' none d comes := fun hop =>
    ⟨c, htracks.trans (unannounced_tracks hop hv heffect), h⟩
  cases op with
  | addNewUser =>
    exact ⟨m', .refl m', wp_conseq (hnone rfl) (fun _ _ _ h' => h') fun _ _ _ hf => False.elim hf⟩
  | createNewId =>
    exact ⟨m', .refl m', wp_conseq (hnone rfl) (fun _ _ _ h' => h') fun _ _ _ hf => False.elim hf⟩
  | setPathDownloadsDir =>
    exact ⟨m', .refl m', wp_conseq (hnone rfl) (fun _ _ _ h' => h') fun _ _ _ hf => False.elim hf⟩
  | setIgnoreIncoming =>
    refine ⟨m', .refl m', wp_seq (hnone rfl) (fun _ d' comes' h' => ?_) fun _ _ _ hf => False.elim hf⟩
    exact keeps_sendToAll (fun _ => rfl) d' comes' h'
  | removeUser nickname =>
    refine ⟨m', .refl m', wp_seq hnew (fun _ d' comes' h' => ?_) fun _ _ _ hf => False.elim hf⟩
    exact ledger_removeUser h'
  | updateUser nickname =>
    refine ⟨m', .refl m', wp_seq hnew (fun _ d' comes' h' => ?_) fun _ _ _ hf => False.elim hf⟩
    exact ledger_updateUser h' (updateUser_mem hv hrun)
  | _ => exact hquiet rfl

end Methods

end Transmitic
