/-
  File:      Transmitic/PortAddresses.lean
  Subject:   WHAT AN ACCEPTED PORT IS GOOD FOR (config.rs, `verify_config_port`; incoming_uploader.rs, the
             addresses of `run`; utils.rs, `resolve_address`).

  The check reads a port as a signed number with an upper bound; where it is used it is read as a part of a
  socket address.

  * `addressTexts`, `resolveAddress` -- the texts `run` unwraps, and the lookup of a user's address;
  * `verifyConfigPort_ok` -- **what the check accepts**: the digits of a port, or a sign in front;
  * `addressesParse_iff`, `resolvesToItself_iff` -- the two uses, for any accepted port;
  * `port_usable_iff` -- **exactly** the configs whose ports have no sign are usable.
-/
import Transmitic.ConfigReload
import Transmitic.UploaderManager
import Transmitic.Lib.SocketAddress

namespace Transmitic

open Lib

/-! ## 1. The uses -/

/-- The texts of the addresses to listen on. -/
def addressTexts (sharingState : SharingState) (port : Str) : List Str :=
  match sharingState with
  | .off => []
  | .local => ["[::1]:".toList ++ port, "127.0.0.1:".toList ++ port]
  | .internet => ["[::0]:".toList ++ port, "0.0.0.0:".toList ++ port]

/-- What `resolve_address` comes to: an address as it stands, or the lookup of a name. -/
inductive Resolution where
  | already (address : SocketAddress)
  | toSocketAddrs (address : Str)
  deriving DecidableEq, Repr

/-- `resolve_address`, up to the lookup. -/
def resolveAddress (host port : Str) : Resolution :=
  match parseSocketAddr (host ++ ':' :: port) with
  | some address => .already address
  | none =>
    -- an IPv6 address that has no brackets
    match parseSocketAddr ('[' :: host ++ ']' :: ':' :: port) with
    | some (.v6 ip scopeId port) => .already (.v6 ip scopeId port)
    | _ => .toSocketAddrs (host ++ ':' :: port)

/-- None of the addresses to listen on fails to parse. -/
def AddressesParse (port : Str) : Prop :=
  ∀ sharingState, ∀ text ∈ addressTexts sharingState port, (parseSocketAddr text).isSome

/-- A user's IPv4 address is resolved to itself and the port, without a lookup. -/
def ResolvesToItself (user : SharedUser) : Prop :=
  ∀ octets, parseIpv4Addr user.ip = some octets →
    ∃ n : Nat, parseI32 user.port = some (n : Int) ∧ resolveAddress user.ip user.port = .already (.v4 octets n)

/-- The ports of a config do what they are for. -/
def PortsUsable (configFile : ConfigFile) : Prop :=
  AddressesParse configFile.sharingPort ∧ ∀ user ∈ configFile.sharedUsers, ResolvesToItself user

/-- A sign stands in front. -/
def Signed (port : Str) : Prop := port.head? = some '+' ∨ port.head? = some '-'

instance (port : Str) : Decidable (Signed port) := by unfold Signed; infer_instance

/-! ## 2. The check -/

/-- **An accepted port** is digits, unless it has a sign. -/
theorem verifyConfigPort_ok {port : Str} (h : verifyConfigPort port = .ok ()) :
    Signed port ∨ ∃ n, parseDigits port = some n ∧ n < 65536 ∧ parseI32 port = some (n : Int) := by
  by_cases hsigned : Signed port
  · exact .inl hsigned
  · right
    have hplus : stripPlus port = port := by
      cases port with
      | nil => rfl
      | cons c cs => exact if_neg fun hc => hsigned (.inl (congrArg some hc))
    have hi32 : parseI32 port = (parseDigits port).bind fun n => if n < 2 ^ 31 then some (n : Int) else none := by
      unfold parseI32
      split
      · exact absurd (.inr rfl) hsigned
      · rw [parseNat, hplus]
    unfold verifyConfigPort at h
    split at h
    · cases h
    · rename_i p hp
      have hbound : ¬ 65535 < p := by
        intro hlarge
        rw [if_pos hlarge] at h
        cases h
      rw [hi32] at hp
      obtain ⟨n, hn, hp⟩ := Option.bind_eq_some_iff.mp hp
      split at hp
      · rename_i hlt
        cases hp
        refine ⟨n, hn, by omega, ?_⟩
        rw [hi32, hn]
        exact if_pos hlt
      · cases hp

theorem port_of_verifyUserFields [Crates] {user : SharedUser} (h : verifyUserFields user = .ok ()) :
    verifyConfigPort user.port = .ok () := by
  unfold verifyUserFields at h
  dsimp only at h
  split at h
  · cases h
  split at h
  · cases h
  split at h
  · cases h
  split at h
  · cases h
  obtain ⟨_, -, h⟩ := bind_eq_ok.mp h
  obtain ⟨_, hport, -⟩ := bind_eq_ok.mp h
  cases hcheck : verifyConfigPort user.port with
  | ok u => rfl
  | error e =>
    rw [hcheck] at hport
    cases e <;> cases hport

theorem ports_of_verify [Crates] {configDir : Str} {raw configFile : ConfigFile}
    (h : verifyConfig configDir raw = .ok configFile) :
    verifyConfigPort configFile.sharingPort = .ok () ∧
      ∀ user ∈ configFile.sharedUsers, verifyConfigPort user.port = .ok () := by
  obtain ⟨-, hv⟩ := verifyConfig_eq_ok.mp h
  unfold verifySanitized at hv
  obtain ⟨_, hport, hv⟩ := bind_eq_ok.mp hv
  obtain ⟨_, -, hv⟩ := bind_eq_ok.mp hv
  obtain ⟨_, husers, -⟩ := bind_eq_ok.mp hv
  obtain ⟨_, -, hfields⟩ := bind_eq_ok.mp husers
  exact ⟨hport, fun user hu => port_of_verifyUserFields (forM_eq_ok.mp hfields user hu)⟩

/-! ## 3. The port of an address -/

/-- What is read as the port of an address. -/
theorem readPort_signed {port : Str} (h : Signed port) : readPort (':' :: port) = none := by
  cases port with
  | nil => rcases h with h | h <;> cases h
  | cons c port =>
    rcases h with h | h
    · cases Option.some.inj h
      exact readPort_sign (by decide) port
    · cases Option.some.inj h
      exact readPort_sign (by decide) port

/-- The hosts to listen on are addresses: their text is one with any port. -/
theorem addressTexts_parse {sharingState : SharingState} {port text : Str}
    (h : text ∈ addressTexts sharingState port) :
    (parseSocketAddr text).isSome = (parseWith readPort (':' :: port)).isSome := by
  have hv6 : ∀ (ip : Str) groups, parseIpv6Addr ip = some groups →
      (parseSocketAddr ('[' :: ip ++ ']' :: ':' :: port)).isSome = (parseWith readPort (':' :: port)).isSome := by
    intro ip groups hip
    rw [parseSocketAddr_ipv6 hip port, Option.isSome_map]
  have hv4 : ∀ (host : Str) octets, parseIpv4Addr host = some octets →
      (parseSocketAddr (host ++ ':' :: port)).isSome = (parseWith readPort (':' :: port)).isSome := by
    intro host octets hhost
    rw [parseSocketAddr_ipv4 hhost port, Option.isSome_map]
  cases sharingState with
  | off => cases h
  | «local» =>
    rcases List.mem_cons.mp h with rfl | h
    · exact hv6 "::1".toList [0, 0, 0, 0, 0, 0, 0, 1] (by decide +kernel)
    · cases List.mem_singleton.mp h
      exact hv4 "127.0.0.1".toList [127, 0, 0, 1] (by decide +kernel)
  | internet =>
    rcases List.mem_cons.mp h with rfl | h
    · exact hv6 "::0".toList [0, 0, 0, 0, 0, 0, 0, 0] (by decide +kernel)
    · cases List.mem_singleton.mp h
      exact hv4 "0.0.0.0".toList [0, 0, 0, 0] (by decide +kernel)

/-- The port of an address is the accepted one, unless that has a sign. -/
theorem readPort_accepted {port : Str} (h : verifyConfigPort port = .ok ()) :
    (Signed port ∧ parseWith readPort (':' :: port) = none) ∨
      ∃ n : Nat, ¬ Signed port ∧ parseI32 port = some (n : Int) ∧ parseWith readPort (':' :: port) = some n := by
  by_cases hsigned : Signed port
  · left
    refine ⟨hsigned, ?_⟩
    rw [parseWith, readPort_signed hsigned]
  · right
    obtain ⟨n, hdigits, hn, hi32⟩ := (verifyConfigPort_ok h).resolve_left hsigned
    refine ⟨n, hsigned, hi32, ?_⟩
    rw [parseWith, readPort_digits hdigits hn]

/-- **The addresses to listen on** parse just where the port has no sign. -/
theorem addressesParse_iff {port : Str} (h : verifyConfigPort port = .ok ()) :
    AddressesParse port ↔ ¬ Signed port := by
  constructor
  · intro hparse hsigned
    have hlocal := hparse .local _ List.mem_cons_self
    rw [@addressTexts_parse .local port _ List.mem_cons_self, parseWith,
      readPort_signed hsigned] at hlocal
    cases hlocal
  · intro hno sharingState text htext
    obtain ⟨hsigned, -⟩ | ⟨n, -, -, hport⟩ := readPort_accepted h
    · exact absurd hsigned hno
    · rw [addressTexts_parse htext, hport]
      rfl

/-- **A user's IPv4 address** is resolved to itself just where his port has no sign; otherwise the text goes
    to the lookup of names. -/
theorem resolvesToItself_iff {user : SharedUser} (h : verifyConfigPort user.port = .ok ()) :
    ResolvesToItself user ↔ ((parseIpv4Addr user.ip).isSome → ¬ Signed user.port) := by
  obtain ⟨hsigned, hport⟩ | ⟨n, hsigned, hi32, hport⟩ := readPort_accepted h
  · constructor
    · intro hself hip
      obtain ⟨octets, hip⟩ := Option.isSome_iff_exists.mp hip
      obtain ⟨n, -, hresolve⟩ := hself octets hip
      unfold resolveAddress at hresolve
      rw [parseSocketAddr_ipv4 hip, hport, Option.map_none, parseSocketAddr_brackets hip] at hresolve
      cases hresolve
    · intro hno octets hip
      exact absurd hsigned (hno (by rw [hip]; rfl))
  · refine ⟨fun _ _ => hsigned, fun _ octets hip => ⟨n, hi32, ?_⟩⟩
    unfold resolveAddress
    rw [parseSocketAddr_ipv4 hip, hport]
    rfl

/-! ## 4. Accepted configs -/

/-- What `run` unwraps is there just where the texts parse. -/
theorem ipAddresses_iff {port : Str} (h : verifyConfigPort port = .ok ()) :
    (∀ sharingState, none ∉ UploaderManager.ipAddresses sharingState port) ↔ AddressesParse port := by
  rw [addressesParse_iff h]
  by_cases hsigned : Signed port
  · have hnone : ∀ host, UploaderManager.socketAddr host port = none := by
      intro host
      cases port with
      | nil => rcases hsigned with h | h <;> cases h
      | cons c cs =>
        have hdigit : c.isDigit = false := by
          rcases hsigned with h | h <;> cases Option.some.inj h <;> decide
        simp [UploaderManager.socketAddr, parseDigits, hdigit]
    refine iff_of_false (fun hall => hall .local ?_) (fun hno => hno hsigned)
    rw [UploaderManager.ipAddresses, hnone]
    exact List.mem_cons_self
  · obtain ⟨n, hdigits, hn, -⟩ := (verifyConfigPort_ok h).resolve_left hsigned
    have hsome : ∀ host, UploaderManager.socketAddr host port = some { host, port := n } := by
      intro host
      rw [UploaderManager.socketAddr, hdigits]
      exact if_pos (by omega)
    refine iff_of_true (fun sharingState => ?_) hsigned
    cases sharingState <;> simp [UploaderManager.ipAddresses, hsome]

/-- **Accepted ports are usable exactly where they have no sign**: the sharing port, so that no unwrap of
    the addresses to listen on fails, and the ports of the users with an IPv4 address. -/
theorem port_usable_iff [Crates] {configDir : Str} {raw configFile : ConfigFile}
    (h : verifyConfig configDir raw = .ok configFile) :
    (PortsUsable configFile ↔ ¬ Signed configFile.sharingPort ∧
      ∀ user ∈ configFile.sharedUsers, (parseIpv4Addr user.ip).isSome → ¬ Signed user.port) ∧
    ((∀ sharingState, none ∉ UploaderManager.ipAddresses sharingState configFile.sharingPort) ↔
      ¬ Signed configFile.sharingPort) := by
  obtain ⟨hport, husers⟩ := ports_of_verify h
  refine ⟨and_congr (addressesParse_iff hport) ?_, (ipAddresses_iff hport).trans (addressesParse_iff hport)⟩
  exact forall_congr' fun user => forall_congr' fun hu => resolvesToItself_iff (husers user hu)

/-- The sample config with a negative port. -/
def negativePort : ConfigFile := { sampleConfig [] with sharingPort := "-1".toList }

theorem negativePort_verify :
    @verifyConfig (sampleCrates sampleConfigs) sampleDir negativePort = .ok negativePort := by decide +kernel

/-- The default port is usable, and so is the port of a user with an IPv4 address. -/
theorem port_usable_bob : PortsUsable (usersConfig [sampleBob]) := by
  have hverified : @verifyConfig (usersCrates []) sampleDir (usersConfig [sampleBob]) =
      .ok (usersConfig [sampleBob]) := by decide +kernel
  refine (@port_usable_iff (usersCrates []) sampleDir _ _ hverified).1.mpr ⟨by decide, fun user hu _ => ?_⟩
  rw [List.mem_singleton.mp hu]
  decide

/-- **A negative port is accepted**, and no address with it parses. -/
theorem negativePort_panics :
    @verifyConfig (sampleCrates sampleConfigs) sampleDir negativePort = .ok negativePort ∧
      ¬ PortsUsable negativePort ∧ none ∈ UploaderManager.ipAddresses .internet negativePort.sharingPort ∧
      parseSocketAddr ("0.0.0.0:".toList ++ negativePort.sharingPort) = none :=
  ⟨negativePort_verify,
    fun h => absurd ((addressesParse_iff (by decide)).mp h.1) (by decide), by decide +kernel, by decide +kernel⟩

end Transmitic
