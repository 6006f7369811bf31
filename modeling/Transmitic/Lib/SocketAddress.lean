/-
  File:      Transmitic/Lib/SocketAddress.lean
  Subject:   THE TEXT OF A SOCKET ADDRESS: the grammar of an IP address with a port. Nothing here knows a
             particular program.

  An address is read from the front of a text; what is not read is left.

  * `Reader`, `Reader.next` -- readers, one after the other;
  * `readNumber`, `readIpv4Addr`, `readIpv6Addr`, `readPort`, `readSocketAddr` -- the grammar;
  * `Stops` -- a reader reads nothing from a character on, **whatever comes after it** (`Stops.next`,
    `stops_number`, `stops_ipv4Addr`, `stops_ipv6Addr`);
  * `readPort_digits`, `readPort_sign` -- a port is digits, with no sign;
  * `parseSocketAddr_ipv4`, `parseSocketAddr_ipv6` -- an address and a port;
  * `parseSocketAddr_brackets` -- an IPv4 address in brackets is no address.
-/
import Transmitic.Lib.Text

namespace Transmitic.Lib

/-! ## 1. Readers -/

/-- What is read off the front of a text, and what is left of it. -/
abbrev Reader (α : Type) : Type := Str → Option (α × Str)

section Readers

variable {α β : Type}

def Reader.done (a : α) : Reader α := fun s => some (a, s)

def Reader.next (r : Reader α) (f : α → Reader β) : Reader β := fun s => (r s).bind fun x => f x.1 x.2

/-- The whole text is what is read. -/
def parseWith (r : Reader α) (s : Str) : Option α :=
  match r s with
  | some (a, []) => some a
  | _ => none

/-- A reader reads nothing from `c` on: with that behind a text it does what it does with the text. -/
def Stops (c : Char) (r : Reader α) : Prop :=
  ∀ s t, r (s ++ c :: t) = (r s).map fun x => (x.1, x.2 ++ c :: t)

theorem stops_done (c : Char) (a : α) : Stops c (Reader.done a) := fun _ _ => rfl

theorem stops_none (c : Char) : Stops c (fun _ => none : Reader α) := fun _ _ => rfl

theorem Stops.next {c : Char} {r : Reader α} {f : α → Reader β} (hr : Stops c r) (hf : ∀ a, Stops c (f a)) :
    Stops c (r.next f) := by
  intro s t
  unfold Reader.next
  rw [hr s t]
  cases r s with
  | none => rfl
  | some x => exact hf x.1 x.2 t

end Readers

/-! ## 2. Characters and numbers -/

def readGivenChar (target : Char) : Reader Unit
  | [] => none
  | c :: s => if c = target then some ((), s) else none

/-- `char::to_digit`. -/
def toDigit (radix : Nat) (c : Char) : Option Nat :=
  (if '0' ≤ c ∧ c ≤ '9' then some (c.toNat - 48)
    else if 'a' ≤ c ∧ c ≤ 'z' then some (c.toNat - 87)
    else if 'A' ≤ c ∧ c ≤ 'Z' then some (c.toNat - 55)
    else none).filter (· < radix)

/-- The digits in front. -/
def readDigits (radix : Nat) : Str → List Nat × Str
  | [] => ([], [])
  | c :: s =>
    match toDigit radix c with
    | some digit => (digit :: (readDigits radix s).1, (readDigits radix s).2)
    | none => ([], c :: s)

/-- A number below a bound, with as many digits as are allowed. -/
def readNumber (radix : Nat) (maxDigits : Option Nat) (allowZeroPrefix : Bool) (bound : Nat) : Reader Nat :=
  fun s =>
    let digits := (readDigits radix s).1
    let number := digits.foldl (fun result digit => radix * result + digit) 0
    if digits = [] ∨ (∃ m ∈ maxDigits, m < digits.length) ∨
        (allowZeroPrefix = false ∧ digits.head? = some 0 ∧ 1 < digits.length) ∨ bound ≤ number then none
    else some (number, (readDigits radix s).2)

theorem stops_givenChar {c target : Char} (h : c ≠ target) : Stops c (readGivenChar target)
  | [], t => by simp [readGivenChar, h]
  | b :: s, t => by
    by_cases hb : b = target <;> simp [readGivenChar, hb]

theorem readDigits_append {radix : Nat} {c : Char} (h : toDigit radix c = none) (t : Str) : ∀ s : Str,
    readDigits radix (s ++ c :: t) = ((readDigits radix s).1, (readDigits radix s).2 ++ c :: t)
  | [] => by simp [readDigits, h]
  | b :: s => by
    have ih := readDigits_append h t s
    cases hb : toDigit radix b with
    | none => simp [readDigits, hb]
    | some digit => simp [readDigits, hb, ih]

theorem stops_number {radix : Nat} {c : Char} (h : toDigit radix c = none) (maxDigits : Option Nat)
    (allowZeroPrefix : Bool) (bound : Nat) : Stops c (readNumber radix maxDigits allowZeroPrefix bound) := by
  intro s t
  unfold readNumber
  rw [readDigits_append h t s]
  dsimp only
  split
  · rfl
  · rfl

/-! ## 3. Addresses -/

/-- The parts of an address stand behind a separator, but the first one does not. -/
def readSeparator {α : Type} (sep : Char) (index : Nat) (inner : Reader α) : Reader α :=
  if 0 < index then (readGivenChar sep).next fun _ => inner else inner

/-- Octets, without leading zeros. -/
def readOctets : (count index : Nat) → Reader (List Nat)
  | 0, _ => Reader.done []
  | count + 1, index =>
    (readSeparator '.' index (readNumber 10 (some 3) false 256)).next fun octet =>
      (readOctets count (index + 1)).next fun octets => Reader.done (octet :: octets)

def readIpv4Addr : Reader (List Nat) := readOctets 4 0

/-- The groups an IPv4 address stands for. -/
def octetGroups (octets : List Nat) : List Nat :=
  [256 * octets.getD 0 0 + octets.getD 1 0, 256 * octets.getD 2 0 + octets.getD 3 0]

/-- At most `left` groups; an IPv4 address stands for the last two. -/
def readGroups : (left index : Nat) → Reader (List Nat × Bool)
  | 0, _ => Reader.done ([], false)
  | left + 1, index => fun s =>
    match if 0 < left then readSeparator ':' index readIpv4Addr s else none with
    | some (octets, rest) => some ((octetGroups octets, true), rest)
    | none =>
      match readSeparator ':' index (readNumber 16 (some 4) true 65536) s with
      | some (group, rest) => ((readGroups left (index + 1)).next fun groups =>
          Reader.done (group :: groups.1, groups.2)) rest
      | none => some (([], false), s)

/-- Eight groups, or fewer around `::`. -/
def readIpv6Addr : Reader (List Nat) :=
  (readGroups 8 0).next fun head =>
    if head.1.length = 8 then Reader.done head.1
    else if head.2 then fun _ => none
    else (readGivenChar ':').next fun _ => (readGivenChar ':').next fun _ =>
      (readGroups (8 - (head.1.length + 1)) 0).next fun tail =>
        Reader.done (head.1 ++ List.replicate (8 - head.1.length - tail.1.length) 0 ++ tail.1)

def readPort : Reader Nat := (readGivenChar ':').next fun _ => readNumber 10 none true 65536

/-- The scope is zero where there is none. -/
def readScopeId : Reader Nat := fun s =>
  (((readGivenChar '%').next fun _ => readNumber 10 none true (2 ^ 32)) s).getD (0, s)

/-- An address and a port. -/
inductive SocketAddress where
  | v4 (ip : List Nat) (port : Nat)
  | v6 (ip : List Nat) (scopeId port : Nat)
  deriving DecidableEq, Repr

def readSocketAddrV4 : Reader SocketAddress :=
  readIpv4Addr.next fun ip => readPort.next fun port => Reader.done (.v4 ip port)

def readSocketAddrV6 : Reader SocketAddress :=
  (readGivenChar '[').next fun _ => readIpv6Addr.next fun ip => readScopeId.next fun scopeId =>
    (readGivenChar ']').next fun _ => readPort.next fun port => Reader.done (.v6 ip scopeId port)

def readSocketAddr : Reader SocketAddress := fun s => (readSocketAddrV4 s).or (readSocketAddrV6 s)

def parseIpv4Addr (s : Str) : Option (List Nat) := parseWith readIpv4Addr s

def parseIpv6Addr (s : Str) : Option (List Nat) := parseWith readIpv6Addr s

def parseSocketAddr (s : Str) : Option SocketAddress := parseWith readSocketAddr s

theorem stops_separator {α : Type} {c sep : Char} {inner : Reader α} (h : c ≠ sep) (hinner : Stops c inner)
    (index : Nat) : Stops c (readSeparator sep index inner) := by
  unfold readSeparator
  split
  · exact (stops_givenChar h).next fun _ => hinner
  · exact hinner

theorem stops_octets {c : Char} (hdot : c ≠ '.') (hdigit : toDigit 10 c = none) : ∀ count index : Nat,
    Stops c (readOctets count index)
  | 0, _ => stops_done c _
  | count + 1, index =>
    (stops_separator hdot (stops_number hdigit _ _ _) index).next fun _ =>
      (stops_octets hdot hdigit count (index + 1)).next fun _ => stops_done c _

/-- **An IPv4 address ends** at what is no digit and no dot. -/
theorem stops_ipv4Addr {c : Char} (hdot : c ≠ '.') (hdigit : toDigit 10 c = none) : Stops c readIpv4Addr :=
  stops_octets hdot hdigit 4 0

theorem stops_groups {c : Char} (hcolon : c ≠ ':') (hdot : c ≠ '.') (hten : toDigit 10 c = none)
    (hsixteen : toDigit 16 c = none) : ∀ left index : Nat, Stops c (readGroups left index)
  | 0, _ => stops_done c _
  | left + 1, index => by
    intro s t
    have hipv4 : (if 0 < left then readSeparator ':' index readIpv4Addr (s ++ c :: t) else none) =
        (if 0 < left then readSeparator ':' index readIpv4Addr s else none).map
          fun x => (x.1, x.2 ++ c :: t) := by
      split
      · exact stops_separator hcolon (stops_ipv4Addr hdot hten) index s t
      · rfl
    have hgroup := stops_separator hcolon (stops_number hsixteen (some 4) true 65536) index s t
    unfold readGroups
    rw [hipv4, hgroup]
    cases if 0 < left then readSeparator ':' index readIpv4Addr s else none with
    | some x => rfl
    | none =>
      cases readSeparator ':' index (readNumber 16 (some 4) true 65536) s with
      | none => rfl
      | some x =>
        exact ((stops_groups hcolon hdot hten hsixteen left (index + 1)).next fun _ => stops_done c _) x.2 t

/-- **An IPv6 address ends** at what is no hexadecimal digit, no colon and no dot. -/
theorem stops_ipv6Addr {c : Char} (hcolon : c ≠ ':') (hdot : c ≠ '.') (hten : toDigit 10 c = none)
    (hsixteen : toDigit 16 c = none) : Stops c readIpv6Addr := by
  have hgroups := stops_groups hcolon hdot hten hsixteen
  refine (hgroups 8 0).next fun head => ?_
  split
  · exact stops_done c _
  · split
    · exact stops_none c
    · exact (stops_givenChar hcolon).next fun _ => (stops_givenChar hcolon).next fun _ =>
        (hgroups _ 0).next fun _ => stops_done c _

/-! ## 4. Ports -/

/-- A sign is no digit. -/
theorem readPort_sign {c : Char} (h : toDigit 10 c = none) (s : Str) : readPort (':' :: c :: s) = none := by
  simp [readPort, Reader.next, readGivenChar, readNumber, readDigits, h]

theorem toDigit_isDigit {c : Char} (h : c.isDigit = true) : toDigit 10 c = some (c.toNat - 48) := by
  have hrange : 48 ≤ c.toNat ∧ c.toNat ≤ 57 := Char.isDigit_iff_toNat.mp h
  have hlow : '0' ≤ c := Char.le_def.mpr (UInt32.le_iff_toNat_le.mpr hrange.1)
  have hhigh : c ≤ '9' := Char.le_def.mpr (UInt32.le_iff_toNat_le.mpr hrange.2)
  have hten : c.toNat - 48 < 10 := by omega
  simp [toDigit, hlow, hhigh, hten]

theorem readDigits_isDigit : ∀ {s : Str}, (∀ c ∈ s, c.isDigit = true) →
    readDigits 10 s = (s.map fun c => c.toNat - 48, [])
  | [], _ => rfl
  | c :: s, h => by
    have hc := toDigit_isDigit (h c List.mem_cons_self)
    have ih := readDigits_isDigit fun b hb => h b (List.mem_cons_of_mem c hb)
    simp [readDigits, hc, ih]

/-- **A port is digits**; zeros may stand in front. -/
theorem readPort_digits {s : Str} {n : Nat} (h : parseDigits s = some n) (hn : n < 65536) :
    readPort (':' :: s) = some (n, []) := by
  unfold parseDigits at h
  split at h
  · rename_i hs
    have hdigits := readDigits_isDigit (List.all_eq_true.mp hs.2)
    have hnumber : (s.map fun c => c.toNat - 48).foldl (fun result digit => 10 * result + digit) 0 = n := by
      rw [List.foldl_map]
      exact Option.some.inj h
    simp [readPort, Reader.next, readGivenChar, readNumber, hdigits, hnumber, hs.1, hn]
  · cases h

/-! ## 5. An address and a port -/

/-- A text that is read to its end, with something behind it that is not read. -/
theorem Stops.append {α : Type} {c : Char} {r : Reader α} {s : Str} {a : α} (hr : Stops c r)
    (h : parseWith r s = some a) (t : Str) : r (s ++ c :: t) = some (a, c :: t) := by
  have hread : r s = some (a, []) := by
    unfold parseWith at h
    split at h
    · rename_i hread
      cases h
      exact hread
    · cases h
  rw [hr s t, hread]
  rfl

section Addresses

variable {ip : Str} {octets groups : List Nat}

theorem readSocketAddrV4_brackets (s : Str) : readSocketAddrV4 ('[' :: s) = none := by
  simp [readSocketAddrV4, readIpv4Addr, readOctets, readSeparator, Reader.next, readNumber, readDigits,
    show toDigit 10 '[' = none by decide]

theorem readSocketAddrV6_ipv4 (h : parseIpv4Addr ip = some octets) (t : Str) :
    readSocketAddrV6 (ip ++ ':' :: t) = none := by
  cases ip with
  | nil => simp [readSocketAddrV6, Reader.next, readGivenChar]
  | cons c ip =>
    have hc : c ≠ '[' := by
      rintro rfl
      simp [parseIpv4Addr, parseWith, readIpv4Addr, readOctets, readSeparator, Reader.next, readNumber,
        readDigits, show toDigit 10 '[' = none by decide] at h
    simp [readSocketAddrV6, Reader.next, readGivenChar, hc]

/-- **An IPv4 address and a port** are such an address where the port is a port. -/
theorem parseSocketAddr_ipv4 (h : parseIpv4Addr ip = some octets) (port : Str) :
    parseSocketAddr (ip ++ ':' :: port) = (parseWith readPort (':' :: port)).map (.v4 octets) := by
  have haddress := (stops_ipv4Addr (by decide : ':' ≠ '.') (by decide)).append h port
  unfold parseSocketAddr parseWith readSocketAddr readSocketAddrV4 Reader.next
  rw [haddress, readSocketAddrV6_ipv4 h port]
  dsimp only [Option.bind_some]
  cases hport : readPort (':' :: port) with
  | none => rfl
  | some x =>
    obtain ⟨n, rest⟩ := x
    cases rest <;> rfl

/-- **An IPv4 address in brackets is none.** Its octets are taken for the last of eight groups. -/
theorem parseSocketAddr_brackets (h : parseIpv4Addr ip = some octets) (t : Str) :
    parseSocketAddr ('[' :: ip ++ ']' :: t) = none := by
  have haddress := (stops_ipv4Addr (by decide : ']' ≠ '.') (by decide)).append h t
  have hgroups : readGroups 8 0 (ip ++ ']' :: t) = some ((octetGroups octets, true), ']' :: t) := by
    simp [readGroups, readSeparator, haddress]
  have hv6 : readIpv6Addr (ip ++ ']' :: t) = none := by
    unfold readIpv6Addr Reader.next
    rw [hgroups]
    rfl
  rw [List.cons_append]
  simp [parseSocketAddr, parseWith, readSocketAddr, readSocketAddrV4_brackets, readSocketAddrV6, Reader.next,
    readGivenChar, hv6]

/-- **An IPv6 address in brackets and a port**, likewise. -/
theorem parseSocketAddr_ipv6 (h : parseIpv6Addr ip = some groups) (port : Str) :
    parseSocketAddr ('[' :: ip ++ ']' :: ':' :: port) =
      (parseWith readPort (':' :: port)).map (.v6 groups 0) := by
  have haddress := (stops_ipv6Addr (by decide : ']' ≠ ':') (by decide) (by decide) (by decide)).append h
    (':' :: port)
  have hscope : readScopeId (']' :: ':' :: port) = some (0, ']' :: ':' :: port) := by
    simp [readScopeId, Reader.next, readGivenChar]
  have hv6 : readSocketAddrV6 ('[' :: (ip ++ ']' :: ':' :: port)) =
      (readPort (':' :: port)).map fun x => (.v6 groups 0 x.1, x.2) := by
    simp only [readSocketAddrV6, Reader.next, readGivenChar, if_true, Option.bind_some, haddress, hscope]
    cases readPort (':' :: port) <;> rfl
  rw [List.cons_append]
  unfold parseSocketAddr parseWith readSocketAddr
  rw [readSocketAddrV4_brackets, hv6]
  cases hport : readPort (':' :: port) with
  | none => rfl
  | some x =>
    obtain ⟨n, rest⟩ := x
    cases rest <;> rfl

end Addresses

end Transmitic.Lib
