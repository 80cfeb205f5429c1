import MetaPool.Keeper.Config

/-!
# Keeper faults

Why a keeper cannot start, go on or vouch for the protocol.
-/

namespace MetaPool.Keeper

/-- What is wrong with the health of the protocol. -/
inductive Illness where
  | invariant (fault : MetaPool.Fault)
  | unreadableTvl (fault : MetaPool.Fault)
deriving DecidableEq

def Illness.text : Illness → String
  | invariant fault => fault.message
  | unreadableTvl fault => "TVL unreadable: " ++ fault.message

/-- Why an operation of the keeper fails. -/
inductive Fault where
  | invalidConfig (defect : ConfigDefect)
  /-- The text is not that of a configuration. -/
  | unreadableConfig
  /-- The configuration has a number that cannot be written. -/
  | unwritableConfig
  | protocol (fault : MetaPool.Fault)
  /-- A file cannot be read or written. -/
  | file
  | unhealthy (illness : Illness)
deriving DecidableEq

/-- The wording of a fault, where it has one. -/
def Fault.message? : Fault → Option String
  | invalidConfig defect => some ("Invalid configuration: " ++ defect.text)
  | protocol fault => some ("Protocol error: " ++ fault.message)
  | unhealthy illness => some ("Health check failed: " ++ illness.text)
  | unreadableConfig | unwritableConfig | file => none

def Config.validate (c : Config) : Except Fault Unit :=
  match c.defect? with
  | some defect => .error (.invalidConfig defect)
  | none => .ok ()

end MetaPool.Keeper
