import MetaPool.Deployment.Plan

/-!
# Keeper configuration

What a keeper is told: the pace of the chain, when a rebalance is worth its while, the deployment
and the deposits to begin with. A configuration is checked before it is used; of several defects the
first in the order of `Config.validate` is reported.
-/

namespace MetaPool.Keeper

/-- A deposit that is made before the first cycle. -/
structure Deposit where
  depositor : String
  /-- The identifier of a planned pool. -/
  pool : String
  /-- The number of whole tokens. -/
  amount : UInt64
deriving DecidableEq

/-- The configuration of a keeper. -/
structure Config where
  /-- The seconds between two blocks. -/
  blockTime : Int64
  blocksPerCycle : UInt64
  /-- The least part of a pool's value, in basis points, that is worth a move. -/
  thresholdBps : Nat
  plan : Plan
  deposits : List Deposit
deriving DecidableEq

instance : Inhabited Config := ⟨13, 45, 100, default, []⟩

/-- What is wrong with a configuration. -/
inductive ConfigDefect where
  | plan (fault : MetaPool.Fault)
  | noPool
  | blockTimeNotPositive (seconds : Int64)
  | emptyCycle
  | thresholdAbove (limit bps : Nat)
  | noDepositor
  | unknownPool (pool : String)
  | emptyDeposit (depositor pool : String)
deriving DecidableEq

def ConfigDefect.text : ConfigDefect → String
  | plan fault => "protocol: " ++ fault.message
  | noPool => "at least one pool is required"
  | blockTimeNotPositive s =>
    "seconds_per_block must be greater than 0, got " ++ toString s.toInt
  | emptyCycle => "blocks_per_cycle must be greater than 0"
  | thresholdAbove limit bps =>
    "rebalance_threshold_bps must be at most " ++ toString limit ++ ", got " ++ toString bps
  | noDepositor => "deposit without depositor"
  | unknownPool pool => "deposit into unknown pool " ++ pool
  | emptyDeposit depositor pool => "deposit by " ++ depositor ++ " into " ++ pool ++ " is zero"

namespace Config

/-- The identifiers of the planned pools. -/
def poolIds (c : Config) : List String := c.plan.pools.map (·.id)

/-- The first defect of a deposit into one of the given pools. -/
def depositDefect (pools : List String) (d : Deposit) : Option ConfigDefect :=
  if d.depositor.isEmpty then some .noDepositor
  else if d.pool ∉ pools then some (.unknownPool d.pool)
  else if d.amount = 0 then some (.emptyDeposit d.depositor d.pool)
  else none

/-- The first defect of a configuration. -/
def defect? (c : Config) : Option ConfigDefect :=
  match c.plan.validate with
  | .error fault => some (.plan fault)
  | .ok () =>
    if c.plan.pools.isEmpty then some .noPool
    else if c.blockTime ≤ 0 then some (.blockTimeNotPositive c.blockTime)
    else if c.blocksPerCycle = 0 then some .emptyCycle
    else if c.thresholdBps > wholeBps then some (.thresholdAbove wholeBps c.thresholdBps)
    else c.deposits.findSome? (depositDefect c.poolIds)

/-- A configuration to start from: the default one and three deposits. -/
def sample : Config :=
  { (default : Config) with
    deposits := [⟨"alice", "daiPool", 250000⟩, ⟨"bob", "usdcPool", 100000⟩,
      ⟨"carol", "usdtPool", 50000⟩] }

end Config

end MetaPool.Keeper
