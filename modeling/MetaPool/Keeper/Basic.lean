import MetaPool.Keeper.Fault
import MetaPool.Protocol.Deploy
import MetaPool.Protocol.Environment
import MetaPool.Protocol.Health
import MetaPool.Protocol.Rebalance

/-!
# The keeper

The keeper runs a protocol of its own. In each cycle it mines blocks, reports the prices and the TVL
and, unless the oracle is locked, moves capital for the pools that are far enough off their reserve
target: first back to those that need it, and only if there are none out of those that have it to
spare, because a move locks the oracle. A dry run plans the moves and makes none.
-/

namespace MetaPool

/-- A keeper between two cycles. -/
structure Keeper where
  config : Keeper.Config
  protocol : Protocol
  /-- Whether moves are planned only. -/
  dryRun : Bool
  /-- The cycles that were begun, counted without a bound: at one each millisecond, the shortest
  interval, a 64-bit word would run out after 500 million years. -/
  cycles : Nat
deriving DecidableEq

namespace Keeper

/-- What a cycle did for the pools. -/
inductive Verdict where
  /-- Nothing, because the oracle is locked. -/
  | locked (lockEnd : UInt64)
  /-- Nothing, because no pool is off its target. -/
  | balanced
  | funded (pools : List String) (amounts : List Nat)
  | withdrawn (pools : List String) (amounts : List Nat)
deriving DecidableEq

/-- Whether a verdict tells of a move. -/
def Verdict.movesCapital : Verdict → Bool
  | funded .. | withdrawn .. => true
  | locked _ | balanced => false

/-- The report of a cycle. -/
structure Report where
  cycle : Nat
  height : UInt64
  tvl : Nat
  dryRun : Bool
  verdict : Verdict
  /-- The number of events that the cycle took out of the log. -/
  events : Nat
deriving DecidableEq

/-! ## Steps -/

/-- A step of the keeper that may fail. What it has done by then stays done. -/
abbrev Task := EStateM Fault Keeper

/-- Has the protocol act. -/
def act {α : Type} (action : Protocol.Action α) : Task α := fun k =>
  match action k.protocol with
  | .ok a protocol => .ok a { k with protocol }
  | .error fault protocol => .error (.protocol fault) { k with protocol }

/-- What a view of the protocol shows. -/
def ask {α : Type} (view : Protocol → Except MetaPool.Fault α) : Task α :=
  act (Protocol.ask view)

/-- The account that rebalances. -/
def Config.rebalancer (c : Config) : Address := ⟨c.plan.lpSafe⟩

/-! ## The start -/

/-- Makes one of the first deposits. -/
def seed (d : Deposit) : Task Unit := do
  let pool ← ask (·.poolAddress d.pool)
  let underlyer := (← ask (·.pool pool)).underlyer
  let decimals ← ask (·.tokens.decimals underlyer)
  let unit ← act (Protocol.demand (Checked.powerOfTen decimals))
  let amount ← act (Protocol.demand (Checked.mul d.amount.toNat unit))
  let depositor : Address := ⟨d.depositor⟩
  act (Protocol.mintTokens underlyer depositor amount)
  act (Protocol.approve underlyer depositor pool amount)
  let _ ← act (Protocol.deposit depositor pool amount)

/-- A keeper of a newly deployed protocol with its first deposits. -/
def start (config : Config) (dryRun : Bool) : Except Fault Keeper := do
  config.validate
  match Protocol.deploy config.plan default with
  | .error fault => .error (.protocol fault)
  | .ok protocol =>
    match config.deposits.forM seed { config, protocol, dryRun, cycles := 0 } with
    | .ok () k => return k
    | .error fault _ => .error fault

/-! ## Reports to the oracle -/

/-- Publishes the planned price of a token and adds the worth of what the LP account holds of it. -/
def reportToken (sum : Nat) (t : TokenPlan) : Task Nat := do
  let asset : Address := ⟨t.symbol⟩
  match (← get).protocol.oracle.assetSource asset with
  | none => throw (.protocol .invalidSource)
  | some source =>
    let price ← act (Protocol.demand (Checked.ofSigned t.price.toInt))
    act (Protocol.publish source t.price.toInt)
    let account := (← get).protocol.lpAccount.address
    let balance ← ask (·.tokens.balanceOf asset account)
    let value ← act (Protocol.demand (worth balance price t.decimals))
    act (Protocol.demand (Checked.add sum value))

/-- Publishes the prices and the worth of all that the LP account holds. Returns the latter. -/
def reportToOracle : Task Nat := do
  let tvl ← (← get).config.plan.tokens.foldlM reportToken 0
  let answer ← act (Protocol.demand (Checked.toSigned tvl))
  act (Protocol.publishTvl answer)
  return tvl

/-! ## Rebalances -/

/-- A part of a whole in basis points. Anything is the whole of nothing. -/
def changeBps (part whole : Nat) : Except MetaPool.Fault Nat :=
  if whole = 0 then .ok (if part = 0 then 0 else wholeBps)
  else Checked.prorate part wholeBps whole

/-- Whether a top-up is worth the move. -/
def isWorthwhile (thresholdBps : Nat) (pool : Address) (topUp : Int) (p : Protocol) :
    Except MetaPool.Fault Bool :=
  if topUp = 0 then .ok false
  else do
    let total ← p.poolValue pool
    let moved ← p.underlyerValue pool topUp.natAbs
    return thresholdBps ≤ (← changeBps moved total)

/-- A pool and the top-up that it needs. -/
structure Need where
  id : String
  topUp : Int
deriving DecidableEq

/-- The needs of the configured pools that are worth a move. -/
def needs (c : Config) (p : Protocol) : Except MetaPool.Fault (List Need) := do
  let (pools, topUps) ← p.rebalanceAmounts c.poolIds
  let all := (c.poolIds.zip pools).zip topUps
  let worthwhile ← all.filterM fun ((_, pool), topUp) =>
    isWorthwhile c.thresholdBps pool topUp p
  return worthwhile.map fun ((id, _), topUp) => ⟨id, topUp⟩

/-- Takes capital back for pools that need it, or plans to. -/
def withdraw (needs : List Need) : Task (List Nat) := do
  let ids := needs.map (·.id)
  if (← get).dryRun then
    let available ← ask (·.lpBalances ids)
    act (Protocol.demand (cappedShortfalls (needs.map (·.topUp)) available))
  else act (Protocol.recallShortfall (← get).config.rebalancer ids)

/-- Sends out capital of pools that have it to spare, or plans to. -/
def fund (needs : List Need) : Task (List Nat) := do
  if (← get).dryRun then return surpluses (needs.map (·.topUp))
  else act (Protocol.sendSurplus (← get).config.rebalancer (needs.map (·.id)))

/-- Moves capital where it is worth it. -/
def rebalance : Task Verdict := do
  let config := (← get).config
  let all ← ask (needs config)
  let (short, spare) := all.partition (0 < ·.topUp)
  if !short.isEmpty then return .withdrawn (short.map (·.id)) (← withdraw short)
  else if !spare.isEmpty then return .funded (spare.map (·.id)) (← fund spare)
  else return .balanced

/-! ## Cycles -/

/-- Runs a cycle. A cycle that fails counts. -/
def cycle : Task Report := do
  modify fun k => { k with cycles := k.cycles + 1 }
  let config := (← get).config
  act (Protocol.mine config.blocksPerCycle config.blockTime)
  let tvl ← reportToOracle
  let protocol := (← get).protocol
  let verdict ←
    if protocol.isOracleLocked then pure (.locked protocol.oracle.lockEnd) else rebalance
  let events ← act Protocol.takeLog
  let k ← get
  return { cycle := k.cycles, height := k.protocol.clock.height, tvl, dryRun := k.dryRun, verdict,
           events := events.length }

/-- Runs a number of cycles, whichever fail. Adds those that moved capital to `moved`. -/
def runCycles : Nat → Nat → Keeper → Nat × Keeper
  | 0, moved, k => (moved, k)
  | n + 1, moved, k =>
    match cycle k with
    | .ok report k => runCycles n (if report.verdict.movesCapital then moved + 1 else moved) k
    | .error _ k => runCycles n moved k

/-- Runs cycles until as many as `limit` were begun, those before included. Returns the number of
those that moved capital, and the keeper after them. -/
def run (k : Keeper) (limit : Nat) : Nat × Keeper := runCycles (limit - k.cycles) 0 k

/-! ## Health -/

/-- Fails if an invariant does not hold, or if the oracle is not locked and yet has no TVL. -/
def checkHealth (k : Keeper) : Except Fault Unit :=
  match k.protocol.audit with
  | .error fault => .error (.unhealthy (.invariant fault))
  | .ok () =>
    if k.protocol.isOracleLocked then .ok ()
    else
      match k.protocol.tvl with
      | .error fault => .error (.unhealthy (.unreadableTvl fault))
      | .ok _ => .ok ()

end Keeper

end MetaPool
