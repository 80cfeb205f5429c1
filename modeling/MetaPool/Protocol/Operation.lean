import MetaPool.Protocol.Control
import MetaPool.Protocol.Environment
import MetaPool.Protocol.Rebalance

/-!
# Operations

`Operation` has one constructor for each thing that a client can have the protocol do, and
`Operation.perform` is the action behind it. What holds of every operation holds of every history,
however long.
-/

namespace MetaPool

/-- A request to change the protocol. -/
inductive Operation where
  | passBlocks (blocks : UInt64)
  | passTime (seconds : Int64)
  | mine (blocks : UInt64) (spacing : Int64)
  | publish (source : Address) (answer : Int)
  | publishTvl (answer : Int)
  | publishPrice (asset : Address) (answer : Int)
  | openFeed (source : Address) (answer : Int)
  | mintTokens (token holder : Address) (amount : Nat)
  | approve (token owner spender : Address) (amount : Nat)
  | takeLog
  | deposit (caller pool : Address) (amount : Nat)
  | redeem (caller pool : Address) (shares : Nat)
  | sendToLpAccount (caller pool : Address) (amount : Nat)
  | returnToPool (caller pool : Address) (amount : Nat)
  | setPoolPaused (caller pool : Address) (paused : Bool)
  | setDepositLock (caller pool : Address) (locked : Bool)
  | setRedemptionLock (caller pool : Address) (locked : Bool)
  | setReservePercentage (caller pool : Address) (percentage : Nat)
  | setWithdrawFee (caller pool : Address) (bps : Nat)
  | setArbitrageFee (caller pool : Address) (bps : Nat) (period : Int64)
  | sendSurplus (caller : Address) (ids : List String)
  | recallShortfall (caller : Address) (ids : List String)
  | sendByHand (caller : Address) (pools : List Address) (amounts : List Nat)
  | recallByHand (caller : Address) (pools : List Address) (amounts : List Nat)
  | lockOracle (caller : Address)
  | lockOracleFor (caller : Address) (blocks : UInt64)
  | unlockOracle (caller : Address)
  | setTvlOverride (caller : Address) (value : Int) (duration : UInt64)
  | unsetTvlOverride (caller : Address)
  | setAssetOverride (caller asset : Address) (value : Int) (duration : UInt64)
  | unsetAssetOverride (caller asset : Address)
  | setTvlSource (caller source : Address)
  | setAssetSource (caller asset source : Address)
  | setAssetSources (caller : Address) (assets sources : List Address)
  | setStalePeriod (caller : Address) (period : Int64)
  | setLockPeriod (caller : Address) (blocks : UInt64)
deriving DecidableEq

/-- What an operation gives back. -/
inductive Outcome where
  | done
  | amount (amount : Nat)
  | amounts (amounts : List Nat)
  | records (records : List LogEntry)
deriving DecidableEq

namespace Operation

open Protocol

/-- Runs an action that gives nothing back. -/
def complete (action : Action Unit) : Action Outcome := do
  action
  return .done

/-- Carries an operation out. -/
def perform : Operation → Action Outcome
  | passBlocks blocks => complete (Protocol.passBlocks blocks)
  | passTime seconds => complete (Protocol.passTime seconds)
  | mine blocks spacing => complete (Protocol.mine blocks spacing)
  | publish source answer => complete (Protocol.publish source answer)
  | publishTvl answer => complete (Protocol.publishTvl answer)
  | publishPrice asset answer => complete (Protocol.publishPrice asset answer)
  | openFeed source answer => complete (Protocol.openFeed source answer)
  | mintTokens token holder amount => complete (Protocol.mintTokens token holder amount)
  | approve token owner spender amount => complete (Protocol.approve token owner spender amount)
  | takeLog => return .records (← Protocol.takeLog)
  | deposit caller pool amount => return .amount (← Protocol.deposit caller pool amount)
  | redeem caller pool shares => return .amount (← Protocol.redeem caller pool shares)
  | sendToLpAccount caller pool amount => complete (Protocol.sendToLpAccount caller pool amount)
  | returnToPool caller pool amount => complete (Protocol.returnToPool caller pool amount)
  | setPoolPaused caller pool paused => complete (Protocol.setPoolPaused caller pool paused)
  | setDepositLock caller pool locked => complete (Protocol.setDepositLock caller pool locked)
  | setRedemptionLock caller pool locked => complete (Protocol.setRedemptionLock caller pool locked)
  | setReservePercentage caller pool percentage =>
    complete (Protocol.setReservePercentage caller pool percentage)
  | setWithdrawFee caller pool bps => complete (Protocol.setWithdrawFee caller pool bps)
  | setArbitrageFee caller pool bps period =>
    complete (Protocol.setArbitrageFee caller pool bps period)
  | sendSurplus caller ids => return .amounts (← Protocol.sendSurplus caller ids)
  | recallShortfall caller ids => return .amounts (← Protocol.recallShortfall caller ids)
  | sendByHand caller pools amounts => complete (Protocol.sendByHand caller pools amounts)
  | recallByHand caller pools amounts =>
    complete (Protocol.recallByHand caller pools amounts)
  | lockOracle caller => complete (Protocol.lockOracle caller)
  | lockOracleFor caller blocks => complete (Protocol.lockOracleFor caller blocks)
  | unlockOracle caller => complete (Protocol.unlockOracle caller)
  | setTvlOverride caller value duration =>
    complete (Protocol.setTvlOverride caller value duration)
  | unsetTvlOverride caller => complete (Protocol.unsetTvlOverride caller)
  | setAssetOverride caller asset value duration =>
    complete (Protocol.setAssetOverride caller asset value duration)
  | unsetAssetOverride caller asset => complete (Protocol.unsetAssetOverride caller asset)
  | setTvlSource caller source => complete (Protocol.setTvlSource caller source)
  | setAssetSource caller asset source => complete (Protocol.setAssetSource caller asset source)
  | setAssetSources caller assets sources =>
    complete (Protocol.setAssetSources caller assets sources)
  | setStalePeriod caller period => complete (Protocol.setStalePeriod caller period)
  | setLockPeriod caller blocks => complete (Protocol.setLockPeriod caller blocks)

end Operation

/-- The state after an operation, whether it succeeds or fails. -/
def Protocol.after (p : Protocol) (operation : Operation) : Protocol :=
  match operation.perform p with
  | .ok _ q => q
  | .error _ q => q

end MetaPool
