import MetaPool.Pool.Redemption
import MetaPool.Pool.Snapshot
import MetaPool.Protocol.Basic

/-!
# Valuation

The views that value pools, shares and moves of capital. A view reads the oracle only where the
answer depends on it: a pool without shares mints at the bootstrap rate, and no meta shares claim
nothing, whatever the oracle says.
-/

namespace MetaPool.Protocol

/-! ## The oracle's answers -/

def tvl (p : Protocol) : Except Fault Nat := p.oracle.tvl p.clock p.feeds p.metaToken.supply

def assetPrice (p : Protocol) (asset : Address) : Except Fault Nat :=
  p.oracle.assetPrice p.clock p.feeds asset

def isOracleLocked (p : Protocol) : Bool := p.oracle.isLocked p.clock

def hasTvlOverride (p : Protocol) : Bool := p.oracle.hasTvlOverride p.clock

def hasAssetOverride (p : Protocol) (asset : Address) : Bool :=
  p.oracle.hasAssetOverride p.clock asset

/-! ## Pools -/

/-- The price of a pool's underlyer. -/
def underlyerPrice (p : Protocol) (pool : Address) : Except Fault Nat := do
  p.assetPrice (← p.pool pool).underlyer

/-- The worth of an amount of a pool's underlyer. -/
def underlyerValue (p : Protocol) (pool : Address) (amount : Nat) : Except Fault Nat :=
  if amount = 0 then .ok 0
  else do
    let underlyer := (← p.pool pool).underlyer
    let decimals ← p.tokens.decimals underlyer
    worth amount (← p.assetPrice underlyer) decimals

/-- The worth of the meta shares that are held at an address. -/
def deployedValue (p : Protocol) (pool : Address) : Except Fault Nat :=
  if p.metaToken.supply = 0 then .ok 0
  else do claimedValue (← p.tvl) (p.metaToken.balanceOf pool) p.metaToken.supply

def snapshot (p : Protocol) (pool : Address) : Except Fault Snapshot := do
  let state ← p.pool pool
  let price ← p.assetPrice state.underlyer
  let decimals ← p.tokens.decimals state.underlyer
  let idleBalance ← p.tokens.balanceOf state.underlyer pool
  let deployedValue ← p.deployedValue pool
  return { price, decimals, idleBalance, deployedValue, shareSupply := state.shares.supply }

/-- Idle and deployed value of a pool. -/
def poolValue (p : Protocol) (pool : Address) : Except Fault Nat := do
  (← p.snapshot pool).totalValue

/-- The worth of shares of a pool. -/
def shareValue (p : Protocol) (pool : Address) (shares : Nat) : Except Fault Nat := do
  if (← p.pool pool).shares.supply = 0 then .error .insufficientSupply
  else (← p.snapshot pool).shareValue shares

/-- The shares that a deposit would mint now. -/
def mintAmount (p : Protocol) (pool : Address) (amount : Nat) : Except Fault Nat := do
  let state ← p.pool pool
  if state.shares.supply = 0 then
    bootstrapMint amount (← p.tokens.decimals state.underlyer)
  else (← p.snapshot pool).sharesFor amount

/-- The underlyer for shares, before fees. -/
def underlyerFor (p : Protocol) (pool : Address) (shares : Nat) : Except Fault Nat :=
  if shares = 0 then .ok 0
  else do
    if (← p.pool pool).shares.supply = 0 then .error .insufficientSupply
    else (← p.snapshot pool).unitsFor shares

/-- Whether a redemption of `holder` would be early now. -/
def isEarly (p : Protocol) (pool holder : Address) : Except Fault Bool := do
  return (← p.pool pool).isEarly holder p.clock

/-- What `holder` would be paid for shares now. -/
def quote (p : Protocol) (pool holder : Address) (shares : Nat) :
    Except Fault RedemptionQuote := do
  let state ← p.pool pool
  let base ← p.underlyerFor pool shares
  RedemptionQuote.of base state.terms.withdrawFeeBps state.terms.arbitrageFeeBps
    (state.isEarly holder p.clock)

/-- The underlyer that would bring the pool to its reserve target. -/
def topUp (p : Protocol) (pool : Address) : Except Fault Int := do
  let percentage := (← p.pool pool).terms.reservePercentage
  (← p.snapshot pool).topUp percentage

/-! ## Moves of capital -/

/-- The pools behind identifiers and their top-ups. -/
def rebalanceAmounts (p : Protocol) (ids : List String) :
    Except Fault (List Address × List Int) := do
  let pools ← p.poolAddresses ids
  return (pools, ← pools.mapM p.topUp)

/-- What the LP account holds of each pool's underlyer. -/
def lpHoldings (p : Protocol) (pools : List Address) : Except Fault (List Nat) :=
  pools.mapM fun pool => do p.tokens.balanceOf (← p.pool pool).underlyer p.lpAccount.address

def lpBalances (p : Protocol) (ids : List String) : Except Fault (List Nat) := do
  p.lpHoldings (← p.poolAddresses ids)

/-- The meta shares for moving each amount of each pool's underlyer, all against one reading of the
TVL and one supply. -/
def metaDeltas (p : Protocol) (pools : List Address) (amounts : List Nat) :
    Except Fault (List Nat) :=
  if pools.length ≠ amounts.length then
    .error (.lengthsDiffer pools.length amounts.length)
  else do
    let supply := p.metaToken.supply
    let tvl ← if supply = 0 then pure 0 else p.tvl
    (pools.zip amounts).mapM fun (pool, amount) => do
      let underlyer := (← p.pool pool).underlyer
      let price ← p.assetPrice underlyer
      let decimals ← p.tokens.decimals underlyer
      metaDelta amount price decimals tvl supply

end MetaPool.Protocol
