import MetaPool.Protocol.Liquidity

/-!
# Rebalances

Capital moves between pools and the LP account in batches. A batch lists the underlyers with the
allocation registry, computes every delta of meta shares against one reading of the TVL, mints and
sends (or burns and takes back) pool by pool, and locks the oracle, so that nothing reads a TVL from
before the moves. An entry whose delta is zero is skipped. A fault anywhere undoes the whole batch.
-/

namespace MetaPool.Protocol

/-! ## The legs of a batch -/

/-- Lists the underlyer of a pool, if it is not listed yet. -/
def registerUnderlyer (pool : Address) : Action Unit := do
  let underlyer := (← ask (·.pool pool)).underlyer
  unless (← get).allocation.isRegistered underlyer do
    let info ← ask (·.tokens.traits underlyer)
    let caller := (← get).metaToken.address
    let allocation ←
      ask (·.allocation.register caller ⟨underlyer, info.symbol, info.decimals⟩)
    modify ({ · with allocation })
    logEvent (.tokenRegistered underlyer info.symbol info.decimals)

/-- Mints meta shares to a pool and sends its underlyer to the LP account. -/
def mintAndSend (pool : Address) (shares amount : Nat) : Action Unit := do
  unless shares = 0 do
    onMetaToken (·.mint pool shares)
    logEvent (.metaMinted pool shares)
    sendToLpAccount (← get).metaToken.address pool amount

/-- Burns meta shares of a pool and takes its underlyer back from the LP account. -/
def burnAndReturn (pool : Address) (shares amount : Nat) : Action Unit := do
  unless shares = 0 do
    onMetaToken (·.burn pool shares)
    logEvent (.metaBurned pool shares)
    returnToPool (← get).metaToken.address pool amount

/-- Locks the oracle for its lock period. -/
def lockAfterMove : Action Unit := do
  let caller := (← get).metaToken.address
  onOracle fun clock _ => Oracle.lock caller clock
  logEvent (.oracleLocked (← get).oracle.lockEnd)

/-- Runs a leg for each pool with its delta and its amount, and locks the oracle. -/
def moveBatch (leg : Address → Nat → Nat → Action Unit) (pools : List Address)
    (amounts : List Nat) : Action Unit := do
  let deltas ← ask (·.metaDeltas pools amounts)
  ((pools.zip amounts).zip deltas).forM fun ((pool, amount), delta) => leg pool delta amount
  lockAfterMove

/-! ## Rebalances by the oracle -/

/-- Sends the surplus of each pool to the LP account. Returns the surpluses. -/
def sendSurplus (caller : Address) (ids : List String) : Action (List Nat) := atomically do
  ask (·.metaToken.roles.authorize caller .sendSurplus)
  let (pools, topUps) ← ask (·.rebalanceAmounts ids)
  let amounts := surpluses topUps
  pools.forM registerUnderlyer
  moveBatch mintAndSend pools amounts
  return amounts

/-- Takes the shortfall of each pool back from the LP account, as far as it holds it. Returns the
amounts. -/
def recallShortfall (caller : Address) (ids : List String) : Action (List Nat) :=
  atomically do
    ask (·.metaToken.roles.authorize caller .recallShortfall)
    let (pools, topUps) ← ask (·.rebalanceAmounts ids)
    let available ← ask (·.lpHoldings pools)
    let amounts ← demand (cappedShortfalls topUps available)
    pools.forM registerUnderlyer
    moveBatch burnAndReturn pools amounts
    return amounts

/-! ## Rebalances by hand -/

/-- Requires an amount for each pool and every pool to be deployed. -/
def requirePools (pools : List Address) (amounts : List Nat) (p : Protocol) : Except Fault Unit :=
  if pools.length ≠ amounts.length then
    .error (.lengthsDiffer pools.length amounts.length)
  else pools.forM fun pool => do let _ ← p.pool pool

/-- Sends chosen amounts to the LP account. -/
def sendByHand (caller : Address) (pools : List Address) (amounts : List Nat) : Action Unit :=
  atomically do
    ask (·.metaToken.roles.authorize caller .sendByHand)
    ask (requirePools pools amounts)
    pools.forM registerUnderlyer
    moveBatch mintAndSend pools amounts

/-- Takes chosen amounts back from the LP account. -/
def recallByHand (caller : Address) (pools : List Address) (amounts : List Nat) :
    Action Unit :=
  atomically do
    ask (·.metaToken.roles.authorize caller .recallByHand)
    ask (requirePools pools amounts)
    pools.forM registerUnderlyer
    moveBatch burnAndReturn pools amounts

end MetaPool.Protocol
