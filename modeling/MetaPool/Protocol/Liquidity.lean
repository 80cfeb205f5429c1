import MetaPool.Protocol.Valuation

/-!
# Deposits, redemptions and direct moves

A deposit is valued before it lands and mints shares; a redemption burns shares and pays the quote
out of the idle balance. The direct moves between a pool and the LP account are for components
alone.
-/

namespace MetaPool.Protocol

/-- Deposits underlyer and mints shares to the caller. Returns the shares. -/
def deposit (caller pool : Address) (amount : Nat) : Action Nat := atomically do
  let state ← ask (·.pool pool)
  demand state.requireDepositsOpen
  if amount = 0 then throw .amountInsufficient
  let underlyer := state.underlyer
  if (← ask (·.tokens.allowance underlyer caller pool)) < amount then
    throw .allowanceInsufficient
  let shares ← ask (·.mintAmount pool amount)
  onTokens (·.transferFrom underlyer pool caller pool amount)
  let time := (← get).clock.time
  onPool pool (·.addDeposit caller shares time)
  let totalValue ← ask (·.poolValue pool)
  logEvent (.deposited pool caller underlyer amount shares totalValue)
  return shares

/-- Burns shares and pays their underlyer, less fees, to the caller. Returns what is paid. -/
def redeem (caller pool : Address) (shares : Nat) : Action Nat := atomically do
  let state ← ask (·.pool pool)
  demand state.requireRedemptionsOpen
  if shares = 0 then throw .amountInsufficient
  if state.shares.balanceOf caller < shares then throw .balanceInsufficient
  let underlyer := state.underlyer
  let paid := (← ask (·.quote pool caller shares)).net
  let available ← ask (·.tokens.balanceOf underlyer pool)
  if paid > available then throw (.reserveInsufficient paid available)
  onPool pool (·.takeShares caller shares)
  onTokens (·.transfer underlyer pool caller paid)
  let totalValue ← ask (·.poolValue pool)
  logEvent (.redeemed pool caller underlyer paid shares totalValue)
  return paid

/-- Moves idle underlyer of a pool to the LP account. -/
def sendToLpAccount (caller pool : Address) (amount : Nat) : Action Unit := atomically do
  let state ← ask (·.pool pool)
  demand (state.authorizeSend caller)
  let lpAccount := (← get).lpAccount.address
  onTokens (·.transfer state.underlyer pool lpAccount amount)
  logEvent (.capitalSent pool state.underlyer amount)

/-- Moves underlyer of the LP account back to a pool. -/
def returnToPool (caller pool : Address) (amount : Nat) : Action Unit := atomically do
  let account := (← get).lpAccount
  demand (account.authorizeReturn caller)
  let underlyer := (← ask (·.pool pool)).underlyer
  onTokens (·.transfer underlyer account.address pool amount)
  logEvent (.capitalReturned pool underlyer amount)

end MetaPool.Protocol
