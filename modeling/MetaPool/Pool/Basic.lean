import MetaPool.Account.Roles
import MetaPool.Book.Shares
import MetaPool.Pool.Terms
import MetaPool.Quantity.Clock

/-!
# Pools

A pool has one underlyer, a share book, terms, locks and the time of each holder's last deposit. It
guards its own state; what a deposit or a redemption does to other components is not decided here.
-/

namespace MetaPool

/-- What is closed at a pool. -/
structure PoolLocks where
  /-- Closes deposits, redemptions and transfers to the LP account. -/
  paused : Bool
  deposits : Bool
  redemptions : Bool
deriving DecidableEq

instance : Inhabited PoolLocks := ⟨false, false, false⟩

/-- The state of a pool. -/
structure Pool where
  address : Address
  underlyer : Address
  roles : RoleTable
  shares : ShareBook
  terms : PoolTerms
  locks : PoolLocks
  lastDeposit : OrderedMap Address Int64
deriving DecidableEq

namespace Pool

/-- An open pool without shares. -/
def new (address underlyer : Address) (roles : RoleTable) (terms : PoolTerms) :
    Except Fault Pool :=
  if address.isEmpty ∨ underlyer.isEmpty then .error .invalidAddress
  else do
    terms.validate
    return { address, underlyer, roles, shares := .empty, terms, locks := default,
             lastDeposit := .empty }

/-- Whether a redemption of `holder` pays the arbitrage fee now. -/
def isEarly (p : Pool) (holder : Address) (clock : Clock) : Bool :=
  match p.lastDeposit.get? holder with
  | some time => clock.since time < p.terms.arbitragePeriod
  | none => false

/-! ## Guards -/

def requireRunning (p : Pool) : Except Fault Unit :=
  if p.locks.paused then .error .paused else .ok ()

def requireDepositsOpen (p : Pool) : Except Fault Unit := do
  p.requireRunning
  if p.locks.deposits then .error .depositsLocked else return ()

def requireRedemptionsOpen (p : Pool) : Except Fault Unit := do
  p.requireRunning
  if p.locks.redemptions then .error .redemptionsLocked else return ()

/-- Lets only a component move underlyer to the LP account, and only while the pool runs. -/
def authorizeSend (p : Pool) (caller : Address) : Except Fault Unit := do
  p.roles.authorize caller .sendToLpAccount
  p.requireRunning

/-! ## Shares -/

/-- Mints the shares of a deposit and notes its time. -/
def addDeposit (p : Pool) (holder : Address) (shares : Nat) (time : Int64) :
    Except Fault Pool := do
  return { p with
    shares := ← p.shares.mint holder shares
    lastDeposit := p.lastDeposit.insert holder time }

def takeShares (p : Pool) (holder : Address) (shares : Nat) : Except Fault Pool := do
  return { p with shares := ← p.shares.burn holder shares }

/-! ## Locks and terms -/

def setPaused (p : Pool) (caller : Address) (paused : Bool) : Except Fault Pool := do
  p.roles.authorize caller .pausePool
  return { p with locks.paused := paused }

def setDepositLock (p : Pool) (caller : Address) (locked : Bool) : Except Fault Pool := do
  p.roles.authorize caller .lockDeposits
  return { p with locks.deposits := locked }

def setRedemptionLock (p : Pool) (caller : Address) (locked : Bool) : Except Fault Pool := do
  p.roles.authorize caller .lockRedemptions
  return { p with locks.redemptions := locked }

/-- Puts new terms in force, if they are valid. -/
def setTerms (p : Pool) (terms : PoolTerms) : Except Fault Pool := do
  terms.validate
  return { p with terms }

def setReservePercentage (p : Pool) (caller : Address) (percentage : Nat) : Except Fault Pool := do
  p.roles.authorize caller .setReservePercentage
  p.setTerms { p.terms with reservePercentage := percentage }

def setWithdrawFee (p : Pool) (caller : Address) (bps : Nat) : Except Fault Pool := do
  p.roles.authorize caller .setWithdrawFee
  p.setTerms { p.terms with withdrawFeeBps := bps }

def setArbitrageFee (p : Pool) (caller : Address) (bps : Nat) (period : Int64) :
    Except Fault Pool := do
  p.roles.authorize caller .setArbitrageFee
  p.setTerms { p.terms with arbitrageFeeBps := bps, arbitragePeriod := period }

end Pool

end MetaPool
