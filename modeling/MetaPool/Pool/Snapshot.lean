import MetaPool.Quantity.Worth

/-!
# Pool snapshots

A snapshot holds what the share arithmetic of a pool needs to know at one instant: the price and the
decimals of the underlyer, the idle balance, the worth of the pool's claim on the LP account and the
outstanding shares. All results are rounded down, in favour of those who stay.
-/

namespace MetaPool

/-- The decimals of pool shares and meta shares. -/
def shareDecimals : Nat := 18

/-- The shares per unit of deposit, rescaled to share decimals, while a pool has no shares. -/
def bootstrapShares : Nat := 1000

/-- Shares for a first deposit. They depend on nothing but the deposit. -/
def bootstrapMint (amount decimals : Nat) : Except Fault Nat := do
  Checked.mul (← rescale amount decimals shareDecimals) bootstrapShares

/-- A pool as it is at one instant. -/
structure Snapshot where
  price : Nat
  decimals : Nat
  idleBalance : Nat
  deployedValue : Nat
  shareSupply : Nat
deriving DecidableEq

namespace Snapshot

/-- The worth of underlyer units. -/
def worthOf (s : Snapshot) (amount : Nat) : Except Fault Nat := worth amount s.price s.decimals

def idleValue (s : Snapshot) : Except Fault Nat := s.worthOf s.idleBalance

/-- Idle and deployed value together. -/
def totalValue (s : Snapshot) : Except Fault Nat := do
  Checked.add (← s.idleValue) s.deployedValue

/-- The shares for a deposit, valued before it lands. -/
def sharesFor (s : Snapshot) (amount : Nat) : Except Fault Nat := do
  let total ← s.totalValue
  if s.shareSupply = 0 ∨ total = 0 then bootstrapMint amount s.decimals
  else Checked.prorate s.shareSupply (← s.worthOf amount) total

/-- The worth of shares. -/
def shareValue (s : Snapshot) (shares : Nat) : Except Fault Nat :=
  if s.shareSupply = 0 then .error .insufficientSupply
  else do Checked.prorate (← s.totalValue) shares s.shareSupply

/-- The underlyer units for shares, before fees. -/
def unitsFor (s : Snapshot) (shares : Nat) : Except Fault Nat :=
  if shares = 0 then .ok 0
  else do unitsWorth (← s.shareValue shares) s.price s.decimals

/-- The underlyer units that bring the idle value to `percentage` percent of the total value:
positive if the pool needs them from the LP account, negative if it has them to spare. -/
def topUp (s : Snapshot) (percentage : Nat) : Except Fault Int := do
  let total ← s.totalValue
  if total = 0 then return 0
  else
    let target ← Checked.toSigned (← Checked.prorate total percentage wholePercent)
    let gap ← Checked.subSigned target (← Checked.toSigned (← s.idleValue))
    signedUnitsWorth gap s.price s.decimals

/-- The idle value after a top-up has moved. -/
def idleValueAfter (s : Snapshot) (topUp : Int) : Except Fault Nat := do
  let idle ←
    if 0 ≤ topUp then Checked.add s.idleBalance topUp.natAbs
    else Checked.sub s.idleBalance topUp.natAbs
  worth idle s.price s.decimals

end Snapshot

end MetaPool
