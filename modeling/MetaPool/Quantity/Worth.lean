import MetaPool.Quantity.Checked

/-!
# Amounts and their worth

A token amount counts units of `10 ^ -decimals` tokens; its worth counts feed units, and a price is
the worth of one whole token. Both conversions round down, the signed one toward zero.
-/

namespace MetaPool

/-- The worth of `amount` units at `price`. -/
def worth (amount price decimals : Nat) : Except Fault Nat := do
  Checked.prorate amount price (← Checked.powerOfTen decimals)

/-- The units that are worth `value` at `price`. -/
def unitsWorth (value price decimals : Nat) : Except Fault Nat :=
  if price = 0 then .error .divisionByZero
  else do Checked.prorate value (← Checked.powerOfTen decimals) price

/-- The units that are worth `value` at `price`, with the sign of `value`. -/
def signedUnitsWorth (value : Int) (price decimals : Nat) : Except Fault Int :=
  if price = 0 then .error .divisionByZero
  else do Checked.prorateSigned value (← Checked.powerOfTen decimals) price

/-- `amount` units of one number of decimals, counted in units of another. -/
def rescale (amount source target : Nat) : Except Fault Nat :=
  if source = target then .ok amount
  else if source < target then do Checked.mul amount (← Checked.powerOfTen (target - source))
  else do return amount / (← Checked.powerOfTen (source - target))

end MetaPool
