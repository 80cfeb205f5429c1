import MetaPool.Fault
import MetaPool.Quantity.Checked

/-!
# Pool terms

The terms of a pool are its reserve target, its fees and the length of the arbitrage window.
-/

namespace MetaPool

/-- The tunable parameters of a pool. -/
structure PoolTerms where
  /-- The percentage of the total value that stays idle. -/
  reservePercentage : Nat
  withdrawFeeBps : Nat
  arbitrageFeeBps : Nat
  /-- The seconds after a deposit in which a redemption pays the arbitrage fee. -/
  arbitragePeriod : Int64
deriving DecidableEq

namespace PoolTerms

instance : Inhabited PoolTerms := ⟨5, 10, 500, 86400⟩

/-- Accepts a reserve of at most the whole, fees of at most the whole and a period that is not
negative. -/
def validate (t : PoolTerms) : Except Fault Unit :=
  if t.reservePercentage > wholePercent then
    .error (.invalidParameter (.reserveAbove t.reservePercentage))
  else if t.withdrawFeeBps > wholeBps ∨ t.arbitrageFeeBps > wholeBps then
    .error (.invalidParameter (.feeAbove wholeBps))
  else if t.arbitragePeriod < 0 then .error (.invalidParameter .negativeFeePeriod)
  else .ok ()

end PoolTerms

end MetaPool
