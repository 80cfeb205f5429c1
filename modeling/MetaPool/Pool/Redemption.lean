import MetaPool.Quantity.Checked

/-!
# Redemption quotes

A redemption pays its base amount less a withdraw fee and, soon after a deposit, an arbitrage fee.
Both fees are portions of the same base; what is left is never negative.
-/

namespace MetaPool

/-- The parts of a redemption. -/
structure RedemptionQuote where
  base : Nat
  withdrawFee : Nat
  arbitrageFee : Nat
  net : Nat
deriving DecidableEq

/-- The quote for a base amount. Only an early redemption pays the arbitrage fee. -/
def RedemptionQuote.of (base withdrawBps arbitrageBps : Nat) (early : Bool) :
    Except Fault RedemptionQuote :=
  if withdrawBps > wholeBps ∨ arbitrageBps > wholeBps then
    .error (.invalidParameter .feeAboveWhole)
  else do
    let withdrawFee ← Checked.portion base withdrawBps
    let arbitrageFee ← if early then Checked.portion base arbitrageBps else pure 0
    return { base, withdrawFee, arbitrageFee, net := base - withdrawFee - arbitrageFee }

end MetaPool
