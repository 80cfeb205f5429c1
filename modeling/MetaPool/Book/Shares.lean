import MetaPool.Collection.OrderedMap
import MetaPool.Quantity.Checked

/-!
# Share books

A share book records who holds how many of a kind of share. Shares are minted and burned and never
pass between holders, so the balances sum to the supply (`isConsistent`) from the empty book on. A
book is also accepted as it is found, consistent or not.
-/

namespace MetaPool

/-- Balances and supply of one kind of share. -/
structure ShareBook where
  supply : Nat
  balances : OrderedMap Address Nat
deriving DecidableEq

namespace ShareBook

def empty : ShareBook := ⟨0, .empty⟩

instance : Inhabited ShareBook := ⟨empty⟩

def balanceOf (b : ShareBook) (holder : Address) : Nat := (b.balances.get? holder).getD 0

/-- Gives `holder` new shares. -/
def mint (b : ShareBook) (holder : Address) (amount : Nat) : Except Fault ShareBook :=
  if holder.isEmpty then .error .invalidAddress
  else do
    let supply ← Checked.add b.supply amount
    let balance ← Checked.add (b.balanceOf holder) amount
    return { supply, balances := b.balances.insert holder balance }

/-- Takes shares from `holder`. A holder who is left with none is struck off. -/
def burn (b : ShareBook) (holder : Address) (amount : Nat) : Except Fault ShareBook :=
  let balance := b.balanceOf holder
  if balance < amount then .error .balanceInsufficient
  else do
    let supply ← Checked.sub b.supply amount
    return { supply, balances :=
      if balance = amount then b.balances.erase holder
      else b.balances.insert holder (balance - amount) }

/-- The recorded holders and their balances. -/
def holders (b : ShareBook) : List (Address × Nat) := b.balances.toList

/-- Whether the balances sum to the supply, and the sum is an amount. -/
def isConsistent (b : ShareBook) : Bool :=
  b.balances.total ≤ maxAmount && b.balances.total == b.supply

end ShareBook

end MetaPool
