import MetaPool.Account.Roles
import MetaPool.Book.Shares
import MetaPool.Quantity.Worth

/-!
# Meta shares

Meta shares (mAPT) are claims on the capital that the LP account has deployed. A pool that sends
capital there is minted meta shares of the same proportion, and gives them up when the capital comes
back. `metaDelta` is the largest number of shares whose claim is not above the capital moved.
-/

namespace MetaPool

/-- The meta shares per unit of value while there are none, or nothing behind them. -/
def bootstrapMetaShares : Nat := 1000

/-- The part of the deployed value that `balance` of `supply` meta shares claims. -/
def claimedValue (tvl balance supply : Nat) : Except Fault Nat :=
  if supply = 0 then .ok 0 else Checked.prorate tvl balance supply

/-- The meta shares that stand for moving `amount` units of an underlyer. -/
def metaDelta (amount price decimals tvl supply : Nat) : Except Fault Nat := do
  let value ← worth amount price decimals
  if tvl = 0 ∨ supply = 0 then Checked.mul value bootstrapMetaShares
  else Checked.prorate supply value tvl

/-- What each pool has to spare: the size of every negative top-up. -/
def surpluses (topUps : List Int) : List Nat :=
  topUps.map fun t => if t < 0 then t.natAbs else 0

/-- What each pool needs, as far as the LP account holds it: every positive top-up, capped. -/
def cappedShortfalls (topUps : List Int) (available : List Nat) : Except Fault (List Nat) :=
  if topUps.length ≠ available.length then
    .error (.lengthsDiffer topUps.length available.length)
  else .ok (topUps.zipWith (fun t a => if t > 0 then min t.natAbs a else 0) available)

/-- The book of meta shares, its address and who may move capital. -/
structure MetaToken where
  address : Address
  roles : RoleTable
  shares : ShareBook
deriving DecidableEq

namespace MetaToken

def new (address : Address) (roles : RoleTable) : MetaToken := ⟨address, roles, .empty⟩

def supply (t : MetaToken) : Nat := t.shares.supply

def balanceOf (t : MetaToken) (pool : Address) : Nat := t.shares.balanceOf pool

def mint (t : MetaToken) (pool : Address) (amount : Nat) : Except Fault MetaToken := do
  return { t with shares := ← t.shares.mint pool amount }

def burn (t : MetaToken) (pool : Address) (amount : Nat) : Except Fault MetaToken := do
  return { t with shares := ← t.shares.burn pool amount }

end MetaToken

/-- The account that holds deployed capital. -/
structure LpAccount where
  address : Address
  roles : RoleTable
deriving DecidableEq

/-- Lets only a component take capital back into a pool. -/
def LpAccount.authorizeReturn (a : LpAccount) (caller : Address) : Except Fault Unit :=
  a.roles.authorize caller .returnToPool

end MetaPool
