import MetaPool.Account.Registry
import MetaPool.Capital.Allocation
import MetaPool.Json.Value
import MetaPool.Pool.Basic
import MetaPool.Pool.Redemption
import MetaPool.Pool.Snapshot
import MetaPool.Price.Oracle

/-!
# Components in documents

The documents of the components' records: an object with a field for each part. Tables are objects
with a field for each key, in order.
-/

namespace MetaPool

open Json (Value)

/-- The document of an address is its label. -/
def Address.toJson (a : Address) : Value := .ofString a.label

/-- A table whose keys are addresses. -/
def OrderedMap.toJson {α : Type} (value : α → Value) (m : OrderedMap Address α) : Value :=
  .ofFields (m.toList.map fun e => (e.1.label, value e.2))

/-! ## Accounts -/

/-- The name of a role in documents. -/
def Role.name : Role → String
  | admin => "Admin"
  | emergency => "Emergency"
  | lp => "Lp"
  | contract => "Contract"

def RoleTable.toJson (t : RoleTable) : Value := .ofFields
  [("members", .ofFields (t.members.toList.map fun e =>
    (e.1.name, .array (e.2.keys.map Address.toJson))))]

def Registry.toJson (r : Registry) : Value := .ofFields
  [("entries", .ofFields (r.entries.toList.map fun e => (e.1, e.2.toJson)))]

/-! ## Prices -/

def Clock.toJson (c : Clock) : Value := .ofFields
  [("block_number", .ofNat c.height.toNat), ("timestamp", .ofInt c.time.toInt)]

def Round.toJson (r : Round) : Value := .ofFields
  [("answer", .ofInt r.answer), ("updated_at", .ofInt r.updatedAt.toInt)]

def FeedBook.toJson (n : FeedBook) : Value := .ofFields [("feeds", n.feeds.toJson Round.toJson)]

def Override.toJson (o : Override) : Value := .ofFields
  [("value", .ofInt o.value), ("set_block", .ofNat o.setAt.toNat),
    ("duration_blocks", .ofNat o.duration.toNat)]

/-! ## Pools and capital -/

def PoolTerms.toJson (t : PoolTerms) : Value := .ofFields
  [("reserve_percentage", .ofNat t.reservePercentage),
    ("withdraw_fee_bps", .ofNat t.withdrawFeeBps), ("arbitrage_fee_bps", .ofNat t.arbitrageFeeBps),
    ("arbitrage_fee_period", .ofInt t.arbitragePeriod.toInt)]

def PoolLocks.toJson (l : PoolLocks) : Value := .ofFields
  [("paused", .boolean l.paused), ("add_liquidity_locked", .boolean l.deposits),
    ("redeem_locked", .boolean l.redemptions)]

def RedemptionQuote.toJson (q : RedemptionQuote) : Value := .ofFields
  [("base_amount", .ofNat q.base), ("withdraw_fee", .ofNat q.withdrawFee),
    ("arbitrage_fee", .ofNat q.arbitrageFee), ("net_amount", .ofNat q.net)]

def Snapshot.toJson (s : Snapshot) : Value := .ofFields
  [("price", .ofNat s.price), ("decimals", .ofNat s.decimals),
    ("idle_balance", .ofNat s.idleBalance), ("deployed_value", .ofNat s.deployedValue),
    ("share_supply", .ofNat s.shareSupply)]

def ShareBook.toJson (b : ShareBook) : Value := .ofFields
  [("total_supply", .ofNat b.supply), ("balances", b.balances.toJson Value.ofNat)]

def AllocatedToken.toJson (t : AllocatedToken) : Value := .ofFields
  [("token", t.token.toJson), ("symbol", .ofString t.symbol), ("decimals", .ofNat t.decimals)]

def Allocation.toJson (a : Allocation) : Value :=
  .array (a.tokens.values.map AllocatedToken.toJson)

end MetaPool
