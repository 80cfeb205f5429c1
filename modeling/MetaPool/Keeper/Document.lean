import MetaPool.Json.Value
import MetaPool.Keeper.Basic

/-!
# The keeper in documents

The documents of what a keeper is told and of what it reports on a cycle.
-/

namespace MetaPool.Keeper

open Json (Value)

/-! ## Configurations -/

def tokenDocument (t : TokenPlan) : Value := .ofFields
  [("symbol", .ofString t.symbol), ("decimals", .ofNat t.decimals), ("price", .ofInt t.price.toInt)]

def poolDocument (p : PoolPlan) : Value := .ofFields
  [("id", .ofString p.id), ("underlyer", .ofString p.underlyer),
    ("reserve_percentage", .ofNat p.terms.reservePercentage),
    ("withdraw_fee_bps", .ofNat p.terms.withdrawFeeBps),
    ("arbitrage_fee_bps", .ofNat p.terms.arbitrageFeeBps),
    ("arbitrage_fee_period", .ofInt p.terms.arbitragePeriod.toInt)]

def planDocument (p : Plan) : Value := .ofFields
  [("stale_period", .ofInt p.stalePeriod.toInt), ("default_lock_period", .ofNat p.lockPeriod.toNat),
    ("admin_safe", .ofString p.adminSafe), ("emergency_safe", .ofString p.emergencySafe),
    ("lp_safe", .ofString p.lpSafe), ("tokens", .array (p.tokens.map tokenDocument)),
    ("pools", .array (p.pools.map poolDocument))]

def Deposit.toJson (d : Deposit) : Value := .ofFields
  [("depositor", .ofString d.depositor), ("pool", .ofString d.pool),
    ("amount", .ofNat d.amount.toNat)]

def Config.toJson (c : Config) : Value := .ofFields
  [("seconds_per_block", .ofInt c.blockTime.toInt),
    ("blocks_per_cycle", .ofNat c.blocksPerCycle.toNat),
    ("rebalance_threshold_bps", .ofNat c.thresholdBps), ("protocol", planDocument c.plan),
    ("deposits", .array (c.deposits.map (·.toJson)))]

/-! ## Reports -/

/-- The pools of a move and their amounts. -/
def moveDocument (pools : List String) (amounts : List Nat) : Value := .ofFields
  [("pools", .array (pools.map .ofString)), ("amounts", .array (amounts.map .ofNat))]

def Verdict.toJson : Verdict → Value
  | locked lockEnd => .ofFields [("Locked", .ofFields [("lock_end", .ofNat lockEnd.toNat)])]
  | balanced => .ofString "Balanced"
  | funded pools amounts => .ofFields [("Funded", moveDocument pools amounts)]
  | withdrawn pools amounts => .ofFields [("Withdrawn", moveDocument pools amounts)]

/-- The document of a report also says whether capital moved. -/
def Report.toJson (r : Report) : Value := .ofFields
  [("cycle", .ofNat r.cycle), ("block_number", .ofNat r.height.toNat), ("tvl", .ofNat r.tvl),
    ("dry_run", .boolean r.dryRun), ("action", r.verdict.toJson), ("events", .ofNat r.events),
    ("moved_capital", .boolean r.verdict.movesCapital)]

end MetaPool.Keeper
