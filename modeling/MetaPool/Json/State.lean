import MetaPool.Json.Event
import MetaPool.Protocol.Valuation

/-!
# The protocol in documents

The document of the protocol lists every component. Of the accounts it shows those that are watched
and the pools, each with what it holds; accounts that hold nothing are left out.
-/

namespace MetaPool

open Json (Value)

/-- Pairs of an account and what it has. -/
def accountPairs {α : Type} (value : α → Value) (entries : List (Address × α)) : Value :=
  .array (entries.map fun e => .array [e.1.toJson, value e.2])

/-- The document of a pool, with the last deposits of the given accounts. -/
def Pool.toJson (p : Pool) (accounts : List Address) (metaBalance : Nat) : Value := .ofFields
  [("address", p.address.toJson), ("underlyer", p.underlyer.toJson), ("params", p.terms.toJson),
    ("locks", p.locks.toJson), ("supply", .ofNat p.shares.supply),
    ("holders", accountPairs .ofNat p.shares.holders),
    ("last_deposit", accountPairs (fun t => .ofInt t.toInt)
      (accounts.filterMap fun a => (p.lastDeposit.get? a).map fun t => (a, t))),
    ("mapt", .ofNat metaBalance)]

/-- The fields of a token's document, with what the given accounts hold and let the given pools
move. -/
def TokenRecord.fields (r : TokenRecord) (accounts pools : List Address) : List (String × Value) :=
  [("symbol", .ofString r.traits.symbol), ("decimals", .ofNat r.traits.decimals),
    ("supply", .ofNat r.supply),
    ("balances", accountPairs .ofNat
      ((accounts.map fun a => (a, r.balanceOf a)).filter (·.2 ≠ 0))),
    ("allowances", .array (accounts.flatMap fun owner =>
      ((pools.map fun pool => (pool, r.allowance owner pool)).filter (·.2 ≠ 0)).map
        fun e => .array [owner.toJson, e.1.toJson, .ofNat e.2]))]

/-- The document of the oracle. -/
def Oracle.toJson (o : Oracle) (clock : Clock) : Value := .array
  [o.tvlSource.toJson, .ofInt o.stalePeriod.toInt, .ofNat o.lockPeriod.toNat,
    .ofNat o.lockEnd.toNat, .boolean (o.isLocked clock), .boolean (o.hasTvlOverride clock)]

/-- The fields of the protocol's document. -/
def Protocol.fields (p : Protocol) (watched : List Address) : List (String × Value) :=
  let pools := p.pools.keys
  let accounts := (OrderedMap.ofList ((watched ++ pools).map fun a => (a, ()))).keys
  [("env", p.clock.toJson),
    ("pools", .array (p.pools.values.map fun pool =>
      pool.toJson accounts (p.metaToken.balanceOf pool.address))),
    ("tokens", .array (p.tokens.records.toList.map fun (token, record) => .ofFields
      ([("token", token.toJson)] ++ record.fields accounts pools ++
        [("source", ((p.oracle.assetSource token).map Address.toJson).getD .null),
          ("override", .boolean (p.hasAssetOverride token))]))),
    ("mapt", p.metaToken.shares.toJson), ("registry", p.registry.toJson),
    ("feeds", p.feeds.toJson), ("oracle", p.oracle.toJson p.clock),
    ("allocation", p.allocation.toJson), ("events", .array (p.log.map LogEntry.toJson))]

end MetaPool
