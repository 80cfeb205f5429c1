import MetaPool.Keeper.Fault
import MetaPool.Toml.Codec

/-!
# Configuration files

A configuration file is a TOML document with a field for each part of the configuration.
`Config.toToml` and `Config.ofToml?` say which; the deposits and the terms of a pool may be left
out. A file is read only as a valid configuration, and written whatever the configuration, as long
as its document can be printed. Documents are printed and read by a codec.
-/

namespace MetaPool.Keeper

open Toml (Codec Value)

/-! ## Writing -/

def tokenFields (t : TokenPlan) : List (String × Value) :=
  [("symbol", .string t.symbol), ("decimals", .integer t.decimals),
    ("price", .integer t.price.toInt)]

def poolFields (p : PoolPlan) : List (String × Value) :=
  [("id", .string p.id), ("underlyer", .string p.underlyer),
    ("reserve_percentage", .integer p.terms.reservePercentage),
    ("withdraw_fee_bps", .integer p.terms.withdrawFeeBps),
    ("arbitrage_fee_bps", .integer p.terms.arbitrageFeeBps),
    ("arbitrage_fee_period", .integer p.terms.arbitragePeriod.toInt)]

def depositFields (d : Deposit) : List (String × Value) :=
  [("depositor", .string d.depositor), ("pool", .string d.pool),
    ("amount", .integer d.amount.toNat)]

/-- An array of tables. -/
def tablesValue (tables : List (List (String × Value))) : Value := .array (tables.map .table)

def planFields (p : Plan) : List (String × Value) :=
  [("stale_period", .integer p.stalePeriod.toInt),
    ("default_lock_period", .integer p.lockPeriod.toNat), ("admin_safe", .string p.adminSafe),
    ("emergency_safe", .string p.emergencySafe), ("lp_safe", .string p.lpSafe),
    ("tokens", tablesValue (p.tokens.map tokenFields)),
    ("pools", tablesValue (p.pools.map poolFields))]

def Config.fields (c : Config) : List (String × Value) :=
  [("seconds_per_block", .integer c.blockTime.toInt),
    ("blocks_per_cycle", .integer c.blocksPerCycle.toNat),
    ("rebalance_threshold_bps", .integer c.thresholdBps), ("protocol", .table (planFields c.plan)),
    ("deposits", tablesValue (c.deposits.map depositFields))]

/-- The document of a configuration. -/
def Config.toToml (c : Config) : Value := .table c.fields

/-- The text of a configuration. -/
def Config.print (c : Config) (codec : Codec := .pretty) : Except Fault String :=
  match codec.print? c.toToml with
  | some text => .ok text
  | none => .error .unwritableConfig

/-! ## Reading -/

/-- The largest percentage that has a field. -/
def maxPercentage : Nat := 255

/-- The largest number of basis points that has a field. -/
def maxBps : Nat := 4294967295

/-- A field that may be left out. -/
def optional {α : Type} (otherwise : α) (read : Value → Option α) : Option Value → Option α
  | some v => read v
  | none => some otherwise

def tokenOf? (v : Value) : Option TokenPlan := do
  match ← v.record? ["symbol", "decimals", "price"] with
  | [symbol, decimals, price] =>
    return { symbol := ← (← symbol).string?, decimals := ← (← decimals).natUpTo? maxPercentage
             price := ← (← price).int64? }
  | _ => none

def poolOf? (v : Value) : Option PoolPlan := do
  match ← v.record? ["id", "underlyer", "reserve_percentage", "withdraw_fee_bps",
      "arbitrage_fee_bps", "arbitrage_fee_period"] with
  | [id, underlyer, reserve, withdraw, arbitrage, period] =>
    let otherwise : PoolTerms := default
    return {
      id := ← (← id).string?
      underlyer := ← (← underlyer).string?
      terms := {
        reservePercentage :=
          ← optional otherwise.reservePercentage (·.natUpTo? maxPercentage) reserve
        withdrawFeeBps := ← optional otherwise.withdrawFeeBps (·.natUpTo? maxBps) withdraw
        arbitrageFeeBps := ← optional otherwise.arbitrageFeeBps (·.natUpTo? maxBps) arbitrage
        arbitragePeriod := ← optional otherwise.arbitragePeriod (·.int64?) period } }
  | _ => none

def planOf? (v : Value) : Option Plan := do
  match ← v.record? ["stale_period", "default_lock_period", "admin_safe", "emergency_safe",
      "lp_safe", "tokens", "pools"] with
  | [stalePeriod, lockPeriod, adminSafe, emergencySafe, lpSafe, tokens, pools] =>
    return {
      stalePeriod := ← (← stalePeriod).int64?
      lockPeriod := ← (← lockPeriod).uint64?
      adminSafe := ← (← adminSafe).string?
      emergencySafe := ← (← emergencySafe).string?
      lpSafe := ← (← lpSafe).string?
      tokens := ← (← tokens).list? tokenOf?
      pools := ← (← pools).list? poolOf? }
  | _ => none

def depositOf? (v : Value) : Option Deposit := do
  match ← v.record? ["depositor", "pool", "amount"] with
  | [depositor, pool, amount] =>
    return { depositor := ← (← depositor).string?, pool := ← (← pool).string?
             amount := ← (← amount).uint64? }
  | _ => none

/-- The configuration of a document, valid or not. -/
def Config.ofToml? (v : Value) : Option Config := do
  match ← v.record? ["seconds_per_block", "blocks_per_cycle", "rebalance_threshold_bps",
      "protocol", "deposits"] with
  | [blockTime, blocksPerCycle, thresholdBps, plan, deposits] =>
    return {
      blockTime := ← (← blockTime).int64?
      blocksPerCycle := ← (← blocksPerCycle).uint64?
      thresholdBps := ← (← thresholdBps).natUpTo? maxBps
      plan := ← planOf? (← plan)
      deposits := ← optional [] (·.list? depositOf?) deposits }
  | _ => none

/-- The valid configuration of a text. -/
def Config.parse (text : String) (codec : Codec := .pretty) : Except Fault Config := do
  match codec.read? text >>= Config.ofToml? with
  | some config =>
    config.validate
    return config
  | none => .error .unreadableConfig

/-- The valid configuration of a file, which is there if it has bytes. -/
def Config.load (file : Option ByteArray) (codec : Codec := .pretty) : Except Fault Config :=
  match file >>= String.fromUTF8? with
  | some text => Config.parse text codec
  | none => .error .file

end MetaPool.Keeper
