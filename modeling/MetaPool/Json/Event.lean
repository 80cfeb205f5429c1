import MetaPool.Json.Component
import MetaPool.Protocol.Event

/-!
# Events in documents

An event without data is written as its name, an event with data as an object with one field, whose
name is that of the event and whose value is an object of its data.
-/

namespace MetaPool

open Json (Value)

namespace Event

/-- The name of an event in documents. -/
def tag : Event → String
  | deposited .. => "DepositedApt"
  | redeemed .. => "RedeemedApt"
  | poolPaused .. => "PoolPaused"
  | depositsLocked .. => "AddLiquidityLocked"
  | redemptionsLocked .. => "RedeemLocked"
  | reservePercentageChanged .. => "ReservePercentageChanged"
  | withdrawFeeChanged .. => "WithdrawFeeChanged"
  | arbitrageFeeChanged .. => "ArbitrageFeeChanged"
  | metaMinted .. => "MaptMinted"
  | metaBurned .. => "MaptBurned"
  | capitalSent .. => "FundedLpAccount"
  | capitalReturned .. => "WithdrawnFromLpAccount"
  | tokenRegistered .. => "Erc20Registered"
  | oracleLocked _ => "OracleLocked"
  | oracleUnlocked => "OracleUnlocked"
  | tvlOverrideSet .. => "TvlOverrideSet"
  | tvlOverrideUnset => "TvlOverrideUnset"
  | assetOverrideSet .. => "AssetOverrideSet"
  | assetOverrideUnset _ => "AssetOverrideUnset"
  | tvlSourceChanged _ => "TvlSourceChanged"
  | assetSourceChanged .. => "AssetSourceChanged"
  | stalePeriodChanged _ => "StalePeriodChanged"
  | lockPeriodChanged _ => "DefaultLockPeriodChanged"

/-- The data of an event. -/
def data : Event → List (String × Value)
  | deposited pool sender token amount shares totalValue =>
    [("pool", pool.toJson), ("sender", sender.toJson), ("token", token.toJson),
      ("token_amount", .ofNat amount), ("apt_minted", .ofNat shares),
      ("total_value", .ofNat totalValue)]
  | redeemed pool sender token amount shares totalValue =>
    [("pool", pool.toJson), ("sender", sender.toJson), ("token", token.toJson),
      ("redeemed_token_amount", .ofNat amount), ("apt_redeemed", .ofNat shares),
      ("total_value", .ofNat totalValue)]
  | poolPaused pool paused => [("pool", pool.toJson), ("paused", .boolean paused)]
  | depositsLocked pool locked | redemptionsLocked pool locked =>
    [("pool", pool.toJson), ("locked", .boolean locked)]
  | reservePercentageChanged pool percentage =>
    [("pool", pool.toJson), ("reserve_percentage", .ofNat percentage)]
  | withdrawFeeChanged pool bps => [("pool", pool.toJson), ("withdraw_fee_bps", .ofNat bps)]
  | arbitrageFeeChanged pool bps period =>
    [("pool", pool.toJson), ("arbitrage_fee_bps", .ofNat bps),
      ("arbitrage_fee_period", .ofInt period.toInt)]
  | metaMinted pool amount | metaBurned pool amount =>
    [("pool", pool.toJson), ("amount", .ofNat amount)]
  | capitalSent pool token amount | capitalReturned pool token amount =>
    [("pool", pool.toJson), ("token", token.toJson), ("amount", .ofNat amount)]
  | tokenRegistered token symbol decimals =>
    [("token", token.toJson), ("symbol", .ofString symbol), ("decimals", .ofNat decimals)]
  | oracleLocked lockEnd => [("lock_end", .ofNat lockEnd.toNat)]
  | tvlOverrideSet value expiry =>
    [("value", .ofInt value), ("expiry_block", .ofNat expiry.toNat)]
  | assetOverrideSet asset value expiry =>
    [("asset", asset.toJson), ("value", .ofInt value), ("expiry_block", .ofNat expiry.toNat)]
  | assetOverrideUnset asset => [("asset", asset.toJson)]
  | tvlSourceChanged source => [("source", source.toJson)]
  | assetSourceChanged asset source => [("asset", asset.toJson), ("source", source.toJson)]
  | stalePeriodChanged period => [("stale_period", .ofInt period.toInt)]
  | lockPeriodChanged blocks => [("blocks", .ofNat blocks.toNat)]
  | oracleUnlocked | tvlOverrideUnset => []

/-- An event as it is written. -/
def toJson (e : Event) : Value :=
  if e.data.isEmpty then .ofString e.tag else .ofFields [(e.tag, .ofFields e.data)]

end Event

/-- A record as it is written. -/
def LogEntry.toJson (r : LogEntry) : Value := .ofFields
  [("block_number", .ofNat r.height.toNat), ("timestamp", .ofInt r.time.toInt),
    ("event", r.event.toJson)]

end MetaPool
