import MetaPool.Json.Printer
import MetaPool.Keeper.Basic

/-!
# Summaries

What a keeper tells of itself and of its pools, as a record and as JSON text.
-/

namespace MetaPool.Keeper

open Json (Value)

/-- A line on a pool. -/
structure PoolLine where
  id : String
  idleBalance : Nat
  shareSupply : Nat
  metaBalance : Nat
deriving DecidableEq

/-- The state of a keeper in brief. -/
structure Summary where
  cycles : Nat
  height : UInt64
  metaSupply : Nat
  oracleLocked : Bool
  pools : List PoolLine
deriving DecidableEq

/-- The line on the pool of an identifier. -/
def poolLine (p : Protocol) (id : String) : Except MetaPool.Fault PoolLine := do
  let address ← p.poolAddress id
  let pool ← p.pool address
  let idleBalance ← p.tokens.balanceOf pool.underlyer address
  return { id, idleBalance, shareSupply := pool.shares.supply
           metaBalance := p.metaToken.balanceOf address }

def summary (k : Keeper) : Except Fault Summary :=
  match k.config.poolIds.mapM (poolLine k.protocol) with
  | .error fault => .error (.protocol fault)
  | .ok pools => .ok {
      cycles := k.cycles
      height := k.protocol.clock.height
      metaSupply := k.protocol.metaToken.supply
      oracleLocked := k.protocol.isOracleLocked
      pools }

def PoolLine.toJson (s : PoolLine) : Value := .ofFields
  [("id", .ofString s.id), ("idle_balance", .ofNat s.idleBalance),
    ("share_supply", .ofNat s.shareSupply), ("mapt_balance", .ofNat s.metaBalance)]

def Summary.toJson (s : Summary) : Value := .ofFields
  [("cycles", .ofNat s.cycles), ("block_number", .ofNat s.height.toNat),
    ("mapt_supply", .ofNat s.metaSupply), ("oracle_locked", .boolean s.oracleLocked),
    ("pools", .array (s.pools.map (·.toJson)))]

/-- The summary of a keeper as text. -/
def summaryText (k : Keeper) : Except Fault String := do return (← k.summary).toJson.print

end MetaPool.Keeper
