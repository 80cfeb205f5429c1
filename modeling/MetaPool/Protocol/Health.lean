import MetaPool.Protocol.Basic

/-!
# Health

The invariants of the share books: the meta shares sum to their supply and are all held by pools,
and the shares of every pool sum to its supply.
-/

namespace MetaPool.Protocol

/-- The meta shares that the pools hold together. -/
def metaSharesOfPools (p : Protocol) : Except Fault Nat :=
  p.pools.keys.foldlM (fun sum pool => Checked.add sum (p.metaToken.balanceOf pool)) 0

/-- Fails at the first invariant that does not hold. -/
def audit (p : Protocol) : Except Fault Unit := do
  if !p.metaToken.shares.isConsistent then
    .error (.invalidParameter .metaSharesOffSupply)
  else if (← p.metaSharesOfPools) ≠ p.metaToken.supply then
    .error (.invalidParameter .metaSharesOutsidePools)
  else
    p.pools.values.forM fun pool =>
      if pool.shares.isConsistent then .ok ()
      else .error (.invalidParameter (.poolSharesOffSupply pool.address))

end MetaPool.Protocol
