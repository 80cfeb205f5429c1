import MetaPool.Proofs.Ledger.Pools
import MetaPool.Proofs.Value.Snapshot
import MetaPool.Protocol.Valuation

/-!
# What the views of pools read

The views of a pool read its snapshot, and the snapshot reads the pool, the oracle, the token book
and the meta shares. While a pool has shares, deposits are priced by the snapshot as well.
-/

namespace MetaPool

/-- What a view shows; nothing, if it fails. -/
def shown (x : Except Fault Nat) : Nat := x.toOption.getD 0

@[simp] theorem shown_ok (n : Nat) : shown (.ok n) = n := rfl

namespace Protocol

variable {p : Protocol} {a : Address} {s : Snapshot} {v x : Nat}

theorem snapshot_eq_ok : p.snapshot a = .ok s ↔ ∃ state, p.pool a = .ok state ∧
    p.assetPrice state.underlyer = .ok s.price ∧
    p.tokens.decimals state.underlyer = .ok s.decimals ∧
    p.tokens.balanceOf state.underlyer a = .ok s.idleBalance ∧
    p.deployedValue a = .ok s.deployedValue ∧ s.shareSupply = state.shares.supply := by
  simp only [snapshot, except_bind_eq_ok, except_pure_eq_ok]
  constructor
  · rintro ⟨state, hs, _, hprice, _, hdec, _, hidle, _, hdep, rfl⟩
    exact ⟨state, hs, hprice, hdec, hidle, hdep, rfl⟩
  · rintro ⟨state, hs, hprice, hdec, hidle, hdep, hsupply⟩
    exact ⟨state, hs, _, hprice, _, hdec, _, hidle, _, hdep, by rw [← hsupply]⟩

theorem poolValue_eq_ok :
    p.poolValue a = .ok v ↔ ∃ s, p.snapshot a = .ok s ∧ s.totalValue = .ok v := by
  simp only [poolValue, except_bind_eq_ok]

/-- The shares of a pool that are out; none, of a pool that is not deployed. -/
def shareSupply (p : Protocol) (a : Address) : Nat :=
  match p.pool a with
  | .ok state => state.shares.supply
  | .error _ => 0

theorem shareSupply_of_snapshot (h : p.snapshot a = .ok s) : p.shareSupply a = s.shareSupply := by
  obtain ⟨state, hs, -, -, -, -, hsupply⟩ := snapshot_eq_ok.1 h
  simp only [shareSupply, hs, hsupply]

theorem mem_keys_of_shareSupply (h : 0 < p.shareSupply a) : a ∈ p.pools.keys := by
  unfold shareSupply at h
  cases hs : p.pool a with
  | ok state => exact OrderedMap.mem_keys.2 ⟨state, pool_eq_ok.1 hs⟩
  | error fault => simp [hs] at h

theorem deployedValue_of_no_supply (h : p.metaToken.supply = 0) (a : Address) :
    p.deployedValue a = .ok 0 := if_pos h

/-- While there are meta shares, a deployed value is a floored part of the TVL. -/
theorem deployedValue_eq_ok (h : p.metaToken.supply ≠ 0) : p.deployedValue a = .ok v ↔
    ∃ tvl, p.tvl = .ok tvl ∧
      Checked.prorate tvl (p.metaToken.balanceOf a) p.metaToken.supply = .ok v := by
  simp only [deployedValue, if_neg h, except_bind_eq_ok, claimedValue]

theorem shareValue_eq_ok : p.shareValue a x = .ok v ↔ ∃ state s, p.pool a = .ok state ∧
    state.shares.supply ≠ 0 ∧ p.snapshot a = .ok s ∧ s.shareValue x = .ok v := by
  simp only [shareValue, except_bind_eq_ok, refuse_eq_ok]
  grind

/-- While there are shares, a deposit is priced by the snapshot. -/
theorem sharesFor_of_mintAmount {amount m : Nat} (h : p.mintAmount a amount = .ok m)
    (hS : 0 < p.shareSupply a) : ∃ s, p.snapshot a = .ok s ∧ s.sharesFor amount = .ok m := by
  obtain ⟨state, hs, h⟩ := except_bind_eq_ok.1 h
  simp only [shareSupply, hs] at hS
  rw [if_neg (by omega)] at h
  exact except_bind_eq_ok.1 h

theorem unitsFor_of_underlyerFor {shares units : Nat} (h : p.underlyerFor a shares = .ok units)
    (hshares : shares ≠ 0) : ∃ s, p.snapshot a = .ok s ∧ s.unitsFor shares = .ok units := by
  unfold underlyerFor at h
  rw [if_neg hshares] at h
  obtain ⟨state, -, h⟩ := except_bind_eq_ok.1 h
  exact except_bind_eq_ok.1 (refuse_eq_ok.1 h).2

theorem quote_eq_ok {holder : Address} {shares : Nat} {quote : RedemptionQuote} :
    p.quote a holder shares = .ok quote ↔ ∃ state base, p.pool a = .ok state ∧
      p.underlyerFor a shares = .ok base ∧
      RedemptionQuote.of base state.terms.withdrawFeeBps state.terms.arbitrageFeeBps
        (state.isEarly holder p.clock) = .ok quote := by
  simp only [Protocol.quote, except_bind_eq_ok]
  grind

/-! ## Deltas -/

/-- The meta shares for moving an amount of a pool's underlyer, against one reading of the TVL. -/
def metaDeltaAt (p : Protocol) (tvl : Nat) (move : Address × Nat) : Except Fault Nat := do
  let underlyer := (← p.pool move.1).underlyer
  let price ← p.assetPrice underlyer
  let decimals ← p.tokens.decimals underlyer
  metaDelta move.2 price decimals tvl p.metaToken.supply

theorem metaDeltaAt_eq_ok {tvl : Nat} {move : Address × Nat} : p.metaDeltaAt tvl move = .ok v ↔
    ∃ state price decimals, p.pool move.1 = .ok state ∧ p.assetPrice state.underlyer = .ok price ∧
      p.tokens.decimals state.underlyer = .ok decimals ∧
      metaDelta move.2 price decimals tvl p.metaToken.supply = .ok v := by
  simp only [metaDeltaAt, except_bind_eq_ok]
  grind

/-- All deltas of a batch are computed against one reading of the TVL, which is not taken while there
are no meta shares. -/
theorem metaDeltas_eq_ok {pools : List Address} {amounts deltas : List Nat} :
    p.metaDeltas pools amounts = .ok deltas ↔ pools.length = amounts.length ∧
      ∃ tvl, (if p.metaToken.supply = 0 then .ok 0 else p.tvl) = .ok tvl ∧
        (pools.zip amounts).mapM (p.metaDeltaAt tvl) = .ok deltas := by
  unfold metaDeltas
  rw [refuse_eq_ok, not_not]
  refine and_congr_right fun _ => ?_
  dsimp only
  split
  next => simp only [except_bind_eq_ok]; rfl
  next => exact except_bind_eq_ok

end Protocol

end MetaPool
