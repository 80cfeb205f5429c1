import MetaPool.Proofs.Ledger.Consistency
import MetaPool.Proofs.Value.Apportion
import MetaPool.Proofs.Value.Views

/-!
# Claims never exceed assets

Two splits are nested: the TVL among the pools by their meta shares, and the total value of each pool
among its holders by their shares. Both books are balanced in every reachable state, so both splits
are those of `Apportion`, and no rounding lets the claims exceed what they are claims on.

    sum of the deployed values ≤ TVL                                (sum_deployed)
    sum of the share values of a pool ≤ its total value             (sum_shareValues)
    sum of the underlyer of a pool ≤ units of its total value       (sum_underlyer)
    sum of all share values ≤ sum of the idle values + TVL          (sum_claims)
-/

namespace MetaPool

namespace Protocol

variable {p : Protocol} {a : Address} {state : Pool} {s : Snapshot} {v x : Nat}

/-! ## Pools and the TVL -/

/-- If a deployed value can be read at every pool, they are floored parts of the one TVL. -/
theorem deployed_split (h : Books p) (hsupply : 0 < p.metaToken.supply)
    (hread : ∀ a ∈ p.pools.keys, ∃ v, p.deployedValue a = .ok v) :
    ∃ tvl, p.tvl = .ok tvl ∧ ∀ a ∈ p.pools.keys,
      p.deployedValue a = .ok (tvl * p.metaToken.balanceOf a / p.metaToken.supply) := by
  have hne : p.metaToken.supply ≠ 0 := Nat.ne_of_gt hsupply
  -- somebody holds the supply, so there is a pool at which the TVL was read
  obtain ⟨a, ha⟩ : ∃ a, a ∈ p.pools.keys := by
    apply List.exists_mem_of_ne_nil
    intro hnil
    have hsum := sum_metaShares h
    simp only [hnil, List.map_nil, List.sum_nil] at hsum
    omega
  obtain ⟨v, hv⟩ := hread a ha
  obtain ⟨tvl, htvl, -⟩ := (deployedValue_eq_ok hne).1 hv
  refine ⟨tvl, htvl, ?_⟩
  intro b hb
  obtain ⟨w, hw⟩ := hread b hb
  obtain ⟨tvl', htvl', hpart⟩ := (deployedValue_eq_ok hne).1 hw
  obtain rfl : tvl = tvl' := ok_unique htvl htvl'
  rw [hw, (Checked.prorate_eq_ok.1 hpart).2.1]

/-- The deployed values miss less than one of the TVL for each pool with meta shares. -/
theorem sum_deployed (h : Books p) (hsupply : 0 < p.metaToken.supply)
    (hread : ∀ a ∈ p.pools.keys, ∃ v, p.deployedValue a = .ok v) :
    ∃ tvl values, p.tvl = .ok tvl ∧ p.pools.keys.mapM p.deployedValue = .ok values ∧
      values.sum ≤ tvl ∧
      tvl < values.sum + p.pools.keys.countP fun a => 0 < p.metaToken.balanceOf a := by
  obtain ⟨tvl, htvl, hsplit⟩ := deployed_split h hsupply hread
  have hsum := sum_metaShares h
  have hle := sum_floor_le_whole tvl (p.pools.keys.map p.metaToken.balanceOf)
  have hlt := lt_sum_floor tvl (p.pools.keys.map p.metaToken.balanceOf) (by omega)
  rw [hsum, List.map_map] at hle hlt
  rw [List.countP_map] at hlt
  exact ⟨tvl, _, htvl, mapM_eq_ok hsplit, hle, hlt⟩

/-! ## Holders and their pool -/

theorem sum_holders (h : state.shares.Balanced) :
    (state.shares.holders.map (·.2)).sum = state.shares.supply := h.total_eq

/-- The holders' parts of a value sum to at most the value. -/
theorem sum_parts_le (h : state.shares.Balanced) (v : Nat) :
    (state.shares.holders.map fun e => v * e.2 / state.shares.supply).sum ≤ v := by
  have hle := sum_floor_le_whole v (state.shares.holders.map (·.2))
  rwa [sum_holders h, List.map_map] at hle

/-- In a pool that can be valued, everybody's shares can be, at their floored part. -/
theorem shareValue_split (h : state.shares.Balanced) (hstate : p.pool a = .ok state)
    (hsupply : 0 < state.shares.supply) (hv : p.poolValue a = .ok v) :
    ∀ e ∈ state.shares.holders, p.shareValue a e.2 = .ok (v * e.2 / state.shares.supply) := by
  intro e he
  obtain ⟨s, hsnap, htotal⟩ := poolValue_eq_ok.1 hv
  obtain ⟨-, rfl, hmax⟩ := Snapshot.totalValue_eq_ok.1 htotal
  obtain ⟨state', hstate', -, -, -, -, hs⟩ := snapshot_eq_ok.1 hsnap
  obtain rfl : state = state' := ok_unique hstate hstate'
  have hle : e.2 ≤ state.shares.supply := by
    rw [← sum_holders h]
    exact List.le_sum_of_mem (List.mem_map_of_mem he)
  have hne : state.shares.supply ≠ 0 := Nat.ne_of_gt hsupply
  refine shareValue_eq_ok.2 ⟨state, s, hstate, hne, hsnap, Snapshot.shareValue_eq_ok.2 ?_⟩
  rw [hs]
  exact ⟨hne, htotal, Checked.prorate_of_le hle hne hmax⟩

/-- What is shown of a holder's underlyer is at most the units of its share value. -/
theorem underlyerFor_le (hsnap : p.snapshot a = .ok s) {w : Nat}
    (hw : p.shareValue a x = .ok w) :
    shown (p.underlyerFor a x) ≤ 10 ^ s.decimals * w / s.price := by
  cases hu : p.underlyerFor a x with
  | error fault => exact Nat.zero_le _
  | ok units =>
    by_cases hx : x = 0
    · have : units = 0 := by simpa [underlyerFor, hx, eq_comm] using hu
      simp [this]
    · obtain ⟨s₁, hs₁, hunits⟩ := unitsFor_of_underlyerFor hu hx
      obtain rfl : s = s₁ := ok_unique hsnap hs₁
      obtain ⟨hzero, -⟩ | ⟨-, w', hw', hunits⟩ := Snapshot.unitsFor_eq_ok.1 hunits
      · exact absurd hzero hx
      · obtain ⟨-, s₂, -, -, hs₂, hw₂⟩ := shareValue_eq_ok.1 hw
        obtain rfl : s = s₂ := ok_unique hsnap hs₂
        obtain rfl : w' = w := ok_unique hw' hw₂
        obtain ⟨-, -, rfl, -⟩ := unitsWorth_eq_ok.1 hunits
        rw [shown_ok, Nat.mul_comm]

/-- The share values of a pool sum to at most its total value. -/
theorem sum_shareValues (h : state.shares.Balanced) (hstate : p.pool a = .ok state)
    (hsupply : 0 < state.shares.supply) (hv : p.poolValue a = .ok v) :
    ∃ values, state.shares.holders.mapM (fun e => p.shareValue a e.2) = .ok values ∧
      values.sum ≤ v :=
  ⟨_, mapM_eq_ok (shareValue_split h hstate hsupply hv), sum_parts_le h v⟩

/-- The underlyer amounts of a pool sum to at most the units of its total value. -/
theorem sum_underlyer (h : state.shares.Balanced) (hstate : p.pool a = .ok state)
    (hsupply : 0 < state.shares.supply) (hsnap : p.snapshot a = .ok s)
    (hv : s.totalValue = .ok v) :
    (state.shares.holders.map fun e => shown (p.underlyerFor a e.2)).sum ≤
      v * 10 ^ s.decimals / s.price := by
  have hpool : p.poolValue a = .ok v := poolValue_eq_ok.2 ⟨s, hsnap, hv⟩
  have hsplit := shareValue_split h hstate hsupply hpool
  calc (state.shares.holders.map fun e => shown (p.underlyerFor a e.2)).sum
      ≤ (state.shares.holders.map fun e =>
          10 ^ s.decimals * (v * e.2 / state.shares.supply) / s.price).sum :=
        List.sum_le_sum fun e he => underlyerFor_le hsnap (hsplit e he)
    _ = ((state.shares.holders.map fun e => v * e.2 / state.shares.supply).map fun w =>
          10 ^ s.decimals * w / s.price).sum := by rw [List.map_map]; rfl
    _ ≤ 10 ^ s.decimals *
          (state.shares.holders.map fun e => v * e.2 / state.shares.supply).sum / s.price :=
        sum_floor_le _ _ _
    _ ≤ 10 ^ s.decimals * v / s.price :=
        Nat.div_le_div_right (Nat.mul_le_mul_left _ (sum_parts_le h v))
    _ = v * 10 ^ s.decimals / s.price := by rw [Nat.mul_comm]

/-! ## All pools together -/

/-- The worth of what a pool holds itself. -/
def idleValue (p : Protocol) (a : Address) : Except Fault Nat := do
  (← p.snapshot a).idleValue

/-- What a pool is worth is what it holds itself and its part of the TVL. -/
theorem value_split (hv : p.poolValue a = .ok v) :
    v = shown (p.idleValue a) + shown (p.deployedValue a) := by
  obtain ⟨s, hsnap, htotal⟩ := poolValue_eq_ok.1 hv
  obtain ⟨_, -, -, -, -, hdep, -⟩ := snapshot_eq_ok.1 hsnap
  obtain ⟨idle, hidle, htotal⟩ := except_bind_eq_ok.1 htotal
  obtain ⟨rfl, -⟩ := Checked.add_eq_ok.1 htotal
  have hidle : p.idleValue a = .ok idle := except_bind_eq_ok.2 ⟨s, hsnap, hidle⟩
  rw [hidle, hdep, shown_ok, shown_ok]

/-- What is shown of the share values of a pool is at most its idle and its deployed value, whether
or not the pool can be valued. -/
theorem sum_shown_shareValues (h : state.shares.Balanced) (hstate : p.pool a = .ok state) :
    (state.shares.holders.map fun e => shown (p.shareValue a e.2)).sum ≤
      shown (p.idleValue a) + shown (p.deployedValue a) := by
  by_cases hread : 0 < state.shares.supply ∧ ∃ v, p.poolValue a = .ok v
  · obtain ⟨hsupply, v, hv⟩ := hread
    have hshown : ∀ e ∈ state.shares.holders,
        shown (p.shareValue a e.2) = v * e.2 / state.shares.supply := by
      intro e he
      rw [shareValue_split h hstate hsupply hv e he, shown_ok]
    rw [List.map_congr_left hshown, ← value_split hv]
    exact sum_parts_le h v
  · have hzero : ∀ e ∈ state.shares.holders, shown (p.shareValue a e.2) = 0 := by
      intro e _
      cases hw : p.shareValue a e.2 with
      | error fault => rfl
      | ok w =>
        obtain ⟨state', s, hstate', hne, hsnap, hw⟩ := shareValue_eq_ok.1 hw
        obtain rfl : state = state' := ok_unique hstate hstate'
        refine absurd ⟨Nat.pos_of_ne_zero hne, s.value, ?_⟩ hread
        exact poolValue_eq_ok.2 ⟨s, hsnap, (Snapshot.shareValue_eq_ok.1 hw).2.1⟩
    rw [List.map_congr_left hzero, List.sum_map_zero]
    exact Nat.zero_le _

/-- The TVL that meta shares claim: nothing, while there are none. -/
def claimedTvl (p : Protocol) : Nat := if p.metaToken.supply = 0 then 0 else shown p.tvl

theorem sum_shown_deployed (h : Books p)
    (hread : ∀ a ∈ p.pools.keys, ∃ v, p.deployedValue a = .ok v) :
    (p.pools.keys.map fun a => shown (p.deployedValue a)).sum ≤ p.claimedTvl := by
  by_cases hsupply : p.metaToken.supply = 0
  · have hzero : ∀ a ∈ p.pools.keys, shown (p.deployedValue a) = 0 := by
      intro a _
      rw [deployedValue_of_no_supply hsupply, shown_ok]
    rw [List.map_congr_left hzero, List.sum_map_zero]
    exact Nat.zero_le _
  · have hpos := Nat.pos_of_ne_zero hsupply
    obtain ⟨tvl, htvl, hsplit⟩ := deployed_split h hpos hread
    have hshown : ∀ a ∈ p.pools.keys, shown (p.deployedValue a) =
        tvl * p.metaToken.balanceOf a / p.metaToken.supply := by
      intro a ha
      rw [hsplit a ha, shown_ok]
    have hle := sum_floor_le_whole tvl (p.pools.keys.map p.metaToken.balanceOf)
    rw [sum_metaShares h, List.map_map] at hle
    rw [List.map_congr_left hshown, claimedTvl, if_neg hsupply, htvl, shown_ok]
    exact hle

theorem sum_claims (h : Books p) (hread : ∀ a ∈ p.pools.keys, ∃ v, p.deployedValue a = .ok v) :
    (p.pools.toList.map fun e =>
      (e.2.shares.holders.map fun f => shown (p.shareValue e.1 f.2)).sum).sum ≤
        (p.pools.keys.map fun a => shown (p.idleValue a)).sum + p.claimedTvl := by
  have hpool : ∀ e ∈ p.pools.toList,
      (e.2.shares.holders.map fun f => shown (p.shareValue e.1 f.2)).sum ≤
        shown (p.idleValue e.1) + shown (p.deployedValue e.1) := by
    intro e he
    have hget : p.pools.get? e.1 = some e.2 := OrderedMap.get?_eq_some_iff.2 he
    exact sum_shown_shareValues (h.poolShares _ _ hget) (pool_eq_ok.2 hget)
  calc (p.pools.toList.map fun e =>
        (e.2.shares.holders.map fun f => shown (p.shareValue e.1 f.2)).sum).sum
      ≤ (p.pools.toList.map fun e =>
          shown (p.idleValue e.1) + shown (p.deployedValue e.1)).sum := List.sum_le_sum hpool
    _ = (p.pools.keys.map fun a => shown (p.idleValue a)).sum +
          (p.pools.keys.map fun a => shown (p.deployedValue a)).sum := by
        rw [List.sum_map_add, OrderedMap.keys, List.map_map, List.map_map]
        rfl
    _ ≤ _ := Nat.add_le_add_left (sum_shown_deployed h hread) _

/-- No rounding, price or TVL lets the claims exceed the assets. -/
structure Solvent (p : Protocol) : Prop where
  /-- The deployed values sum to the TVL, less than one short for each pool with meta shares. -/
  deployed : 0 < p.metaToken.supply → ∃ tvl values,
    p.tvl = .ok tvl ∧ p.pools.keys.mapM p.deployedValue = .ok values ∧ values.sum ≤ tvl ∧
      tvl < values.sum + p.pools.keys.countP fun a => 0 < p.metaToken.balanceOf a
  /-- The shares of a pool are together worth at most the pool. -/
  shares : ∀ a state v, p.pool a = .ok state → 0 < state.shares.supply → p.poolValue a = .ok v →
    ∃ values, state.shares.holders.mapM (fun e => p.shareValue a e.2) = .ok values ∧
      values.sum ≤ v
  /-- The shares of a pool stand for at most the units that the pool is worth. -/
  units : ∀ a state s v, p.pool a = .ok state → 0 < state.shares.supply →
    p.snapshot a = .ok s → s.totalValue = .ok v →
    (state.shares.holders.map fun e => shown (p.underlyerFor a e.2)).sum ≤
      v * 10 ^ s.decimals / s.price
  /-- All shares of all pools are together worth at most the idle values and the TVL. -/
  claims : (p.pools.toList.map fun e =>
    (e.2.shares.holders.map fun f => shown (p.shareValue e.1 f.2)).sum).sum ≤
      (p.pools.keys.map fun a => shown (p.idleValue a)).sum + p.claimedTvl

theorem solvent_of_reachable (p : Protocol) (h : Reachable p)
    (hread : ∀ a ∈ p.pools.keys, ∃ s, p.snapshot a = .ok s) : Solvent p := by
  have hbooks := h.books
  have hdeployed : ∀ a ∈ p.pools.keys, ∃ v, p.deployedValue a = .ok v := by
    intro a ha
    obtain ⟨s, hs⟩ := hread a ha
    obtain ⟨_, -, -, -, -, hdep, -⟩ := snapshot_eq_ok.1 hs
    exact ⟨_, hdep⟩
  have hbalanced : ∀ a state, p.pool a = .ok state → state.shares.Balanced :=
    fun a state hstate => hbooks.poolShares a state (pool_eq_ok.1 hstate)
  exact {
    deployed := fun hsupply => sum_deployed hbooks hsupply hdeployed
    shares := fun a state v hstate => sum_shareValues (hbalanced a state hstate) hstate
    units := fun a state s v hstate => sum_underlyer (hbalanced a state hstate) hstate
    claims := sum_claims hbooks hdeployed }

/-- Two holders in one pool and meta shares at two, with a TVL that divides evenly by neither. -/
def twoPools : Protocol :=
  initial.run [.mintTokens ⟨"USDC"⟩ ⟨"alice"⟩ 1000, .approve ⟨"USDC"⟩ ⟨"alice"⟩ ⟨"usdcPool"⟩ 1000,
    .deposit ⟨"alice"⟩ ⟨"usdcPool"⟩ 1000, .mintTokens ⟨"USDC"⟩ ⟨"bob"⟩ 333,
    .approve ⟨"USDC"⟩ ⟨"bob"⟩ ⟨"usdcPool"⟩ 333, .deposit ⟨"bob"⟩ ⟨"usdcPool"⟩ 333,
    .mintTokens ⟨"USDT"⟩ ⟨"usdtPool"⟩ 7,
    .sendByHand ⟨"emergencySafe"⟩ [⟨"usdcPool"⟩, ⟨"usdtPool"⟩] [400, 7],
    .unlockOracle ⟨"emergencySafe"⟩, .publishTvl 40777]

theorem solvent_twoPools : 0 < twoPools.metaToken.supply ∧ Solvent twoPools := by
  have hread : ∀ a ∈ twoPools.pools.keys, (twoPools.snapshot a).toOption.isSome := by
    decide +kernel
  exact ⟨by decide +kernel, solvent_of_reachable twoPools (reachable_initial.run _)
    fun a ha => exists_ok_of_isSome (hread a ha)⟩

end Protocol

end MetaPool
