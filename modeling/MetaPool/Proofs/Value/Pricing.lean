import MetaPool.Proofs.Capital.Deployed
import MetaPool.Proofs.Capital.Dilution
import MetaPool.Proofs.Price.Readings
import MetaPool.Proofs.Value.Exchange

/-!
# Which prices an operation counts with

A deposit or a redemption values its pool, and a batch turns each of its amounts into meta shares, at the
prices and the TVL that the oracle gives before the operation. Nothing is valued without the oracle on the
way to success, even where part of the way does without it (a first deposit, a batch while there are no
meta shares), and what is valued again after the state has changed is valued alike.

    op.perform p = .ok out q → op.CountsWith p q a price tvl → price and tvl are those of p's oracle
                                                                    (prices_checked)
-/

namespace MetaPool

namespace Protocol

variable {p q : Protocol} {a caller : Address} {s : Snapshot} {price tvl : Nat}

/-- The TVL that claims are valued at. None is read while there are no meta shares. -/
def readTvl (p : Protocol) : Except Fault Nat := if p.metaToken.supply = 0 then .ok 0 else p.tvl

theorem deployedValue_eq_read {v : Nat} : p.deployedValue a = .ok v ↔ ∃ tvl, p.readTvl = .ok tvl ∧
    claimedValue tvl (p.metaToken.balanceOf a) p.metaToken.supply = .ok v := by
  unfold deployedValue readTvl claimedValue
  split
  next => simp
  next => exact except_bind_eq_ok

/-- The snapshot of a pool holds the price, and its deployed value is a claim on the TVL. -/
def ValuedAt (p : Protocol) (a : Address) (price tvl : Nat) : Prop :=
  ∃ s, p.snapshot a = .ok s ∧ s.price = price ∧
    claimedValue tvl (p.metaToken.balanceOf a) p.metaToken.supply = .ok s.deployedValue

/-- Whoever takes a snapshot reads the price of the underlyer and the TVL. -/
theorem valuedAt_of_snapshot (h : p.snapshot a = .ok s) : ∃ state price tvl, p.pool a = .ok state ∧
    p.assetPrice state.underlyer = .ok price ∧ p.readTvl = .ok tvl ∧ p.ValuedAt a price tvl := by
  obtain ⟨state, hs, hprice, -, -, hdeployed, -⟩ := snapshot_eq_ok.1 h
  obtain ⟨tvl, htvl, hclaim⟩ := deployedValue_eq_read.1 hdeployed
  exact ⟨state, s.price, tvl, hs, hprice, htvl, s, h, rfl, hclaim⟩

theorem valuedAt_of_readings {state : Pool} (hs : p.pool a = .ok state)
    (hprice : p.assetPrice state.underlyer = .ok price) (htvl : p.readTvl = .ok tvl)
    (h : p.snapshot a = .ok s) : p.ValuedAt a price tvl := by
  obtain ⟨state', price', tvl', hs', hprice', htvl', hvalued⟩ := valuedAt_of_snapshot h
  obtain rfl : state = state' := ok_unique hs hs'
  obtain rfl : price = price' := ok_unique hprice hprice'
  obtain rfl : tvl = tvl' := ok_unique htvl htvl'
  exact hvalued

/-- After an exchange the oracle still reads what it read before. -/
theorem Exchange.readings {pool : Address} (h : Exchange p q caller pool)
    (hunderlyer : (q.pool a).map (·.underlyer) = (p.pool a).map (·.underlyer))
    (hsnap : q.snapshot a = .ok s) : ∃ state price tvl, p.pool a = .ok state ∧
      p.assetPrice state.underlyer = .ok price ∧ p.readTvl = .ok tvl ∧ q.ValuedAt a price tvl := by
  obtain ⟨state', price, tvl, hs', hprice, htvl, hvalued⟩ := valuedAt_of_snapshot hsnap
  have htvl' : q.readTvl = p.readTvl := by
    simp only [readTvl, Protocol.tvl, h.clock, h.feeds, h.oracle, h.metaToken]
  rw [hs'] at hunderlyer
  cases hs : p.pool a with
  | error fault => simp [hs, Except.map] at hunderlyer
  | ok state =>
    simp only [hs, Except.map, Except.ok.injEq] at hunderlyer
    rw [hunderlyer, h.assetPrice_eq] at hprice
    exact ⟨state, price, tvl, rfl, hprice, htvl' ▸ htvl, hvalued⟩

end Protocol

namespace Operation

open Protocol

/-- Whether an operation is a deposit, a redemption or a rebalance of some pools. -/
def namesPools : Operation → Bool
  | deposit _ _ _ | redeem _ _ _ => true
  | sendSurplus _ ids | recallShortfall _ ids => !ids.isEmpty
  | sendByHand _ pools _ | recallByHand _ pools _ => !pools.isEmpty
  | _ => false

/-- The pools that an operation values. -/
def valued (op : Operation) (p : Protocol) : Except Fault (List Address) :=
  match op with
  | deposit _ pool _ | redeem _ pool _ => .ok [pool]
  | op => op.listed p

/-- Each leg of a pool has the meta shares for its amount at the price and the TVL. -/
def MeasuresAt (op : Operation) (p : Protocol) (a : Address) (price tvl : Nat) : Prop :=
  ∃ legs, op.legs p = .ok legs ∧ a ∈ legs.map (·.1.1) ∧ ∀ leg ∈ legs, leg.1.1 = a →
    ∃ decimals, metaDelta leg.1.2 price decimals tvl p.metaToken.supply = .ok leg.2

/-- What an operation uses the price of a pool's underlyer and the TVL for. A deposit values its pool
after it, and before it if there are shares; a redemption before and after; a rebalance by the oracle
values the pool to know how far it is off its target; and every rebalance measures its amounts. -/
def CountsWith (op : Operation) (p q : Protocol) (a : Address) (price tvl : Nat) : Prop :=
  match op with
  | deposit _ _ _ => (0 < p.shareSupply a → p.ValuedAt a price tvl) ∧ q.ValuedAt a price tvl
  | redeem _ _ _ => p.ValuedAt a price tvl ∧ q.ValuedAt a price tvl
  | sendSurplus _ _ | recallShortfall _ _ => p.ValuedAt a price tvl ∧ op.MeasuresAt p a price tvl
  | _ => op.MeasuresAt p a price tvl

end Operation

namespace Protocol

variable {p q : Protocol} {op : Operation} {out : Outcome} {a caller pool : Address}

theorem readings_of_deposit {amount : Nat} (h : (Operation.deposit caller a amount).perform p = .ok out q) :
    ∃ state price tvl, p.pool a = .ok state ∧ p.assetPrice state.underlyer = .ok price ∧
      p.readTvl = .ok tvl ∧ (Operation.deposit caller a amount).CountsWith p q a price tvl := by
  have hunderlyer := underlyer_of_ok h a
  obtain ⟨shares, -, h⟩ := Operation.reply_eq_ok.1 h
  have hex := exchange_of_deposit h
  obtain ⟨_, _, _, value, -, -, -, -, hmint, -, -, hvalue, rfl⟩ := deposit_eq_ok.1 h
  obtain ⟨s, hsnap, -⟩ := poolValue_eq_ok.1 hvalue
  obtain ⟨state, price, tvl, hs, hprice, htvl, hvalued⟩ := hex.readings hunderlyer hsnap
  refine ⟨state, price, tvl, hs, hprice, htvl, fun hshares => ?_, hvalued⟩
  obtain ⟨s', hsnap', -⟩ := sharesFor_of_mintAmount hmint hshares
  exact valuedAt_of_readings hs hprice htvl hsnap'

theorem readings_of_redeem {shares : Nat} (h : (Operation.redeem caller a shares).perform p = .ok out q) :
    ∃ state price tvl, p.pool a = .ok state ∧ p.assetPrice state.underlyer = .ok price ∧
      p.readTvl = .ok tvl ∧ (Operation.redeem caller a shares).CountsWith p q a price tvl := by
  have hunderlyer := underlyer_of_ok h a
  obtain ⟨paid, -, h⟩ := Operation.reply_eq_ok.1 h
  have hex := exchange_of_redeem h
  obtain ⟨_, _, _, _, _, value, -, -, hshares, -, hquote, -, -, -, -, -, hvalue, rfl⟩ :=
    redeem_eq_ok.1 h
  obtain ⟨s, hsnap, -⟩ := poolValue_eq_ok.1 hvalue
  obtain ⟨state, price, tvl, hs, hprice, htvl, hvalued⟩ := hex.readings hunderlyer hsnap
  obtain ⟨_, base, -, hbase, -⟩ := quote_eq_ok.1 hquote
  obtain ⟨s', hsnap', -⟩ := unitsFor_of_underlyerFor hbase hshares
  exact ⟨state, price, tvl, hs, hprice, htvl, valuedAt_of_readings hs hprice htvl hsnap', hvalued⟩

theorem snapshot_of_rebalanceAmounts {ids : List String} {pools : List Address} {topUps : List Int}
    (h : p.rebalanceAmounts ids = .ok (pools, topUps)) (ha : a ∈ pools) : ∃ s, p.snapshot a = .ok s := by
  obtain ⟨topUp, -, hread⟩ := exists_map_of_mapM (rebalanceAmounts_eq_ok.1 h).2
  obtain ⟨_, -, htopUp⟩ := except_bind_eq_ok.1 (hread a ha)
  obtain ⟨s, hsnap, -⟩ := except_bind_eq_ok.1 htopUp
  exact ⟨s, hsnap⟩

theorem readings_of_rebalance (hop : op.isRebalance = true) (h : op.perform p = .ok out q) :
    ∃ pools tvl, op.listed p = .ok pools ∧ p.readTvl = .ok tvl ∧
      ∀ a ∈ pools, ∃ state price, p.pool a = .ok state ∧ p.assetPrice state.underlyer = .ok price ∧
        op.CountsWith p q a price tvl := by
  obtain ⟨legs, hlegs, hlisted, -⟩ := Operation.legs_of_ok hop h
  obtain ⟨hentries, tvl, htvl, hread⟩ := read_of_legs hlegs
  refine ⟨_, tvl, hlisted, htvl, fun a ha => ?_⟩
  obtain ⟨leg, hleg, rfl⟩ := List.mem_map.1 ha
  obtain ⟨state, price, _, hs, hprice, -, -⟩ := metaDeltaAt_eq_ok.1 (hread leg hleg)
  refine ⟨state, price, hs, hprice, ?_⟩
  have hmeasures : op.MeasuresAt p leg.1.1 price tvl := by
    refine ⟨legs, hlegs, ha, fun leg' hleg' hsame => ?_⟩
    obtain ⟨state', price', decimals, hs', hprice', -, hdelta⟩ := metaDeltaAt_eq_ok.1 (hread leg' hleg')
    rw [hsame] at hs'
    obtain rfl : state = state' := ok_unique hs hs'
    obtain rfl : price = price' := ok_unique hprice hprice'
    exact ⟨decimals, hdelta⟩
  have hvalued {ids : List String} {pools : List Address} {topUps : List Int}
      (hamounts : p.rebalanceAmounts ids = .ok (pools, topUps)) (hpool : leg.1.1 ∈ pools) :
      p.ValuedAt leg.1.1 price tvl := by
    obtain ⟨s, hsnap⟩ := snapshot_of_rebalanceAmounts hamounts hpool
    exact valuedAt_of_readings hs hprice htvl hsnap
  cases op with
  | sendSurplus | recallShortfall =>
    obtain ⟨⟨pools, topUps⟩, hamounts, -⟩ := except_bind_eq_ok.1 hentries
    obtain rfl : pools = _ := ok_unique (rebalanceAmounts_eq_ok.1 hamounts).1 hlisted
    exact ⟨hvalued hamounts ha, hmeasures⟩
  | sendByHand | recallByHand => exact hmeasures
  | _ => cases hop

theorem readings_of_ok (hop : op.namesPools = true) (h : op.perform p = .ok out q) :
    ∃ pools tvl, op.valued p = .ok pools ∧ p.readTvl = .ok tvl ∧
      ∀ a ∈ pools, ∃ state price, p.pool a = .ok state ∧ p.assetPrice state.underlyer = .ok price ∧
        op.CountsWith p q a price tvl := by
  cases op with
  | deposit caller pool amount =>
    obtain ⟨state, price, tvl, hs, hprice, htvl, hcounts⟩ := readings_of_deposit h
    refine ⟨[pool], tvl, rfl, htvl, fun a ha => ?_⟩
    obtain rfl := List.mem_singleton.1 ha
    exact ⟨state, price, hs, hprice, hcounts⟩
  | redeem caller pool shares =>
    obtain ⟨state, price, tvl, hs, hprice, htvl, hcounts⟩ := readings_of_redeem h
    refine ⟨[pool], tvl, rfl, htvl, fun a ha => ?_⟩
    obtain rfl := List.mem_singleton.1 ha
    exact ⟨state, price, hs, hprice, hcounts⟩
  | sendSurplus | recallShortfall | sendByHand | recallByHand => exact readings_of_rebalance rfl h
  | _ => cases hop

/-- An operation that names pools names one at least. -/
theorem valued_ne_nil {pools : List Address} (hop : op.namesPools = true)
    (h : op.valued p = .ok pools) : pools ≠ [] := by
  rintro rfl
  cases op with
  | sendSurplus _ ids | recallShortfall _ ids =>
    have hlength := (forall₂_of_mapM h).length_eq
    obtain rfl : ids = [] := List.length_eq_zero_iff.1 hlength
    cases hop
  | sendByHand _ pools | recallByHand _ pools =>
    obtain rfl : pools = [] := Except.ok.inj h
    cases hop
  | deposit | redeem => cases h
  | _ => cases hop

/-- A successful deposit, redemption or rebalance of some pools found the oracle unlocked and counts with
checked answers alone: for each of the pools with a positive price, behind which stands an override in its
window or the fresh latest answer of the underlyer's present source, and, while there are meta shares, with
a TVL of the same kind. -/
theorem prices_checked (p : Protocol) (h : Reachable p) (op : Operation) (hop : op.namesPools = true)
    (out : Outcome) (q : Protocol) (hok : op.perform p = .ok out q) :
    p.isOracleLocked = false ∧ ∃ pools tvl, op.valued p = .ok pools ∧
      (0 < p.metaToken.supply → p.tvl = .ok tvl ∧ TvlStands p tvl) ∧
      ∀ a ∈ pools, ∃ state price, p.pool a = .ok state ∧ p.assetPrice state.underlyer = .ok price ∧
        op.CountsWith p q a price tvl ∧ 0 < price ∧ PriceStands p state.underlyer price := by
  obtain ⟨pools, tvl, hvalued, htvl, hpools⟩ := readings_of_ok hop hok
  have hstands : ∀ a ∈ pools, ∃ state price, p.pool a = .ok state ∧
      p.assetPrice state.underlyer = .ok price ∧ op.CountsWith p q a price tvl ∧ 0 < price ∧
        PriceStands p state.underlyer price := by
    intro a ha
    obtain ⟨state, price, hs, hprice, hcounts⟩ := hpools a ha
    obtain ⟨-, hpos, hprice'⟩ := price_stands h hprice
    exact ⟨state, price, hs, hprice, hcounts, hpos, hprice'⟩
  refine ⟨?_, pools, tvl, hvalued, fun hsupply => ?_, hstands⟩
  · obtain ⟨a, ha⟩ := List.exists_mem_of_ne_nil _ (valued_ne_nil hop hvalued)
    obtain ⟨_, _, -, hprice, -⟩ := hpools a ha
    exact (price_stands h hprice).1
  · rw [readTvl, if_neg (Nat.pos_iff_ne_zero.1 hsupply)] at htvl
    exact ⟨htvl, tvl_stands h hsupply htvl⟩

/-- Part of a deposit is deployed and the lock is over. The price of the underlyer has been overridden for
ten blocks, of which this is the last, and the TVL comes from its feed. -/
def overridden : Protocol :=
  initial.run [.mintTokens ⟨"USDC"⟩ ⟨"alice"⟩ 1000, .approve ⟨"USDC"⟩ ⟨"alice"⟩ ⟨"usdcPool"⟩ 1000,
    .deposit ⟨"alice"⟩ ⟨"usdcPool"⟩ 600, .sendByHand ⟨"emergencySafe"⟩ [⟨"usdcPool"⟩] [400],
    .passBlocks 135, .publishTvl 40000, .setAssetOverride ⟨"emergencySafe"⟩ ⟨"USDC"⟩ 200000000 10,
    .passBlocks 9]

def redeemPart : Operation := .redeem ⟨"alice"⟩ ⟨"usdcPool"⟩ 1000000000000000

theorem prices_checked_overridden :
    0 < overridden.metaToken.supply ∧ ∃ out q, redeemPart.perform overridden = .ok out q ∧
      overridden.isOracleLocked = false ∧ TvlStands overridden 40000 ∧
      PriceStands overridden ⟨"USDC"⟩ 200000000 ∧
      redeemPart.CountsWith overridden q ⟨"usdcPool"⟩ 200000000 40000 := by
  obtain ⟨hruns, hsupply, htvl', hprice', hunderlyer⟩ : redeemPart.fails overridden = false ∧
      0 < overridden.metaToken.supply ∧ overridden.tvl.toOption = some 40000 ∧
      (overridden.assetPrice ⟨"USDC"⟩).toOption = some 200000000 ∧
      ((overridden.pool ⟨"usdcPool"⟩).map (·.underlyer)).toOption = some ⟨"USDC"⟩ := by decide +kernel
  obtain ⟨out, hok⟩ := perform_of_not_fails hruns
  obtain ⟨hlock, pools, tvl, hvalued, hclaimed, hpools⟩ :=
    prices_checked overridden (reachable_initial.run _) redeemPart rfl out _ hok
  obtain rfl : [(⟨"usdcPool"⟩ : Address)] = pools := Except.ok.inj hvalued
  obtain ⟨htvl, htvlStands⟩ := hclaimed hsupply
  obtain rfl : tvl = 40000 := ok_unique htvl (eq_ok_of_toOption htvl')
  obtain ⟨state, price, hs, hprice, hcounts, -, hstands⟩ := hpools _ List.mem_cons_self
  rw [hs] at hunderlyer
  obtain hunderlyer : state.underlyer = ⟨"USDC"⟩ := Option.some.inj hunderlyer
  rw [hunderlyer] at hprice hstands
  obtain rfl : price = 200000000 := ok_unique hprice (eq_ok_of_toOption hprice')
  exact ⟨hsupply, out, _, hok, hlock, htvlStands, hstands, hcounts⟩

end Protocol

end MetaPool
