import MetaPool.Proofs.Capital.Listing
import MetaPool.Proofs.Ledger.Consistency
import MetaPool.Proofs.Ledger.Conservation
import MetaPool.Proofs.Value.Delta

/-!
# What a recall reads

A recall reads one leg for each pool, all from the state before its first move (`recallLegs`). The chain
of floors from the deployed value of a pool over its target, the top-up and the cap back to a delta of
meta shares rounds in favour of the pool throughout, so that no leg burns more than its pool has
(`LegReads.delta_le_balance`). And no leg takes back more than the LP account holds, while it is looked at
on its own (`LegReads.amount_le`).
-/

namespace MetaPool

/-- A view that succeeds for the list succeeded at every element. -/
theorem forall₂_of_mapM {β γ : Type} {l : List γ} {f : γ → Except Fault β} {l' : List β}
    (h : l.mapM f = .ok l') : List.Forall₂ (fun c b => f c = .ok b) l l' := by
  induction l generalizing l' with
  | nil =>
    obtain rfl := except_pure_eq_ok.1 h
    exact .nil
  | cons c l ih =>
    rw [List.mapM_cons] at h
    obtain ⟨b, hb, h⟩ := except_bind_eq_ok.1 h
    obtain ⟨bs, hbs, h⟩ := except_bind_eq_ok.1 h
    obtain rfl := except_pure_eq_ok.1 h
    exact .cons hb (ih hbs)

/-- A view that succeeds for a list reads each element on its own. -/
theorem exists_map_of_mapM {β γ : Type} [Inhabited β] {l : List γ} {f : γ → Except Fault β}
    {l' : List β} (h : l.mapM f = .ok l') : ∃ g, l' = l.map g ∧ ∀ c ∈ l, f c = .ok (g c) := by
  have hall : ∀ c ∈ l, f c = .ok ((f c).toOption.getD default) := by
    intro c hc
    obtain ⟨i, hi, rfl⟩ := List.mem_iff_getElem.1 hc
    have hread := forall₂_of_mapM h
    have hb : f l[i] = .ok _ := hread.get hi (hread.length_eq ▸ hi)
    rw [hb]
    rfl
  exact ⟨_, ok_unique h (mapM_eq_ok hall), hall⟩

/-- An entry of a list zipped with values that two readings of it combine to. -/
theorem exists_of_mem_zip {α β γ δ : Type} {R : α → β → Prop} {S : α → γ → Prop} {f : β → γ → δ}
    {l : List α} {bs : List β} {cs : List γ} {move : α × δ} (hR : List.Forall₂ R l bs)
    (hS : List.Forall₂ S l cs) (h : move ∈ l.zip (bs.zipWith f cs)) :
    ∃ b c, R move.1 b ∧ S move.1 c ∧ move.2 = f b c := by
  induction hR generalizing cs with
  | nil => simp at h
  | cons hb _ ih =>
    cases hS with
    | cons hc hS =>
      rcases List.mem_cons.1 h with rfl | h
      · exact ⟨_, _, hb, hc, rfl⟩
      · exact ih hS h

/-- What a recall takes for a top-up: as much of it as the LP account holds, and nothing for a
surplus. -/
def cappedShortfall (t : Int) (available : Nat) : Nat := if t > 0 then min t.natAbs available else 0

theorem cappedShortfalls_eq_ok {topUps : List Int} {available amounts : List Nat} :
    cappedShortfalls topUps available = .ok amounts ↔
      topUps.length = available.length ∧ amounts = topUps.zipWith cappedShortfall available := by
  unfold cappedShortfalls
  rw [refuse_eq_ok, not_not, Except.ok.injEq, eq_comm (a := amounts)]
  rfl

theorem cappedShortfall_le (t : Int) (available : Nat) : cappedShortfall t available ≤ available := by
  unfold cappedShortfall
  split
  · exact Nat.min_le_right _ _
  · exact Nat.zero_le _

namespace Protocol

variable {p q r : Protocol} {ids : List String} {pools : List Address} {caller : Address} {u : Unit}

theorem mem_poolAddresses_iff {a : Address} (h : p.poolAddresses ids = .ok pools) :
    a ∈ pools ↔ ∃ id ∈ ids, p.poolAddress id = .ok a := by
  obtain ⟨pool, rfl, hpool⟩ := exists_map_of_mapM h
  rw [List.mem_map]
  constructor
  · rintro ⟨id, hid, rfl⟩
    exact ⟨id, hid, hpool id hid⟩
  · rintro ⟨id, hid, ha⟩
    exact ⟨id, hid, ok_unique (hpool id hid) ha⟩

/-! ## Deltas of a batch -/

/-- A batch that has read its deltas has one for each of its entries. -/
theorem entries_of_metaDeltas {amounts deltas : List Nat} (h : p.metaDeltas pools amounts = .ok deltas) :
    ((pools.zip amounts).zip deltas).map (·.1) = pools.zip amounts := by
  obtain ⟨-, tvl, -, hdeltas⟩ := metaDeltas_eq_ok.1 h
  exact List.map_fst_zip (forall₂_of_mapM hdeltas).length_eq.le

theorem deltas_of_metaDeltas {amounts deltas : List Nat} (h : p.metaDeltas pools amounts = .ok deltas) :
    ((pools.zip amounts).zip deltas).map (·.2) = deltas := by
  obtain ⟨-, tvl, -, hdeltas⟩ := metaDeltas_eq_ok.1 h
  exact List.map_snd_zip (forall₂_of_mapM hdeltas).length_eq.ge

theorem pools_of_metaDeltas {amounts deltas : List Nat} (h : p.metaDeltas pools amounts = .ok deltas) :
    ((pools.zip amounts).zip deltas).map (·.1.1) = pools := by
  have hentries := congrArg (List.map (·.1)) (entries_of_metaDeltas h)
  rwa [List.map_map, List.map_fst_zip (metaDeltas_eq_ok.1 h).1.le] at hentries

/-- A batch that has read its deltas has found its pools. -/
theorem pool_of_metaDeltas {a : Address} {amounts deltas : List Nat}
    (h : p.metaDeltas pools amounts = .ok deltas) (ha : a ∈ pools) : ∃ s, p.pool a = .ok s := by
  obtain ⟨hlength, tvl, -, hdeltas⟩ := metaDeltas_eq_ok.1 h
  obtain ⟨delta, -, hdelta⟩ := exists_map_of_mapM hdeltas
  obtain ⟨c, hc, rfl⟩ : ∃ c ∈ pools.zip amounts, c.1 = a := by
    rwa [← List.mem_map, List.map_fst_zip hlength.le]
  obtain ⟨s, _, _, hs, -⟩ := metaDeltaAt_eq_ok.1 (hdelta c hc)
  exact ⟨s, hs⟩

/-- The meta shares for nothing are none. -/
theorem metaDeltaAt_zero {a : Address} {tvl delta : Nat}
    (h : p.metaDeltaAt tvl (a, 0) = .ok delta) : delta = 0 := by
  obtain ⟨s, price, decimals, -, -, -, h⟩ := metaDeltaAt_eq_ok.1 h
  obtain ⟨value, hworth, h⟩ := metaDelta_eq_ok.1 h
  obtain ⟨-, rfl, -⟩ := worth_eq_ok.1 hworth
  split at h
  · obtain ⟨rfl, -⟩ := Checked.mul_eq_ok.1 h
    simp
  · obtain ⟨-, rfl, -⟩ := Checked.prorate_eq_ok.1 h
    simp

/-- A leg with meta shares has an amount. -/
theorem amount_of_delta {amounts deltas : List Nat} (h : p.metaDeltas pools amounts = .ok deltas) :
    ∀ leg ∈ (pools.zip amounts).zip deltas, leg.2 ≠ 0 → leg.1.2 ≠ 0 := by
  obtain ⟨-, tvl, -, hdeltas⟩ := metaDeltas_eq_ok.1 h
  rintro ⟨⟨a, amount⟩, delta⟩ hleg hdelta rfl
  exact hdelta (metaDeltaAt_zero (List.forall₂_zip (forall₂_of_mapM hdeltas) hleg))

/-! ## Legs -/

/-- A pool with an amount and the meta shares for it. -/
abbrev Leg := (Address × Nat) × Nat

/-- The legs of a recall: for each pool what it takes back and what it gives up. -/
def recallLegs (p : Protocol) (ids : List String) : Except Fault (List Leg) := do
  let (pools, topUps) ← p.rebalanceAmounts ids
  let available ← p.lpHoldings pools
  let amounts ← cappedShortfalls topUps available
  let deltas ← p.metaDeltas pools amounts
  return (pools.zip amounts).zip deltas

theorem rebalanceAmounts_eq_ok {topUps : List Int} :
    p.rebalanceAmounts ids = .ok (pools, topUps) ↔
      p.poolAddresses ids = .ok pools ∧ pools.mapM p.topUp = .ok topUps := by
  simp only [rebalanceAmounts, except_bind_eq_ok, except_pure_eq_ok, Prod.mk.injEq]
  grind

theorem recallLegs_eq_ok {legs : List Leg} : p.recallLegs ids = .ok legs ↔
    ∃ pools topUps available amounts deltas, p.rebalanceAmounts ids = .ok (pools, topUps) ∧
      p.lpHoldings pools = .ok available ∧ cappedShortfalls topUps available = .ok amounts ∧
      p.metaDeltas pools amounts = .ok deltas ∧ legs = (pools.zip amounts).zip deltas := by
  simp only [recallLegs, except_bind_eq_ok, except_pure_eq_ok, Prod.exists]
  grind

theorem recallLegs_eq_error {fault : Fault} : p.recallLegs ids = .error fault ↔
    p.rebalanceAmounts ids = .error fault ∨ ∃ pools topUps,
      p.rebalanceAmounts ids = .ok (pools, topUps) ∧ (p.lpHoldings pools = .error fault ∨
        ∃ available, p.lpHoldings pools = .ok available ∧
          (cappedShortfalls topUps available = .error fault ∨
            ∃ amounts, cappedShortfalls topUps available = .ok amounts ∧
              p.metaDeltas pools amounts = .error fault)) := by
  simp only [recallLegs, except_bind_eq_error, Prod.exists]
  simp only [pure, Except.pure, reduceCtorEq, and_false, exists_false, or_false]

/-- What a recall reads of the pool of a leg, and how the leg comes from it. -/
structure LegReads (p : Protocol) (leg : Leg) (s : Pool) (t : Int) (v tvl : Nat) : Prop where
  pool : p.pool leg.1.1 = .ok s
  topUp : p.topUp leg.1.1 = .ok t
  holding : p.tokens.balanceOf s.underlyer p.lpAccount.address = .ok v
  amount : leg.1.2 = cappedShortfall t v
  reading : (if p.metaToken.supply = 0 then .ok 0 else p.tvl) = .ok tvl
  delta : p.metaDeltaAt tvl leg.1 = .ok leg.2

theorem LegReads.amount_le {leg : Leg} {s : Pool} {t : Int} {v tvl : Nat}
    (h : LegReads p leg s t v tvl) :
    leg.1.2 ≤ p.tokens.held s.underlyer p.lpAccount.address := by
  obtain ⟨-, hv⟩ := TokenBook.balanceOf_eq_ok.1 h.holding
  rw [h.amount, ← hv]
  exact cappedShortfall_le t v

theorem legReads_of_mem {legs : List Leg} {leg : Leg} (h : p.recallLegs ids = .ok legs)
    (hleg : leg ∈ legs) : ∃ s t v tvl, LegReads p leg s t v tvl := by
  obtain ⟨pools, topUps, available, amounts, deltas, hread, hheld, hcap, hdeltas, rfl⟩ :=
    recallLegs_eq_ok.1 h
  obtain ⟨-, htopUps⟩ := rebalanceAmounts_eq_ok.1 hread
  obtain ⟨-, tvl, htvl, hdeltas⟩ := metaDeltas_eq_ok.1 hdeltas
  obtain ⟨-, rfl⟩ := cappedShortfalls_eq_ok.1 hcap
  have hdelta : p.metaDeltaAt tvl leg.1 = .ok leg.2 :=
    List.forall₂_zip (forall₂_of_mapM hdeltas) hleg
  obtain ⟨t, v, ht, hv, hamount⟩ :=
    exists_of_mem_zip (forall₂_of_mapM htopUps) (forall₂_of_mapM hheld) (List.of_mem_zip hleg).1
  obtain ⟨s, hs, hv⟩ := except_bind_eq_ok.1 hv
  exact ⟨s, t, v, tvl, hs, ht, hv, hamount, htvl, hdelta⟩

/-- The legs of a recall are for its pools, in their order. -/
theorem pools_of_recallLegs {legs : List Leg} (hpools : p.poolAddresses ids = .ok pools)
    (h : p.recallLegs ids = .ok legs) : legs.map (·.1.1) = pools := by
  obtain ⟨pools', topUps, available, amounts, deltas, hread, -, -, hdeltas, rfl⟩ :=
    recallLegs_eq_ok.1 h
  obtain ⟨hpools', -⟩ := rebalanceAmounts_eq_ok.1 hread
  obtain rfl : pools = pools' := ok_unique hpools hpools'
  exact pools_of_metaDeltas hdeltas

/-- No leg burns more than its pool has: what it takes back is worth at most what the pool's meta
shares claim. -/
theorem LegReads.delta_le_balance {leg : Leg} {s : Pool} {t : Int} {v tvl : Nat}
    (h : LegReads p leg s t v tvl) (hs : s.terms.validate = .ok ()) :
    leg.2 ≤ p.metaToken.balanceOf leg.1.1 := by
  obtain ⟨s₁, hs₁, htopUp⟩ := except_bind_eq_ok.1 h.topUp
  obtain rfl : s = s₁ := ok_unique h.pool hs₁
  obtain ⟨snap, hsnap, htopUp⟩ := except_bind_eq_ok.1 htopUp
  obtain ⟨s₂, hs₂, hprice, hdecimals, -, hdeployed, -⟩ := snapshot_eq_ok.1 hsnap
  obtain rfl : s = s₂ := ok_unique hs₁ hs₂
  obtain ⟨s₃, price, decimals, hs₃, hprice', hdecimals', hdelta⟩ := metaDeltaAt_eq_ok.1 h.delta
  obtain rfl : s = s₃ := ok_unique hs₁ hs₃
  obtain rfl : snap.price = price := ok_unique hprice hprice'
  obtain rfl : snap.decimals = decimals := ok_unique hdecimals hdecimals'
  have hclaim : claimedValue tvl (p.metaToken.balanceOf leg.1.1) p.metaToken.supply =
      .ok snap.deployedValue := by
    have hreading := h.reading
    unfold deployedValue at hdeployed
    split at hdeployed
    next hnone => rwa [claimedValue, if_pos hnone]
    next hsome =>
      obtain ⟨tvl', htvl', hdeployed⟩ := except_bind_eq_ok.1 hdeployed
      rw [if_neg hsome] at hreading
      obtain rfl : tvl = tvl' := ok_unique hreading htvl'
      exact hdeployed
  obtain ⟨value, hworth, -⟩ := metaDelta_eq_ok.1 hdelta
  refine metaDelta_le_of_claim hclaim hworth ?_ hdelta
  obtain ⟨-, rfl, -⟩ := worth_eq_ok.1 hworth
  rw [h.amount]
  unfold cappedShortfall
  split
  next hpos =>
    have hwhole : s.terms.reservePercentage ≤ wholePercent := Nat.not_lt.1 (refuse_eq_ok.1 hs).1
    refine Nat.div_le_of_le_mul ?_
    calc min t.natAbs v * snap.price ≤ t.natAbs * snap.price :=
          Nat.mul_le_mul_right _ (Nat.min_le_left _ _)
      _ ≤ snap.deployedValue * 10 ^ snap.decimals := Snapshot.topUp_mul_le htopUp hwhole hpos
      _ = 10 ^ snap.decimals * snap.deployedValue := Nat.mul_comm _ _
  next => simp

end Protocol

end MetaPool
