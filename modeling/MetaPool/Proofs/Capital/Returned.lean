import MetaPool.Proofs.Capital.Flow

/-!
# Amounts returned and amounts moved

A rebalance by the oracle returns its amounts as they are before its legs are walked. A leg without meta
shares is then skipped, whatever its amount, so that the amounts returned are those moved exactly if every
skipped leg has an amount of nothing (`returned_are_moved_iff`). An amount can be large and stand for no
meta shares, where the TVL has outgrown the supply (`returned_but_not_moved`).
-/

namespace MetaPool.Protocol

variable {p q r : Protocol} {legs : List Leg} {pools : List Address} {amounts deltas : List Nat}
  {a t : Address} {s : Pool}

/-! ## Deliveries -/

/-- How much of a token one move is. -/
def amountOf (p : Protocol) (t : Address) (move : Address × Nat) : Nat :=
  match p.pool move.1 with
  | .ok s => if s.underlyer = t then move.2 else 0
  | .error _ => 0

/-- Each pool has given its amount of its underlyer, and the LP account has got all of them. -/
structure Delivered (p q : Protocol) (moves : List (Address × Nat)) : Prop where
  pools : ∀ move ∈ moves, ∀ s, p.pool move.1 = .ok s →
    q.tokens.held s.underlyer move.1 + move.2 = p.tokens.held s.underlyer move.1
  lpAccount : ∀ t, q.tokens.held t p.lpAccount.address =
    p.tokens.held t p.lpAccount.address + (moves.map (p.amountOf t)).sum

/-- What a leg moves from its pool: nothing, if it is skipped. -/
def Leg.move (leg : Leg) : Address × Nat := (leg.1.1, movedFor leg.2 leg.1.2)

theorem amountOf_move (p : Protocol) (t : Address) (leg : Leg) :
    p.amountOf t leg.move = p.drawnBy t leg := by
  unfold amountOf drawnBy Leg.move movedFor
  cases p.pool leg.1.1 with
  | ok s => by_cases hskip : leg.2 = 0 <;> simp [hskip]
  | error fault => rfl

theorem delivered_of_sent (hp : PoolsApart p) (hnodup : (legs.map (·.1.1)).Nodup)
    (h : Sent legs p q) : Delivered p q (legs.map Leg.move) where
  pools := by
    refine List.forall_mem_map.2 fun leg hleg s hs => ?_
    have hs : p.pool leg.1.1 = .ok s := hs
    have htokens := h.tokens s.underlyer leg.1.1
    have hmoved : p.drawnBy s.underlyer leg = leg.move.2 := by
      rw [← amountOf_move, amountOf]
      simp only [Leg.move, hs, ↓reduceIte]
    rw [movedAt_of_mem hnodup hleg, hmoved, if_neg (hp _ s hs), Nat.add_zero] at htokens
    exact htokens
  lpAccount t := by
    have hamounts : (legs.map Leg.move).map (p.amountOf t) = legs.map (p.drawnBy t) := by
      rw [List.map_map]
      exact List.map_congr_left fun leg _ => p.amountOf_move t leg
    have htokens := h.tokens t p.lpAccount.address
    rw [if_pos rfl] at htokens
    rw [hamounts, ← drawn, ← htokens]
    cases hs : p.pool p.lpAccount.address with
    | ok s => exact absurd rfl (hp _ s hs)
    | error fault => rw [movedAt_of_error hs, Nat.add_zero]

/-- What was listed is what has moved exactly if nothing that was listed has been skipped. -/
theorem delivered_iff (hmoved : Delivered p q (legs.map Leg.move))
    (hpools : ∀ leg ∈ legs, ∃ s, p.pool leg.1.1 = .ok s) :
    Delivered p q (legs.map (·.1)) ↔ ∀ leg ∈ legs, leg.2 = 0 → leg.1.2 = 0 := by
  constructor
  · intro hlisted leg hleg hskip
    obtain ⟨s, hs⟩ := hpools leg hleg
    have hgiven := hmoved.pools leg.move (List.mem_map_of_mem hleg) s hs
    have hclaimed := hlisted.pools leg.1 (List.mem_map_of_mem hleg) s hs
    simp only [Leg.move, movedFor, hskip, ↓reduceIte] at hgiven
    omega
  · intro hnone
    have hmoves : legs.map Leg.move = legs.map (·.1) := by
      refine List.map_congr_left fun leg hleg => ?_
      unfold Leg.move movedFor
      split
      next hskip => rw [← hnone leg hleg hskip]
      next => rfl
    rwa [← hmoves]

/-! ## Rebalances by the oracle -/

theorem returned_of_sent (hp : PoolsApart p) (hnodup : pools.Nodup)
    (hdeltas : r.metaDeltas pools amounts = .ok deltas) (hpools : p.pools = r.pools)
    (h : Sent ((pools.zip amounts).zip deltas) p q) :
    Delivered p q (((pools.zip amounts).zip deltas).map Leg.move) ∧
      (Delivered p q (pools.zip amounts) ↔
        ∀ leg ∈ (pools.zip amounts).zip deltas, leg.2 = 0 → leg.1.2 = 0) := by
  have hdistinct := pools_of_metaDeltas hdeltas ▸ hnodup
  have hmoved := delivered_of_sent hp hdistinct h
  have hiff := delivered_iff hmoved fun leg hleg => by
    have ha := (List.of_mem_zip (List.of_mem_zip hleg).1).1
    rw [pool_of_eq hpools]
    exact pool_of_metaDeltas hdeltas ha
  rw [entries_of_metaDeltas hdeltas] at hiff
  exact ⟨hmoved, hiff⟩

theorem outcome_of_sendSurplus {ids : List String} {topUps : List Int} {caller : Address}
    {out : Outcome} (hread : p.rebalanceAmounts ids = .ok (pools, topUps))
    (hok : (Operation.sendSurplus caller ids).perform p = .ok out q) :
    out = .amounts (surpluses topUps) := by
  obtain ⟨_, hout, hsend⟩ := Operation.reply_eq_ok.1 hok
  obtain ⟨-, pools', topUps', hread', hamounts, -⟩ := sendSurplus_eq_ok.1 hsend
  obtain rfl : topUps = topUps' := congrArg Prod.snd (ok_unique hread hread')
  rw [hout, hamounts]

/-- In every reachable state, when a rebalance for distinct pools returns amounts, each leg has moved its
amount or, if it has no meta shares, nothing. So the amounts are those moved exactly if no leg without meta
shares has an amount. A recall has delivered from its end back to its start. -/
theorem returned_are_moved_iff (p : Protocol) (h : Reachable p) (ids : List String)
    (pools : List Address) (hpools : p.poolAddresses ids = .ok pools) (hnodup : pools.Nodup)
    (caller : Address) (amounts : List Nat) (q : Protocol) :
    ((Operation.sendSurplus caller ids).perform p = .ok (.amounts amounts) q →
      ∃ deltas, p.metaDeltas pools amounts = .ok deltas ∧
        Delivered p q (((pools.zip amounts).zip deltas).map Leg.move) ∧
        (Delivered p q (pools.zip amounts) ↔
          ∀ leg ∈ (pools.zip amounts).zip deltas, leg.2 = 0 → leg.1.2 = 0)) ∧
    ((Operation.recallShortfall caller ids).perform p = .ok (.amounts amounts) q →
      ∃ deltas, p.metaDeltas pools amounts = .ok deltas ∧
        Delivered q p (((pools.zip amounts).zip deltas).map Leg.move) ∧
        (Delivered q p (pools.zip amounts) ↔
          ∀ leg ∈ (pools.zip amounts).zip deltas, leg.2 = 0 → leg.1.2 = 0)) := by
  constructor
  · intro hok
    obtain ⟨_, hout, hsend⟩ := Operation.reply_eq_ok.1 hok
    obtain rfl := Outcome.amounts.inj hout
    obtain ⟨-, pools', topUps, hread, -, hbatch⟩ := sendSurplus_eq_ok.1 hsend
    obtain rfl : pools = pools' := ok_unique hpools (rebalanceAmounts_eq_ok.1 hread).1
    obtain ⟨deltas, hdeltas, hsent⟩ := sent_of_sendBatch hbatch
    exact ⟨deltas, hdeltas, returned_of_sent h.poolsApart hnodup hdeltas rfl hsent⟩
  · intro hok
    obtain ⟨_, hout, hrecall⟩ := Operation.reply_eq_ok.1 hok
    obtain rfl := Outcome.amounts.inj hout
    obtain ⟨-, pools', topUps, available, hread, -, -, hbatch⟩ := recallShortfall_eq_ok.1 hrecall
    obtain rfl : pools = pools' := ok_unique hpools (rebalanceAmounts_eq_ok.1 hread).1
    obtain ⟨deltas, hdeltas, hsent⟩ := sent_of_recallBatch hbatch
    have hq : PoolsApart q := h.poolsApart.congr hsent.pools.symm hsent.lpAccount.symm
    exact ⟨deltas, hdeltas, returned_of_sent hq hnodup hdeltas hsent.pools.symm hsent⟩

theorem returned_are_moved_iff_twoIdle :
    ∃ q, (Operation.sendSurplus ⟨lpSafeId⟩ ["usdcPool", "daiPool"]).perform twoIdle =
        .ok (.amounts [570, 6650000000000]) q ∧
      Delivered twoIdle q [(⟨"usdcPool"⟩, 570), (⟨"daiPool"⟩, 6650000000000)] := by
  have hruns : (Operation.sendSurplus ⟨lpSafeId⟩ ["usdcPool", "daiPool"]).fails twoIdle = false := by
    decide +kernel
  obtain ⟨out, hok⟩ := perform_of_not_fails hruns
  have hread : twoIdle.rebalanceAmounts ["usdcPool", "daiPool"] =
      .ok ([⟨"usdcPool"⟩, ⟨"daiPool"⟩], [-570, -6650000000000]) :=
    eq_ok_of_toOption (by decide +kernel)
  obtain rfl : out = .amounts [570, 6650000000000] := outcome_of_sendSurplus hread hok
  obtain ⟨deltas, hdeltas, -, hiff⟩ := (returned_are_moved_iff twoIdle (reachable_initial.run _) _ _
    (rebalanceAmounts_eq_ok.1 hread).1 (by decide) ⟨lpSafeId⟩ _ _).1 hok
  have hdeltas' : twoIdle.metaDeltas [⟨"usdcPool"⟩, ⟨"daiPool"⟩] [570, 6650000000000] =
      .ok [57000000, 665000] := eq_ok_of_toOption (by decide +kernel)
  obtain rfl : deltas = [57000000, 665000] := ok_unique hdeltas hdeltas'
  exact ⟨_, hok, hiff.2 (by decide)⟩

/-- The TVL has outgrown the supply: a meta share stands for ten dollars, and the DAI pool has a surplus
of nine and a half. -/
def outgrown : Protocol :=
  initial.run [.mintTokens ⟨"USDC"⟩ ⟨"usdcPool"⟩ 1, .mintTokens ⟨"DAI"⟩ ⟨"daiPool"⟩ (10 * 10 ^ 18),
    .sendByHand ⟨"emergencySafe"⟩ [⟨"usdcPool"⟩] [1], .passBlocks 135, .publishTvl (10 ^ 14)]

/-- A surplus is returned, but nothing has been moved. -/
theorem returned_but_not_moved :
    Reachable outgrown ∧ outgrown.poolAddresses ["daiPool"] = .ok [⟨"daiPool"⟩] ∧
      ∃ q, (Operation.sendSurplus ⟨lpSafeId⟩ ["daiPool"]).perform outgrown =
          .ok (.amounts [9500000000000000000]) q ∧
        q.tokens.held ⟨"DAI"⟩ ⟨"daiPool"⟩ = outgrown.tokens.held ⟨"DAI"⟩ ⟨"daiPool"⟩ ∧
        ¬ Delivered outgrown q [(⟨"daiPool"⟩, 9500000000000000000)] := by
  have hruns : (Operation.sendSurplus ⟨lpSafeId⟩ ["daiPool"]).fails outgrown = false := by
    decide +kernel
  obtain ⟨out, hok⟩ := perform_of_not_fails hruns
  have hread : outgrown.rebalanceAmounts ["daiPool"] = .ok ([⟨"daiPool"⟩], [-9500000000000000000]) :=
    eq_ok_of_toOption (by decide +kernel)
  obtain rfl : out = .amounts [9500000000000000000] := outcome_of_sendSurplus hread hok
  refine ⟨reachable_initial.run _, (rebalanceAmounts_eq_ok.1 hread).1, _, hok, by decide +kernel, ?_⟩
  exact fun hmoved => absurd (hmoved.lpAccount ⟨"DAI"⟩) (by decide +kernel)

end MetaPool.Protocol
