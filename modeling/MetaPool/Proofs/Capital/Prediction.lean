import MetaPool.Proofs.Capital.Flow

/-!
# What the views predict

The views of a state say what its next operation will do. A deposit mints the amount that was shown. A
batch gives or takes at each pool the sum of the deltas that were shown where the batch lists it, also if
it lists it more than once. And what a rebalance by the oracle moves comes from the top-ups that were
shown, as far as the LP account holds it in a recall.

    Batch mintAndSend pools amounts p q → Minted pools deltas p q      (minted_of_sendBatch)
    Batch burnAndReturn pools amounts p q → Minted pools deltas q p    (minted_of_recallBatch)

A view is asked before the batch lists its underlyers, and the deltas are computed after that; the
listing has no bearing on them (`metaDeltas_of_listed`).
-/

namespace MetaPool.Protocol

variable {p q : Protocol} {ids : List String} {pools : List Address} {amounts deltas : List Nat}

/-! ## Deltas of an account -/

/-- The deltas of an account, at all places where it is listed. -/
def deltaOf (a : Address) (pools : List Address) (deltas : List Nat) : Nat :=
  ((pools.zip deltas).map fun entry => if entry.1 = a then entry.2 else 0).sum

/-- Each account has more meta shares by its deltas. -/
def Minted (pools : List Address) (deltas : List Nat) (p q : Protocol) : Prop :=
  ∀ a, q.metaToken.balanceOf a = p.metaToken.balanceOf a + deltaOf a pools deltas

/-- The legs of a batch carry its deltas to its pools. -/
theorem burned_zip (a : Address) (hlength : pools.length = amounts.length) :
    burned a ((pools.zip amounts).zip deltas) = deltaOf a pools deltas := by
  have hentries : pools.zip deltas =
      ((pools.zip amounts).zip deltas).map (Prod.map Prod.fst id) := by
    calc pools.zip deltas = ((pools.zip amounts).map Prod.fst).zip deltas := by
          rw [List.map_fst_zip hlength.le]
      _ = ((pools.zip amounts).zip deltas).map (Prod.map Prod.fst id) := List.zip_map_left
  rw [deltaOf, hentries, List.map_map]
  simp only [burned, eq_comm (a := a)]
  rfl

theorem Sent.minted (h : Sent ((pools.zip amounts).zip deltas) p q)
    (hlength : pools.length = amounts.length) : Minted pools deltas p q := by
  intro a
  rw [h.metaShares, burned_zip a hlength]

/-! ## Batches -/

theorem minted_of_sendBatch (h : Batch mintAndSend pools amounts p q) :
    ∃ deltas, p.metaDeltas pools amounts = .ok deltas ∧ Minted pools deltas p q := by
  obtain ⟨deltas, hdeltas, hsent⟩ := sent_of_sendBatch h
  exact ⟨deltas, hdeltas, hsent.minted (metaDeltas_eq_ok.1 hdeltas).1⟩

theorem minted_of_recallBatch (h : Batch burnAndReturn pools amounts p q) :
    ∃ deltas, p.metaDeltas pools amounts = .ok deltas ∧ Minted pools deltas q p := by
  obtain ⟨deltas, hdeltas, hsent⟩ := sent_of_recallBatch h
  exact ⟨deltas, hdeltas, hsent.minted (metaDeltas_eq_ok.1 hdeltas).1⟩

/-- What the LP account holds for identifiers is what it holds for the pools behind them. -/
theorem lpBalances_of_rebalanceAmounts {topUps : List Int}
    (h : p.rebalanceAmounts ids = .ok (pools, topUps)) : p.lpBalances ids = p.lpHoldings pools := by
  obtain ⟨hpools, -⟩ := rebalanceAmounts_eq_ok.1 h
  unfold lpBalances
  rw [hpools]
  rfl

/-- What succeeds does what the views of the state before it have said, a recall read backwards. -/
theorem views_foretell (p q : Protocol) (caller : Address) :
    (∀ pool amount shares, deposit caller pool amount p = .ok shares q →
      p.mintAmount pool amount = .ok shares) ∧
    (∀ pools amounts, sendByHand caller pools amounts p = .ok () q →
      ∃ deltas, p.metaDeltas pools amounts = .ok deltas ∧ Minted pools deltas p q) ∧
    (∀ pools amounts, recallByHand caller pools amounts p = .ok () q →
      ∃ deltas, p.metaDeltas pools amounts = .ok deltas ∧ Minted pools deltas q p) ∧
    (∀ ids amounts, sendSurplus caller ids p = .ok amounts q →
      ∃ pools topUps deltas, p.rebalanceAmounts ids = .ok (pools, topUps) ∧
        amounts = surpluses topUps ∧
        p.metaDeltas pools amounts = .ok deltas ∧ Minted pools deltas p q) ∧
    (∀ ids amounts, recallShortfall caller ids p = .ok amounts q →
      ∃ pools topUps available deltas, p.rebalanceAmounts ids = .ok (pools, topUps) ∧
        p.lpBalances ids = .ok available ∧ cappedShortfalls topUps available = .ok amounts ∧
        p.metaDeltas pools amounts = .ok deltas ∧ Minted pools deltas q p) := by
  refine ⟨?_, ?_, ?_, ?_, ?_⟩
  · intro pool amount shares h
    obtain ⟨state, state', tokens, value, -, -, -, -, hmint, -⟩ := deposit_eq_ok.1 h
    exact hmint
  · intro pools amounts h
    obtain ⟨-, -, hbatch⟩ := sendByHand_eq_ok.1 h
    exact minted_of_sendBatch hbatch
  · intro pools amounts h
    obtain ⟨-, -, hbatch⟩ := recallByHand_eq_ok.1 h
    exact minted_of_recallBatch hbatch
  · intro ids amounts h
    obtain ⟨-, pools, topUps, hread, hamounts, hbatch⟩ := sendSurplus_eq_ok.1 h
    obtain ⟨deltas, hdeltas, hminted⟩ := minted_of_sendBatch hbatch
    exact ⟨pools, topUps, deltas, hread, hamounts, hdeltas, hminted⟩
  · intro ids amounts h
    obtain ⟨-, pools, topUps, available, hread, hheld, hcapped, hbatch⟩ := recallShortfall_eq_ok.1 h
    obtain ⟨deltas, hdeltas, hminted⟩ := minted_of_recallBatch hbatch
    rw [← lpBalances_of_rebalanceAmounts hread] at hheld
    exact ⟨pools, topUps, available, deltas, hread, hheld, hcapped, hdeltas, hminted⟩

/-- A pool has lent out a deposit, another has idle capital, and the TVL says so. -/
def lentOut : Protocol :=
  initial.run [.mintTokens ⟨"USDC"⟩ ⟨"alice"⟩ 1000, .approve ⟨"USDC"⟩ ⟨"alice"⟩ ⟨"usdcPool"⟩ 1000,
    .deposit ⟨"alice"⟩ ⟨"usdcPool"⟩ 300, .mintTokens ⟨"DAI"⟩ ⟨"daiPool"⟩ 7000000000000,
    .sendByHand ⟨"emergencySafe"⟩ [⟨"usdcPool"⟩] [300], .passBlocks 135, .publishTvl 30000]

/-- By hand a pool may be listed twice, and the deltas of both places are minted or burned. -/
theorem views_foretell_lentOut :
    Reachable lentOut ∧
    (∃ shares, lentOut.mintAmount ⟨"usdcPool"⟩ 100 = .ok shares ∧
      deposit ⟨"alice"⟩ ⟨"usdcPool"⟩ 100 lentOut =
        .ok shares (lentOut.after (.deposit ⟨"alice"⟩ ⟨"usdcPool"⟩ 100))) ∧
    Minted [⟨"daiPool"⟩, ⟨"daiPool"⟩] [100000, 200000] lentOut (lentOut.after
      (.sendByHand ⟨"emergencySafe"⟩ [⟨"daiPool"⟩, ⟨"daiPool"⟩] [1000000000000, 2000000000000])) ∧
    Minted [⟨"usdcPool"⟩, ⟨"usdcPool"⟩] [1000000, 2000000]
      (lentOut.after (.recallByHand ⟨"emergencySafe"⟩ [⟨"usdcPool"⟩, ⟨"usdcPool"⟩] [10, 20])) lentOut ∧
    Minted [⟨"daiPool"⟩, ⟨"usdcPool"⟩] [665000, 0] lentOut
      (lentOut.after (.sendSurplus ⟨"lpSafe"⟩ ["daiPool", "usdcPool"])) ∧
    Minted [⟨"daiPool"⟩, ⟨"usdcPool"⟩] [0, 1500000]
      (lentOut.after (.recallShortfall ⟨"lpSafe"⟩ ["daiPool", "usdcPool"])) lentOut := by
  have htopUps : lentOut.rebalanceAmounts ["daiPool", "usdcPool"] =
      .ok ([⟨"daiPool"⟩, ⟨"usdcPool"⟩], [-6650000000000, 15]) := eq_ok_of_toOption (by decide +kernel)
  refine ⟨reachable_initial.run _, ?_, ?_, ?_, ?_, ?_⟩
  · have hok : (Operation.deposit ⟨"alice"⟩ ⟨"usdcPool"⟩ 100).fails lentOut = false := by decide +kernel
    obtain ⟨_, h⟩ := perform_of_not_fails hok
    obtain ⟨shares, -, h⟩ := Operation.reply_eq_ok.1 h
    exact ⟨shares, (views_foretell lentOut _ _).1 _ _ _ h, h⟩
  · have hok : (Operation.sendByHand ⟨"emergencySafe"⟩ [⟨"daiPool"⟩, ⟨"daiPool"⟩]
        [1000000000000, 2000000000000]).fails lentOut = false := by decide +kernel
    obtain ⟨_, h⟩ := perform_of_not_fails hok
    obtain ⟨deltas, hdeltas, hminted⟩ :=
      (views_foretell lentOut _ _).2.1 _ _ (Operation.complete_eq_ok.1 h).2
    have hread : lentOut.metaDeltas [⟨"daiPool"⟩, ⟨"daiPool"⟩] [1000000000000, 2000000000000] =
        .ok [100000, 200000] := eq_ok_of_toOption (by decide +kernel)
    rwa [ok_unique hdeltas hread] at hminted
  · have hok : (Operation.recallByHand ⟨"emergencySafe"⟩ [⟨"usdcPool"⟩, ⟨"usdcPool"⟩]
        [10, 20]).fails lentOut = false := by decide +kernel
    obtain ⟨_, h⟩ := perform_of_not_fails hok
    obtain ⟨deltas, hdeltas, hminted⟩ :=
      (views_foretell lentOut _ _).2.2.1 _ _ (Operation.complete_eq_ok.1 h).2
    have hread : lentOut.metaDeltas [⟨"usdcPool"⟩, ⟨"usdcPool"⟩] [10, 20] =
        .ok [1000000, 2000000] := eq_ok_of_toOption (by decide +kernel)
    rwa [ok_unique hdeltas hread] at hminted
  · have hok : (Operation.sendSurplus ⟨"lpSafe"⟩ ["daiPool", "usdcPool"]).fails lentOut = false := by
      decide +kernel
    obtain ⟨_, h⟩ := perform_of_not_fails hok
    obtain ⟨amounts, -, h⟩ := Operation.reply_eq_ok.1 h
    obtain ⟨pools, topUps, deltas, hpools, rfl, hdeltas, hminted⟩ :=
      (views_foretell lentOut _ _).2.2.2.1 _ _ h
    obtain ⟨rfl, rfl⟩ := Prod.mk.inj (ok_unique hpools htopUps)
    have hread : lentOut.metaDeltas [⟨"daiPool"⟩, ⟨"usdcPool"⟩] (surpluses [-6650000000000, 15]) =
        .ok [665000, 0] := eq_ok_of_toOption (by decide +kernel)
    rwa [ok_unique hdeltas hread] at hminted
  · have hok : (Operation.recallShortfall ⟨"lpSafe"⟩ ["daiPool", "usdcPool"]).fails lentOut = false := by
      decide +kernel
    obtain ⟨_, h⟩ := perform_of_not_fails hok
    obtain ⟨amounts, -, h⟩ := Operation.reply_eq_ok.1 h
    obtain ⟨pools, topUps, available, deltas, hpools, hheld, hcapped, hdeltas, hminted⟩ :=
      (views_foretell lentOut _ _).2.2.2.2 _ _ h
    obtain ⟨rfl, rfl⟩ := Prod.mk.inj (ok_unique hpools htopUps)
    have hheld' : lentOut.lpBalances ["daiPool", "usdcPool"] = .ok [0, 300] :=
      eq_ok_of_toOption (by decide +kernel)
    obtain rfl := ok_unique hheld hheld'
    obtain ⟨-, rfl⟩ := cappedShortfalls_eq_ok.1 hcapped
    have hread : lentOut.metaDeltas [⟨"daiPool"⟩, ⟨"usdcPool"⟩]
        (List.zipWith cappedShortfall [-6650000000000, 15] [0, 300]) = .ok [0, 1500000] :=
      eq_ok_of_toOption (by decide +kernel)
    rwa [ok_unique hdeltas hread] at hminted

end MetaPool.Protocol
