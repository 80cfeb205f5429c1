import MetaPool.Proofs.Capital.Footprint
import MetaPool.Proofs.Keeper.History
import MetaPool.Proofs.Price.Changes

/-!
# Whether a reported move is a move

A cycle that reports a move has made one batch, and the oracle is locked because of it. A leg of the batch
without meta shares is skipped. So capital has moved exactly if some leg has meta shares, which the report
does not look at: it tells of a move whenever some pool needs one (`reported_moves_iff`). A pool that needs
capital back which the LP account does not hold gets nothing, and the cycle is reported and counted as one
that moved capital all the same (`reported_but_not_moved`). The other way round every move is reported.
-/

namespace MetaPool

namespace Protocol

variable {p q : Protocol} {caller a : Address} {ids : List String} {amounts : List Nat} {s : Pool}
  {legs : List Leg}

/-! ## Batches by the oracle -/

theorem sent_of_sendSurplus (h : sendSurplus caller ids p = .ok amounts q) : ∃ pools deltas,
    p.poolAddresses ids = .ok pools ∧ p.metaDeltas pools amounts = .ok deltas ∧
      Sent ((pools.zip amounts).zip deltas) p q := by
  obtain ⟨-, pools, topUps, hread, rfl, hbatch⟩ := sendSurplus_eq_ok.1 h
  obtain ⟨deltas, hdeltas, hsent⟩ := sent_of_sendBatch hbatch
  exact ⟨pools, deltas, (rebalanceAmounts_eq_ok.1 hread).1, hdeltas, hsent⟩

theorem sent_of_recallShortfall (h : recallShortfall caller ids p = .ok amounts q) : ∃ pools deltas,
    p.poolAddresses ids = .ok pools ∧ p.metaDeltas pools amounts = .ok deltas ∧
      Sent ((pools.zip amounts).zip deltas) q p := by
  obtain ⟨-, pools, topUps, available, hread, -, -, hbatch⟩ := recallShortfall_eq_ok.1 h
  obtain ⟨deltas, hdeltas, hsent⟩ := sent_of_recallBatch hbatch
  exact ⟨pools, deltas, (rebalanceAmounts_eq_ok.1 hread).1, hdeltas, hsent⟩

/-- A recall is read backwards, from the state that it leaves: it has the same pools. -/
theorem Sent.readBack (h : Sent legs q p) (hp : PoolsApart p) (hs : p.pool a = .ok s) :
    PoolsApart q ∧ q.pool a = .ok s :=
  ⟨hp.congr h.pools.symm h.lpAccount.symm, by rw [pool_of_eq h.pools.symm, hs]⟩

theorem oracle_of_sendSurplus (h : sendSurplus caller ids p = .ok amounts q) :
    q.oracle = { p.oracle with lockEnd := addHeights p.clock.height p.oracle.lockPeriod } :=
  have hop : (Operation.sendSurplus caller ids).perform p = .ok (.amounts amounts) q :=
    Operation.reply_eq_ok.2 ⟨amounts, rfl, h⟩
  (Operation.oracle_of_rebalance rfl hop).2

theorem oracle_of_recallShortfall (h : recallShortfall caller ids p = .ok amounts q) :
    q.oracle = { p.oracle with lockEnd := addHeights p.clock.height p.oracle.lockPeriod } :=
  have hop : (Operation.recallShortfall caller ids).perform p = .ok (.amounts amounts) q :=
    Operation.reply_eq_ok.2 ⟨amounts, rfl, h⟩
  (Operation.oracle_of_rebalance rfl hop).2

/-- A pool has other capital than before exactly if it has other meta shares. -/
theorem GivesForShares.held_ne_iff {t : Address} (h : GivesForShares p q t a) :
    q.tokens.held t a ≠ p.tokens.held t a ↔ q.metaToken.balanceOf a ≠ p.metaToken.balanceOf a := by
  obtain ⟨hgives, hgets, hiff⟩ := h
  omega

end Protocol

namespace Keeper

variable {k k' : Keeper} {config : Config} {p q : Protocol} {ids : List String} {pools : List Address}
  {amounts deltas : List Nat} {report : Report} {verdict : Verdict}

/-! ## One cycle -/

/-- Some configured pool holds another amount of its underlyer. -/
def MovesCapital (config : Config) (p q : Protocol) : Prop := ∃ id ∈ config.poolIds, ∃ a s,
  p.poolAddress id = .ok a ∧ p.pool a = .ok s ∧
    q.tokens.held s.underlyer a ≠ p.tokens.held s.underlyer a

/-- If the pools of a batch hold other amounts exactly where their legs have meta shares, the batch has moved
capital exactly if some leg has. -/
theorem movesCapital_iff (hids : ∀ id ∈ ids, id ∈ config.poolIds)
    (hpools : p.poolAddresses ids = .ok pools) (hdeltas : p.metaDeltas pools amounts = .ok deltas)
    (hmoved : ∀ a s, p.pool a = .ok s → (q.tokens.held s.underlyer a ≠ p.tokens.held s.underlyer a ↔
      Protocol.burned a ((pools.zip amounts).zip deltas) ≠ 0)) :
    MovesCapital config p q ↔ ∃ delta ∈ deltas, delta ≠ 0 := by
  have hburned (a : Address) : Protocol.burned a ((pools.zip amounts).zip deltas) ≠ 0 ↔
      ∃ leg ∈ (pools.zip amounts).zip deltas, a = leg.1.1 ∧ leg.2 ≠ 0 := by
    simp [Protocol.burned, List.sum_eq_zero_iff]
  constructor
  · rintro ⟨id, -, a, s, -, hs, hne⟩
    obtain ⟨leg, hleg, -, hdelta⟩ := (hburned a).1 ((hmoved a s hs).1 hne)
    exact ⟨leg.2, (List.of_mem_zip hleg).2, hdelta⟩
  · rintro ⟨delta, hmem, hdelta⟩
    rw [← Protocol.deltas_of_metaDeltas hdeltas, List.mem_map] at hmem
    obtain ⟨leg, hleg, rfl⟩ := hmem
    have ha : leg.1.1 ∈ pools := (List.of_mem_zip (List.of_mem_zip hleg).1).1
    obtain ⟨id, hid, haddress⟩ := (Protocol.mem_poolAddresses_iff hpools).1 ha
    obtain ⟨s, hs⟩ := Protocol.pool_of_metaDeltas hdeltas ha
    exact ⟨id, hids id hid, leg.1.1, s, haddress, hs,
      (hmoved _ s hs).2 ((hburned _).2 ⟨leg, hleg, rfl, hdelta⟩)⟩

/-- What a live keeper has settled with a batch: it has moved capital exactly if some leg had meta shares,
and has locked the oracle in any case. -/
theorem moved_of_settled (hk : Founded k) (h : Settled k verdict k')
    (hverdict : verdict = .funded ids amounts ∨ verdict = .withdrawn ids amounts) :
    ∃ pools deltas, k.protocol.poolAddresses ids = .ok pools ∧
      k.protocol.metaDeltas pools amounts = .ok deltas ∧
      (MovesCapital k.config k.protocol k'.protocol ↔ ∃ delta ∈ deltas, delta ≠ 0) ∧
      k'.protocol.oracle.lockEnd =
        addHeights k.protocol.clock.height k.protocol.oracle.lockPeriod := by
  have hapart : Protocol.PoolsApart k.protocol := fun a s hs => (hk.wired.deployed a s hs).apart
  cases h with
  | locked | balanced => simp at hverdict
  | @withdrawn all short _ p hneeds hshort hsome hmove =>
    obtain ⟨rfl, rfl⟩ : short.map (·.id) = ids ∧ _ = amounts := by simpa using hverdict
    obtain ⟨pools, deltas, hpools, hdeltas, hsent⟩ := Protocol.sent_of_recallShortfall hmove
    refine ⟨pools, deltas, hpools, hdeltas, movesCapital_iff (fun id hid => ?_) hpools hdeltas
      fun a s hs => ?_, congrArg Oracle.lockEnd (Protocol.oracle_of_recallShortfall hmove)⟩
    · obtain ⟨n, hn, rfl⟩ := List.mem_map.1 hid
      exact ((mem_needs_iff hneeds).1 (List.mem_of_mem_filter (hshort ▸ hn))).1
    · obtain ⟨hapart', hs'⟩ := hsent.readBack hapart hs
      have hgives := Protocol.givesForShares_of_sent hapart' hs' (Protocol.amount_of_delta hdeltas) hsent
      rw [ne_comm, hgives.held_ne_iff, hsent.metaShares]
      omega
  | @funded all _ p hneeds hspare hsome hmove =>
    obtain ⟨rfl, rfl⟩ : all.map (·.id) = ids ∧ _ = amounts := by simpa using hverdict
    obtain ⟨pools, deltas, hpools, hdeltas, hsent⟩ := Protocol.sent_of_sendSurplus hmove
    refine ⟨pools, deltas, hpools, hdeltas, movesCapital_iff (fun id hid => ?_) hpools hdeltas
      fun a s hs => ?_, congrArg Oracle.lockEnd (Protocol.oracle_of_sendSurplus hmove)⟩
    · obtain ⟨n, hn, rfl⟩ := List.mem_map.1 hid
      exact ((mem_needs_iff hneeds).1 hn).1
    · have hgives := Protocol.givesForShares_of_sent hapart hs (Protocol.amount_of_delta hdeltas) hsent
      rw [hgives.held_ne_iff, hsent.metaShares]
      omega

/-- A cycle that does not settle with a batch moves nothing. -/
theorem not_movesCapital_of_settled (h : Settled k verdict k') (hverdict : verdict.movesCapital = false) :
    ¬ MovesCapital k.config k.protocol k'.protocol := by
  rintro ⟨_, _, _, _, -, -, hne⟩
  cases h with
  | locked | balanced => exact hne rfl
  | withdrawn | funded => cases hverdict

/-! ## Runs -/

/-- Whether the next cycle succeeds and reports a move. -/
def reportsMove (k : Keeper) : Bool :=
  match k.cycle with
  | .ok report _ => report.verdict.movesCapital
  | .error _ _ => false

/-- The keeper after some cycles. -/
def afterCycles : Nat → Keeper → Keeper
  | 0, k => k
  | n + 1, k => afterCycles n (left k.cycle)

/-- A run counts the cycles that report a move. -/
theorem runCycles_eq (n moved : Nat) (k : Keeper) : runCycles n moved k =
    (moved + (List.range n).countP fun i => (afterCycles i k).reportsMove, afterCycles n k) := by
  induction n generalizing moved k with
  | zero => rfl
  | succ n ih =>
    have hfirst : runCycles (n + 1) moved k =
        runCycles n (moved + if k.reportsMove then 1 else 0) (left k.cycle) := by
      rw [runCycles, reportsMove]
      cases k.cycle with
      | ok report k' => cases hmoves : report.verdict.movesCapital <;> simp [left, hmoves]
      | error fault k' => rfl
    rw [hfirst, ih, List.range_succ_eq_map, List.countP_cons, List.countP_map, Nat.add_assoc,
      Nat.add_comm (List.countP _ _)]
    rfl

/-- In every reachable state of a live keeper, a cycle that reports a move for some pools and amounts has
moved capital exactly if some of the amounts stand for meta shares, and has locked the oracle in any case.
All moves of capital are reported, and a run counts the cycles that report one. -/
theorem reported_moves_iff (k : Keeper) (hk : Reachable k) (hlive : k.dryRun = false) :
    (∀ report k', k.cycle = .ok report k' → ∀ ids amounts,
      report.verdict = .funded ids amounts ∨ report.verdict = .withdrawn ids amounts →
        ∃ observed pools deltas, observe k = .ok report.tvl observed ∧
          observed.protocol.poolAddresses ids = .ok pools ∧
          observed.protocol.metaDeltas pools amounts = .ok deltas ∧
          (MovesCapital k.config k.protocol k'.protocol ↔ ∃ delta ∈ deltas, delta ≠ 0) ∧
          k'.protocol.oracle.lockEnd =
            addHeights observed.protocol.clock.height observed.protocol.oracle.lockPeriod) ∧
      (MovesCapital k.config k.protocol (left k.cycle).protocol → k.reportsMove = true) ∧
      ∀ limit, (k.run limit).1 =
        (List.range (limit - k.cycles)).countP fun i => (afterCycles i k).reportsMove := by
  refine ⟨fun report k' h ids amounts hverdict => ?_, fun hmoves => ?_, fun limit => ?_⟩
  · obtain ⟨clock, feeds, settled, hobserve, hsettled, rfl⟩ := settled_of_cycle hlive h
    have hobserved := hk.founded.evolve (evolved_observe.of_ok hobserve)
    obtain ⟨pools, deltas, hpools, hdeltas, hmoves, hlock⟩ := moved_of_settled hobserved hsettled hverdict
    exact ⟨_, pools, deltas, hobserve, hpools, hdeltas, hmoves, hlock⟩
  · unfold reportsMove
    cases h : k.cycle with
    | error fault k' =>
      rw [h] at hmoves
      obtain ⟨clock, feeds, rfl⟩ := watched_of_error h
      obtain ⟨_, _, _, _, -, -, hne⟩ := hmoves
      exact absurd rfl hne
    | ok report k' =>
      rw [h] at hmoves
      obtain ⟨clock, feeds, settled, -, hsettled, rfl⟩ := settled_of_cycle hlive h
      by_contra hnone
      exact not_movesCapital_of_settled hsettled (Bool.not_eq_true _ ▸ hnone) hmoves
  · rw [run, runCycles_eq, Nat.zero_add]

/-- The surpluses of the sample stand for meta shares, and so its first cycle moves capital. -/
theorem reported_moves_iff_sample :
    MovesCapital sampleKeeper.config sampleKeeper.protocol (left sampleKeeper.cycle).protocol ∧
      sampleKeeper.reportsMove = true := by
  have hverdict : (answer sampleKeeper.cycle).map (·.verdict) = .ok (.funded
      ["daiPool", "usdcPool", "usdtPool"]
      [237500000000000000000000, 95000000000, 47500000000]) := by decide +kernel
  obtain ⟨report, hcycle, hverdict⟩ := eq_ok_of_answer hverdict
  obtain ⟨hcycles, hreported, -⟩ :=
    reported_moves_iff sampleKeeper reachable_sampleKeeper (by decide +kernel)
  obtain ⟨observed, pools, deltas, hobserve, hpools, hdeltas, hiff, -⟩ :=
    hcycles report _ hcycle _ _ (.inl hverdict)
  obtain rfl : left (observe sampleKeeper) = observed := congrArg left hobserve
  have hpools' : (left (observe sampleKeeper)).protocol.poolAddresses ["daiPool", "usdcPool", "usdtPool"] =
      .ok [⟨"daiPool"⟩, ⟨"usdcPool"⟩, ⟨"usdtPool"⟩] := by decide +kernel
  obtain rfl := ok_unique hpools hpools'
  have hsome : ((left (observe sampleKeeper)).protocol.metaDeltas
      [⟨"daiPool"⟩, ⟨"usdcPool"⟩, ⟨"usdtPool"⟩]
      [237500000000000000000000, 95000000000, 47500000000]).map (·.any (· ≠ 0)) = .ok true := by
    decide +kernel
  rw [hdeltas] at hsome
  have hmoves := hiff.2 (by simpa [Except.map] using hsome)
  exact ⟨hmoves, hreported hmoves⟩

/-- The DAI of a pool has been sent out and taken back again for half of its meta shares, while the LP
account has got other capital since. -/
def owedKeeper : Keeper := plainKeeper.meanwhile
  [.mintTokens ⟨"DAI"⟩ ⟨"daiPool"⟩ 10000000000,
    .sendByHand ⟨"emergencySafe"⟩ [⟨"daiPool"⟩] [10000000000], .passBlocks 135, .publishTvl 2,
    .recallByHand ⟨"emergencySafe"⟩ [⟨"daiPool"⟩] [10000000000],
    .mintTokens ⟨"USDC"⟩ ⟨"lpAccount"⟩ 1000000000, .passBlocks 135]

/-- The LP account has no DAI to give back. The cycle takes nothing from it, reports a withdrawal, is counted
as one that moved capital, and locks the oracle. -/
theorem reported_but_not_moved : Reachable owedKeeper ∧ owedKeeper.dryRun = false ∧
    (answer owedKeeper.cycle).map (·.verdict) = .ok (.withdrawn ["daiPool"] [0]) ∧
    owedKeeper.reportsMove = true ∧ (owedKeeper.run 1).1 = 1 ∧
    (left owedKeeper.cycle).protocol.tokens = owedKeeper.protocol.tokens ∧
    owedKeeper.protocol.isOracleLocked = false ∧
    (left owedKeeper.cycle).protocol.isOracleLocked = true :=
  ⟨reachable_plainKeeper.meanwhile _, by decide +kernel, by decide +kernel, by decide +kernel,
    by decide +kernel, by decide +kernel, by decide +kernel, by decide +kernel⟩

end Keeper

end MetaPool
