import MetaPool.Proofs.Keeper.Moves

/-!
# The pools that a cycle touches

A live keeper names only pools to its batch whose top-up warrants a move, in the state that it has observed,
and a batch touches only what it names. So whichever pool holds another amount of its underlyer or other
meta shares after a cycle is one of these (`cycle_touches_needy`). What more is to say depends on the
verdict (`Verdict.Holds`): capital goes back to pools below their target, or out of pools above, and that
only if none below warrants a move. A cycle that fails leaves all holdings, the allocation and the lock as
they were, and counts.
-/

namespace MetaPool

namespace Protocol

variable {p q : Protocol} {a : Address} {s : Pool} {legs : List Leg} {pools : List Address}
  {amounts deltas : List Nat}

/-- A pool holds what it held, of its underlyer and of the meta shares. -/
def Unmoved (p q : Protocol) (a : Address) (s : Pool) : Prop :=
  q.tokens.held s.underlyer a = p.tokens.held s.underlyer a ∧
    q.metaToken.balanceOf a = p.metaToken.balanceOf a

/-- Only pools that are named are touched. -/
theorem unmoved_of_sent (hp : PoolsApart p) (hs : p.pool a = .ok s) (h : Sent legs p q)
    (ha : a ∉ legs.map (·.1.1)) : Unmoved p q a s := by
  have htokens := h.tokens s.underlyer a
  rw [movedAt_of_fresh ha, if_neg (hp a s hs)] at htokens
  have hshares := h.metaShares a
  rw [burned_of_fresh ha] at hshares
  exact ⟨htokens, hshares⟩

end Protocol

namespace Keeper

open Protocol (Unmoved)

variable {k k' : Keeper} {config : Config} {p q : Protocol} {verdict : Verdict} {report : Report}
  {thresholdBps : Nat} {id : String} {ids : List String} {all l : List Need}

/-- The pool of an identifier has a shortfall that warrants a move. -/
def FallsShort (thresholdBps : Nat) (p : Protocol) (id : String) : Prop :=
  ∃ a t, p.poolAddress id = .ok a ∧ Warrants thresholdBps p a t ∧ 0 < t

/-- The pool of an identifier has a surplus that warrants a move. -/
def HasSpare (thresholdBps : Nat) (p : Protocol) (id : String) : Prop :=
  ∃ a t, p.poolAddress id = .ok a ∧ Warrants thresholdBps p a t ∧ t < 0

def BelowTarget (p : Protocol) (id : String) : Prop :=
  ∃ a gap, p.poolAddress id = .ok a ∧ ReserveGap p a gap ∧ 0 < gap

def AboveTarget (p : Protocol) (id : String) : Prop :=
  ∃ a gap, p.poolAddress id = .ok a ∧ ReserveGap p a gap ∧ gap < 0

theorem FallsShort.belowTarget (h : FallsShort thresholdBps p id) : BelowTarget p id := by
  obtain ⟨a, t, ha, hw, ht⟩ := h
  obtain ⟨gap, hgap, hpos, -⟩ := reserveGap_of_topUp hw.topUp hw.ne_zero
  exact ⟨a, gap, ha, hgap, hpos ht⟩

theorem HasSpare.aboveTarget (h : HasSpare thresholdBps p id) : AboveTarget p id := by
  obtain ⟨a, t, ha, hw, ht⟩ := h
  obtain ⟨gap, hgap, -, hneg, -⟩ := reserveGap_of_topUp hw.topUp hw.ne_zero
  exact ⟨a, gap, ha, hgap, hneg ht⟩

/-- What a verdict says of the state that was observed and of the one after. -/
def Verdict.Holds (config : Config) (p q : Protocol) : Verdict → Prop
  | locked _ | balanced => q.tokens = p.tokens ∧ q.metaToken = p.metaToken ∧ q.pools = p.pools
  | withdrawn ids _ =>
    (∀ id ∈ ids, FallsShort config.thresholdBps p id ∧ BelowTarget p id) ∧
      ∀ a s, p.pool a = .ok s → p.tokens.held s.underlyer a ≤ q.tokens.held s.underlyer a ∧
        (¬ Unmoved p q a s → ∃ id ∈ ids, p.poolAddress id = .ok a)
  | funded ids _ =>
    (∀ id ∈ ids, HasSpare config.thresholdBps p id ∧ AboveTarget p id) ∧
      (∀ id ∈ config.poolIds, ¬ FallsShort config.thresholdBps p id) ∧
      ∀ a s, p.pool a = .ok s → q.tokens.held s.underlyer a ≤ p.tokens.held s.underlyer a ∧
        (¬ Unmoved p q a s → ∃ id ∈ ids, p.poolAddress id = .ok a)

/-! ## One cycle -/

theorem fallsShort_of_needs (hneeds : needs config p = .ok all) :
    ∀ id ∈ (all.filter (0 < ·.topUp)).map (·.id), FallsShort config.thresholdBps p id := by
  intro id hid
  obtain ⟨n, hn, rfl⟩ := List.mem_map.1 hid
  obtain ⟨hn, hpos⟩ := List.mem_filter.1 hn
  obtain ⟨-, a, ha, hw⟩ := (mem_needs_iff hneeds).1 hn
  exact ⟨a, n.topUp, ha, hw, of_decide_eq_true hpos⟩

theorem hasSpare_of_needs (hneeds : needs config p = .ok all) (hspare : ∀ n ∈ all, ¬ 0 < n.topUp) :
    ∀ id ∈ all.map (·.id), HasSpare config.thresholdBps p id := by
  intro id hid
  obtain ⟨n, hn, rfl⟩ := List.mem_map.1 hid
  obtain ⟨-, a, ha, hw⟩ := (mem_needs_iff hneeds).1 hn
  have hne := hw.ne_zero
  have hnot := hspare n hn
  exact ⟨a, n.topUp, ha, hw, by omega⟩

theorem not_fallsShort_of_needs (hneeds : needs config p = .ok all)
    (hspare : ∀ n ∈ all, ¬ 0 < n.topUp) (hid : id ∈ config.poolIds) :
    ¬ FallsShort config.thresholdBps p id := by
  rintro ⟨a, t, ha, hw, ht⟩
  exact hspare ⟨id, t⟩ ((mem_needs_iff hneeds).2 ⟨hid, a, ha, hw⟩) ht

/-- What a live keeper settles is as its verdict says. -/
theorem holds_of_settled (hk : Founded k) (h : Settled k verdict k') :
    verdict.Holds k.config k.protocol k'.protocol := by
  have hapart : Protocol.PoolsApart k.protocol := fun a s hs => (hk.wired.deployed a s hs).apart
  cases h with
  | locked | balanced => exact ⟨rfl, rfl, rfl⟩
  | @withdrawn all short _ p hneeds hshort hsome hmove =>
    obtain ⟨pools, deltas, hpools, hdeltas, hsent⟩ := Protocol.sent_of_recallShortfall hmove
    have hshorts := fallsShort_of_needs hneeds
    rw [← hshort] at hshorts
    refine ⟨fun id hid => ⟨hshorts id hid, (hshorts id hid).belowTarget⟩, fun a s hs => ?_⟩
    obtain ⟨hapart', hs'⟩ := hsent.readBack hapart hs
    have hgives := Protocol.givesForShares_of_sent hapart' hs' (Protocol.amount_of_delta hdeltas) hsent
    refine ⟨hgives.gives, fun htouched => (Protocol.mem_poolAddresses_iff hpools).1 ?_⟩
    by_contra hnot
    have hsame := Protocol.unmoved_of_sent hapart' hs' hsent
      (by rwa [Protocol.pools_of_metaDeltas hdeltas])
    exact htouched ⟨hsame.1.symm, hsame.2.symm⟩
  | @funded all _ p hneeds hspare hsome hmove =>
    obtain ⟨pools, deltas, hpools, hdeltas, hsent⟩ := Protocol.sent_of_sendSurplus hmove
    have hspares := hasSpare_of_needs hneeds hspare
    refine ⟨fun id hid => ⟨hspares id hid, (hspares id hid).aboveTarget⟩,
      fun id hid => not_fallsShort_of_needs hneeds hspare hid, fun a s hs => ?_⟩
    have hgives := Protocol.givesForShares_of_sent hapart hs (Protocol.amount_of_delta hdeltas) hsent
    refine ⟨hgives.gives, fun htouched => (Protocol.mem_poolAddresses_iff hpools).1 ?_⟩
    by_contra hnot
    exact htouched (Protocol.unmoved_of_sent hapart hs hsent
      (by rwa [Protocol.pools_of_metaDeltas hdeltas]))

/-- Whatever the verdict, a pool that is touched has a top-up that warrants a move. -/
theorem warrants_of_touched {a : Address} {s : Pool} (h : verdict.Holds config p q)
    (hs : p.pool a = .ok s) (htouched : ¬ Unmoved p q a s) : ∃ t, Warrants config.thresholdBps p a t := by
  cases verdict with
  | locked | balanced =>
    obtain ⟨htokens, hmeta, -⟩ := h
    exact absurd ⟨by rw [htokens], by rw [hmeta]⟩ htouched
  | withdrawn ids amounts =>
    obtain ⟨id, hid, ha⟩ := (h.2 a s hs).2 htouched
    obtain ⟨a', t, ha', hw, -⟩ := (h.1 id hid).1
    exact ⟨t, ok_unique ha ha' ▸ hw⟩
  | funded ids amounts =>
    obtain ⟨id, hid, ha⟩ := (h.2.2 a s hs).2 htouched
    obtain ⟨a', t, ha', hw, -⟩ := (h.1 id hid).1
    exact ⟨t, ok_unique ha ha' ▸ hw⟩

/-- The log does not matter to a verdict. -/
theorem holds_relog (h : verdict.Holds config p q) (log : List LogEntry) :
    verdict.Holds config p { q with log } := by
  cases verdict <;> exact h

theorem cycles_of_settled (h : Settled k verdict k') : k'.cycles = k.cycles := by
  cases h <;> rfl

/-- In every reachable state of a live keeper, a cycle that succeeds touches only pools with a top-up that
warrants a move in the state that it has observed, which is the one before at another time and with other
feeds, and its verdict holds. A cycle that fails leaves nothing behind but the time, the feeds and its
number. -/
theorem cycle_touches_needy (k : Keeper) (hk : Reachable k) (hlive : k.dryRun = false) :
    (∀ report k', k.cycle = .ok report k' → k'.cycles = k.cycles + 1 ∧
      ∃ observed, observe k = .ok report.tvl observed ∧
        Watched { k with cycles := k.cycles + 1 } observed ∧
        (∀ a s, k.protocol.pool a = .ok s → ¬ Unmoved k.protocol k'.protocol a s →
          ∃ t, Warrants k.config.thresholdBps observed.protocol a t) ∧
        report.verdict.Holds k.config observed.protocol k'.protocol) ∧
      ∀ fault k', k.cycle = .error fault k' → Watched { k with cycles := k.cycles + 1 } k' := by
  refine ⟨fun report k' h => ?_, fun fault k' => watched_of_error⟩
  obtain ⟨clock, feeds, settled, hobserve, hsettled, rfl⟩ := settled_of_cycle hlive h
  have hholds := holds_of_settled (hk.founded.evolve (evolved_observe.of_ok hobserve)) hsettled
  have hcycles : settled.cycles = k.cycles + 1 := cycles_of_settled hsettled
  exact ⟨hcycles, _, hobserve, ⟨clock, feeds, rfl⟩, fun a s => warrants_of_touched hholds,
    holds_relog hholds []⟩

/-- All pools of the sample are above their targets, and are what its first cycle touches. -/
theorem cycle_touches_needy_sample : (left sampleKeeper.cycle).cycles = 1 ∧
    ∀ id ∈ ["daiPool", "usdcPool", "usdtPool"],
      AboveTarget (left (observe sampleKeeper)).protocol id := by
  have hverdict : (answer sampleKeeper.cycle).map (·.verdict) = .ok (.funded
      ["daiPool", "usdcPool", "usdtPool"]
      [237500000000000000000000, 95000000000, 47500000000]) := by decide +kernel
  have hstart : sampleKeeper.cycles = 0 := by decide +kernel
  obtain ⟨report, hcycle, hverdict⟩ := eq_ok_of_answer hverdict
  obtain ⟨hcycles, observed, hobserve, -, -, hholds⟩ :=
    (cycle_touches_needy sampleKeeper reachable_sampleKeeper (by decide +kernel)).1 report _ hcycle
  obtain rfl : left (observe sampleKeeper) = observed := congrArg left hobserve
  rw [hverdict] at hholds
  exact ⟨by rw [hcycles, hstart], fun id hid => (hholds.1 id hid).2⟩

end Keeper

end MetaPool
