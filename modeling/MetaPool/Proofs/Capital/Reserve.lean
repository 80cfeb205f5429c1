import MetaPool.Proofs.Capital.Flow
import MetaPool.Proofs.Value.Surplus

/-!
# Reserves

A send takes from each pool the surplus over its target, all read before the first move. Legs of other
pools leave the holdings of a pool alone, so that each pool still has its surplus when its leg comes, and
the send never overdraws one (`sendSurplus_not_overdraft`). What a pool keeps is its target, but for the
rounding of its surplus (`keepsReserve_of_sent`).
-/

namespace MetaPool

/-! ## Views that find no balance too small -/

/-- The fault is that a holder has too little of a token. -/
def Fault.IsOverdraft (fault : Fault) : Prop := ∃ t holder, fault = .transferExceedsBalance t holder

section

variable {α : Type} {fault : Fault}

/-- The view never fails for the balance of a holder. -/
abbrev NoOverdraft (x : Except Fault α) : Prop := FailsIn (fun fault => ¬ fault.IsOverdraft) x

theorem noOverdraft_of_reads {x : Except Fault α} (h : FailsIn Fault.OfReading x) : NoOverdraft x := by
  refine h.mono fun fault hreading => ?_
  rintro ⟨t, holder, rfl⟩
  exact hreading

theorem RoleTable.noOverdraft_authorize (roles : RoleTable) (caller : Address)
    (permission : Permission) : NoOverdraft (roles.authorize caller permission) := by
  intro fault h
  obtain ⟨-, rfl⟩ := authorize_eq_error.1 h
  cases permission.role <;> exact nofun

theorem Pool.noOverdraft_authorizeSend (s : Pool) (caller : Address) :
    NoOverdraft (s.authorizeSend caller) :=
  failsIn_bind (RoleTable.noOverdraft_authorize _ _ _) fun _ _ =>
    failsIn_ite (failsIn_error nofun) (failsIn_ok ())

theorem Allocation.noOverdraft_register (a : Allocation) (caller : Address) (data : AllocatedToken) :
    NoOverdraft (a.register caller data) :=
  failsIn_bind (RoleTable.noOverdraft_authorize _ _ _) fun _ _ =>
    failsIn_ite (failsIn_error nofun) (failsIn_ite (failsIn_error nofun) (failsIn_ok _))

theorem ShareBook.noOverdraft_mint (b : ShareBook) (holder : Address) (amount : Nat) :
    NoOverdraft (b.mint holder amount) := by
  refine (b.faults_of_mint holder amount).mono ?_
  rintro _ (rfl | hreading) ⟨t, a, hfault⟩
  · cases hfault
  · subst hfault
    exact hreading

/-- A transfer of no more than its source holds fails for another reason, if it does. -/
theorem TokenBook.noOverdraft_transfer {b : TokenBook} {token source target : Address} {amount : Nat}
    (hle : amount ≤ b.held token source) : NoOverdraft (b.transfer token source target amount) := by
  refine (b.faults_of_transfer token source target amount).mono ?_
  rintro _ (rfl | hreading | ⟨-, hlt⟩) ⟨t, a, hfault⟩
  · cases hfault
  · subst hfault
    exact hreading
  · omega

end

namespace Protocol

variable {p q r : Protocol} {fault : Fault} {pools : List Address} {ids : List String}
  {amounts deltas : List Nat} {topUps : List Int} {legs : List Leg} {leg : Leg} {a caller : Address}
  {s : Pool} {snap : Snapshot} {total idle amount shares : Nat}

/-! ## Sends that overdraw no pool -/

theorem registerUnderlyer_not_overdraft (h : Stops (registerUnderlyer a) p fault) :
    ¬ fault.IsOverdraft := by
  rcases registerUnderlyer_stops.1 h with h | ⟨s, hs, -, h | ⟨info, -, h⟩⟩
  · exact noOverdraft_of_reads (p.readable.pool a) fault h
  · exact noOverdraft_of_reads (p.readable.traits hs) fault h
  · exact Allocation.noOverdraft_register _ _ _ fault h

theorem mintAndSend_not_overdraft (hs : p.pool a = .ok s) (hle : amount ≤ p.tokens.held s.underlyer a)
    (h : Stops (mintAndSend a shares amount) p fault) : ¬ fault.IsOverdraft := by
  obtain ⟨-, h | ⟨book, -, h⟩⟩ := mintAndSend_stops.1 h
  · exact ShareBook.noOverdraft_mint _ _ _ fault h
  rcases sendToLpAccount_stops.1 h with h | ⟨s', hs', h | ⟨-, h⟩⟩
  · exact noOverdraft_of_reads (p.readable.pool a) fault h
  · exact Pool.noOverdraft_authorizeSend _ _ fault h
  · obtain rfl : s = s' := ok_unique hs hs'
    exact TokenBook.noOverdraft_transfer hle fault h

theorem lockAfterMove_not_overdraft (h : Stops lockAfterMove p fault) : ¬ fault.IsOverdraft := by
  rcases Oracle.lock_stops.1 (lockAfterMove_stops.1 h) with h | ⟨-, -, rfl⟩
  · exact RoleTable.noOverdraft_authorize _ _ _ fault h
  · exact nofun

/-- A batch of sends from distinct pools that hold their amounts overdraws none of them: the legs before
that of a pool leave its holdings alone. -/
theorem sendBatch_not_overdraft (hp : PoolsApart p) (hnodup : pools.Nodup)
    (hheld : ∀ move ∈ pools.zip amounts, ∃ s, p.pool move.1 = .ok s ∧
      move.2 ≤ p.tokens.held s.underlyer move.1)
    (h : BatchStops mintAndSend pools amounts p fault) : ¬ fault.IsOverdraft := by
  cases h with
  | list before after pool q hsplit hlisted h => exact registerUnderlyer_not_overdraft h
  | deltas q hlisted h => exact noOverdraft_of_reads (q.readable.metaDeltas pools amounts) fault h
  | lock q r deltas hlisted hdeltas hmoves h => exact lockAfterMove_not_overdraft h
  | leg q r deltas before after leg hlisted hdeltas hsplit hbefore h =>
    -- what was listed and the legs before are no moves of this pool, so that it holds what was read
    have hq : SameLedgers p q := sameLedgers_of_listed hlisted
    have hsent : Sent before p r := (sent_of_sends hbefore).congr hq.symm (.refl r)
    have hleg : leg ∈ (pools.zip amounts).zip deltas := hsplit ▸ List.mem_append_right _ List.mem_cons_self
    obtain ⟨s, hs, hle⟩ := hheld leg.1 (List.of_mem_zip hleg).1
    rw [← pools_of_metaDeltas hdeltas, hsplit] at hnodup
    have hkept := hsent.tokens s.underlyer leg.1.1
    rw [movedAt_of_fresh (fresh_of_nodup hnodup), if_neg (hp _ s hs), Nat.add_zero,
      Nat.add_zero] at hkept
    rw [← pool_of_eq hsent.pools] at hs
    exact mintAndSend_not_overdraft hs (hkept ▸ hle) h

/-! ## What is read of a pool -/

/-- The surplus of a pool over its target, the reserve percentage of its total value. -/
structure SurplusReads (p : Protocol) (a : Address) (s : Pool) (snap : Snapshot)
    (total idle amount : Nat) : Prop where
  pool : p.pool a = .ok s
  snapshot : p.snapshot a = .ok snap
  worth : snap.totalValue = .ok total
  surplus : snap.IsSurplus (total * s.terms.reservePercentage / wholePercent) idle amount

theorem SurplusReads.balance_eq (h : SurplusReads p a s snap total idle amount) :
    snap.idleBalance = p.tokens.held s.underlyer a := by
  obtain ⟨s', hs', -, -, hbalance, -, -⟩ := snapshot_eq_ok.1 h.snapshot
  obtain rfl : s = s' := ok_unique h.pool hs'
  exact (TokenBook.balanceOf_eq_ok.1 hbalance).2

/-- A pool holds its surplus. -/
theorem SurplusReads.amount_le (h : SurplusReads p a s snap total idle amount) :
    amount ≤ p.tokens.held s.underlyer a := h.balance_eq ▸ h.surplus.le_balance

theorem surplusReads_of_topUp {t : Int} (h : p.topUp a = .ok t) :
    ∃ s snap total idle, SurplusReads p a s snap total idle (surplus t) := by
  obtain ⟨s, hs, h⟩ := except_bind_eq_ok.1 h
  obtain ⟨snap, hsnap, htopUp⟩ := except_bind_eq_ok.1 h
  obtain ⟨total, idle, htotal, hsurplus⟩ := Snapshot.isSurplus_of_topUp htopUp
  exact ⟨s, snap, total, idle, hs, hsnap, htotal, hsurplus⟩

theorem surplusReads_of_mem (hread : p.rebalanceAmounts ids = .ok (pools, topUps)) :
    ∀ move ∈ pools.zip (surpluses topUps), ∃ s snap total idle,
      SurplusReads p move.1 s snap total idle move.2 := by
  rw [surpluses_eq_map, List.zip_map_right, List.forall_mem_map]
  intro entry hentry
  have htopUps := forall₂_of_mapM (rebalanceAmounts_eq_ok.1 hread).2
  exact surplusReads_of_topUp (List.forall₂_zip htopUps hentry)

theorem sendSurplus_not_overdraft (hp : PoolsApart p) (hpools : p.poolAddresses ids = .ok pools)
    (hnodup : pools.Nodup) (h : Stops (sendSurplus caller ids) p fault) : ¬ fault.IsOverdraft := by
  rcases sendSurplus_stops h with h | h | ⟨pools', topUps, hread, h⟩
  · exact RoleTable.noOverdraft_authorize _ _ _ fault h
  · exact noOverdraft_of_reads (p.readable.rebalanceAmounts ids) fault h
  · obtain rfl : pools = pools' := ok_unique hpools (rebalanceAmounts_eq_ok.1 hread).1
    refine sendBatch_not_overdraft hp hnodup (fun move hmove => ?_) h
    obtain ⟨s, snap, total, idle, hreads⟩ := surplusReads_of_mem hread move hmove
    exact ⟨s, hreads.pool, hreads.amount_le⟩

/-! ## What a pool keeps -/

/-- The pool, its meta shares and all its holdings are the same. -/
structure LeftAlone (p q : Protocol) (a : Address) : Prop where
  pool : q.pool a = p.pool a
  metaShares : q.metaToken.balanceOf a = p.metaToken.balanceOf a
  tokens : ∀ t, q.tokens.held t a = p.tokens.held t a

/-- An idle value that was at or above its target still is, one that was below has been left alone, and a
pool that got meta shares is above its target by at most `margin`. -/
structure KeepsReserve (p q : Protocol) (a : Address) (target idle idle' margin : Nat) : Prop where
  kept : target ≤ idle → target ≤ idle'
  leftAlone : idle < target → LeftAlone p q a
  above : p.metaToken.balanceOf a < q.metaToken.balanceOf a → idle' ≤ target + margin

theorem leftAlone_of_skipped (hp : PoolsApart p) (hs : p.pool leg.1.1 = .ok s)
    (hnodup : (legs.map (·.1.1)).Nodup) (hleg : leg ∈ legs) (hskip : leg.2 = 0) (h : Sent legs p q) :
    LeftAlone p q leg.1.1 where
  pool := pool_of_eq h.pools _
  metaShares := by rw [h.metaShares, burned_of_mem hnodup hleg, hskip, Nat.add_zero]
  tokens t := by
    have htokens := h.tokens t leg.1.1
    rwa [movedAt_of_mem hnodup hleg, drawnBy_of_skipped hskip, if_neg (hp _ s hs)] at htokens

theorem keepsReserve_of_sent (hp : PoolsApart p)
    (hreads : SurplusReads p leg.1.1 s snap total idle leg.1.2) (hnodup : (legs.map (·.1.1)).Nodup)
    (hleg : leg ∈ legs) (hmoves : leg.2 ≠ 0 → leg.1.2 ≠ 0) (h : Sent legs p q) :
    ∃ idle', Snapshot.idleValue { snap with idleBalance := q.tokens.held s.underlyer leg.1.1 } =
        .ok idle' ∧
      KeepsReserve p q leg.1.1 (total * s.terms.reservePercentage / wholePercent) idle idle'
        (unitCeil snap.price snap.decimals) := by
  have htokens := h.tokens s.underlyer leg.1.1
  rw [movedAt_of_mem hnodup hleg, drawnBy_of_pool hreads.pool, if_neg (hp _ s hreads.pool),
    ← hreads.balance_eq, Nat.add_zero] at htokens
  have hshares : q.metaToken.balanceOf leg.1.1 = p.metaToken.balanceOf leg.1.1 + leg.2 := by
    rw [h.metaShares, burned_of_mem hnodup hleg]
  generalize hunits : q.tokens.held s.underlyer leg.1.1 = units at htokens ⊢
  refine ⟨_, Snapshot.idleValue_of_le hreads.surplus.reads (by omega), ?_, ?_, ?_⟩
  · intro hle
    refine hreads.surplus.target_le hle ?_
    split at htokens <;> omega
  · intro hlt
    have hskip : leg.2 = 0 := by
      by_contra hshares
      exact hmoves hshares (hreads.surplus.none_of_le hlt.le)
    exact leftAlone_of_skipped hp hreads.pool hnodup hleg hskip h
  · intro hgrown
    have hdelta : leg.2 ≠ 0 := by omega
    rw [if_pos ⟨hdelta, rfl⟩] at htokens
    exact hreads.surplus.le_above (hmoves hdelta) htokens

/-- In every reachable state a send of the surpluses of distinct pools never fails because a pool holds too
little, and when it succeeds, each pool, valued by its snapshot before the call, keeps its reserve: where
its idle value was at or above the target it still is, where it was below the pool is untouched, and a pool
that got meta shares ends above its target by no more than the worth of one unit, rounded up. -/
theorem sendSurplus_keeps_reserves (p : Protocol) (h : Reachable p) (ids : List String)
    (pools : List Address) (hpools : p.poolAddresses ids = .ok pools) (hnodup : pools.Nodup)
    (caller : Address) :
    (∀ t holder q, (Operation.sendSurplus caller ids).perform p ≠
      .error (.transferExceedsBalance t holder) q) ∧
    ∀ out q, (Operation.sendSurplus caller ids).perform p = .ok out q →
      ∀ a ∈ pools, ∃ s snap total idle idle', p.pool a = .ok s ∧ p.snapshot a = .ok snap ∧
        snap.totalValue = .ok total ∧ snap.idleValue = .ok idle ∧
        Snapshot.idleValue { snap with idleBalance := q.tokens.held s.underlyer a } = .ok idle' ∧
        KeepsReserve p q a (total * s.terms.reservePercentage / wholePercent) idle idle'
          (unitCeil snap.price snap.decimals) := by
  constructor
  · intro t holder q herror
    have hstop := Operation.reply_stops.1 ⟨q, herror⟩
    exact sendSurplus_not_overdraft h.poolsApart hpools hnodup hstop ⟨t, holder, rfl⟩
  · intro out q hok a ha
    obtain ⟨_, -, hsend⟩ := Operation.reply_eq_ok.1 hok
    obtain ⟨-, pools', topUps, hread, rfl, hbatch⟩ := sendSurplus_eq_ok.1 hsend
    obtain rfl : pools = pools' := ok_unique hpools (rebalanceAmounts_eq_ok.1 hread).1
    obtain ⟨deltas, hdeltas, hsent⟩ := sent_of_sendBatch hbatch
    obtain ⟨leg, hleg, rfl⟩ : ∃ leg ∈ (pools.zip (surpluses topUps)).zip deltas, leg.1.1 = a := by
      rwa [← List.mem_map, pools_of_metaDeltas hdeltas]
    obtain ⟨s, snap, total, idle, hreads⟩ := surplusReads_of_mem hread leg.1 (List.of_mem_zip hleg).1
    rw [← pools_of_metaDeltas hdeltas] at hnodup
    obtain ⟨idle', hidle', hkeeps⟩ := keepsReserve_of_sent h.poolsApart hreads hnodup hleg
      (amount_of_delta hdeltas leg hleg) hsent
    exact ⟨s, snap, total, idle, idle', hreads.pool, hreads.snapshot, hreads.worth,
      hreads.surplus.reads, hidle', hkeeps⟩

/-- A pool with idle capital, and one that has deployed so much of its own that it is below its target. -/
def oneShort : Protocol :=
  initial.run [.mintTokens ⟨"USDC"⟩ ⟨"usdcPool"⟩ 600, .mintTokens ⟨"DAI"⟩ ⟨"daiPool"⟩ (100 * 10 ^ 12),
    .sendByHand ⟨"emergencySafe"⟩ [⟨"daiPool"⟩] [97 * 10 ^ 12], .passBlocks 135, .publishTvl 9700]

theorem sendSurplus_keeps_reserves_oneShort :
    ∃ out q, (Operation.sendSurplus ⟨lpSafeId⟩ ["usdcPool", "daiPool"]).perform oneShort = .ok out q ∧
      q.tokens.held ⟨"USDC"⟩ ⟨"usdcPool"⟩ = 30 ∧ LeftAlone oneShort q ⟨"daiPool"⟩ := by
  have hruns : (Operation.sendSurplus ⟨lpSafeId⟩ ["usdcPool", "daiPool"]).fails oneShort = false := by
    decide +kernel
  obtain ⟨out, hok⟩ := perform_of_not_fails hruns
  obtain ⟨-, hkeeps⟩ := sendSurplus_keeps_reserves oneShort (reachable_initial.run _)
    ["usdcPool", "daiPool"] [⟨"usdcPool"⟩, ⟨"daiPool"⟩] (eq_ok_of_toOption (by decide +kernel))
    (by decide) ⟨lpSafeId⟩
  obtain ⟨s, snap, total, idle, idle', hs, hsnap, htotal, hidle, -, hdai⟩ :=
    hkeeps out _ hok ⟨"daiPool"⟩ (by decide)
  have hterms : s.terms.reservePercentage = 5 := by
    have hpool : (oneShort.pool ⟨"daiPool"⟩).map (·.terms.reservePercentage) = .ok 5 :=
      eq_ok_of_toOption (by decide +kernel)
    rw [hs] at hpool
    exact Except.ok.inj hpool
  have hread : oneShort.snapshot ⟨"daiPool"⟩ = .ok ⟨10 ^ 8, 18, 3 * 10 ^ 12, 9700, 0⟩ :=
    eq_ok_of_toOption (by decide +kernel)
  obtain rfl := ok_unique hsnap hread
  obtain rfl : total = 10000 := ok_unique htotal (eq_ok_of_toOption (by decide +kernel))
  obtain rfl : idle = 300 := ok_unique hidle (eq_ok_of_toOption (by decide +kernel))
  rw [hterms] at hdai
  exact ⟨out, _, hok, by decide +kernel, hdai.leftAlone (by decide)⟩

end Protocol

end MetaPool
