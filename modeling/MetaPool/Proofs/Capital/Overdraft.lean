import MetaPool.Proofs.Capital.Walk

/-!
# Overdrafts

No recall burns more meta shares than a pool has (`recall_burns_within_claims`). The tokens are another
matter: each shortfall is capped at what the LP account holds before the first leg, so that legs which
share an underlyer can together ask for more than that. A recall overdraws the LP account exactly if
they do, and never while the underlyers are distinct (`recall_overdraws_iff`).
-/

namespace MetaPool.Protocol

variable {p q : Protocol} {ids : List String} {pools : List Address} {caller : Address} {legs : List Leg}
  {fault : Fault}

/-! ## Meta shares -/

theorem reads_recallLegs (p : Protocol) (ids : List String) :
    FailsIn Fault.OfReading (p.recallLegs ids) :=
  failsIn_bind (p.readable.rebalanceAmounts ids) fun _ _ =>
    failsIn_bind (p.readable.lpHoldings _) fun _ _ =>
      failsIn_bind (p.readable.cappedShortfalls _ _) fun _ _ =>
        failsIn_bind (p.readable.metaDeltas _ _) fun _ _ => failsIn_ok _

/-- In every reachable state a recall for distinct pools fails neither for want of meta shares nor in a
subtraction, no leg that it reads stands for more meta shares than its pool has, and these are what a
recall that succeeds burns. -/
theorem recall_burns_within_claims (p : Protocol) (h : Reachable p) (ids : List String)
    (pools : List Address) (hpools : p.poolAddresses ids = .ok pools) (hnodup : pools.Nodup) :
    (∀ caller fault q, (Operation.recallShortfall caller ids).perform p = .error fault q →
      fault ≠ .balanceInsufficient ∧ fault ≠ .underflow) ∧
    (∀ legs, p.recallLegs ids = .ok legs →
      ∀ leg ∈ legs, leg.2 ≤ p.metaToken.balanceOf leg.1.1) ∧
    ∀ caller out q, (Operation.recallShortfall caller ids).perform p = .ok out q →
      ∃ legs, p.recallLegs ids = .ok legs ∧ legs.map (·.1.1) = pools ∧
        ∀ a, q.metaToken.balanceOf a + burned a legs = p.metaToken.balanceOf a := by
  refine ⟨?_, ?_, ?_⟩
  · intro caller fault q herror
    have hstop : Stops (recallShortfall caller ids) p fault := Operation.reply_stops.1 ⟨q, herror⟩
    rcases fault_of_recall h hpools hnodup hstop with
      hcaller | ⟨-, hread | ⟨legs, -, ⟨t, rfl, -⟩ | ⟨rfl, -⟩⟩⟩
    · obtain ⟨-, rfl⟩ := RoleTable.authorize_eq_error.1 hcaller
      exact ⟨nofun, nofun⟩
    · have hreading := p.reads_recallLegs ids fault hread
      exact ⟨fun e => (e ▸ hreading : Fault.OfReading .balanceInsufficient),
        fun e => (e ▸ hreading : Fault.OfReading .underflow)⟩
    · exact ⟨nofun, nofun⟩
    · exact ⟨nofun, nofun⟩
  · intro legs hlegs leg hleg
    obtain ⟨s, x, hcovered⟩ := covered_of_recallLegs h hlegs hleg
    exact hcovered.enough
  · intro caller out q hok
    obtain ⟨amounts, -, hok⟩ := Operation.reply_eq_ok.1 hok
    obtain ⟨legs, hlegs, hwalked⟩ := recalled_of_ok h hok
    exact ⟨legs, hlegs, pools_of_recallLegs hpools hlegs, hwalked.burned⟩

/-- All of a pool's capital is with the LP account, and a part of it is due back. -/
def allDeployed : Protocol :=
  initial.run [.mintTokens ⟨"USDC"⟩ ⟨"usdcPool"⟩ 500,
    .sendByHand ⟨"emergencySafe"⟩ [⟨"usdcPool"⟩] [500], .passBlocks 135, .publishTvl 50000]

theorem recall_burns_within_claims_allDeployed :
    Reachable allDeployed ∧ allDeployed.poolAddresses ["usdcPool", "daiPool"] =
        .ok [⟨"usdcPool"⟩, ⟨"daiPool"⟩] ∧
      (∃ legs, allDeployed.recallLegs ["usdcPool", "daiPool"] = .ok legs ∧
        legs.map (·.1.2) = [25, 0] ∧ 0 < burned ⟨"usdcPool"⟩ legs ∧
        ∀ leg ∈ legs, leg.2 ≤ allDeployed.metaToken.balanceOf leg.1.1) ∧
      ∀ caller fault q,
        (Operation.recallShortfall caller ["usdcPool", "daiPool"]).perform allDeployed =
          .error fault q → fault ≠ .balanceInsufficient ∧ fault ≠ .underflow := by
  have hreachable : Reachable allDeployed := reachable_initial.run _
  have hpools : allDeployed.poolAddresses ["usdcPool", "daiPool"] =
      .ok [⟨"usdcPool"⟩, ⟨"daiPool"⟩] := eq_ok_of_toOption (by decide +kernel)
  obtain ⟨hfaults, hclaims, -⟩ :=
    recall_burns_within_claims allDeployed hreachable _ _ hpools (by decide)
  have hlegs : allDeployed.recallLegs ["usdcPool", "daiPool"] =
      .ok [((⟨"usdcPool"⟩, 25), 2500000), ((⟨"daiPool"⟩, 0), 0)] :=
    eq_ok_of_toOption (by decide +kernel)
  exact ⟨hreachable, hpools, ⟨_, hlegs, by decide, by decide, hclaims _ hlegs⟩, hfaults⟩

/-! ## Tokens -/

/-- While no two pools share an underlyer, the legs draw no more of a token than the one shortfall of
it, which is capped at what the LP account holds. -/
theorem drawn_le_of_distinct
    (hdistinct : (legs.map fun leg => (p.pool leg.1.1).map (·.underlyer)).Nodup)
    (hcapped : ∀ leg ∈ legs, ∀ s, p.pool leg.1.1 = .ok s →
      leg.1.2 ≤ p.tokens.held s.underlyer p.lpAccount.address) (t : Address) :
    p.drawn t legs ≤ p.tokens.held t p.lpAccount.address := by
  induction legs with
  | nil => exact Nat.zero_le _
  | cons leg legs ih =>
    rw [List.map_cons, List.nodup_cons] at hdistinct
    rw [List.forall_mem_cons] at hcapped
    have hrest := ih hdistinct.2 hcapped.2
    rw [drawn_cons]
    by_cases hnone : p.drawnBy t leg = 0
    · omega
    · obtain ⟨s, hs, rfl⟩ := underlyer_of_drawnBy hnone
      have hothers : p.drawn s.underlyer legs = 0 := by
        refine drawn_eq_zero fun leg' hleg' => ?_
        by_contra hdrawn
        obtain ⟨s', hs', hunderlyer⟩ := underlyer_of_drawnBy hdrawn
        refine hdistinct.1 (List.mem_map.2 ⟨leg', hleg', ?_⟩)
        rw [hs, hs']
        exact congrArg Except.ok hunderlyer
      have hle := drawnBy_le p s.underlyer leg
      have hcap := hcapped.1 s hs
      omega

/-- A recall stops for the balance of the LP account if it is let through and its legs draw more of a
token than the LP account holds, and only then. -/
theorem exceeds_iff (h : Reachable p) (hpools : p.poolAddresses ids = .ok pools)
    (hnodup : pools.Nodup) :
    (∃ t holder, Stops (recallShortfall caller ids) p (.transferExceedsBalance t holder)) ↔
      p.metaToken.roles.holds .lp caller = true ∧ ∃ legs t, p.recallLegs ids = .ok legs ∧
        p.tokens.held t p.lpAccount.address < p.drawn t legs := by
  constructor
  · rintro ⟨t, holder, hstop⟩
    rcases fault_of_recall h hpools hnodup hstop with
      hcaller | ⟨hcaller, hread | ⟨legs, hlegs, ⟨t', -, hlt⟩ | ⟨hlock, -⟩⟩⟩
    · exact absurd (RoleTable.authorize_eq_error.1 hcaller).2 nofun
    · exact (p.reads_recallLegs ids _ hread).elim
    · exact ⟨RoleTable.authorize_eq_ok.1 hcaller, legs, t', hlegs, hlt⟩
    · cases hlock
  · rintro ⟨hcaller, legs, t, hlegs, hlt⟩
    cases hrun : recallShortfall caller ids p with
    | ok amounts q =>
      obtain ⟨legs', hlegs', hwalked⟩ := recalled_of_ok h hrun
      obtain rfl : legs = legs' := ok_unique hlegs hlegs'
      have hleft := hwalked.left t
      omega
    | error fault q =>
      rcases fault_of_recall h hpools hnodup ⟨q, hrun⟩ with
        hrefused | ⟨-, hread | ⟨legs', hlegs', ⟨t', rfl, -⟩ | ⟨-, hle⟩⟩⟩
      · exact absurd hcaller (RoleTable.authorize_eq_error.1 hrefused).1
      · exact absurd (hlegs.symm.trans hread) nofun
      · exact ⟨t', _, q, hrun⟩
      · obtain rfl : legs = legs' := ok_unique hlegs hlegs'
        exact absurd (hle t) (Nat.not_le.2 hlt)

/-- In every reachable state a recall for distinct pools overdraws the LP account exactly if the caller
may recall and the legs, each capped on its own at what the LP account holds, draw more of a token than
that. So it never does while no two of the pools have the same underlyer. -/
theorem recall_overdraws_iff (p : Protocol) (h : Reachable p) (ids : List String)
    (pools : List Address) (hpools : p.poolAddresses ids = .ok pools) (hnodup : pools.Nodup) :
    (∀ caller,
      (∃ t holder q, (Operation.recallShortfall caller ids).perform p =
        .error (.transferExceedsBalance t holder) q) ↔
      p.metaToken.roles.holds .lp caller = true ∧ ∃ legs t, p.recallLegs ids = .ok legs ∧
        p.tokens.held t p.lpAccount.address < p.drawn t legs) ∧
    ((pools.map fun a => (p.pool a).map (·.underlyer)).Nodup →
      ∀ caller t holder q, (Operation.recallShortfall caller ids).perform p ≠
        .error (.transferExceedsBalance t holder) q) := by
  have hiff (caller : Address) :
      (∃ t holder q, (Operation.recallShortfall caller ids).perform p =
        .error (.transferExceedsBalance t holder) q) ↔
      p.metaToken.roles.holds .lp caller = true ∧ ∃ legs t, p.recallLegs ids = .ok legs ∧
        p.tokens.held t p.lpAccount.address < p.drawn t legs := by
    rw [← exceeds_iff h hpools hnodup]
    exact exists₂_congr fun _ _ => Operation.reply_stops
  refine ⟨hiff, fun hdistinct caller t holder q herror => ?_⟩
  obtain ⟨-, legs, t', hlegs, hlt⟩ := (hiff caller).1 ⟨t, holder, q, herror⟩
  refine absurd (drawn_le_of_distinct ?_ ?_ t') (Nat.not_le.2 hlt)
  · rwa [← pools_of_recallLegs hpools hlegs, List.map_map] at hdistinct
  · intro leg hleg s hs
    obtain ⟨s', topUp, v, tvl, hreads⟩ := legReads_of_mem hlegs hleg
    obtain rfl : s = s' := ok_unique hs hreads.pool
    exact hreads.amount_le

/-- Two pools with one underlyer, all of whose value is to be idle. -/
def sharedPlan : Plan :=
  { (default : Plan) with
    pools := [⟨"aPool", "USDC", { (default : PoolTerms) with reservePercentage := 100 }⟩,
      ⟨"bPool", "USDC", { (default : PoolTerms) with reservePercentage := 100 }⟩] }

theorem deploy_sharedPlan_isSome : (Protocol.deploy sharedPlan default).toOption.isSome := by
  decide +kernel

/-- Both pools have sent all they have to the LP account, and the deployed capital has since doubled
elsewhere. -/
def sharedUnderlyer : Protocol :=
  ((Protocol.deploy sharedPlan default).toOption.get deploy_sharedPlan_isSome).run
    [.mintTokens ⟨"USDC"⟩ ⟨"aPool"⟩ 100, .mintTokens ⟨"USDC"⟩ ⟨"bPool"⟩ 100,
      .sendByHand ⟨"emergencySafe"⟩ [⟨"aPool"⟩, ⟨"bPool"⟩] [100, 100], .passBlocks 135,
      .publishTvl 40000]

theorem reachable_sharedUnderlyer : Reachable sharedUnderlyer :=
  (Reachable.deploy (eq_ok_of_toOption (Option.some_get deploy_sharedPlan_isSome).symm)).run _

theorem recall_overdraws_iff_sharedUnderlyer :
    sharedUnderlyer.drawn ⟨"USDC"⟩ [((⟨"aPool"⟩, 200), 10000000), ((⟨"bPool"⟩, 200), 10000000)] = 400 ∧
      (∃ t holder q, (Operation.recallShortfall ⟨lpSafeId⟩ ["aPool", "bPool"]).perform sharedUnderlyer =
        .error (.transferExceedsBalance t holder) q) ∧
      ∀ t holder q, (Operation.recallShortfall ⟨lpSafeId⟩ ["aPool"]).perform sharedUnderlyer ≠
        .error (.transferExceedsBalance t holder) q := by
  have hboth := recall_overdraws_iff sharedUnderlyer reachable_sharedUnderlyer ["aPool", "bPool"]
    [⟨"aPool"⟩, ⟨"bPool"⟩] (eq_ok_of_toOption (by decide +kernel)) (by decide)
  have hone := recall_overdraws_iff sharedUnderlyer reachable_sharedUnderlyer ["aPool"] [⟨"aPool"⟩]
    (eq_ok_of_toOption (by decide +kernel)) (by decide)
  have hlegs : sharedUnderlyer.recallLegs ["aPool", "bPool"] =
      .ok [((⟨"aPool"⟩, 200), 10000000), ((⟨"bPool"⟩, 200), 10000000)] :=
    eq_ok_of_toOption (by decide +kernel)
  refine ⟨by decide +kernel, (hboth.1 ⟨lpSafeId⟩).2 ⟨by decide +kernel, _, ⟨"USDC"⟩, hlegs, ?_⟩, ?_⟩
  · decide +kernel
  · exact hone.2 (by simp) ⟨lpSafeId⟩

/-- Pools that are distinct and admitted by the validation of plans, but share an underlyer: each leg is
capped at the 200 that the LP account holds, and the second finds nothing left. -/
theorem shared_underlyer_overdrawn :
    sharedPlan.validate = .ok () ∧ Reachable sharedUnderlyer ∧
      sharedUnderlyer.poolAddresses ["aPool", "bPool"] = .ok [⟨"aPool"⟩, ⟨"bPool"⟩] ∧
      sharedUnderlyer.lpHoldings [⟨"aPool"⟩, ⟨"bPool"⟩] = .ok [200, 200] ∧
      ∃ q, (Operation.recallShortfall ⟨lpSafeId⟩ ["aPool", "bPool"]).perform sharedUnderlyer =
        .error (.transferExceedsBalance ⟨"USDC"⟩ ⟨lpAccountId⟩) q := by
  refine ⟨eq_ok_of_toOption (by decide +kernel), reachable_sharedUnderlyer,
    eq_ok_of_toOption (by decide +kernel), eq_ok_of_toOption (by decide +kernel), ?_⟩
  exact Operation.stops_of_fault? (by decide +kernel)

end MetaPool.Protocol
