import MetaPool.Proofs.Capital.Flow
import MetaPool.Proofs.Capital.Leg

/-!
# The footprint of a rebalance

A rebalance writes what it names and nothing else (`Footprint`): the meta shares of the listed pools, their
balances and that of the LP account in their underlyers, the allocation, the end of the lock and the log.
Since the delta of nothing is nothing, a leg with meta shares moves some capital, so that a pool gives
capital exactly when it gets meta shares (`givesForShares_of_sent`).
-/

namespace MetaPool

namespace TokenRecord

variable {may : Address → Prop} {r r' r'' : TokenRecord}

/-- Two records differ at most in the balances of accounts of which `may` holds. -/
structure SameBut (may : Address → Prop) (r r' : TokenRecord) : Prop where
  state : r' = { r with balances := r'.balances }
  balances : ∀ a, ¬ may a → r'.balances.get? a = r.balances.get? a

theorem SameBut.refl (may : Address → Prop) (r : TokenRecord) : r.SameBut may r :=
  ⟨rfl, fun _ _ => rfl⟩

theorem SameBut.trans (h : r.SameBut may r') (h' : r'.SameBut may r'') : r.SameBut may r'' where
  state := by rw [h'.state, h.state]
  balances a ha := (h'.balances a ha).trans (h.balances a ha)

theorem sameBut_moved {source target : Address} {amount : Nat} (hsource : may source)
    (htarget : may target) : r.SameBut may (r.moved source target amount) where
  state := rfl
  balances a ha := by
    have hs : a ≠ source := fun e => ha (e ▸ hsource)
    have ht : a ≠ target := fun e => ha (e ▸ htarget)
    simp only [moved, OrderedMap.get?_insert, if_neg hs, if_neg ht]

end TokenRecord

namespace TokenBook

variable {may : Address → Address → Prop} {b b' b'' : TokenBook}

/-- The same tokens are known, and their records differ at most in the balances of accounts that may
change. -/
def SameBut (may : Address → Address → Prop) (b b' : TokenBook) : Prop :=
  ∀ t, Option.Rel (TokenRecord.SameBut (may t)) (b.records.get? t) (b'.records.get? t)

theorem SameBut.refl (may : Address → Address → Prop) (b : TokenBook) : b.SameBut may b := by
  intro t
  cases b.records.get? t with
  | some r => exact .some (.refl _ r)
  | none => exact .none

theorem SameBut.trans (h : b.SameBut may b') (h' : b'.SameBut may b'') : b.SameBut may b'' := by
  intro t
  have hfirst := h t
  have hrest := h' t
  generalize b.records.get? t = x at hfirst ⊢
  generalize b'.records.get? t = y at hfirst hrest
  generalize b''.records.get? t = z at hrest ⊢
  cases hfirst with
  | some hsame =>
    cases hrest with
    | some hsame' => exact .some (hsame.trans hsame')
  | none =>
    cases hrest with
    | none => exact .none

theorem sameBut_of_transfer {token source target : Address} {amount : Nat}
    (hsource : may token source) (htarget : may token target)
    (h : b.transfer token source target amount = .ok b') : b.SameBut may b' := by
  obtain ⟨-, r, hr, -, ⟨-, rfl⟩ | ⟨-, -, rfl⟩⟩ := transfer_eq_ok.1 h
  · exact .refl may b'
  intro t
  rw [OrderedMap.get?_insert]
  by_cases ht : t = token
  · subst ht
    rw [hr, if_pos rfl]
    exact .some (TokenRecord.sameBut_moved hsource htarget)
  · rw [if_neg ht]
    exact SameBut.refl may b t

end TokenBook

namespace Protocol

variable {p q r : Protocol} {u : Unit} {pools : List Address} {a t : Address}

/-! ## Footprints -/

/-- Whether a balance is that of a listed pool in its underlyer, or that of the LP account in it. -/
def Named (p : Protocol) (pools : List Address) (t a : Address) : Prop :=
  ∃ pool ∈ pools, ∃ s, p.pool pool = .ok s ∧ s.underlyer = t ∧
    (a = pool ∨ a = p.lpAccount.address)

/-- Nothing has changed but meta shares of the listed pools and their supply, named balances, the tokens
of the allocation, the end of the lock and the log, to which something has been added. -/
structure Footprint (pools : List Address) (p q : Protocol) : Prop where
  state : q = { p with
    tokens := q.tokens
    metaToken := { p.metaToken with shares := q.metaToken.shares }
    allocation := { p.allocation with tokens := q.allocation.tokens }
    oracle := { p.oracle with lockEnd := q.oracle.lockEnd }
    log := q.log }
  log : p.log <+: q.log
  metaShares : ∀ a, a ∉ pools → q.metaToken.shares.balances.get? a = p.metaToken.shares.balances.get? a
  tokens : p.tokens.SameBut (p.Named pools) q.tokens

theorem Footprint.refl (pools : List Address) (p : Protocol) : Footprint pools p p :=
  ⟨rfl, List.prefix_refl _, fun _ _ => rfl, .refl _ _⟩

theorem named_congr (hpools : q.pools = p.pools) (hlp : q.lpAccount = p.lpAccount)
    (pools : List Address) : q.Named pools = p.Named pools := by
  funext t a
  simp only [Named, pool_of_eq hpools, hlp]

theorem Footprint.trans (h : Footprint pools p r) (h' : Footprint pools r q) : Footprint pools p q where
  state := by
    rw [h'.state, h.state]
  log := h.log.trans h'.log
  metaShares a ha := (h'.metaShares a ha).trans (h.metaShares a ha)
  tokens := by
    have hpools : r.pools = p.pools := by rw [h.state]
    have hlp : r.lpAccount = p.lpAccount := by rw [h.state]
    have hrest := h'.tokens
    rw [named_congr hpools hlp] at hrest
    exact h.tokens.trans hrest

theorem footprint_registerUnderlyer (h : registerUnderlyer a p = .ok u q) : Footprint pools p q := by
  obtain ⟨s, -, ⟨-, rfl⟩ | ⟨-, info, allocation, -, hregister, rfl⟩⟩ := registerUnderlyer_eq_ok.1 h
  · exact .refl pools q
  · obtain ⟨-, -, -, rfl⟩ := Allocation.register_eq_ok.1 hregister
    exact ⟨rfl, List.prefix_append _ _, fun _ _ => rfl, .refl _ _⟩

theorem footprint_lockAfterMove (h : lockAfterMove p = .ok u q) : Footprint pools p q := by
  obtain ⟨oracle, hlock, rfl⟩ := lockAfterMove_eq_ok.1 h
  obtain ⟨-, -, rfl⟩ := Oracle.lock_eq_ok.1 hlock
  exact ⟨rfl, List.prefix_append _ _, fun _ _ => rfl, .refl _ _⟩

theorem footprint_leg {kind : LegKind} {shares amount : Nat} (ha : a ∈ pools)
    (h : kind.leg a shares amount p = .ok u q) : Footprint pools p q := by
  obtain ⟨-, rfl⟩ | ⟨-, metaToken, s, tokens, hchange, hs, -, ht, rfl⟩ := LegKind.leg_eq_ok.1 h
  · exact .refl pools q
  have hnamed {b : Address} (hb : b = a ∨ b = p.lpAccount.address) : p.Named pools s.underlyer b :=
    ⟨a, ha, s, hs, rfl, hb⟩
  refine ⟨?_, List.prefix_append _ _, fun b hb => ?_, ?_⟩
  · rw [afterLeg, ← LegKind.eq_of_change hchange]
  · have hne : b ≠ a := fun e => hb (e ▸ ha)
    exact LegKind.get?_of_change hchange hne
  · exact TokenBook.sameBut_of_transfer (hnamed (kind.source_eq _ _)) (hnamed (kind.target_eq _ _)) ht

theorem footprint_of_batch (kind : LegKind) {amounts : List Nat} (h : Batch kind.leg pools amounts p q) :
    Footprint pools p q := by
  obtain ⟨r, hlisted, hmove⟩ := h
  obtain ⟨deltas, r', -, hlegs, hlock⟩ := moveBatch_eq_ok.1 hmove
  have hlist : Footprint pools p r :=
    forM_preserves (fun _ _ _ _ hI h => hI.trans (footprint_registerUnderlyer h)) (.refl pools p) hlisted
  have hwalk : Footprint pools p r' := by
    refine forM_preserves (fun c hc _ _ hI h => hI.trans (footprint_leg ?_ h)) hlist hlegs
    exact (List.of_mem_zip (List.of_mem_zip hc).1).1
  exact hwalk.trans (footprint_lockAfterMove hlock)

/-! ## Capital against meta shares -/

/-- The account gives some of the token exactly if it gets meta shares. -/
structure GivesForShares (p q : Protocol) (t a : Address) : Prop where
  gives : q.tokens.held t a ≤ p.tokens.held t a
  gets : p.metaToken.balanceOf a ≤ q.metaToken.balanceOf a
  exchange : q.tokens.held t a < p.tokens.held t a ↔ p.metaToken.balanceOf a < q.metaToken.balanceOf a

/-- A pool moves nothing exactly if its legs have no meta shares. -/
theorem movedAt_eq_zero_iff {s : Pool} {legs : List Leg} (hs : p.pool a = .ok s)
    (hlegs : ∀ leg ∈ legs, leg.2 ≠ 0 → leg.1.2 ≠ 0) :
    p.movedAt s.underlyer a legs = 0 ↔ burned a legs = 0 := by
  simp only [movedAt, burned, List.sum_eq_zero_iff, List.forall_mem_map]
  refine forall₂_congr fun leg hleg => ?_
  by_cases ha : a = leg.1.1
  · have hmoves := hlegs leg hleg
    rw [if_pos ha, if_pos ha.symm, drawnBy_of_pool (ha ▸ hs)]
    by_cases hdelta : leg.2 = 0 <;> simp_all
  · rw [if_neg ha, if_neg (Ne.symm ha)]

theorem givesForShares_of_sent {s : Pool} {legs : List Leg} (hp : PoolsApart p)
    (hs : p.pool a = .ok s) (hlegs : ∀ leg ∈ legs, leg.2 ≠ 0 → leg.1.2 ≠ 0) (h : Sent legs p q) :
    GivesForShares p q s.underlyer a := by
  have htokens := h.tokens s.underlyer a
  have hshares := h.metaShares a
  have hiff := movedAt_eq_zero_iff hs hlegs
  rw [if_neg (hp a s hs)] at htokens
  exact ⟨by omega, by omega, by omega⟩

end Protocol

namespace Operation

/-! ## Rebalances -/

open Protocol

variable {p q : Protocol} {op : Operation} {out : Outcome}

/-- The pools that a rebalance names. -/
def listed (op : Operation) (p : Protocol) : Except Fault (List Address) :=
  match op with
  | sendSurplus _ ids | recallShortfall _ ids => p.poolAddresses ids
  | sendByHand _ pools _ | recallByHand _ pools _ => .ok pools
  | _ => .ok []

/-- Whether a rebalance sends capital to the LP account. -/
def isSend : Operation → Bool
  | sendSurplus _ _ | sendByHand _ _ _ => true
  | _ => false

/-- The amounts that a rebalance is to move, and the pools for them. -/
def entries (op : Operation) (p : Protocol) : Except Fault (List (Address × Nat)) :=
  match op with
  | sendSurplus _ ids => do
    let (pools, topUps) ← p.rebalanceAmounts ids
    return pools.zip (surpluses topUps)
  | recallShortfall _ ids => do
    let (pools, topUps) ← p.rebalanceAmounts ids
    let amounts ← cappedShortfalls topUps (← p.lpHoldings pools)
    return pools.zip amounts
  | sendByHand _ pools amounts | recallByHand _ pools amounts => .ok (pools.zip amounts)
  | _ => .ok []

/-- A successful rebalance is a batch of its entries, for the pools that it names. -/
theorem batch_of_rebalance (hop : op.isRebalance = true) (h : op.perform p = .ok out q) :
    ∃ pools amounts, op.listed p = .ok pools ∧ op.entries p = .ok (pools.zip amounts) ∧
      (op.isSend = true ∧ Batch mintAndSend pools amounts p q ∨
        op.isSend = false ∧ Batch burnAndReturn pools amounts p q) := by
  cases op with
  | sendSurplus =>
    obtain ⟨amounts, -, h⟩ := reply_eq_ok.1 h
    obtain ⟨-, pools, topUps, hread, rfl, hbatch⟩ := sendSurplus_eq_ok.1 h
    refine ⟨pools, _, (rebalanceAmounts_eq_ok.1 hread).1, ?_, .inl ⟨rfl, hbatch⟩⟩
    exact except_bind_eq_ok.2 ⟨_, hread, rfl⟩
  | recallShortfall =>
    obtain ⟨amounts, -, h⟩ := reply_eq_ok.1 h
    obtain ⟨-, pools, topUps, available, hread, hheld, hcap, hbatch⟩ := recallShortfall_eq_ok.1 h
    refine ⟨pools, amounts, (rebalanceAmounts_eq_ok.1 hread).1, ?_, .inr ⟨rfl, hbatch⟩⟩
    refine except_bind_eq_ok.2 ⟨_, hread, ?_⟩
    exact except_bind_eq_ok.2 ⟨_, hheld, except_bind_eq_ok.2 ⟨_, hcap, rfl⟩⟩
  | sendByHand _ pools amounts =>
    obtain ⟨-, -, hbatch⟩ := sendByHand_eq_ok.1 (complete_eq_ok.1 h).2
    exact ⟨pools, amounts, rfl, rfl, .inl ⟨rfl, hbatch⟩⟩
  | recallByHand _ pools amounts =>
    obtain ⟨-, -, hbatch⟩ := recallByHand_eq_ok.1 (complete_eq_ok.1 h).2
    exact ⟨pools, amounts, rfl, rfl, .inr ⟨rfl, hbatch⟩⟩
  | _ => cases hop

theorem batch_of_listed (hop : op.isRebalance = true) (h : op.perform p = .ok out q) :
    ∃ pools amounts, op.listed p = .ok pools ∧
      (op.isSend = true ∧ Batch mintAndSend pools amounts p q ∨
        op.isSend = false ∧ Batch burnAndReturn pools amounts p q) := by
  obtain ⟨pools, amounts, hlisted, -, hbatch⟩ := batch_of_rebalance hop h
  exact ⟨pools, amounts, hlisted, hbatch⟩

end Operation

namespace Protocol

/-- In every reachable state a successful rebalance leaves its footprint on the pools that it names and on
nothing else, keeps what the pools and the LP account hold together of every token, and each named pool
gives capital exactly if it gets meta shares, or gets capital exactly if it gives up meta shares. -/
theorem rebalance_footprint (p : Protocol) (h : Reachable p) (op : Operation)
    (hop : op.isRebalance = true) (out : Outcome) (q : Protocol) (hok : op.perform p = .ok out q) :
    ∃ pools, op.listed p = .ok pools ∧ Footprint pools p q ∧ (∀ t, q.capital t = p.capital t) ∧
      ∀ a ∈ pools, ∃ s, p.pool a = .ok s ∧
        (op.isSend = true → GivesForShares p q s.underlyer a) ∧
        (op.isSend = false → GivesForShares q p s.underlyer a) := by
  obtain ⟨pools, amounts, hlisted, ⟨hsend, hbatch⟩ | ⟨hsend, hbatch⟩⟩ := Operation.batch_of_listed hop hok
  · obtain ⟨deltas, hdeltas, hsent⟩ := sent_of_sendBatch hbatch
    refine ⟨pools, hlisted, footprint_of_batch .sends hbatch, hsent.capital_eq h.poolsApart,
      fun a ha => ?_⟩
    obtain ⟨s, hs⟩ := pool_of_metaDeltas hdeltas ha
    exact ⟨s, hs, fun _ => givesForShares_of_sent h.poolsApart hs (amount_of_delta hdeltas) hsent,
      fun hrecall => absurd (hsend.symm.trans hrecall) nofun⟩
  · obtain ⟨deltas, hdeltas, hsent⟩ := sent_of_recallBatch hbatch
    have hq : PoolsApart q := h.poolsApart.congr hsent.pools.symm hsent.lpAccount.symm
    refine ⟨pools, hlisted, footprint_of_batch .recalls hbatch, fun t => (hsent.capital_eq hq t).symm,
      fun a ha => ?_⟩
    obtain ⟨s, hs⟩ := pool_of_metaDeltas hdeltas ha
    have hs' : q.pool a = .ok s := by rw [pool_of_eq hsent.pools.symm, hs]
    exact ⟨s, hs, fun hrecall => absurd (hsend.symm.trans hrecall) nofun,
      fun _ => givesForShares_of_sent hq hs' (amount_of_delta hdeltas) hsent⟩

/-- One of the amounts is worth nothing, so that its leg is skipped. -/
def sendWithDust : Operation :=
  .sendByHand ⟨"emergencySafe"⟩ [⟨"usdcPool"⟩, ⟨"daiPool"⟩] [100, 10 ^ 9]

theorem rebalance_footprint_sendWithDust : ∃ out q, sendWithDust.perform twoIdle = .ok out q ∧
    Footprint [⟨"usdcPool"⟩, ⟨"daiPool"⟩] twoIdle q ∧
    (∀ t, q.capital t = twoIdle.capital t) ∧
    q.tokens.held ⟨"USDC"⟩ ⟨"usdcPool"⟩ < twoIdle.tokens.held ⟨"USDC"⟩ ⟨"usdcPool"⟩ ∧
    q.tokens.held ⟨"DAI"⟩ ⟨"daiPool"⟩ = twoIdle.tokens.held ⟨"DAI"⟩ ⟨"daiPool"⟩ := by
  obtain ⟨out, hok⟩ : ∃ out, sendWithDust.perform twoIdle =
      .ok out (twoIdle.after sendWithDust) := perform_of_not_fails (by decide +kernel)
  obtain ⟨pools, hlisted, hfootprint, hcapital, hpools⟩ :=
    rebalance_footprint twoIdle (reachable_initial.run _) sendWithDust rfl out _ hok
  obtain rfl := Except.ok.inj hlisted
  have hgives {a t : Address} (ha : a ∈ [(⟨"usdcPool"⟩ : Address), ⟨"daiPool"⟩])
      (ht : ((twoIdle.pool a).map (·.underlyer)).toOption = some t) :
      GivesForShares twoIdle (twoIdle.after sendWithDust) t a := by
    obtain ⟨s, hs, hsend, -⟩ := hpools a ha
    rw [hs] at ht
    exact Option.some.inj ht ▸ hsend rfl
  refine ⟨out, _, hok, hfootprint, hcapital, ?_, ?_⟩
  · exact (hgives (by decide) (by decide +kernel)).exchange.2 (by decide +kernel)
  · have hdust := hgives (a := ⟨"daiPool"⟩) (t := ⟨"DAI"⟩) (by decide) (by decide +kernel)
    have hnone := hdust.exchange.not.2 (by decide +kernel)
    exact Nat.le_antisymm hdust.gives (Nat.not_lt.1 hnone)

end Protocol

end MetaPool
