import MetaPool.Proofs.Deployment.Pools
import MetaPool.Proofs.Ledger.Shares
import MetaPool.Protocol.Health

/-!
# The books are always consistent

`Books` says of a state what its audit checks: the meta shares sum to their supply and are held at
pools alone, and the shares of every pool sum to its supply. Deployments open empty books, every
successful operation preserves `Books` and a failed one changes nothing.

    Books p → p.audit = .ok ()                                      (audit_of_books)
    Reachable p → Books p                                           (Reachable.books)

A leg of a batch writes the meta shares before it is known whether their pool exists; it is the move
of capital after it that fails for an unknown pool. So a leg preserves `Books` as a whole, not write
by write.
-/

namespace MetaPool.Protocol

/-- The meta shares and the shares of every pool are balanced, and only pools hold meta shares. -/
structure Books (p : Protocol) : Prop where
  metaShares : p.metaToken.shares.Balanced
  metaHolder : ∀ a v, p.metaToken.shares.balances.get? a = some v → ∃ s, p.pools.get? a = some s
  poolShares : ∀ a s, p.pools.get? a = some s → s.shares.Balanced

variable {p q : Protocol} {u : Unit}

/-! ## The audit -/

/-- What the pools hold together is the whole supply of meta shares. -/
theorem sum_metaShares (h : Books p) :
    (p.pools.keys.map p.metaToken.balanceOf).sum = p.metaToken.supply := by
  have htotal : p.metaToken.shares.balances.total = p.metaToken.supply := h.metaShares.total_eq
  rw [← htotal]
  apply OrderedMap.sum_lookup p.pools.keys_nodup
  intro a v ha
  exact OrderedMap.mem_keys.2 (h.metaHolder a v ha)

theorem metaSharesOfPools_eq (h : Books p) : p.metaSharesOfPools = .ok p.metaToken.supply := by
  have hsum := sum_metaShares h
  have hle : p.metaToken.supply ≤ maxAmount := h.metaShares.supply_le
  unfold metaSharesOfPools
  rw [Checked.foldlM_add (by omega), hsum, Nat.zero_add]

theorem audit_of_books (h : Books p) : p.audit = .ok () := by
  have hmeta : p.metaToken.shares.isConsistent = true :=
    ShareBook.isConsistent_iff.2 h.metaShares
  unfold audit
  rw [if_neg (by simp [hmeta])]
  refine except_bind_eq_ok.2 ⟨_, metaSharesOfPools_eq h, ?_⟩
  rw [if_neg (not_not.2 rfl)]
  rw [except_forM_eq_ok]
  intro s hs
  obtain ⟨a, ha⟩ := OrderedMap.mem_values.1 hs
  exact if_pos (ShareBook.isConsistent_iff.2 (h.poolShares a s ha))

/-! ## Deployments -/

theorem books_of_deploy {plan : Plan} {clock : Clock} (h : Protocol.deploy plan clock = .ok p) :
    Books p := by
  have hempty : ∀ a s, p.pool a = .ok s → s.shares = .empty := by
    intro a s hs
    obtain ⟨pool, -, -, hnew⟩ := pool_of_deploy h hs
    obtain ⟨-, -, -, rfl⟩ := Pool.new_eq_ok.1 hnew
    rfl
  simp only [Protocol.deploy, except_bind_eq_ok, except_pure_eq_ok] at h
  obtain ⟨_, -, base, -, _, -, _, -, _, -, _, -, rfl⟩ := h
  refine ⟨ShareBook.balanced_empty, fun a shares h => ?_, fun a s ha => ?_⟩
  · cases h
  · rw [hempty a s (pool_eq_ok.2 ha)]
    exact ShareBook.balanced_empty

/-! ## Steps -/

theorem balanced_of_change {op : Operation} {a : Address} {s s' : Pool} (hs : s.shares.Balanced)
    (h : s.Change op a s') : s'.shares.Balanced := by
  cases h with
  | deposit caller amount shares time hop h =>
    obtain ⟨book, hmint, rfl⟩ := Pool.addDeposit_eq_ok.1 h
    exact ShareBook.balanced_mint hs hmint
  | redeem caller shares hop h =>
    obtain ⟨book, hburn, rfl⟩ := Pool.takeShares_eq_ok.1 h
    exact ShareBook.balanced_burn hs hburn
  | control h => rwa [h.shares]

/-- Nothing but pools and meta shares is in the books. -/
theorem books_congr (hpools : q.pools = p.pools) (hmeta : q.metaToken = p.metaToken) (h : Books p) :
    Books q := by
  obtain ⟨hbalanced, hholder, hshares⟩ := h
  rw [← hmeta] at hbalanced hholder
  rw [← hpools] at hholder hshares
  exact ⟨hbalanced, hholder, hshares⟩

/-- A change of one pool, while the meta shares stay. -/
theorem books_of_poolStep {op : Operation} (h : Books p) (hstep : PoolStep op p q)
    (hmeta : q.metaToken = p.metaToken) : Books q := by
  rcases hstep with hpools | ⟨a, s, s', hs, hchange, hpools⟩
  · exact books_congr hpools hmeta h
  · obtain ⟨hbalanced, hholder, hshares⟩ := h
    rw [← hmeta] at hbalanced hholder
    have hs := pool_eq_ok.1 hs
    refine ⟨hbalanced, ?_, ?_⟩
    · intro b v hb
      obtain ⟨t, ht⟩ := hholder b v hb
      rw [hpools, OrderedMap.get?_insert]
      split
      · exact ⟨s', rfl⟩
      · exact ⟨t, ht⟩
    · intro b t hb
      rw [hpools, OrderedMap.get?_insert] at hb
      split at hb
      · obtain rfl := Option.some.inj hb
        exact balanced_of_change (hshares a s hs) hchange
      · exact hshares b t hb

/-- A change of the meta shares of one pool, while the pools stay. -/
theorem books_of_metaStep {a : Address} {s : Pool} (h : Books p) (hpools : q.pools = p.pools)
    (hs : p.pool a = .ok s) (hbalanced : q.metaToken.shares.Balanced)
    (hholder : ∀ b v, q.metaToken.shares.balances.get? b = some v →
      b = a ∨ ∃ w, p.metaToken.shares.balances.get? b = some w) : Books q := by
  refine ⟨hbalanced, ?_, ?_⟩
  · intro b v hb
    rw [hpools]
    rcases hholder b v hb with rfl | ⟨w, hw⟩
    · exact ⟨s, pool_eq_ok.1 hs⟩
    · exact h.metaHolder b w hw
  · rw [hpools]
    exact h.poolShares

theorem books_mintAndSend {pool : Address} {shares amount : Nat} (h : Books p)
    (hok : mintAndSend pool shares amount p = .ok u q) : Books q := by
  obtain ⟨-, rfl⟩ | ⟨-, metaToken, hmint, hsend⟩ := mintAndSend_eq_ok.1 hok
  · exact h
  · obtain ⟨s, tokens, hs, -, -, rfl⟩ := sendToLpAccount_eq_ok.1 hsend
    obtain ⟨book, hbook, rfl⟩ := MetaToken.mint_eq_ok.1 hmint
    refine books_of_metaStep h rfl hs (ShareBook.balanced_mint h.metaShares hbook) ?_
    exact fun b v hb => ShareBook.holder_of_mint hbook hb

theorem books_burnAndReturn {pool : Address} {shares amount : Nat} (h : Books p)
    (hok : burnAndReturn pool shares amount p = .ok u q) : Books q := by
  obtain ⟨-, rfl⟩ | ⟨-, metaToken, hburn, hreturn⟩ := burnAndReturn_eq_ok.1 hok
  · exact h
  · obtain ⟨-, s, tokens, hs, -, rfl⟩ := returnToPool_eq_ok.1 hreturn
    obtain ⟨book, hbook, rfl⟩ := MetaToken.burn_eq_ok.1 hburn
    refine books_of_metaStep h rfl hs (ShareBook.balanced_burn h.metaShares hbook) ?_
    exact fun b v hb => ShareBook.holder_of_burn hbook hb

/-- Neither the allocation nor the oracle is in the books. -/
theorem books_of_frame (hframe : Frame [.allocation, .oracle] p q) (h : Books p) : Books q := by
  have hpools : q.pools = p.pools := hframe .pools (by simp)
  have hmeta : q.metaToken = p.metaToken := hframe .metaToken (by simp)
  exact books_congr hpools hmeta h

theorem books_of_sendBatch {pools : List Address} {amounts : List Nat} (h : Books p)
    (hbatch : Batch mintAndSend pools amounts p q) : Books q :=
  hbatch.preserves (fun _ _ => books_of_frame) (fun _ _ _ _ _ => books_mintAndSend) h

theorem books_of_recallBatch {pools : List Address} {amounts : List Nat} (h : Books p)
    (hbatch : Batch burnAndReturn pools amounts p q) : Books q :=
  hbatch.preserves (fun _ _ => books_of_frame) (fun _ _ _ _ _ => books_burnAndReturn) h

/-- Only the batches write meta shares. All else is at most a change of one pool. -/
theorem books_of_ok {op : Operation} {out : Outcome} (h : Books p)
    (hok : op.perform p = .ok out q) : Books q := by
  by_cases hop : op.isRebalance = true
  · obtain ⟨pools, amounts, hbatch | hbatch⟩ := Operation.batch_of_ok hop hok
    · exact books_of_sendBatch h hbatch
    · exact books_of_recallBatch h hbatch
  · have hw : .metaToken ∉ op.writes := mt Operation.metaToken_mem_writes.1 hop
    exact books_of_poolStep h (Operation.pools_of_ok hok) (Operation.frame_of_ok hok .metaToken hw)

theorem Reachable.books (h : Reachable p) : Books p :=
  h.invariant (fun _ _ _ => books_of_deploy) fun _ _ _ _ => books_of_ok

/-- In every reachable state the audit passes: the meta shares sum to their supply, every meta share
is held by a deployed pool, and the shares of every pool sum to its supply. -/
theorem audit_of_reachable (p : Protocol) (h : Reachable p) :
    p.audit = .ok () ∧
      p.metaToken.shares.balances.total = p.metaToken.supply ∧
      (∀ a, 0 < p.metaToken.balanceOf a → ∃ s, p.pool a = .ok s) ∧
      ∀ a s, p.pool a = .ok s → s.shares.balances.total = s.shares.supply := by
  have hbooks := h.books
  refine ⟨audit_of_books hbooks, hbooks.metaShares.total_eq, ?_, ?_⟩
  · intro a ha
    cases hv : p.metaToken.shares.balances.get? a with
    | none => simp [MetaToken.balanceOf, ShareBook.balanceOf, hv] at ha
    | some v =>
      obtain ⟨s, hs⟩ := hbooks.metaHolder a v hv
      exact ⟨s, pool_eq_ok.2 hs⟩
  · intro a s hs
    exact (hbooks.poolShares a s (pool_eq_ok.1 hs)).total_eq

/-- A deposit, part of which goes to the LP account, and a batch that fails at a pool that is not
deployed. -/
def deployedCapital : Protocol :=
  initial.run [.mintTokens ⟨"USDC"⟩ ⟨"alice"⟩ 1000, .approve ⟨"USDC"⟩ ⟨"alice"⟩ ⟨"usdcPool"⟩ 1000,
    .deposit ⟨"alice"⟩ ⟨"usdcPool"⟩ 1000, .sendByHand ⟨"emergencySafe"⟩ [⟨"usdcPool"⟩] [400],
    .sendByHand ⟨"emergencySafe"⟩ [⟨"usdcPool"⟩, ⟨"other"⟩] [100, 100]]

theorem audit_deployedCapital :
    0 < deployedCapital.metaToken.supply ∧ Reachable deployedCapital ∧
      deployedCapital.audit = .ok () := by
  have hreachable : Reachable deployedCapital := reachable_initial.run _
  exact ⟨by decide +kernel, hreachable, (audit_of_reachable _ hreachable).1⟩

end MetaPool.Protocol
