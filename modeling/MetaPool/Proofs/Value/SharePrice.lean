import MetaPool.Proofs.Value.Exchange

/-!
# The share price never falls

`PriceLe p q a` says that the total value per share of a pool is no lower in `q` than in `p`, by its
cross product. Every deposit and every redemption is such a step, for its own pool by the rounding
of `Snapshot` and for the others because they do not see it. Steps chain as long as there are shares
in between.

    PriceLe p (p.after op) a                                        (priceLe_after)
    PriceLe p (p.run ops) a                                         (priceLe_run)
-/

namespace MetaPool

namespace Protocol

variable {p q : Protocol} {a pool caller : Address} {s : Snapshot}

/-! ## One exchange -/

/-- On the way from `p` to `q` the total value of a pool stays readable and its price per share does
not fall. -/
def PriceLe (p q : Protocol) (a : Address) : Prop :=
  ∀ v, p.poolValue a = .ok v →
    ∃ v', q.poolValue a = .ok v' ∧ v * q.shareSupply a ≤ v' * p.shareSupply a

theorem PriceLe.refl (p : Protocol) (a : Address) : PriceLe p p a :=
  fun v hv => ⟨v, hv, Nat.le_refl _⟩

/-- Prices are compared through one at which there are shares. -/
theorem PriceLe.trans {r : Protocol} (h : PriceLe p q a) (h' : PriceLe q r a)
    (hq : 0 < q.shareSupply a) : PriceLe p r a := by
  intro v hv
  obtain ⟨v', hv', hle⟩ := h v hv
  obtain ⟨v'', hv'', hle'⟩ := h' v' hv'
  refine ⟨v'', hv'', Nat.le_of_mul_le_mul_right ?_ hq⟩
  calc v * r.shareSupply a * q.shareSupply a
      = v * q.shareSupply a * r.shareSupply a := Nat.mul_right_comm _ _ _
    _ ≤ v' * p.shareSupply a * r.shareSupply a := Nat.mul_le_mul_right _ hle
    _ = v' * r.shareSupply a * p.shareSupply a := Nat.mul_right_comm _ _ _
    _ ≤ v'' * q.shareSupply a * p.shareSupply a := Nat.mul_le_mul_right _ hle'
    _ = v'' * p.shareSupply a * q.shareSupply a := Nat.mul_right_comm _ _ _

theorem Exchange.priceLe_ne (h : Exchange p q caller pool) (hpool : a ≠ pool)
    (hcaller : a ≠ caller) : PriceLe p q a := by
  intro v hv
  obtain ⟨s, hsnap, hvalue⟩ := poolValue_eq_ok.1 hv
  have hsnap' := h.snapshot_ne hpool hcaller hsnap
  refine ⟨v, poolValue_eq_ok.2 ⟨s, hsnap', hvalue⟩, Nat.le_of_eq ?_⟩
  rw [shareSupply_of_snapshot hsnap, shareSupply_of_snapshot hsnap']

theorem priceLe_of_snapshots {s' : Snapshot} {v' : Nat} (hsnap : p.snapshot a = .ok s)
    (hsnap' : q.snapshot a = .ok s') (hv' : q.poolValue a = .ok v')
    (hle : s.value * s'.shareSupply ≤ s'.value * s.shareSupply) : PriceLe p q a := by
  intro v hv
  obtain ⟨s₁, hs₁, hvalue⟩ := poolValue_eq_ok.1 hv
  obtain rfl : s = s₁ := ok_unique hsnap hs₁
  obtain ⟨s₂, hs₂, hvalue'⟩ := poolValue_eq_ok.1 hv'
  obtain rfl : s' = s₂ := ok_unique hsnap' hs₂
  obtain ⟨-, rfl, -⟩ := Snapshot.totalValue_eq_ok.1 hvalue
  obtain ⟨-, rfl, -⟩ := Snapshot.totalValue_eq_ok.1 hvalue'
  refine ⟨_, hv', ?_⟩
  rwa [shareSupply_of_snapshot hsnap, shareSupply_of_snapshot hsnap']

theorem priceLe_of_deposit {amount shares : Nat} (h : deposit caller pool amount p = .ok shares q)
    (hcaller : caller ≠ a) (hS : 0 < p.shareSupply a) : PriceLe p q a := by
  by_cases ha : a = pool
  · subst ha
    obtain ⟨_, _, _, v', -, -, -, -, hmint, -, -, hv', hq⟩ := deposit_eq_ok.1 h
    obtain ⟨s, hsnap, hm⟩ := sharesFor_of_mintAmount hmint hS
    rw [shareSupply_of_snapshot hsnap] at hS
    have hv' : q.poolValue a = .ok v' := by rw [hq]; exact hv'
    exact priceLe_of_snapshots hsnap (snapshot_of_deposit h hcaller hsnap) hv'
      (Snapshot.price_of_sharesFor hm (by omega))
  · exact (exchange_of_deposit h).priceLe_ne ha (Ne.symm hcaller)

theorem priceLe_of_redeem {shares paid : Nat} (h : redeem caller pool shares p = .ok paid q)
    (hcaller : caller ≠ a) : PriceLe p q a := by
  by_cases ha : a = pool
  · subst ha
    obtain ⟨_, _, _, _, quote, v', -, -, hne, -, hquote, rfl, -, -, -, -, hv', hq⟩ :=
      redeem_eq_ok.1 h
    obtain ⟨_, base, -, hbase, hof⟩ := quote_eq_ok.1 hquote
    obtain ⟨s, hsnap, hunits⟩ := unitsFor_of_underlyerFor hbase hne
    obtain ⟨hle, hsnap'⟩ := snapshot_of_redeem h hcaller hsnap
    have hv' : q.poolValue a = .ok v' := by rw [hq]; exact hv'
    exact priceLe_of_snapshots hsnap hsnap' hv'
      (Snapshot.price_of_unitsFor hunits (RedemptionQuote.net_le_base hof) hle)
  · exact (exchange_of_redeem h).priceLe_ne ha (Ne.symm hcaller)

/-! ## Runs of exchanges -/

/-- A deposit or a redemption by an account at which no pool is deployed. -/
def IsExchange (p : Protocol) : Operation → Prop
  | .deposit caller _ _ | .redeem caller _ _ => caller ∉ p.pools.keys
  | _ => False

instance (p : Protocol) (op : Operation) : Decidable (p.IsExchange op) := by
  cases op <;> unfold IsExchange <;> infer_instance

theorem isExchange_after (p : Protocol) (op op' : Operation) :
    (p.after op).IsExchange op' ↔ p.IsExchange op' := by
  cases op' with
  | deposit | redeem => exact not_congr (mem_keys_after p op _)
  | _ => exact Iff.rfl

theorem priceLe_after {op : Operation} (hop : p.IsExchange op) (hS : 0 < p.shareSupply a) :
    PriceLe p (p.after op) a := by
  have ha := mem_keys_of_shareSupply hS
  cases hrun : op.perform p with
  | error fault q =>
    rw [after_of_error hrun]
    exact .refl p a
  | ok out q =>
    rw [after_of_ok hrun]
    cases op with
    | deposit caller pool amount =>
      obtain ⟨shares, -, h⟩ := Operation.reply_eq_ok.1 hrun
      exact priceLe_of_deposit h (fun e => hop (e ▸ ha)) hS
    | redeem caller pool shares =>
      obtain ⟨paid, -, h⟩ := Operation.reply_eq_ok.1 hrun
      exact priceLe_of_redeem h fun e => hop (e ▸ ha)
    | _ => exact hop.elim

theorem priceLe_run {ops : List Operation} (hops : ∀ op ∈ ops, p.IsExchange op)
    (hS : ∀ n ≤ ops.length, 0 < (p.run (ops.take n)).shareSupply a) :
    PriceLe p (p.run ops) a := by
  induction ops generalizing p with
  | nil => exact .refl p a
  | cons op ops ih =>
    rw [List.forall_mem_cons] at hops
    have hrest : ∀ n ≤ ops.length, 0 < ((p.after op).run (ops.take n)).shareSupply a :=
      fun n hn => hS (n + 1) (Nat.succ_le_succ hn)
    have hfirst : PriceLe p (p.after op) a := priceLe_after hops.1 (hS 0 (Nat.zero_le _))
    have htail : PriceLe (p.after op) ((p.after op).run ops) a :=
      ih (fun op' h => (isExchange_after p op op').2 (hops.2 op' h)) hrest
    exact hfirst.trans htail (hrest 0 (Nat.zero_le _))

/-- No run of deposits and redemptions, failed ones included, lowers the total value per share of
any pool that has shares throughout. -/
theorem sharePrice_mono (p : Protocol) (ops : List Operation) (a : Address) (v : Nat)
    (hops : ∀ op ∈ ops, p.IsExchange op)
    (hsupply : ∀ n ≤ ops.length, 0 < (p.run (ops.take n)).shareSupply a)
    (hv : p.poolValue a = .ok v) :
    ∃ v', (p.run ops).poolValue a = .ok v' ∧
      v * (p.run ops).shareSupply a ≤ v' * p.shareSupply a :=
  priceLe_run hops hsupply v hv

/-- Alice holds all shares of a pool, and Bob is about to deposit. -/
def oneHolder : Protocol :=
  initial.run [.mintTokens ⟨"USDC"⟩ ⟨"alice"⟩ 1000, .approve ⟨"USDC"⟩ ⟨"alice"⟩ ⟨"usdcPool"⟩ 1000,
    .deposit ⟨"alice"⟩ ⟨"usdcPool"⟩ 1000, .mintTokens ⟨"USDC"⟩ ⟨"bob"⟩ 333,
    .approve ⟨"USDC"⟩ ⟨"bob"⟩ ⟨"usdcPool"⟩ 333]

theorem sharePrice_mono_oneHolder :
    let ops := [Operation.deposit ⟨"bob"⟩ ⟨"usdcPool"⟩ 333,
      .redeem ⟨"alice"⟩ ⟨"usdcPool"⟩ 700000000000000001, .deposit ⟨"bob"⟩ ⟨"usdcPool"⟩ 1]
    ∃ v', (oneHolder.run ops).poolValue ⟨"usdcPool"⟩ = .ok v' ∧
      100000 * (oneHolder.run ops).shareSupply ⟨"usdcPool"⟩ ≤
        v' * oneHolder.shareSupply ⟨"usdcPool"⟩ :=
  sharePrice_mono _ _ _ _ (by decide +kernel) (by decide +kernel)
    (eq_ok_of_toOption (by decide +kernel))

end Protocol

end MetaPool
