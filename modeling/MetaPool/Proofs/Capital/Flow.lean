import MetaPool.Proofs.Capital.RoundTrip

/-!
# Flows

What a batch does to holdings is a sum over its legs. `Sent legs p q` says that from `p` to `q` each pool
has given what its own legs move, the LP account has got what all of them move, each pool has got the
meta shares of its own legs, and the supply has grown by all of them. A recall is the same read backwards.

    Batch mintAndSend pools amounts p q → Sent legs p q             (sent_of_sendBatch)
    Batch burnAndReturn pools amounts p q → Sent legs q p           (sent_of_recallBatch)
    Sent legs p q → q.capital t = p.capital t                       (Sent.capital_eq)
-/

namespace MetaPool.Protocol

variable {p q r : Protocol} {a t : Address} {u : Unit} {leg : Leg} {legs legs' : List Leg}
  {pools : List Address} {amounts : List Nat}

/-! ## Sums over legs -/

/-- What the legs of one account move of a token. -/
def movedAt (p : Protocol) (t a : Address) (legs : List Leg) : Nat :=
  (legs.map fun leg => if leg.1.1 = a then p.drawnBy t leg else 0).sum

theorem movedAt_cons (p : Protocol) (t a : Address) (leg : Leg) (legs : List Leg) :
    p.movedAt t a (leg :: legs) = (if leg.1.1 = a then p.drawnBy t leg else 0) + p.movedAt t a legs :=
  List.sum_cons

theorem movedAt_of_pools (h : q.pools = p.pools) (t a : Address) (legs : List Leg) :
    q.movedAt t a legs = p.movedAt t a legs := by
  have hleg (leg : Leg) : q.drawnBy t leg = p.drawnBy t leg := by
    rw [← drawn_singleton, ← drawn_singleton, drawn_of_pools h]
  simp only [movedAt, hleg]

theorem movedAt_of_fresh (h : a ∉ legs.map (·.1.1)) (t : Address) : p.movedAt t a legs = 0 := by
  refine List.sum_eq_zero_iff.2 (List.forall_mem_map.2 fun leg hleg => if_neg ?_)
  rintro rfl
  exact h (List.mem_map_of_mem hleg)

/-- Among distinct pools, each has but its own leg. -/
theorem sum_own_leg {f : Leg → Nat} (hnodup : (legs.map (·.1.1)).Nodup) (hleg : leg ∈ legs) :
    (legs.map fun l => if leg.1.1 = l.1.1 then f l else 0).sum = f leg := by
  induction legs with
  | nil => cases hleg
  | cons first legs ih =>
    rw [List.map_cons, List.nodup_cons] at hnodup
    rw [List.map_cons, List.sum_cons]
    rcases List.mem_cons.1 hleg with rfl | hleg
    · have hrest : (legs.map fun l => if leg.1.1 = l.1.1 then f l else 0).sum = 0 := by
        refine List.sum_eq_zero_iff.2 (List.forall_mem_map.2 fun l hl => if_neg fun e => ?_)
        exact hnodup.1 (e ▸ List.mem_map_of_mem hl)
      rw [if_pos rfl, hrest, Nat.add_zero]
    · have hne : leg.1.1 ≠ first.1.1 := fun e => hnodup.1 (e ▸ List.mem_map_of_mem hleg)
      rw [if_neg hne, Nat.zero_add, ih hnodup.2 hleg]

theorem movedAt_of_mem (hnodup : (legs.map (·.1.1)).Nodup) (hleg : leg ∈ legs) (t : Address) :
    p.movedAt t leg.1.1 legs = p.drawnBy t leg := by
  simp only [movedAt, eq_comm (b := leg.1.1)]
  exact sum_own_leg hnodup hleg

theorem burned_of_mem (hnodup : (legs.map (·.1.1)).Nodup) (hleg : leg ∈ legs) :
    burned leg.1.1 legs = leg.2 := sum_own_leg hnodup hleg

/-- Nothing is moved at an address without a pool. -/
theorem movedAt_of_error {fault : Fault} (h : p.pool a = .error fault) (t : Address)
    (legs : List Leg) : p.movedAt t a legs = 0 := by
  refine List.sum_eq_zero_iff.2 (List.forall_mem_map.2 fun leg _ => ?_)
  by_cases ha : leg.1.1 = a
  · rw [if_pos ha]
    simp only [drawnBy, ha, h]
  · exact if_neg ha

/-- The pools together move what all legs move. -/
theorem sum_movedAt (p : Protocol) (t : Address) (legs : List Leg) :
    (p.pools.keys.map fun a => p.movedAt t a legs).sum = p.drawn t legs := by
  induction legs with
  | nil => simp [movedAt, drawn]
  | cons leg legs ih =>
    have hown : (p.pools.keys.map fun a => if leg.1.1 = a then p.drawnBy t leg else 0).sum =
        p.drawnBy t leg := by
      rw [List.sum_map_eq_nsmul_single leg.1.1 _ fun a ha _ => if_neg (Ne.symm ha), if_pos rfl,
        p.pools.keys_nodup.count]
      split
      · exact one_nsmul _
      next hout =>
        cases hs : p.pool leg.1.1 with
        | ok s => exact absurd (mem_keys_of_pool hs) hout
        | error fault => simp [drawnBy, hs]
    simp only [movedAt_cons, drawn_cons, List.sum_map_add, hown, ih]

/-! ## Flows -/

/-- Capital has been sent, leg by leg. -/
structure Sent (legs : List Leg) (p q : Protocol) : Prop where
  pools : q.pools = p.pools
  lpAccount : q.lpAccount = p.lpAccount
  tokens : ∀ t a, q.tokens.held t a + p.movedAt t a legs =
    p.tokens.held t a + if a = p.lpAccount.address then p.drawn t legs else 0
  metaShares : ∀ a, q.metaToken.balanceOf a = p.metaToken.balanceOf a + burned a legs
  metaSupply : q.metaToken.supply = p.metaToken.supply + (legs.map (·.2)).sum

theorem Sent.refl (p : Protocol) : Sent [] p p where
  pools := rfl
  lpAccount := rfl
  tokens t a := by simp [movedAt, drawn]
  metaShares a := by simp [burned]
  metaSupply := rfl

theorem Sent.append (h : Sent legs p r) (h' : Sent legs' r q) : Sent (legs ++ legs') p q where
  pools := h'.pools.trans h.pools
  lpAccount := h'.lpAccount.trans h.lpAccount
  tokens t a := by
    have hfirst := h.tokens t a
    have hrest := h'.tokens t a
    rw [movedAt_of_pools h.pools, drawn_of_pools h.pools, h.lpAccount] at hrest
    simp only [movedAt, List.map_append, List.sum_append, drawn_append] at hfirst hrest ⊢
    by_cases ha : a = p.lpAccount.address
    all_goals
      simp only [ha, ↓reduceIte] at hfirst hrest ⊢
      omega
  metaShares a := by
    have hfirst := h.metaShares a
    have hrest := h'.metaShares a
    simp only [burned, List.map_append, List.sum_append] at hfirst hrest ⊢
    omega
  metaSupply := by
    rw [h'.metaSupply, h.metaSupply, List.map_append, List.sum_append, Nat.add_assoc]

theorem Sent.perm (h : Sent legs p q) (hperm : legs.Perm legs') : Sent legs' p q where
  pools := h.pools
  lpAccount := h.lpAccount
  tokens t a := by
    have hmoved : p.movedAt t a legs = p.movedAt t a legs' := (hperm.map _).sum_eq
    have hdrawn : p.drawn t legs = p.drawn t legs' := (hperm.map _).sum_eq
    rw [← hmoved, ← hdrawn, h.tokens]
  metaShares a := by
    have hburned : burned a legs = burned a legs' := (hperm.map _).sum_eq
    rw [← hburned, h.metaShares]
  metaSupply := by rw [h.metaSupply, (hperm.map _).sum_eq]

/-- A loan of one pool is a flow of one leg. -/
theorem sent_of_lent {s : Pool} (hs : p.pool leg.1.1 = .ok s) (hpools : q.pools = p.pools)
    (h : Lent p q leg.1.1 s.underlyer (movedFor leg.2 leg.1.2) leg.2) : Sent [leg] p q where
  pools := hpools
  lpAccount := h.lpAccount
  tokens t a := by
    have hlent := h.tokens t a
    have hmoved : p.drawnBy t leg = if t = s.underlyer then movedFor leg.2 leg.1.2 else 0 := by
      rw [drawnBy_of_pool hs, movedFor]
      by_cases hskip : leg.2 = 0 <;> by_cases ht : t = s.underlyer <;> simp [hskip, ht, eq_comm]
    simp only [movedAt, List.map_singleton, List.sum_singleton, drawn_singleton, hmoved]
    by_cases ht : t = s.underlyer <;> simp_all [eq_comm]
  metaShares a := by
    rw [h.metaShares, burned, List.map_singleton, List.sum_singleton]
  metaSupply := by rw [h.metaSupply, List.map_singleton, List.sum_singleton]

theorem sent_of_skipped (hskip : leg.2 = 0) (p : Protocol) : Sent [leg] p p where
  pools := rfl
  lpAccount := rfl
  tokens t a := by simp [movedAt, drawn, drawnBy_of_skipped hskip]
  metaShares a := by simp [burned, hskip]
  metaSupply := by simp [hskip]

theorem sent_of_mintAndSend (h : mintAndSend leg.1.1 leg.2 leg.1.2 p = .ok u q) :
    Sent [leg] p q := by
  have hframe : Frame [.tokens, .metaToken] p q :=
    (within_mintAndSend (by decide) (by decide) _ _ _).frame h
  obtain ⟨hskip, rfl⟩ | ⟨-, metaToken, -, hsend⟩ := mintAndSend_eq_ok.1 h
  · exact sent_of_skipped hskip q
  · obtain ⟨s, tokens, hs, -, -, -⟩ := sendToLpAccount_eq_ok.1 hsend
    exact sent_of_lent hs (hframe .pools (by decide)) (lent_of_mintAndSend hs h)

theorem sent_of_burnAndReturn (h : burnAndReturn leg.1.1 leg.2 leg.1.2 p = .ok u q) :
    Sent [leg] q p := by
  have hframe : Frame [.tokens, .metaToken] p q :=
    (within_burnAndReturn (by decide) (by decide) _ _ _).frame h
  have hpools : q.pools = p.pools := hframe .pools (by decide)
  obtain ⟨hskip, rfl⟩ | ⟨-, metaToken, -, hreturn⟩ := burnAndReturn_eq_ok.1 h
  · exact sent_of_skipped hskip q
  · obtain ⟨-, s, tokens, hs, -, -⟩ := returnToPool_eq_ok.1 hreturn
    have hs' : q.pool leg.1.1 = .ok s := by rw [pool_of_eq hpools]; exact hs
    exact sent_of_lent hs' hpools.symm (lent_of_burnAndReturn hs h)

theorem sent_of_sends
    (h : (legs.forM fun ((pool, amount), delta) => mintAndSend pool delta amount : Action Unit) p =
      .ok u q) : Sent legs p q := by
  induction legs generalizing p with
  | nil =>
    obtain ⟨-, rfl⟩ := pure_eq_ok.1 h
    exact .refl q
  | cons leg legs ih =>
    obtain ⟨⟨⟩, r, hleg, hlegs⟩ := bind_eq_ok.1 h
    exact (sent_of_mintAndSend hleg).append (ih hlegs)

/-- Backwards, a recall takes its legs from the last to the first. -/
theorem sent_of_walk (h : walk legs p = .ok u q) : Sent legs q p := by
  induction legs generalizing p with
  | nil =>
    obtain ⟨-, rfl⟩ := pure_eq_ok.1 h
    exact .refl q
  | cons leg legs ih =>
    obtain ⟨⟨⟩, r, hleg, hlegs⟩ := bind_eq_ok.1 h
    exact ((ih hlegs).append (sent_of_burnAndReturn hleg)).perm List.perm_append_comm

/-! ## Batches -/

/-- The pools and all holdings are the same. -/
structure SameLedgers (p q : Protocol) : Prop where
  pools : q.pools = p.pools
  lpAccount : q.lpAccount = p.lpAccount
  tokens : q.tokens = p.tokens
  metaToken : q.metaToken = p.metaToken

theorem SameLedgers.refl (p : Protocol) : SameLedgers p p := ⟨rfl, rfl, rfl, rfl⟩

theorem SameLedgers.symm (h : SameLedgers p q) : SameLedgers q p :=
  ⟨h.pools.symm, h.lpAccount.symm, h.tokens.symm, h.metaToken.symm⟩

theorem sameLedgers_of_frame (h : Frame [.allocation, .oracle] p q) : SameLedgers p q :=
  ⟨h .pools (by decide), h .lpAccount (by decide), h .tokens (by decide), h .metaToken (by decide)⟩

theorem sameLedgers_of_listed (h : pools.forM registerUnderlyer p = .ok u q) : SameLedgers p q :=
  sameLedgers_of_frame ((within_forM fun pool => within_registerUnderlyer (by decide) pool).frame h)

theorem Sent.congr {p' q' : Protocol} (h : Sent legs p q) (hp : SameLedgers p p')
    (hq : SameLedgers q q') : Sent legs p' q' where
  pools := by rw [hq.pools, h.pools, hp.pools]
  lpAccount := by rw [hq.lpAccount, h.lpAccount, hp.lpAccount]
  tokens t a := by
    rw [hq.tokens, hp.tokens, hp.lpAccount, movedAt_of_pools hp.pools, drawn_of_pools hp.pools,
      h.tokens]
  metaShares a := by rw [hq.metaToken, hp.metaToken, h.metaShares]
  metaSupply := by rw [hq.metaToken, hp.metaToken, h.metaSupply]

/-- A batch is a walk of its legs between two steps that change no holdings. -/
theorem legs_of_batch {leg : Address → Nat → Nat → Action Unit} (h : Batch leg pools amounts p q) :
    ∃ deltas p' q', p.metaDeltas pools amounts = .ok deltas ∧ SameLedgers p p' ∧
      (((pools.zip amounts).zip deltas).forM fun ((pool, amount), delta) =>
        leg pool delta amount : Action Unit) p' = .ok () q' ∧ SameLedgers q' q := by
  obtain ⟨p', hlisted, hmove⟩ := h
  obtain ⟨deltas, q', hdeltas, hlegs, hlock⟩ := moveBatch_eq_ok.1 hmove
  rw [metaDeltas_of_listed hlisted] at hdeltas
  exact ⟨deltas, p', q', hdeltas, sameLedgers_of_listed hlisted, hlegs,
    sameLedgers_of_frame ((within_lockAfterMove (by decide)).frame hlock)⟩

theorem sent_of_sendBatch (h : Batch mintAndSend pools amounts p q) :
    ∃ deltas, p.metaDeltas pools amounts = .ok deltas ∧
      Sent ((pools.zip amounts).zip deltas) p q := by
  obtain ⟨deltas, p', q', hdeltas, hp, hlegs, hq⟩ := legs_of_batch h
  exact ⟨deltas, hdeltas, (sent_of_sends hlegs).congr hp.symm hq⟩

theorem sent_of_recallBatch (h : Batch burnAndReturn pools amounts p q) :
    ∃ deltas, p.metaDeltas pools amounts = .ok deltas ∧
      Sent ((pools.zip amounts).zip deltas) q p := by
  obtain ⟨deltas, p', q', hdeltas, hp, hlegs, hq⟩ := legs_of_batch h
  exact ⟨deltas, hdeltas, (sent_of_walk hlegs).congr hq hp.symm⟩

/-! ## Capital -/

/-- What the pools and the LP account hold of a token together. -/
def capital (p : Protocol) (t : Address) : Nat :=
  (p.pools.keys.map (p.tokens.held t)).sum + p.tokens.held t p.lpAccount.address

/-- What the pools give is what the LP account gets. -/
theorem Sent.capital_eq (h : Sent legs p q) (hp : PoolsApart p) (t : Address) :
    q.capital t = p.capital t := by
  have hpools : (p.pools.keys.map (q.tokens.held t)).sum + p.drawn t legs =
      (p.pools.keys.map (p.tokens.held t)).sum := by
    rw [← sum_movedAt, ← List.sum_map_add]
    refine congrArg List.sum (List.map_congr_left fun a ha => ?_)
    obtain ⟨s, hs⟩ := OrderedMap.mem_keys.1 ha
    rw [h.tokens, if_neg (hp a s (pool_eq_ok.2 hs)), Nat.add_zero]
  have hlp : q.tokens.held t p.lpAccount.address =
      p.tokens.held t p.lpAccount.address + p.drawn t legs := by
    have hflow := h.tokens t p.lpAccount.address
    cases hs : p.pool p.lpAccount.address with
    | ok s => exact absurd rfl (hp _ s hs)
    | error fault =>
      rwa [movedAt_of_error hs, if_pos rfl, Nat.add_zero] at hflow
  unfold capital
  rw [h.pools, h.lpAccount]
  omega

end MetaPool.Protocol
