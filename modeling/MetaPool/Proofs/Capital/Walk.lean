import MetaPool.Proofs.Capital.Recall

/-!
# The walk of a recall

While a recall walks its legs, every pool keeps the meta shares of its own leg, because the pools are
distinct, and the LP account has what it held less what the legs before have drawn (`Recalled`). So a
leg stops for nothing but a draw above what is left (`exceeds_of_burnAndReturn`), and a recall that was
let through and has read its legs fails only if they draw more of a token than is held, or at the lock.

    Recalled legs p q → held after + drawn by legs = held before           (Recalled.left)
    Stops (recallShortfall caller ids) p fault →
      refused, or not read, or more drawn than held, or locked             (fault_of_recall)
-/

namespace MetaPool.Protocol

variable {p q r : Protocol} {ids : List String} {pools : List Address} {caller : Address} {u : Unit}
  {leg : Leg} {legs : List Leg} {fault : Fault}

/-! ## What legs draw -/

/-- What a leg draws of a token. A leg without meta shares is skipped. -/
def drawnBy (p : Protocol) (t : Address) (leg : Leg) : Nat :=
  match p.pool leg.1.1 with
  | .ok s => if leg.2 ≠ 0 ∧ s.underlyer = t then leg.1.2 else 0
  | .error _ => 0

/-- What legs draw of a token from the LP account. -/
def drawn (p : Protocol) (t : Address) (legs : List Leg) : Nat := (legs.map (p.drawnBy t)).sum

theorem drawn_cons (p : Protocol) (t : Address) (leg : Leg) (legs : List Leg) :
    p.drawn t (leg :: legs) = p.drawnBy t leg + p.drawn t legs := List.sum_cons

theorem drawn_append (p : Protocol) (t : Address) (before after : List Leg) :
    p.drawn t (before ++ after) = p.drawn t before + p.drawn t after := by
  simp only [drawn, List.map_append, List.sum_append]

theorem drawn_singleton (p : Protocol) (t : Address) (leg : Leg) :
    p.drawn t [leg] = p.drawnBy t leg := List.sum_singleton

theorem drawnBy_of_pool {s : Pool} (hs : p.pool leg.1.1 = .ok s) (t : Address) :
    p.drawnBy t leg = if leg.2 ≠ 0 ∧ s.underlyer = t then leg.1.2 else 0 := by
  simp only [drawnBy, hs]

theorem drawnBy_of_skipped (h : leg.2 = 0) (t : Address) : p.drawnBy t leg = 0 := by
  unfold drawnBy
  split
  · exact if_neg fun hdrawn => hdrawn.1 h
  · rfl

theorem drawnBy_le (p : Protocol) (t : Address) (leg : Leg) : p.drawnBy t leg ≤ leg.1.2 := by
  unfold drawnBy
  split
  · split
    · exact Nat.le_refl _
    · exact Nat.zero_le _
  · exact Nat.zero_le _

/-- A leg draws of the underlyer of its pool alone. -/
theorem underlyer_of_drawnBy {t : Address} (h : p.drawnBy t leg ≠ 0) :
    ∃ s, p.pool leg.1.1 = .ok s ∧ s.underlyer = t := by
  cases hs : p.pool leg.1.1 with
  | ok s =>
    rw [drawnBy_of_pool hs] at h
    exact ⟨s, rfl, by_contra fun hne => h (if_neg fun hdrawn => hne hdrawn.2)⟩
  | error fault => simp [drawnBy, hs] at h

theorem drawn_eq_zero {t : Address} (h : ∀ leg ∈ legs, p.drawnBy t leg = 0) : p.drawn t legs = 0 :=
  List.sum_eq_zero_iff.2 (List.forall_mem_map.2 h)

theorem drawn_of_pools (h : q.pools = p.pools) (t : Address) (legs : List Leg) :
    q.drawn t legs = p.drawn t legs := by
  have hleg : q.drawnBy t = p.drawnBy t := by
    funext leg
    unfold drawnBy
    rw [pool_of_eq h]
  unfold drawn
  rw [hleg]

/-- What legs burn of the meta shares of a pool. -/
def burned (a : Address) (legs : List Leg) : Nat :=
  (legs.map fun leg => if a = leg.1.1 then leg.2 else 0).sum

theorem burned_of_fresh {a : Address} (h : a ∉ legs.map (·.1.1)) : burned a legs = 0 := by
  refine List.sum_eq_zero_iff.2 (List.forall_mem_map.2 fun leg hleg => if_neg ?_)
  rintro rfl
  exact h (List.mem_map_of_mem hleg)

/-- Among distinct pools, none of the legs before one is for its pool. -/
theorem fresh_of_nodup {before after : List Leg}
    (hnodup : ((before ++ leg :: after).map (·.1.1)).Nodup) : leg.1.1 ∉ before.map (·.1.1) := by
  rw [List.map_append, List.map_cons] at hnodup
  intro hmem
  exact List.disjoint_of_nodup_append hnodup hmem List.mem_cons_self

/-! ## Walks -/

/-- What a leg relies on in the states before it. -/
structure Sound (p : Protocol) : Prop where
  linked : Linked p
  books : Books p
  tokens : p.tokens.Balanced

theorem Reachable.sound (h : Reachable p) : Sound p := ⟨h.linked, h.books, h.tokens_balanced⟩

theorem sound_of_listed (hp : Sound p) (h : pools.forM registerUnderlyer p = .ok u q) : Sound q := by
  have hframe := frame_of_listed h
  have htokens : q.tokens = p.tokens := hframe .tokens (by decide)
  refine ⟨hp.linked.congr (sameRoles_of_listed h), ?_, htokens ▸ hp.tokens⟩
  exact books_congr (hframe .pools (by decide)) (hframe .metaToken (by decide)) hp.books

theorem sound_burnAndReturn {pool : Address} {shares amount : Nat} (hp : Sound p)
    (h : burnAndReturn pool shares amount p = .ok u q) : Sound q := by
  have hspends : Spends (fun _ => True) p q := spends_of_burnAndReturn h trivial
  refine ⟨hp.linked.congr (sameRoles_burnAndReturn h), books_burnAndReturn hp.books h, ?_⟩
  exact TokenBook.balanced_of_spent hp.tokens hspends.tokens

/-- Takes the legs of a recall one after the other. -/
abbrev walk (legs : List Leg) : Action Unit :=
  legs.forM fun ((pool, amount), delta) => burnAndReturn pool delta amount

/-- Legs have been walked: they burned of their pools and drew from the LP account. -/
structure Recalled (legs : List Leg) (p q : Protocol) : Prop where
  spends : Spends (fun _ => True) p q
  burned : ∀ a, q.metaToken.balanceOf a + burned a legs = p.metaToken.balanceOf a
  left : ∀ t, q.tokens.held t p.lpAccount.address + p.drawn t legs =
    p.tokens.held t p.lpAccount.address

theorem recalled_of_leg (hapart : leg.1.1 ≠ p.lpAccount.address)
    (h : burnAndReturn leg.1.1 leg.2 leg.1.2 p = .ok u q) : Recalled [leg] p q := by
  refine ⟨spends_of_burnAndReturn h trivial, ?_, ?_⟩
  · intro a
    rw [burned, List.map_singleton, List.sum_singleton]
    obtain ⟨hskip, rfl⟩ | ⟨-, metaToken, hburn, hreturn⟩ := burnAndReturn_eq_ok.1 h
    · rw [hskip, ite_self, Nat.add_zero]
    · obtain ⟨book, hbook, rfl⟩ := MetaToken.burn_eq_ok.1 hburn
      obtain ⟨-, s, tokens, -, -, rfl⟩ := returnToPool_eq_ok.1 hreturn
      exact ShareBook.balanceOf_of_burn hbook a
  · intro t
    rw [drawn_singleton]
    obtain ⟨hskip, rfl⟩ | ⟨hshares, metaToken, hburn, hreturn⟩ := burnAndReturn_eq_ok.1 h
    · rw [drawnBy_of_skipped hskip, Nat.add_zero]
    · obtain ⟨-, s, tokens, hs, ht, rfl⟩ := returnToPool_eq_ok.1 hreturn
      have hs : p.pool leg.1.1 = .ok s := hs
      have hheld := (TokenBook.moved_of_transfer ht).held t p.lpAccount.address
      rw [drawnBy_of_pool hs]
      simpa [hshares, hapart.symm, eq_comm] using hheld

theorem recalled_cons (h : Recalled [leg] p r) (h' : Recalled legs r q) :
    Recalled (leg :: legs) p q := by
  refine ⟨h.spends.trans h'.spends, ?_, ?_⟩
  · intro a
    have hfirst := h.burned a
    have hrest := h'.burned a
    simp only [burned, List.map_cons, List.map_nil, List.sum_cons, List.sum_nil] at hfirst hrest ⊢
    omega
  · intro t
    have hfirst := h.left t
    have hrest := h'.left t
    rw [h.spends.lpAccount, drawn_of_pools h.spends.pools] at hrest
    rw [drawn_singleton] at hfirst
    rw [drawn_cons]
    omega

theorem recalled_of_walk (hapart : ∀ leg ∈ legs, leg.1.1 ≠ p.lpAccount.address)
    (h : walk legs p = .ok u q) : Recalled legs p q := by
  induction legs generalizing p with
  | nil =>
    obtain ⟨-, rfl⟩ := pure_eq_ok.1 h
    exact ⟨.refl _ _, fun _ => rfl, fun _ => rfl⟩
  | cons leg legs ih =>
    obtain ⟨⟨⟩, r, hleg, hlegs⟩ := bind_eq_ok.1 h
    rw [List.forall_mem_cons] at hapart
    have hfirst := recalled_of_leg hapart.1 hleg
    refine recalled_cons hfirst (ih ?_ hlegs)
    rw [hfirst.spends.lpAccount]
    exact hapart.2

/-! ## Where a walk stops -/

/-- A leg for a well-formed pool with a known underlyer that has the meta shares to burn. -/
structure Covered (p : Protocol) (leg : Leg) (s : Pool) (x : TokenRecord) : Prop where
  pool : p.pool leg.1.1 = .ok s
  deployed : Deployed p leg.1.1 s
  record : p.tokens.records.get? s.underlyer = some x
  enough : leg.2 ≤ p.metaToken.balanceOf leg.1.1

/-- The legs of a recall in a reachable state are covered. -/
theorem covered_of_recallLegs (h : Reachable p) (hlegs : p.recallLegs ids = .ok legs)
    (hleg : leg ∈ legs) : ∃ s x, Covered p leg s x := by
  obtain ⟨s, t, v, tvl, hreads⟩ := legReads_of_mem hlegs hleg
  have hdeployed := h.deployed hreads.pool
  obtain ⟨x, hx, -⟩ := TokenBook.balance_eq_ok.1 hreads.holding
  exact ⟨s, x, hreads.pool, hdeployed, hx, hreads.delta_le_balance hdeployed.terms⟩

theorem recalled_of_covered (hlegs : ∀ leg ∈ legs, ∃ s x, Covered p leg s x)
    (h : walk legs p = .ok u q) : Recalled legs p q := by
  refine recalled_of_walk (fun leg hleg => ?_) h
  obtain ⟨s, x, hcovered⟩ := hlegs leg hleg
  exact hcovered.deployed.apart

theorem Covered.congr {s : Pool} {x x' : TokenRecord} (h : Covered p leg s x)
    (hpools : q.pools = p.pools) (hlp : q.lpAccount = p.lpAccount)
    (hrecord : q.tokens.records.get? s.underlyer = some x')
    (hbalance : q.metaToken.balanceOf leg.1.1 = p.metaToken.balanceOf leg.1.1) :
    Covered q leg s x' := by
  obtain ⟨hterms, hunderlyer, haddress, hapart⟩ := h.deployed
  exact ⟨(pool_of_eq hpools _).trans h.pool, ⟨hterms, hunderlyer, haddress, hlp ▸ hapart⟩, hrecord,
    hbalance ▸ h.enough⟩

/-- A walk of other legs leaves a leg covered. -/
theorem Covered.recalled {s : Pool} {x : TokenRecord} (h : Covered p leg s x)
    (hwalked : Recalled legs p q) (hfresh : leg.1.1 ∉ legs.map (·.1.1)) :
    ∃ x', Covered q leg s x' := by
  obtain ⟨x', hx', -⟩ := hwalked.spends.tokens.record s.underlyer x h.record
  have hbalance := hwalked.burned leg.1.1
  rw [burned_of_fresh hfresh, Nat.add_zero] at hbalance
  exact ⟨x', h.congr hwalked.spends.pools hwalked.spends.lpAccount hx' hbalance⟩

/-- A covered leg stops only if the LP account holds too little. -/
theorem exceeds_of_burnAndReturn {s : Pool} {x : TokenRecord} (hp : Sound p) (hleg : Covered p leg s x)
    (h : Stops (burnAndReturn leg.1.1 leg.2 leg.1.2) p fault) :
    leg.2 ≠ 0 ∧ fault = .transferExceedsBalance s.underlyer p.lpAccount.address ∧
      p.tokens.held s.underlyer p.lpAccount.address < leg.1.2 := by
  obtain ⟨hshares, h | ⟨book, hbook, h⟩⟩ := burnAndReturn_stops.1 h
  · have hsupply : p.metaToken.balanceOf leg.1.1 ≤ p.metaToken.shares.supply :=
      hp.books.metaShares.balanceOf_le_supply leg.1.1
    have hok := ShareBook.burn_eq_ok.2 ⟨hleg.enough, hleg.enough.trans hsupply, rfl⟩
    rw [hok] at h
    cases h
  rcases returnToPool_stops.1 h with h | ⟨-, h | ⟨s', hs', h⟩⟩
  · have hok := hp.linked.authorize .lpAccount .returnToPool nofun rfl rfl
    exact absurd (hok.symm.trans h) nofun
  · exact absurd (hleg.pool.symm.trans h) nofun
  · obtain rfl : s = s' := ok_unique hleg.pool hs'
    obtain ⟨hlt, rfl⟩ := TokenBook.exceeds_of_transfer hp.tokens hleg.deployed.address hleg.record h
    rw [TokenBook.held_of_record hleg.record]
    exact ⟨hshares, rfl, hlt⟩

/-- A walk of covered legs over distinct pools stops only where the legs up to there draw more of a
token than the LP account holds. -/
theorem exceeds_of_walk (hp : Sound p) (hnodup : (legs.map (·.1.1)).Nodup)
    (hlegs : ∀ leg ∈ legs, ∃ s x, Covered p leg s x) (h : Stops (walk legs) p fault) :
    ∃ t, fault = .transferExceedsBalance t p.lpAccount.address ∧
      p.tokens.held t p.lpAccount.address < p.drawn t legs := by
  obtain ⟨before, leg, after, q, rfl, hbefore, hstop⟩ := stops_forM.1 h
  have hwalked : Recalled before p q :=
    recalled_of_covered (fun leg hmem => hlegs leg (List.mem_append_left _ hmem)) hbefore
  have hq : Sound q := forM_preserves (fun _ _ _ _ hI h => sound_burnAndReturn hI h) hp hbefore
  obtain ⟨s, x, hleg⟩ := hlegs leg (by simp)
  obtain ⟨x', hleg'⟩ := hleg.recalled hwalked (fresh_of_nodup hnodup)
  obtain ⟨hshares, rfl, hlt⟩ := exceeds_of_burnAndReturn hq hleg' hstop
  rw [hwalked.spends.lpAccount] at hlt ⊢
  refine ⟨s.underlyer, rfl, ?_⟩
  have hleft := hwalked.left s.underlyer
  have hdrawn : p.drawnBy s.underlyer leg = leg.1.2 := by simp [drawnBy_of_pool hleg.pool, hshares]
  rw [drawn_append, drawn_cons]
  omega

/-! ## Whole recalls -/

theorem covered_of_listed (h : Reachable p) (hlegs : p.recallLegs ids = .ok legs)
    (hlisted : pools.forM registerUnderlyer p = .ok u q) :
    ∀ leg ∈ legs, ∃ s x, Covered q leg s x := by
  have hframe := frame_of_listed hlisted
  intro leg hleg
  have hmeta : q.metaToken = p.metaToken := hframe .metaToken (by decide)
  have htokens : q.tokens = p.tokens := hframe .tokens (by decide)
  obtain ⟨s, x, hcovered⟩ := covered_of_recallLegs h hlegs hleg
  refine ⟨s, x, hcovered.congr (hframe .pools (by decide)) (hframe .lpAccount (by decide)) ?_ ?_⟩
  · rw [htokens]
    exact hcovered.record
  · rw [hmeta]

/-- The pools whose holdings could be read have known underlyers, so that they can be listed. -/
theorem not_stops_listing (h : Reachable p) {available : List Nat}
    (hheld : p.lpHoldings pools = .ok available) :
    ¬ Stops (pools.forM registerUnderlyer) p fault := by
  have hknown : ∀ a ∈ pools, ∃ s x, p.pool a = .ok s ∧ p.tokens.traits s.underlyer = .ok x := by
    intro a ha
    obtain ⟨i, hi, rfl⟩ := List.mem_iff_getElem.1 ha
    have hread := forall₂_of_mapM hheld
    obtain ⟨s, hs, hv⟩ := except_bind_eq_ok.1 (hread.get hi (hread.length_eq ▸ hi))
    obtain ⟨⟨x, hx⟩, -⟩ := TokenBook.balanceOf_eq_ok.1 hv
    exact ⟨s, x, hs, hx⟩
  obtain ⟨q, hok⟩ := exists_listed h hknown
  rintro ⟨q', herror⟩
  rw [hok] at herror
  cases herror

/-- A recall that was let through and has read its legs lists the underlyers, walks the legs and locks
the oracle. -/
theorem walk_of_recall (h : Reachable p) (hstop : Stops (recallShortfall caller ids) p fault) :
    p.metaToken.roles.authorize caller .recallShortfall = .error fault ∨
      p.metaToken.roles.authorize caller .recallShortfall = .ok () ∧
        (p.recallLegs ids = .error fault ∨ ∃ (pools : List Address) (legs : List Leg) (q : Protocol),
          p.recallLegs ids = .ok legs ∧ pools.forM registerUnderlyer p = .ok () q ∧
          (Stops (walk legs) q fault ∨
            ∃ r, walk legs q = .ok () r ∧ Stops lockAfterMove r fault)) := by
  refine (recallShortfall_stops hstop).imp_right (And.imp_right fun hbody => ?_)
  rw [recallLegs_eq_error]
  rcases hbody with
    hread | ⟨pools, topUps, hread, hheld | ⟨available, hheld, hcap | ⟨amounts, hcap, hbatch⟩⟩⟩
  · exact .inl (.inl hread)
  · exact .inl (.inr ⟨pools, topUps, hread, .inl hheld⟩)
  · exact .inl (.inr ⟨pools, topUps, hread, .inr ⟨available, hheld, .inl hcap⟩⟩)
  have hlegs {q : Protocol} {deltas : List Nat} (hlisted : pools.forM registerUnderlyer p = .ok () q)
      (hdeltas : q.metaDeltas pools amounts = .ok deltas) :
      p.recallLegs ids = .ok ((pools.zip amounts).zip deltas) := by
    rw [metaDeltas_of_listed hlisted] at hdeltas
    exact recallLegs_eq_ok.2 ⟨pools, topUps, available, amounts, deltas, hread, hheld, hcap, hdeltas, rfl⟩
  cases hbatch with
  | list before after pool q hsplit hlisted hpool =>
    have hstop : Stops (pools.forM registerUnderlyer) p fault :=
      stops_forM.2 ⟨before, pool, after, q, hsplit, hlisted, hpool⟩
    exact absurd hstop (not_stops_listing h hheld)
  | deltas q hlisted hdeltas =>
    rw [metaDeltas_of_listed hlisted] at hdeltas
    exact .inl (.inr ⟨pools, topUps, hread, .inr ⟨available, hheld, .inr ⟨amounts, hcap, hdeltas⟩⟩⟩)
  | leg q r deltas before after leg hlisted hdeltas hsplit hbefore hleg =>
    have hstop : Stops (walk ((pools.zip amounts).zip deltas)) q fault :=
      stops_forM.2 ⟨before, leg, after, r, hsplit, hbefore, hleg⟩
    exact .inr ⟨pools, _, q, hlegs hlisted hdeltas, hlisted, .inl hstop⟩
  | lock q r deltas hlisted hdeltas hmoves hlock =>
    exact .inr ⟨pools, _, q, hlegs hlisted hdeltas, hlisted, .inr ⟨r, hmoves, hlock⟩⟩

/-- A recall that fails was refused, or could not read its legs, or its legs draw more of a token than
the LP account holds, or the oracle is locked for longer than the recall would lock it. -/
theorem fault_of_recall (h : Reachable p) (hpools : p.poolAddresses ids = .ok pools)
    (hnodup : pools.Nodup) (hstop : Stops (recallShortfall caller ids) p fault) :
    p.metaToken.roles.authorize caller .recallShortfall = .error fault ∨
      p.metaToken.roles.authorize caller .recallShortfall = .ok () ∧
        (p.recallLegs ids = .error fault ∨ ∃ legs, p.recallLegs ids = .ok legs ∧
          ((∃ t, fault = .transferExceedsBalance t p.lpAccount.address ∧
              p.tokens.held t p.lpAccount.address < p.drawn t legs) ∨
            fault = .cannotShortenLock ∧
              ∀ t, p.drawn t legs ≤ p.tokens.held t p.lpAccount.address)) := by
  refine (walk_of_recall h hstop).imp_right (And.imp_right fun hbody => hbody.imp_right ?_)
  rintro ⟨listed, legs, q, hlegs, hlisted, hwalk⟩
  refine ⟨legs, hlegs, ?_⟩
  have hq : Sound q := sound_of_listed h.sound hlisted
  have hcovered : ∀ leg ∈ legs, ∃ s x, Covered q leg s x := covered_of_listed h hlegs hlisted
  have hframe := frame_of_listed hlisted
  have htokens : q.tokens = p.tokens := hframe .tokens (by decide)
  have hlp : q.lpAccount = p.lpAccount := hframe .lpAccount (by decide)
  have hdrawn (t : Address) : q.drawn t legs = p.drawn t legs :=
    drawn_of_pools (hframe .pools (by decide)) t legs
  simp only [← htokens, ← hlp, ← hdrawn]
  rcases hwalk with hwalk | ⟨r, hwalk, hlock⟩
  · have hdistinct : (legs.map (·.1.1)).Nodup := by rwa [pools_of_recallLegs hpools hlegs]
    exact .inl (exceeds_of_walk hq hdistinct hcovered hwalk)
  · have hwalked : Recalled legs q r := recalled_of_covered hcovered hwalk
    have hr : Sound r := forM_preserves (fun _ _ _ _ hI h => sound_burnAndReturn hI h) hq hwalk
    refine .inr ⟨?_, fun t => ?_⟩
    · have hok := hr.linked.authorize .oracle .lockOracle nofun rfl rfl
      rcases Oracle.lock_stops.1 (lockAfterMove_stops.1 hlock) with herror | ⟨-, -, hfault⟩
      · exact absurd (hok.symm.trans herror) nofun
      · exact hfault
    · have hleft := hwalked.left t
      omega

/-- A walk between two steps that write neither pools nor tokens nor meta shares. -/
theorem Recalled.of_frames {p' q' : Protocol} (h : Recalled legs p' q')
    (hp : Frame [.allocation, .oracle] p p') (hq : Frame [.allocation, .oracle] q' q) :
    Recalled legs p q := by
  have hlp : p'.lpAccount = p.lpAccount := hp .lpAccount (by decide)
  have hpools : p'.pools = p.pools := hp .pools (by decide)
  have htokens : p'.tokens = p.tokens := hp .tokens (by decide)
  have hmeta : p'.metaToken = p.metaToken := hp .metaToken (by decide)
  have htokens' : q.tokens = q'.tokens := hq .tokens (by decide)
  have hmeta' : q.metaToken = q'.metaToken := hq .metaToken (by decide)
  refine ⟨?_, fun a => ?_, fun t => ?_⟩
  · exact spends_of_frame hq ((spends_of_frame hp (.refl _ p)).trans h.spends)
  · rw [hmeta', h.burned, hmeta]
  · rw [htokens', ← hlp, ← drawn_of_pools hpools, h.left, htokens]

/-- A recall that succeeds has walked its legs. -/
theorem recalled_of_ok {amounts : List Nat} (h : Reachable p)
    (hok : recallShortfall caller ids p = .ok amounts q) :
    ∃ legs, p.recallLegs ids = .ok legs ∧ Recalled legs p q := by
  obtain ⟨-, pools, topUps, available, hread, hheld, hcap, r, hlisted, hmove⟩ :=
    recallShortfall_eq_ok.1 hok
  obtain ⟨deltas, r', hdeltas, hwalk, hlock⟩ := moveBatch_eq_ok.1 hmove
  rw [metaDeltas_of_listed hlisted] at hdeltas
  have hlegs : p.recallLegs ids = .ok ((pools.zip amounts).zip deltas) :=
    recallLegs_eq_ok.2 ⟨pools, topUps, available, amounts, deltas, hread, hheld, hcap, hdeltas, rfl⟩
  have hwalked : Recalled ((pools.zip amounts).zip deltas) r r' :=
    recalled_of_covered (covered_of_listed h hlegs hlisted) hwalk
  refine ⟨_, hlegs, hwalked.of_frames ?_ ?_⟩
  · exact (within_forM fun pool => within_registerUnderlyer (by decide) pool).frame hlisted
  · exact (within_lockAfterMove (by decide)).frame hlock

end MetaPool.Protocol
