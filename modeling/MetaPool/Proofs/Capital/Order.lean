import MetaPool.Proofs.Capital.Leg
import MetaPool.Proofs.Capital.Recall

/-!
# The order of a batch

The entries of a batch can be given in any order (`batches_order_free`). All deltas come from one reading,
so that an entry has the same delta wherever it stands. Two neighbours can be exchanged, whether they list
underlyers or move capital: what each checks is a bound on what both take together, so that both orders
pass it or neither does. What is left is the same but for the order of the log, which nothing reads.

    f c p = .ok () q → f d q = .ok () r → f d p, then f c leaves r up to the order of its log    (swap)
    l.Perm l' → l.forM f p = .ok () q → l'.forM f p leaves q up to the order of its log          (forM_perm)
-/

namespace MetaPool

/-! ## Walks in another order -/

section

variable {σ γ : Type} {R : σ → σ → Prop} {I : σ → Prop} {f : γ → EStateM Fault σ Unit}
  {l l' : List γ} {p p' q : σ} {u : Unit}

/-- Actions that can be exchanged where the invariant holds, up to a relation that no action sees. -/
structure Exchangeable (R : σ → σ → Prop) (I : σ → Prop) (f : γ → EStateM Fault σ Unit) : Prop where
  refl : ∀ p, R p p
  trans : ∀ p q r, R p q → R q r → R p r
  blind : ∀ c p p' q, R p p' → f c p = .ok () q → ∃ q', f c p' = .ok () q' ∧ R q q'
  keep : ∀ c p q, I p → f c p = .ok () q → I q
  swap : ∀ c d p q r, I p → f c p = .ok () q → f d q = .ok () r →
    ∃ q' r', f d p = .ok () q' ∧ f c q' = .ok () r' ∧ R r r'

theorem Exchangeable.blind_forM (hf : Exchangeable R I f) (hR : R p p') (h : l.forM f p = .ok u q) :
    ∃ q', l.forM f p' = .ok () q' ∧ R q q' := by
  induction l generalizing p p' with
  | nil =>
    obtain ⟨-, rfl⟩ := pure_eq_ok.1 h
    exact ⟨p', rfl, hR⟩
  | cons c l ih =>
    obtain ⟨⟨⟩, r, hc, hl⟩ := bind_eq_ok.1 h
    obtain ⟨r', hc', hr⟩ := hf.blind c p p' r hR hc
    obtain ⟨q', hl', hq⟩ := ih hr hl
    exact ⟨q', bind_eq_ok.2 ⟨(), r', hc', hl'⟩, hq⟩

/-- A walk that succeeds also succeeds in any other order, and leaves a related state. -/
theorem Exchangeable.forM_perm (hf : Exchangeable R I f) (hperm : l.Perm l') (hp : I p)
    (h : l.forM f p = .ok u q) : ∃ q', l'.forM f p = .ok () q' ∧ R q q' := by
  induction hperm generalizing p q with
  | nil => exact ⟨q, h, hf.refl q⟩
  | cons c _ ih =>
    obtain ⟨⟨⟩, r, hc, hl⟩ := bind_eq_ok.1 h
    obtain ⟨q', hl', hq⟩ := ih (hf.keep c p r hp hc) hl
    exact ⟨q', bind_eq_ok.2 ⟨(), r, hc, hl'⟩, hq⟩
  | swap d c l =>
    obtain ⟨⟨⟩, r, hc, h⟩ := bind_eq_ok.1 h
    obtain ⟨⟨⟩, s, hd, hl⟩ := bind_eq_ok.1 h
    obtain ⟨r', s', hd', hc', hs⟩ := hf.swap _ _ p r s hp hc hd
    obtain ⟨q', hl', hq⟩ := hf.blind_forM hs hl
    exact ⟨q', bind_eq_ok.2 ⟨(), r', hd', bind_eq_ok.2 ⟨(), s', hc', hl'⟩⟩, hq⟩
  | trans _ _ ih ih' =>
    obtain ⟨r, hr, hqr⟩ := ih hp h
    obtain ⟨q', hq', hrq⟩ := ih' hp hr
    exact ⟨q', hq', hf.trans _ _ _ hqr hrq⟩

end

namespace Protocol

variable {p p' q q' r : Protocol} {a b caller : Address} {u : Unit} {pools : List Address}

/-! ## The order of the log -/

/-- The same state with its log in another order. -/
def Reordered (p q : Protocol) : Prop := ∃ log, p.log.Perm log ∧ q = { p with log }

theorem Reordered.refl (p : Protocol) : Reordered p p := ⟨p.log, .refl _, rfl⟩

theorem Reordered.trans (h : Reordered p q) (h' : Reordered q r) : Reordered p r := by
  obtain ⟨log, hlog, rfl⟩ := h
  obtain ⟨log', hlog', rfl⟩ := h'
  exact ⟨log', hlog.trans hlog', rfl⟩

/-! ## Listing -/

theorem registerUnderlyer_blind (h : Reordered p p') (hok : registerUnderlyer a p = .ok u q) :
    ∃ q', registerUnderlyer a p' = .ok u q' ∧ Reordered q q' := by
  obtain ⟨log, hlog, rfl⟩ := h
  obtain ⟨s, hs, ⟨hlisted, rfl⟩ | ⟨hnew, info, allocation, hinfo, hregister, rfl⟩⟩ :=
    registerUnderlyer_eq_ok.1 hok
  · exact ⟨_, registerUnderlyer_eq_ok.2 ⟨s, hs, .inl ⟨hlisted, rfl⟩⟩, log, hlog, rfl⟩
  · refine ⟨_, registerUnderlyer_eq_ok.2
      ⟨s, hs, .inr ⟨hnew, info, allocation, hinfo, hregister, rfl⟩⟩, ?_⟩
    exact ⟨_, hlog.append_right _, rfl⟩

theorem isRegistered_of_listed {t : Address} (h : registerUnderlyer a p = .ok u q)
    (hlisted : p.allocation.isRegistered t = true) : q.allocation.isRegistered t = true := by
  obtain ⟨s, -, ⟨-, rfl⟩ | ⟨-, info, allocation, -, hregister, rfl⟩⟩ := registerUnderlyer_eq_ok.1 h
  · exact hlisted
  · exact (Allocation.isRegistered_of_register hregister t).2 (.inr hlisted)

theorem registerUnderlyer_swap (hfirst : registerUnderlyer a p = .ok () q)
    (hsecond : registerUnderlyer b q = .ok () r) :
    ∃ q' r', registerUnderlyer b p = .ok () q' ∧ registerUnderlyer a q' = .ok () r' ∧
      Reordered r r' := by
  obtain ⟨s, hs, ⟨hlisted, rfl⟩ | ⟨hnew, info, allocation, hinfo, hregister, rfl⟩⟩ :=
    registerUnderlyer_eq_ok.1 hfirst
  · have hpools : r.pool a = .ok s := by
      have hframe : Frame [.allocation] q r :=
        (within_registerUnderlyer List.mem_cons_self b).frame hsecond
      rw [pool_of_eq (hframe .pools (by decide)), hs]
    refine ⟨r, r, hsecond, registerUnderlyer_eq_ok.2 ⟨s, hpools, .inl ⟨?_, rfl⟩⟩, .refl r⟩
    exact isRegistered_of_listed hsecond hlisted
  have hlisted (t : Address) := Allocation.isRegistered_of_register hregister t
  obtain ⟨s', hs', ⟨hold, rfl⟩ | ⟨hnew', info', allocation', hinfo', hregister', rfl⟩⟩ :=
    registerUnderlyer_eq_ok.1 hsecond
  · rcases (hlisted s'.underlyer).1 hold with hsame | hold
    · -- whichever of the two comes first lists the underlyer of both
      have hsame : s'.underlyer = s.underlyer := hsame
      refine ⟨_, _, registerUnderlyer_eq_ok.2 ⟨s', hs', .inr ⟨?_, info, allocation, ?_, ?_, rfl⟩⟩,
        registerUnderlyer_eq_ok.2 ⟨s, hs, .inl ⟨(hlisted s.underlyer).2 (.inl rfl), rfl⟩⟩, ?_⟩
      · rwa [hsame]
      · rwa [hsame]
      · rwa [hsame]
      · rw [hsame]
        exact .refl _
    · exact ⟨p, _, registerUnderlyer_eq_ok.2 ⟨s', hs', .inl ⟨hold, rfl⟩⟩, hfirst, .refl _⟩
  · obtain ⟨allocation'', hregister₁, hregister₂⟩ := Allocation.register_comm hregister hregister'
    have hlisted' (t : Address) := Allocation.isRegistered_of_register hregister₁ t
    rw [hlisted, not_or] at hnew'
    refine ⟨_, _, registerUnderlyer_eq_ok.2
        ⟨s', hs', .inr ⟨hnew'.2, info', allocation'', hinfo', hregister₁, rfl⟩⟩,
      registerUnderlyer_eq_ok.2
        ⟨s, hs, .inr ⟨?_, info, allocation', hinfo, hregister₂, rfl⟩⟩, _, ?_, rfl⟩
    · rw [hlisted', not_or]
      exact ⟨Ne.symm hnew'.1, hnew⟩
    · simp only [List.append_assoc]
      exact .append_left _ List.perm_append_comm

/-! ## Legs -/

variable {kind : LegKind} {x y m n : Nat}

theorem reordered_afterLegs {m m₁ m₂ : MetaToken} {t t₁ t₂ : TokenBook} {e₁ e₂ : List Event} :
    Reordered ((p.afterLeg m₁ t₁ e₁).afterLeg m t e₂) ((p.afterLeg m₂ t₂ e₂).afterLeg m t e₁) := by
  refine ⟨_, ?_, rfl⟩
  simp only [afterLeg, List.append_assoc]
  exact .append_left _ List.perm_append_comm

theorem leg_blind (h : Reordered p p') (hok : kind.leg a x m p = .ok u q) :
    ∃ q', kind.leg a x m p' = .ok u q' ∧ Reordered q q' := by
  obtain ⟨log, hlog, rfl⟩ := h
  obtain ⟨hx, rfl⟩ | ⟨hx, metaToken, s, tokens, hchange, hs, hauth, ht, rfl⟩ := LegKind.leg_eq_ok.1 hok
  · exact ⟨_, LegKind.leg_eq_ok.2 (.inl ⟨hx, rfl⟩), log, hlog, rfl⟩
  · refine ⟨_, LegKind.leg_eq_ok.2 (.inr ⟨hx, metaToken, s, tokens, hchange, hs, hauth, ht, rfl⟩), ?_⟩
    exact ⟨_, hlog.append_right _, rfl⟩

/-- Neighbours can be exchanged: neither gives up what the other brings, since the pools are on one side
and the LP account is on the other. -/
theorem leg_swap (hp : PoolsApart p) (hfirst : kind.leg a x m p = .ok () q)
    (hsecond : kind.leg b y n q = .ok () r) :
    ∃ q' r', kind.leg b y n p = .ok () q' ∧ kind.leg a x m q' = .ok () r' ∧ Reordered r r' := by
  obtain ⟨hx, rfl⟩ | ⟨hx, m₁, s, t₁, hchange, hs, hauth, ht, rfl⟩ := LegKind.leg_eq_ok.1 hfirst
  · exact ⟨r, r, hsecond, LegKind.leg_eq_ok.2 (.inl ⟨hx, rfl⟩), .refl r⟩
  obtain ⟨hy, rfl⟩ | ⟨hy, m₂, s', t₂, hchange', hs', hauth', ht', rfl⟩ := LegKind.leg_eq_ok.1 hsecond
  · exact ⟨p, _, LegKind.leg_eq_ok.2 (.inl ⟨hy, rfl⟩), hfirst, .refl _⟩
  have ha := hp a s hs
  have hb := hp b s' hs'
  obtain ⟨m', hm', hm₂⟩ := LegKind.change_comm hchange hchange'
  obtain ⟨t', ht₁, ht₂⟩ := TokenBook.transfer_comm (LegKind.source_ne_target ha ha)
    (LegKind.source_ne_target hb hb) (LegKind.source_ne_target ha hb) (LegKind.source_ne_target hb ha)
    ht ht'
  have hauth₁ : kind.authorize p.lpAccount s' p.metaToken.address = .ok () :=
    LegKind.address_of_change hchange ▸ hauth'
  have hauth₂ : kind.authorize p.lpAccount s m'.address = .ok () := by
    rw [LegKind.address_of_change hm']
    exact hauth
  exact ⟨_, _, LegKind.leg_eq_ok.2 (.inr ⟨hy, m', s', t', hm', hs', hauth₁, ht₁, rfl⟩),
    LegKind.leg_eq_ok.2 (.inr ⟨hx, m₂, s, t₂, hm₂, hs, hauth₂, ht₂, rfl⟩), reordered_afterLegs⟩

theorem exchangeable_listing : Exchangeable Reordered (fun _ => True) registerUnderlyer where
  refl := .refl
  trans _ _ _ := .trans
  blind _ _ _ _ := registerUnderlyer_blind
  keep _ _ _ _ _ := trivial
  swap _ _ _ _ _ _ := registerUnderlyer_swap

/-- The legs of a batch can be exchanged. -/
theorem exchangeable_legs (kind : LegKind) :
    Exchangeable Reordered PoolsApart fun ((pool, amount), delta) => kind.leg pool delta amount where
  refl := .refl
  trans _ _ _ := .trans
  blind _ _ _ _ := leg_blind
  keep c p q hp h := by
    obtain ⟨-, rfl⟩ | ⟨-, metaToken, s, tokens, -, -, -, -, rfl⟩ := LegKind.leg_eq_ok.1 h
    · exact hp
    · exact hp.congr rfl rfl
  swap _ _ _ _ _ := leg_swap

/-! ## Batches -/

theorem lockAfterMove_blind (h : Reordered p p') (hok : lockAfterMove p = .ok u q) :
    ∃ q', lockAfterMove p' = .ok u q' ∧ Reordered q q' := by
  obtain ⟨log, hlog, rfl⟩ := h
  obtain ⟨oracle, hlock, rfl⟩ := lockAfterMove_eq_ok.1 hok
  exact ⟨_, lockAfterMove_eq_ok.2 ⟨oracle, hlock, rfl⟩, _, hlog.append_right _, rfl⟩

/-- A batch of entries in another order has the same deltas, each with its entry. -/
theorem batch_perm (kind : LegKind) {entries entries' : List (Address × Nat)}
    (hperm : entries.Perm entries') (hp : PoolsApart p)
    (h : Batch kind.leg (entries.map (·.1)) (entries.map (·.2)) p q) :
    ∃ q', Batch kind.leg (entries'.map (·.1)) (entries'.map (·.2)) p q' ∧ Reordered q q' := by
  have hzip (l : List (Address × Nat)) : (l.map (·.1)).zip (l.map (·.2)) = l := by
    rw [List.zip_map', List.map_id']
  obtain ⟨r, hlisted, hmove⟩ := h
  obtain ⟨deltas, s, hdeltas, hlegs, hlock⟩ := moveBatch_eq_ok.1 hmove
  obtain ⟨r', hlisted', hr⟩ := exchangeable_listing.forM_perm (hperm.map _) trivial hlisted
  rw [metaDeltas_of_listed hlisted] at hdeltas
  obtain ⟨-, tvl, htvl, hread⟩ := metaDeltas_eq_ok.1 hdeltas
  rw [hzip] at hread hlegs
  obtain ⟨delta, rfl, hdelta⟩ := exists_map_of_mapM hread
  have hdeltas' : p.metaDeltas (entries'.map (·.1)) (entries'.map (·.2)) = .ok (entries'.map delta) := by
    refine metaDeltas_eq_ok.2 ⟨by simp, tvl, htvl, ?_⟩
    rw [hzip]
    exact mapM_eq_ok fun c hc => hdelta c (hperm.mem_iff.2 hc)
  have happart : PoolsApart r := by
    have hframe := frame_of_listed hlisted
    exact hp.congr (hframe .pools (by decide)) (hframe .lpAccount (by decide))
  have hlegsPerm : (entries.zip (entries.map delta)).Perm (entries'.zip (entries'.map delta)) := by
    rw [← List.map_prod_left_eq_zip, ← List.map_prod_left_eq_zip]
    exact hperm.map _
  obtain ⟨t, hlegs', ht⟩ := (exchangeable_legs kind).forM_perm hlegsPerm happart hlegs
  obtain ⟨t', hlegs'', ht'⟩ := (exchangeable_legs kind).blind_forM hr hlegs'
  obtain ⟨q', hlock', hq⟩ := lockAfterMove_blind (ht.trans ht') hlock
  refine ⟨q', ⟨r', hlisted', moveBatch_eq_ok.2 ⟨entries'.map delta, t', ?_, ?_, hlock'⟩⟩, hq⟩
  · rw [metaDeltas_of_listed hlisted', hdeltas']
  · rwa [hzip]

/-! ## Rebalances -/

theorem requirePools_perm {entries entries' : List (Address × Nat)} (hperm : entries.Perm entries')
    (h : requirePools (entries.map (·.1)) (entries.map (·.2)) p = .ok ()) :
    requirePools (entries'.map (·.1)) (entries'.map (·.2)) p = .ok () := by
  obtain ⟨-, hpools⟩ := refuse_eq_ok.1 h
  refine refuse_eq_ok.2 ⟨by simp, except_forM_eq_ok.2 fun a ha => ?_⟩
  exact except_forM_eq_ok.1 hpools a ((hperm.map _).mem_iff.2 ha)

theorem sendByHand_perm {entries entries' : List (Address × Nat)} (hperm : entries.Perm entries')
    (hp : PoolsApart p) (h : sendByHand caller (entries.map (·.1)) (entries.map (·.2)) p = .ok u q) :
    ∃ q', sendByHand caller (entries'.map (·.1)) (entries'.map (·.2)) p = .ok () q' ∧
      Reordered q q' := by
  obtain ⟨hcaller, hpools, hbatch⟩ := sendByHand_eq_ok.1 h
  obtain ⟨q', hbatch', hq⟩ := batch_perm .sends hperm hp hbatch
  exact ⟨q', sendByHand_eq_ok.2 ⟨hcaller, requirePools_perm hperm hpools, hbatch'⟩, hq⟩

theorem recallByHand_perm {entries entries' : List (Address × Nat)} (hperm : entries.Perm entries')
    (hp : PoolsApart p)
    (h : recallByHand caller (entries.map (·.1)) (entries.map (·.2)) p = .ok u q) :
    ∃ q', recallByHand caller (entries'.map (·.1)) (entries'.map (·.2)) p = .ok () q' ∧
      Reordered q q' := by
  obtain ⟨hcaller, hpools, hbatch⟩ := recallByHand_eq_ok.1 h
  obtain ⟨q', hbatch', hq⟩ := batch_perm .recalls hperm hp hbatch
  exact ⟨q', recallByHand_eq_ok.2 ⟨hcaller, requirePools_perm hperm hpools, hbatch'⟩, hq⟩

/-- What is read for identifiers in another order is read for each of them on its own. -/
theorem rebalanceAmounts_perm {ids ids' : List String} {topUps : List Int} (hperm : ids.Perm ids')
    (h : p.rebalanceAmounts ids = .ok (pools, topUps)) : ∃ (pool : String → Address) (topUp : String → Int),
      pools = ids.map pool ∧ topUps = ids.map topUp ∧
      p.rebalanceAmounts ids' = .ok (ids'.map pool, ids'.map topUp) := by
  obtain ⟨hpools, htopUps⟩ := rebalanceAmounts_eq_ok.1 h
  obtain ⟨pool, rfl, hpool⟩ := exists_map_of_mapM hpools
  obtain ⟨topUp, rfl, htopUp⟩ := exists_map_of_mapM htopUps
  have hmem {id : String} (hid : id ∈ ids') : id ∈ ids := hperm.mem_iff.2 hid
  refine ⟨pool, topUp ∘ pool, rfl, List.map_map, rebalanceAmounts_eq_ok.2 ⟨?_, ?_⟩⟩
  · exact mapM_eq_ok fun id hid => hpool id (hmem hid)
  · rw [← List.map_map]
    refine mapM_eq_ok (List.forall_mem_map.2 fun id hid => ?_)
    exact htopUp _ (List.mem_map_of_mem (hmem hid))

/-- A batch whose entries are read for identifiers. -/
theorem batch_perm_map (kind : LegKind) {ids ids' : List String} {pool : String → Address}
    {amount : String → Nat} (hperm : ids.Perm ids') (hp : PoolsApart p)
    (h : Batch kind.leg (ids.map pool) (ids.map amount) p q) :
    ∃ q', Batch kind.leg (ids'.map pool) (ids'.map amount) p q' ∧ Reordered q q' := by
  have hpools (ids : List String) :
      (ids.map fun id => (pool id, amount id)).map (·.1) = ids.map pool := List.map_map
  have hamounts (ids : List String) :
      (ids.map fun id => (pool id, amount id)).map (·.2) = ids.map amount := List.map_map
  rw [← hpools, ← hamounts] at h ⊢
  exact batch_perm kind (hperm.map _) hp h

theorem sendSurplus_perm {ids ids' : List String} {amounts : List Nat} (hperm : ids.Perm ids')
    (hp : PoolsApart p) (h : sendSurplus caller ids p = .ok amounts q) :
    ∃ (amount : String → Nat) (q' : Protocol), amounts = ids.map amount ∧
      sendSurplus caller ids' p = .ok (ids'.map amount) q' ∧ Reordered q q' := by
  obtain ⟨hcaller, pools, topUps, hread, rfl, hbatch⟩ := sendSurplus_eq_ok.1 h
  obtain ⟨pool, topUp, rfl, rfl, hread'⟩ := rebalanceAmounts_perm hperm hread
  have hamounts (ids : List String) : surpluses (ids.map topUp) =
      ids.map fun id => if topUp id < 0 then (topUp id).natAbs else 0 := List.map_map
  rw [hamounts] at hbatch ⊢
  obtain ⟨q', hbatch', hq⟩ := batch_perm_map .sends hperm hp hbatch
  exact ⟨_, q', rfl, sendSurplus_eq_ok.2 ⟨hcaller, _, _, hread', (hamounts ids').symm, hbatch'⟩, hq⟩

theorem recallShortfall_perm {ids ids' : List String} {amounts : List Nat} (hperm : ids.Perm ids')
    (hp : PoolsApart p) (h : recallShortfall caller ids p = .ok amounts q) :
    ∃ (amount : String → Nat) (q' : Protocol), amounts = ids.map amount ∧
      recallShortfall caller ids' p = .ok (ids'.map amount) q' ∧ Reordered q q' := by
  obtain ⟨hcaller, pools, topUps, available, hread, hheld, hcap, hbatch⟩ := recallShortfall_eq_ok.1 h
  obtain ⟨pool, topUp, rfl, rfl, hread'⟩ := rebalanceAmounts_perm hperm hread
  obtain ⟨holding, rfl, hholding⟩ := exists_map_of_mapM hheld
  have hheld' : p.lpHoldings (ids'.map pool) = .ok ((ids'.map pool).map holding) :=
    mapM_eq_ok fun a ha => hholding a ((hperm.map pool).mem_iff.2 ha)
  have hamounts (ids : List String) :
      (ids.map topUp).zipWith cappedShortfall ((ids.map pool).map holding) =
        ids.map fun id => cappedShortfall (topUp id) (holding (pool id)) := by
    rw [List.map_map, List.zipWith_map, List.zipWith_self]
    rfl
  obtain ⟨-, rfl⟩ := cappedShortfalls_eq_ok.1 hcap
  rw [hamounts] at hbatch ⊢
  obtain ⟨q', hbatch', hq⟩ := batch_perm_map .recalls hperm hp hbatch
  refine ⟨_, q', rfl, recallShortfall_eq_ok.2 ⟨hcaller, _, _, _, hread', hheld', ?_, hbatch'⟩, hq⟩
  exact cappedShortfalls_eq_ok.2 ⟨by simp, (hamounts ids').symm⟩

/-! ## Rebalances that fare alike -/

/-- The same state, but for the order of what has been logged since `p`. -/
def SameButOrder (p q q' : Protocol) : Prop :=
  ∃ new new', q.log = p.log ++ new ∧ new.Perm new' ∧ q' = { q with log := p.log ++ new' }

theorem sameButOrder_of_reordered (hlog : p.log <+: q.log) (hlog' : p.log <+: q'.log)
    (h : Reordered q q') : SameButOrder p q q' := by
  obtain ⟨log, hperm, rfl⟩ := h
  obtain ⟨new, hnew⟩ := hlog
  obtain ⟨new', hnew'⟩ := hlog'
  refine ⟨new, new', hnew.symm, ?_, by rw [hnew']⟩
  rw [← hnew, ← show p.log ++ new' = log from hnew'] at hperm
  exact (List.perm_append_left_iff p.log).1 hperm

/-- Both operations fail, or both succeed with related outcomes and leave the same state but for the
order of what they log. -/
def FareAlike (p : Protocol) (related : Outcome → Outcome → Prop) (op op' : Operation) : Prop :=
  op.fails p = true ∧ op'.fails p = true ∨ ∃ out q out' q', op.perform p = .ok out q ∧
    op'.perform p = .ok out' q' ∧ related out out' ∧ SameButOrder p q q'

/-- The amounts come in the order of the identifiers. -/
def AmountsAlong (ids ids' : List String) (out out' : Outcome) : Prop :=
  ∃ amount : String → Nat, out = .amounts (ids.map amount) ∧ out' = .amounts (ids'.map amount)

theorem log_of_rebalance {op : Operation} (hop : op.isRebalance = true)
    {out : Outcome} (h : op.perform p = .ok out q) : p.log <+: q.log := by
  refine Operation.frame_of_ok h .log ?_
  cases op <;> simp [Operation.isRebalance, Operation.writes, batchWrites] at hop ⊢

/-- Rebalances of lists fare alike on permuted lists, if a success on one of them is one on the other. -/
theorem fareAlike_of_perm {γ : Type} (op : List γ → Operation)
    (related : List γ → List γ → Outcome → Outcome → Prop) (hop : ∀ l, (op l).isRebalance = true)
    (hstep : ∀ l l' out q, l.Perm l' → (op l).perform p = .ok out q →
      ∃ out' q', (op l').perform p = .ok out' q' ∧ related l l' out out' ∧ Reordered q q')
    {l l' : List γ} (hperm : l.Perm l') : FareAlike p (related l l') (op l) (op l') := by
  cases hrun : (op l).perform p with
  | ok out q =>
    obtain ⟨out', q', hrun', hrelated, hq⟩ := hstep l l' out q hperm hrun
    exact .inr ⟨out, q, out', q', hrun, hrun', hrelated, sameButOrder_of_reordered
      (log_of_rebalance (hop l) hrun) (log_of_rebalance (hop l') hrun') hq⟩
  | error fault q =>
    refine .inl ⟨Operation.fails_iff.2 ⟨fault, q, hrun⟩, ?_⟩
    cases hrun' : (op l').perform p with
    | ok out' q' =>
      obtain ⟨out, q, hok, -⟩ := hstep l' l out' q' hperm.symm hrun'
      rw [hrun] at hok
      cases hok
    | error fault' q' => exact Operation.fails_iff.2 ⟨fault', q', hrun'⟩

/-- In every reachable state, batches with the same entries in any order fare alike, entries for one pool
included: all fail, or all succeed and leave the same state but for the order of what they log. A
rebalance by the oracle returns its amounts in the order of its identifiers. -/
theorem batches_order_free (p : Protocol) (h : Reachable p) (caller : Address) :
    (∀ entries entries' : List (Address × Nat), entries.Perm entries' →
      FareAlike p Eq (.sendByHand caller (entries.map (·.1)) (entries.map (·.2)))
        (.sendByHand caller (entries'.map (·.1)) (entries'.map (·.2))) ∧
      FareAlike p Eq (.recallByHand caller (entries.map (·.1)) (entries.map (·.2)))
        (.recallByHand caller (entries'.map (·.1)) (entries'.map (·.2)))) ∧
    ∀ ids ids' : List String, ids.Perm ids' →
      FareAlike p (AmountsAlong ids ids') (.sendSurplus caller ids) (.sendSurplus caller ids') ∧
      FareAlike p (AmountsAlong ids ids') (.recallShortfall caller ids)
        (.recallShortfall caller ids') := by
  have hp : PoolsApart p := h.poolsApart
  refine ⟨fun entries entries' hperm => ⟨?_, ?_⟩, fun ids ids' hperm => ⟨?_, ?_⟩⟩
  · let op (l : List (Address × Nat)) := Operation.sendByHand caller (l.map (·.1)) (l.map (·.2))
    refine fareAlike_of_perm op (fun _ _ => Eq) (fun _ => rfl) (fun l l' out q hperm hok => ?_) hperm
    obtain ⟨rfl, hsend⟩ := Operation.complete_eq_ok.1 hok
    obtain ⟨q', hsend', hq⟩ := sendByHand_perm hperm hp hsend
    exact ⟨.done, q', Operation.complete_eq_ok.2 ⟨rfl, hsend'⟩, rfl, hq⟩
  · let op (l : List (Address × Nat)) := Operation.recallByHand caller (l.map (·.1)) (l.map (·.2))
    refine fareAlike_of_perm op (fun _ _ => Eq) (fun _ => rfl) (fun l l' out q hperm hok => ?_) hperm
    obtain ⟨rfl, hrecall⟩ := Operation.complete_eq_ok.1 hok
    obtain ⟨q', hrecall', hq⟩ := recallByHand_perm hperm hp hrecall
    exact ⟨.done, q', Operation.complete_eq_ok.2 ⟨rfl, hrecall'⟩, rfl, hq⟩
  · refine fareAlike_of_perm (.sendSurplus caller) AmountsAlong (fun _ => rfl)
      (fun l l' out q hperm hok => ?_) hperm
    obtain ⟨amounts, rfl, hsend⟩ := Operation.reply_eq_ok.1 hok
    obtain ⟨amount, q', rfl, hsend', hq⟩ := sendSurplus_perm hperm hp hsend
    exact ⟨_, q', Operation.reply_eq_ok.2 ⟨_, rfl, hsend'⟩, ⟨amount, rfl, rfl⟩, hq⟩
  · refine fareAlike_of_perm (.recallShortfall caller) AmountsAlong (fun _ => rfl)
      (fun l l' out q hperm hok => ?_) hperm
    obtain ⟨amounts, rfl, hrecall⟩ := Operation.reply_eq_ok.1 hok
    obtain ⟨amount, q', rfl, hrecall', hq⟩ := recallShortfall_perm hperm hp hrecall
    exact ⟨_, q', Operation.reply_eq_ok.2 ⟨_, rfl, hrecall'⟩, ⟨amount, rfl, rfl⟩, hq⟩

theorem FareAlike.of_not_fails {related : Outcome → Outcome → Prop} {op op' : Operation}
    (h : FareAlike p related op op') (hop : op.fails p = false) : ∃ out out',
      op.perform p = .ok out (p.after op) ∧ op'.perform p = .ok out' (p.after op') ∧
        related out out' ∧ SameButOrder p (p.after op) (p.after op') := by
  rcases h with ⟨hfails, -⟩ | ⟨out, q, out', q', hrun, hrun', hrelated, hsame⟩
  · rw [hop] at hfails
    cases hfails
  · rw [after_of_ok hrun, after_of_ok hrun']
    exact ⟨out, out', hrun, hrun', hrelated, hsame⟩

/-- Three entries, two of them for one pool. -/
def threeEntries : List (Address × Nat) :=
  [(⟨"usdcPool"⟩, 100), (⟨"daiPool"⟩, 3 * 10 ^ 12), (⟨"usdcPool"⟩, 200)]

theorem batches_order_free_twoIdle :
    (∃ out out' q q', (Operation.sendByHand ⟨"emergencySafe"⟩ (threeEntries.map (·.1))
        (threeEntries.map (·.2))).perform twoIdle = .ok out q ∧
      (Operation.sendByHand ⟨"emergencySafe"⟩ (threeEntries.reverse.map (·.1))
        (threeEntries.reverse.map (·.2))).perform twoIdle = .ok out' q' ∧
      SameButOrder twoIdle q q' ∧ q' ≠ q) ∧
    ∃ out out' q q', (Operation.sendSurplus ⟨lpSafeId⟩ ["usdcPool", "daiPool"]).perform twoIdle =
        .ok out q ∧
      (Operation.sendSurplus ⟨lpSafeId⟩ ["daiPool", "usdcPool"]).perform twoIdle = .ok out' q' ∧
      AmountsAlong ["usdcPool", "daiPool"] ["daiPool", "usdcPool"] out out' ∧
      SameButOrder twoIdle q q' := by
  have hreachable : Reachable twoIdle := reachable_initial.run _
  constructor
  · have hfree := batches_order_free twoIdle hreachable ⟨"emergencySafe"⟩
    have halike := (hfree.1 threeEntries threeEntries.reverse (List.reverse_perm _).symm).1
    obtain ⟨out, out', hrun, hrun', -, hsame⟩ := halike.of_not_fails (by decide +kernel)
    exact ⟨out, out', _, _, hrun, hrun', hsame, by decide +kernel⟩
  · have hfree := batches_order_free twoIdle hreachable ⟨lpSafeId⟩
    have halike := (hfree.2 ["usdcPool", "daiPool"] ["daiPool", "usdcPool"] (.swap _ _ _)).1
    obtain ⟨out, out', hrun, hrun', hamounts, hsame⟩ := halike.of_not_fails (by decide +kernel)
    exact ⟨out, out', _, _, hrun, hrun', hamounts, hsame⟩

end Protocol

end MetaPool
