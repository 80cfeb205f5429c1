import MetaPool.Proofs.Failure
import MetaPool.Proofs.Ledger.Shares
import MetaPool.Proofs.Ledger.Tokens
import MetaPool.Proofs.Price.Setters
import MetaPool.Proofs.Step.Success
import MetaPool.Proofs.Value.Faults

/-!
# Where a batch fails

The lemmas that end in `stops` retrace a failed part of a batch to the check that stopped it, as those
of `Success` retrace a successful one. A batch itself fails while it lists, while it reads its deltas,
at one of its legs or at the lock (`BatchStops`), and whatever went before that place succeeded.

    Stops (recallShortfall caller ids) p fault ↔
      authorize, a reading or BatchStops burnAndReturn … p fault    (recallShortfall_stops)
-/

namespace MetaPool

namespace Oracle

variable {o : Oracle} {caller : Address} {clock : Clock} {fault : Fault}

theorem authorize_stops {permission : Permission} :
    Stops (authorize caller permission) o fault ↔
      o.roles.authorize caller permission = .error fault := by
  unfold Stops authorize
  cases o.roles.authorize caller permission <;> simp

theorem lockFor_stops {blocks : UInt64} : Stops (lockFor caller clock blocks) o fault ↔
    o.roles.authorize caller .lockOracle = .error fault ∨
      o.roles.authorize caller .lockOracle = .ok () ∧
        addHeights clock.height blocks < o.lockEnd ∧ fault = .cannotShortenLock := by
  simp only [lockFor, stops_bind, authorize_stops, authorize_eq_ok, stops_get, get_eq_ok,
    stops_refuse_then, stops_modify]
  grind

theorem lock_stops : Stops (lock caller clock) o fault ↔
    o.roles.authorize caller .lockOracle = .error fault ∨
      o.roles.authorize caller .lockOracle = .ok () ∧
        addHeights clock.height o.lockPeriod < o.lockEnd ∧ fault = .cannotShortenLock := by
  unfold lock
  rw [stops_get_bind, lockFor_stops]

end Oracle

/-! ## Books -/

/-- What a mint of shares can fail with. -/
theorem ShareBook.faults_of_mint (b : ShareBook) (holder : Address) (amount : Nat) :
    FailsIn (fun fault => fault = .invalidAddress ∨ fault.OfReading) (b.mint holder amount) := by
  have hadd (x y : Nat) : FailsIn (fun fault => fault = .invalidAddress ∨ fault.OfReading)
      (Checked.add x y) := (Checked.computes_fit _).mono fun _ h => .inr h.ofAnswer.ofReading
  refine failsIn_ite (failsIn_error (.inl rfl)) ?_
  refine failsIn_bind (hadd _ _) fun _ _ => failsIn_bind (hadd _ _) fun _ _ => ?_
  exact failsIn_ok _

/-- What a transfer can fail with, and where it blames the balance of its source. -/
theorem TokenBook.faults_of_transfer (b : TokenBook) (token source target : Address) (amount : Nat) :
    FailsIn (fun fault => fault = .invalidAddress ∨ fault.OfReading ∨
      fault = .transferExceedsBalance token source ∧ b.held token source < amount)
      (b.transfer token source target amount) := by
  refine failsIn_ite (failsIn_error (.inl rfl)) ?_
  refine failsIn_bind ((b.reads_record token).mono fun _ h => .inr (.inl h)) fun r hr => ?_
  rw [held_of_record (record_eq_ok.1 hr)]
  by_cases hlt : r.balanceOf source < amount
  · rw [if_pos hlt]
    exact failsIn_error (.inr (.inr ⟨rfl, hlt⟩))
  · rw [if_neg hlt]
    refine failsIn_ite (failsIn_ok b) (failsIn_bind ?_ fun _ _ => failsIn_ok _)
    exact (Checked.computes_fit _).mono fun _ h => .inr (.inl h.ofAnswer.ofReading)

namespace MetaToken

variable {t : MetaToken} {pool : Address} {amount : Nat} {fault : Fault}

theorem mint_eq_error :
    t.mint pool amount = .error fault ↔ t.shares.mint pool amount = .error fault := by
  simp [mint, except_bind_eq_error, pure, Except.pure]

theorem burn_eq_error :
    t.burn pool amount = .error fault ↔ t.shares.burn pool amount = .error fault := by
  simp [burn, except_bind_eq_error, pure, Except.pure]

end MetaToken

namespace Protocol

/-! ## Actions -/

section

variable {α β : Type} {p : Protocol} {fault : Fault}

theorem stops_demand {x : Except Fault α} : Stops (demand x) p fault ↔ x = .error fault := by
  cases x <;> simp [Stops, demand]

theorem stops_ask {view : Protocol → Except Fault α} :
    Stops (ask view) p fault ↔ view p = .error fault := stops_demand

theorem stops_demand_bind {x : Except Fault α} {f : α → Action β} :
    Stops (demand x >>= f) p fault ↔ x = .error fault ∨ ∃ a, x = .ok a ∧ Stops (f a) p fault := by
  simp only [stops_bind, stops_demand, demand_eq_ok]
  grind

theorem stops_ask_bind {view : Protocol → Except Fault α} {f : α → Action β} :
    Stops (ask view >>= f) p fault ↔
      view p = .error fault ∨ ∃ a, view p = .ok a ∧ Stops (f a) p fault := stops_demand_bind

theorem stops_atomically {x : Action α} : Stops (atomically x) p fault ↔ Stops x p fault := by
  unfold Stops atomically
  cases x p <;> simp

theorem stops_logEvent {event : Event} : ¬ Stops (logEvent event) p fault := stops_modify

theorem stops_onTokens {change : TokenBook → Except Fault TokenBook} :
    Stops (onTokens change) p fault ↔ change p.tokens = .error fault := by
  simp only [onTokens, stops_bind, stops_ask, stops_modify, and_false, exists_false, or_false]

theorem stops_onMetaToken {change : MetaToken → Except Fault MetaToken} :
    Stops (onMetaToken change) p fault ↔ change p.metaToken = .error fault := by
  simp only [onMetaToken, stops_bind, stops_ask, stops_modify, and_false, exists_false, or_false]

theorem stops_onOracle {setter : Clock → FeedBook → Oracle.Setter α} :
    Stops (onOracle setter) p fault ↔ Stops (setter p.clock p.feeds) p.oracle fault := by
  unfold Stops onOracle
  cases setter p.clock p.feeds p.oracle <;> simp

end

/-! ## Bounds -/

section

variable {α β : Type} {p : Protocol} {S : Fault → Prop}

theorem stopsIn_atomically {x : Action α} (h : StopsIn S x p) : StopsIn S (atomically x) p :=
  fun fault hx => h fault (stops_atomically.1 hx)

theorem stopsIn_demand_bind {x : Except Fault α} {f : α → Action β} (hx : FailsIn S x)
    (hf : ∀ a, x = .ok a → StopsIn S (f a) p) : StopsIn S (demand x >>= f) p := by
  intro fault h
  rcases stops_demand_bind.1 h with h | ⟨a, ha, h⟩
  · exact hx fault h
  · exact hf a ha fault h

theorem stopsIn_ask_bind {view : Protocol → Except Fault α} {f : α → Action β}
    (hx : FailsIn S (view p)) (hf : ∀ a, view p = .ok a → StopsIn S (f a) p) :
    StopsIn S (ask view >>= f) p := stopsIn_demand_bind hx hf

theorem stopsIn_onTokens_bind {change : TokenBook → Except Fault TokenBook} {f : Unit → Action β}
    (hx : FailsIn S (change p.tokens))
    (hf : ∀ tokens, change p.tokens = .ok tokens → StopsIn S (f ()) { p with tokens }) :
    StopsIn S (onTokens change >>= f) p := by
  refine stopsIn_bind (fun fault h => hx fault (stops_onTokens.1 h)) fun u q h => ?_
  obtain ⟨tokens, htokens, rfl⟩ := onTokens_eq_ok.1 h
  exact hf tokens htokens

theorem stopsIn_onPool_bind {a : Address} {change : Pool → Except Fault Pool} {f : Unit → Action β}
    (hpool : FailsIn S (p.pool a)) (hx : ∀ s, p.pool a = .ok s → FailsIn S (change s))
    (hf : ∀ s s', p.pool a = .ok s → change s = .ok s' →
      StopsIn S (f ()) { p with pools := p.pools.insert a s' }) :
    StopsIn S (onPool a change >>= f) p := by
  refine stopsIn_bind (stopsIn_ask_bind (failsIn_bind hpool hx) fun s _ => ?_) fun u q h => ?_
  · exact fun fault h => absurd h stops_modify
  · obtain ⟨s, s', hs, hs', rfl⟩ := onPool_eq_ok.1 h
    exact hf s s' hs hs'

theorem stopsIn_logEvent_bind {event : Event} {f : Unit → Action β}
    (hf : ∀ q, StopsIn S (f ()) q) : StopsIn S (logEvent event >>= f) p :=
  stopsIn_bind (fun _ h => absurd h stops_logEvent) fun _ q _ => hf q

end

/-! ## Moves -/

section

variable {p : Protocol} {fault : Fault} {caller pool : Address} {shares amount : Nat}

theorem sendToLpAccount_stops : Stops (sendToLpAccount caller pool amount) p fault ↔
    p.pool pool = .error fault ∨ ∃ state, p.pool pool = .ok state ∧
      (state.authorizeSend caller = .error fault ∨ state.authorizeSend caller = .ok () ∧
        p.tokens.transfer state.underlyer pool p.lpAccount.address amount = .error fault) := by
  simp only [sendToLpAccount, stops_atomically, stops_bind, stops_ask, ask_eq_ok, stops_demand,
    demand_eq_ok, stops_get, get_eq_ok, stops_onTokens, stops_logEvent, and_false, exists_false,
    or_false]
  grind

theorem returnToPool_stops : Stops (returnToPool caller pool amount) p fault ↔
    p.lpAccount.authorizeReturn caller = .error fault ∨
      p.lpAccount.authorizeReturn caller = .ok () ∧ (p.pool pool = .error fault ∨
        ∃ state, p.pool pool = .ok state ∧
          p.tokens.transfer state.underlyer p.lpAccount.address pool amount = .error fault) := by
  simp only [returnToPool, stops_atomically, stops_bind, stops_ask, ask_eq_ok, stops_demand,
    demand_eq_ok, stops_get, get_eq_ok, stops_onTokens, stops_logEvent, and_false, exists_false,
    or_false]
  grind

theorem mintAndSend_stops : Stops (mintAndSend pool shares amount) p fault ↔ shares ≠ 0 ∧
    (p.metaToken.shares.mint pool shares = .error fault ∨
      ∃ book, p.metaToken.shares.mint pool shares = .ok book ∧
        Stops (sendToLpAccount p.metaToken.address pool amount) { p with
          metaToken := { p.metaToken with shares := book }
          log := p.log ++ [⟨p.clock.height, p.clock.time, .metaMinted pool shares⟩] } fault) := by
  unfold mintAndSend
  by_cases h : shares = 0
  · simp [h, stops_pure]
  · simp only [h, ↓reduceIte, stops_bind, stops_onMetaToken, onMetaToken_eq_ok, stops_logEvent,
      logEvent_eq_ok, stops_get, get_eq_ok, MetaToken.mint_eq_ok, MetaToken.mint_eq_error]
    grind

theorem burnAndReturn_stops : Stops (burnAndReturn pool shares amount) p fault ↔ shares ≠ 0 ∧
    (p.metaToken.shares.burn pool shares = .error fault ∨
      ∃ book, p.metaToken.shares.burn pool shares = .ok book ∧
        Stops (returnToPool p.metaToken.address pool amount) { p with
          metaToken := { p.metaToken with shares := book }
          log := p.log ++ [⟨p.clock.height, p.clock.time, .metaBurned pool shares⟩] } fault) := by
  unfold burnAndReturn
  by_cases h : shares = 0
  · simp [h, stops_pure]
  · simp only [h, ↓reduceIte, stops_bind, stops_onMetaToken, onMetaToken_eq_ok, stops_logEvent,
      logEvent_eq_ok, stops_get, get_eq_ok, MetaToken.burn_eq_ok, MetaToken.burn_eq_error]
    grind

theorem registerUnderlyer_stops : Stops (registerUnderlyer pool) p fault ↔
    p.pool pool = .error fault ∨ ∃ state, p.pool pool = .ok state ∧
      ¬ p.allocation.isRegistered state.underlyer = true ∧
      (p.tokens.traits state.underlyer = .error fault ∨
        ∃ info, p.tokens.traits state.underlyer = .ok info ∧
          p.allocation.register p.metaToken.address
            ⟨state.underlyer, info.symbol, info.decimals⟩ = .error fault) := by
  unfold registerUnderlyer
  rw [stops_ask_bind]
  refine or_congr_right (exists_congr fun state => and_congr_right fun _ => ?_)
  rw [stops_get_bind]
  split
  next hlisted => simp [hlisted, stops_pure]
  next hlisted =>
    simp only [stops_bind, stops_ask, ask_eq_ok, stops_get, get_eq_ok, stops_modify, stops_logEvent]
    grind

theorem lockAfterMove_stops :
    Stops lockAfterMove p fault ↔ Stops (Oracle.lock p.metaToken.address p.clock) p.oracle fault := by
  unfold lockAfterMove
  rw [stops_get_bind]
  simp only [stops_bind, stops_onOracle, stops_get, stops_logEvent, and_false, exists_false, or_false]

end

/-! ## Batches -/

/-- The place at which a batch fails. -/
inductive BatchStops (leg : Address → Nat → Nat → Action Unit) (pools : List Address)
    (amounts : List Nat) (p : Protocol) (fault : Fault) : Prop where
  | list (before after : List Address) (pool : Address) (q : Protocol)
      (hpools : pools = before ++ pool :: after)
      (hlisted : before.forM registerUnderlyer p = .ok () q)
      (h : Stops (registerUnderlyer pool) q fault)
  | deltas (q : Protocol) (hlisted : pools.forM registerUnderlyer p = .ok () q)
      (h : q.metaDeltas pools amounts = .error fault)
  | leg (q r : Protocol) (deltas : List Nat) (before after : List ((Address × Nat) × Nat))
      (move : (Address × Nat) × Nat) (hlisted : pools.forM registerUnderlyer p = .ok () q)
      (hdeltas : q.metaDeltas pools amounts = .ok deltas)
      (hmoves : (pools.zip amounts).zip deltas = before ++ move :: after)
      (hbefore : (before.forM fun ((pool, amount), delta) => leg pool delta amount : Action Unit) q =
        .ok () r)
      (h : Stops (leg move.1.1 move.2 move.1.2) r fault)
  | lock (q r : Protocol) (deltas : List Nat)
      (hlisted : pools.forM registerUnderlyer p = .ok () q)
      (hdeltas : q.metaDeltas pools amounts = .ok deltas)
      (hmoves : (((pools.zip amounts).zip deltas).forM fun ((pool, amount), delta) =>
        leg pool delta amount : Action Unit) q = .ok () r)
      (h : Stops lockAfterMove r fault)

section

variable {α : Type} {leg : Address → Nat → Nat → Action Unit} {pools : List Address}
  {amounts : List Nat} {p : Protocol} {fault : Fault} {caller : Address} {ids : List String}

/-- A batch with anything after it that does not fail. -/
theorem batchStops_of_stops {f : Unit → Action α} (hf : ∀ q, ¬ Stops (f ()) q fault)
    (h : Stops (do pools.forM registerUnderlyer; moveBatch leg pools amounts >>= f) p fault) :
    BatchStops leg pools amounts p fault := by
  rcases stops_bind.1 h with hlist | ⟨⟨⟩, q, hlisted, hmove⟩
  · obtain ⟨before, pool, after, q, hpools, hbefore, hpool⟩ := stops_forM.1 hlist
    exact .list before after pool q hpools hbefore hpool
  have hmove : Stops (moveBatch leg pools amounts) q fault :=
    (stops_bind.1 hmove).resolve_right fun ⟨_, r, _, hr⟩ => hf r hr
  rcases stops_ask_bind.1 hmove with hdeltas | ⟨deltas, hdeltas, hlegs⟩
  · exact .deltas q hlisted hdeltas
  rcases stops_bind.1 hlegs with hleg | ⟨⟨⟩, r, hmoves, hlock⟩
  · obtain ⟨before, move, after, r, hzip, hbefore, hmove⟩ := stops_forM.1 hleg
    exact .leg q r deltas before after move hlisted hdeltas hzip hbefore hmove
  · exact .lock q r deltas hlisted hdeltas hmoves hlock

/-- A batch fails as its parts do, in whatever states they are run. Its legs are for listed pools whose
deltas could be read. -/
theorem BatchStops.faults {I : Protocol → Prop} {S : Fault → Prop}
    (hlist : ∀ pool p, I p → StopsIn S (registerUnderlyer pool) p)
    (hlisted : ∀ pool p q, I p → registerUnderlyer pool p = .ok () q → I q)
    (hdeltas : ∀ p, I p → FailsIn S (p.metaDeltas pools amounts))
    (hleg : ∀ pool delta amount deltas q r, pool ∈ pools → I q →
      q.metaDeltas pools amounts = .ok deltas → I r → StopsIn S (leg pool delta amount) r)
    (hmoved : ∀ pool delta amount p q, I p → leg pool delta amount p = .ok () q → I q)
    (hlock : ∀ p, I p → StopsIn S lockAfterMove p)
    (hp : I p) (h : BatchStops leg pools amounts p fault) : S fault := by
  have hafter {l : List Address} {q : Protocol} (h : l.forM registerUnderlyer p = .ok () q) : I q :=
    forM_preserves (fun _ _ => hlisted _) hp h
  have hmoves {l : List ((Address × Nat) × Nat)} {q r : Protocol} (hq : I q)
      (h : (l.forM fun move => leg move.1.1 move.2 move.1.2 : Action Unit) q = .ok () r) : I r :=
    forM_preserves (fun _ _ _ _ => hmoved _ _ _ _ _) hq h
  cases h with
  | list before after pool q _ hbefore h => exact hlist pool q (hafter hbefore) fault h
  | deltas q hbefore h => exact hdeltas q (hafter hbefore) fault h
  | leg q r deltas before after move hbefore hdeltas hzip hlegs h =>
    have hmove : move ∈ (pools.zip amounts).zip deltas := hzip ▸ List.mem_append_cons_self
    have hpool : move.1.1 ∈ pools := (List.of_mem_zip (List.of_mem_zip hmove).1).1
    exact hleg _ _ _ deltas q r hpool (hafter hbefore) hdeltas (hmoves (hafter hbefore) hlegs) fault h
  | lock q r deltas hbefore _ hlegs h =>
    exact hlock r (hmoves (hafter hbefore) hlegs) fault h

theorem sendSurplus_stops (h : Stops (sendSurplus caller ids) p fault) :
    p.metaToken.roles.authorize caller .sendSurplus = .error fault ∨
      p.rebalanceAmounts ids = .error fault ∨ ∃ pools topUps,
        p.rebalanceAmounts ids = .ok (pools, topUps) ∧
        BatchStops mintAndSend pools (surpluses topUps) p fault := by
  rcases stops_ask_bind.1 (stops_atomically.1 h) with hcaller | ⟨⟨⟩, -, hbody⟩
  · exact .inl hcaller
  rcases stops_ask_bind.1 hbody with hread | ⟨⟨pools, topUps⟩, hread, hbatch⟩
  · exact .inr (.inl hread)
  · have hbatch : BatchStops mintAndSend pools (surpluses topUps) p fault :=
      batchStops_of_stops (f := fun _ => pure (surpluses topUps)) (fun _ => stops_pure) hbatch
    exact .inr (.inr ⟨pools, topUps, hread, hbatch⟩)

theorem recallShortfall_stops (h : Stops (recallShortfall caller ids) p fault) :
    p.metaToken.roles.authorize caller .recallShortfall = .error fault ∨
      p.metaToken.roles.authorize caller .recallShortfall = .ok () ∧
        (p.rebalanceAmounts ids = .error fault ∨ ∃ pools topUps,
          p.rebalanceAmounts ids = .ok (pools, topUps) ∧ (p.lpHoldings pools = .error fault ∨
            ∃ available, p.lpHoldings pools = .ok available ∧
              (cappedShortfalls topUps available = .error fault ∨
                ∃ amounts, cappedShortfalls topUps available = .ok amounts ∧
                  BatchStops burnAndReturn pools amounts p fault))) := by
  rcases stops_ask_bind.1 (stops_atomically.1 h) with hcaller | ⟨⟨⟩, hcaller, hbody⟩
  · exact .inl hcaller
  refine .inr ⟨hcaller, ?_⟩
  rcases stops_ask_bind.1 hbody with hread | ⟨⟨pools, topUps⟩, hread, hbody⟩
  · exact .inl hread
  refine .inr ⟨pools, topUps, hread, ?_⟩
  rcases stops_ask_bind.1 hbody with hheld | ⟨available, hheld, hbody⟩
  · exact .inl hheld
  refine .inr ⟨available, hheld, ?_⟩
  rcases stops_demand_bind.1 hbody with hcap | ⟨amounts, hcap, hbatch⟩
  · exact .inl hcap
  · have hbatch : BatchStops burnAndReturn pools amounts p fault :=
      batchStops_of_stops (f := fun _ => pure amounts) (fun _ => stops_pure) hbatch
    exact .inr ⟨amounts, hcap, hbatch⟩

/-- The shape of both rebalances by hand. -/
theorem byHand_stops {permission : Permission}
    (h : Stops (atomically do
      ask (·.metaToken.roles.authorize caller permission)
      ask (requirePools pools amounts)
      pools.forM registerUnderlyer
      moveBatch leg pools amounts) p fault) :
    p.metaToken.roles.authorize caller permission = .error fault ∨
      requirePools pools amounts p = .error fault ∨ BatchStops leg pools amounts p fault := by
  rcases stops_ask_bind.1 (stops_atomically.1 h) with hcaller | ⟨⟨⟩, -, hbody⟩
  · exact .inl hcaller
  rcases stops_ask_bind.1 hbody with hpools | ⟨⟨⟩, -, hbatch⟩
  · exact .inr (.inl hpools)
  refine .inr (.inr (batchStops_of_stops (f := pure) (fun _ => stops_pure) ?_))
  simpa only [bind_pure] using hbatch

end

end Protocol

namespace Operation

open Protocol

variable {p : Protocol} {fault : Fault}

/-- What an operation fails with. -/
def fault? (op : Operation) (p : Protocol) : Option Fault :=
  match op.perform p with
  | .ok _ _ => none
  | .error fault _ => some fault

theorem stops_of_fault? {op : Operation} (h : op.fault? p = some fault) : Stops op.perform p fault := by
  unfold fault? at h
  cases hop : op.perform p with
  | ok out q => simp [hop] at h
  | error fault' q =>
    simp only [hop, Option.some.injEq] at h
    exact ⟨q, h ▸ hop⟩

theorem reply_stops {α : Type} {x : Action α} {reply : α → Outcome} :
    Stops (do return reply (← x)) p fault ↔ Stops x p fault := by
  simp only [stops_bind, stops_pure, and_false, exists_false, or_false]

theorem complete_stops {x : Action Unit} : Stops (complete x) p fault ↔ Stops x p fault :=
  reply_stops

/-- A failing rebalance was refused by the meta shares, or could not read what it needs, or its batch
failed. -/
theorem batchStops_of_rebalance {op : Operation} (hop : op.isRebalance = true)
    (h : Stops op.perform p fault) :
    (∃ caller permission, permission.role ≠ .contract ∧
      p.metaToken.roles.authorize caller permission = .error fault) ∨
    fault.OfReading ∨ ∃ pools amounts, BatchStops mintAndSend pools amounts p fault ∨
      BatchStops burnAndReturn pools amounts p fault := by
  cases op with
  | sendSurplus caller ids =>
    rcases sendSurplus_stops (reply_stops.1 h) with h | h | ⟨pools, topUps, -, h⟩
    · exact .inl ⟨caller, _, by decide, h⟩
    · exact .inr (.inl (p.readable.rebalanceAmounts ids fault h))
    · exact .inr (.inr ⟨_, _, .inl h⟩)
  | recallShortfall caller ids =>
    rcases recallShortfall_stops (reply_stops.1 h) with
      h | ⟨-, h | ⟨pools, topUps, -, h | ⟨available, -, h | ⟨amounts, -, h⟩⟩⟩⟩
    · exact .inl ⟨caller, _, by decide, h⟩
    · exact .inr (.inl (p.readable.rebalanceAmounts ids fault h))
    · exact .inr (.inl (p.readable.lpHoldings pools fault h))
    · exact .inr (.inl (p.readable.cappedShortfalls topUps available fault h))
    · exact .inr (.inr ⟨_, _, .inr h⟩)
  | sendByHand caller pools amounts =>
    rcases byHand_stops (complete_stops.1 h) with h | h | h
    · exact .inl ⟨caller, _, by decide, h⟩
    · exact .inr (.inl (p.readable.requirePools pools amounts fault h))
    · exact .inr (.inr ⟨_, _, .inl h⟩)
  | recallByHand caller pools amounts =>
    rcases byHand_stops (complete_stops.1 h) with h | h | h
    · exact .inl ⟨caller, _, by decide, h⟩
    · exact .inr (.inl (p.readable.requirePools pools amounts fault h))
    · exact .inr (.inr ⟨_, _, .inr h⟩)
  | _ => cases hop

end Operation

end MetaPool
