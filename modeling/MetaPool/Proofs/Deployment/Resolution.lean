import MetaPool.Proofs.Deployment.Wiring
import MetaPool.Proofs.Capital.Recall
import MetaPool.Proofs.Step.Failure

/-!
# References resolve

In a wired state no view and no operation on pools fails for a reference that leads nowhere or for a
parameter out of range (`Fault.OfWiring`), if the caller has an address. A deposit, a redemption and
each part of a batch leave a wired state behind, so that this holds half-way as well.

    Reachable p → op.valuesPools → op.fault? p = some fault → ¬ fault.OfWiring
                                                                    (references_resolve)
-/

namespace MetaPool

/-- The faults of references that lead nowhere, of addresses that are missing or taken and of parameters
that are out of range. -/
def Fault.OfWiring : Fault → Prop
  | .unknownToken _ | .invalidSource | .invalidAddress | .invalidParameter _
  | .alreadyRegistered _ => True
  | _ => False

/-- The view does not fail for a reference. -/
abbrev Resolves {α : Type} (x : Except Fault α) : Prop := FailsIn (fun fault => ¬ fault.OfWiring) x

theorem Fault.OfAnswer.not_ofWiring {fault : Fault} (h : fault.OfAnswer) : ¬ fault.OfWiring := by
  cases fault <;> first | exact id | exact absurd h id

theorem resolves_of_computes {α : Type} {x : Except Fault α} (h : FailsIn Fault.OfArithmetic x) :
    Resolves x := h.mono fun _ hfault => hfault.ofAnswer.not_ofWiring

theorem resolves_authorize (t : RoleTable) (caller : Address) (permission : Permission) :
    Resolves (t.authorize caller permission) := by
  refine failsIn_ite (failsIn_ok ()) (failsIn_error ?_)
  cases permission.role <;> exact id

/-! ## Books -/

namespace ShareBook

variable {b : ShareBook} {holder : Address}

theorem resolves_mint (hholder : ¬ holder.isEmpty = true) (amount : Nat) :
    Resolves (b.mint holder amount) := by
  unfold mint
  rw [if_neg hholder]
  refine failsIn_bind (resolves_of_computes (Checked.computes_fit _)) fun _ _ => ?_
  exact failsIn_bind (resolves_of_computes (Checked.computes_fit _)) fun _ _ => failsIn_ok _

theorem resolves_burn (b : ShareBook) (holder : Address) (amount : Nat) :
    Resolves (b.burn holder amount) := by
  refine failsIn_ite (failsIn_error id) (failsIn_bind ?_ fun _ _ => failsIn_ok _)
  exact failsIn_ite (failsIn_ok _) (failsIn_error id)

end ShareBook

namespace TokenBook

variable {b b' : TokenBook} {token source target spender : Address} {amount : Nat}

theorem resolves_record (h : b.isRegistered token = true) : Resolves (b.record token) := by
  obtain ⟨x, hx⟩ := isRegistered_iff.1 h
  obtain ⟨r, hr, -⟩ := traits_eq_ok.1 hx
  exact failsIn_of_ok (record_eq_ok.2 hr)

theorem resolves_allowance (h : b.isRegistered token = true) (owner spender : Address) :
    Resolves (b.allowance token owner spender) :=
  failsIn_bind (resolves_record h) fun _ _ => failsIn_ok _

theorem resolves_transfer (h : b.isRegistered token = true) (htarget : ¬ target.isEmpty = true) :
    Resolves (b.transfer token source target amount) := by
  unfold transfer
  rw [if_neg htarget]
  refine failsIn_bind (resolves_record h) fun r _ => failsIn_ite (failsIn_error id) ?_
  refine failsIn_ite (failsIn_ok b) ?_
  exact failsIn_bind (resolves_of_computes (Checked.computes_fit _)) fun _ _ => failsIn_ok _

theorem isRegistered_congr (htraits : ∀ t, b'.traits t = b.traits t)
    (h : b.isRegistered token = true) : b'.isRegistered token = true := by
  rw [isRegistered_iff] at h ⊢
  rwa [htraits]

theorem resolves_transferFrom (h : b.isRegistered token = true)
    (htarget : ¬ target.isEmpty = true) :
    Resolves (b.transferFrom token spender source target amount) := by
  refine failsIn_bind (resolves_allowance h _ _) fun _ _ => failsIn_ite (failsIn_error id) ?_
  refine failsIn_bind (resolves_transfer h htarget) fun moved hmoved => ?_
  refine failsIn_bind (failsIn_ite (failsIn_ok _) (failsIn_error id)) fun _ _ => ?_
  have hstill := isRegistered_congr (moved_of_transfer hmoved).traits h
  exact failsIn_bind (resolves_record hstill) fun _ _ => failsIn_ok _

end TokenBook

/-! ## Pools -/

theorem Pool.resolves_requireRunning (s : Pool) : Resolves s.requireRunning :=
  failsIn_ite (failsIn_error id) (failsIn_ok ())

theorem RedemptionQuote.resolves_of {withdrawBps arbitrageBps : Nat} (base : Nat) (early : Bool)
    (hwithdraw : withdrawBps ≤ wholeBps) (harbitrage : arbitrageBps ≤ wholeBps) :
    Resolves (RedemptionQuote.of base withdrawBps arbitrageBps early) := by
  have hportion (bps : Nat) : Resolves (Checked.portion base bps) :=
    resolves_of_computes (Checked.computes_prorate _ _ _)
  unfold RedemptionQuote.of
  rw [if_neg (by omega)]
  refine failsIn_bind (hportion _) fun _ _ => failsIn_ite ?_ (failsIn_ok _)
  exact failsIn_bind (hportion _) fun _ _ => failsIn_ok _

theorem Snapshot.resolves_shareValue (s : Snapshot) (shares : Nat) : Resolves (s.shareValue shares) := by
  refine failsIn_ite (failsIn_error id) ?_
  refine failsIn_bind (resolves_of_computes s.computes_totalValue) fun _ _ => ?_
  exact resolves_of_computes (Checked.computes_prorate _ _ _)

theorem Snapshot.resolves_unitsFor (s : Snapshot) (shares : Nat) : Resolves (s.unitsFor shares) :=
  failsIn_ite (failsIn_ok 0) (failsIn_bind (s.resolves_shareValue shares) fun _ _ =>
    resolves_of_computes (computes_unitsWorth _ _ _))

/-! ## Views of a wired state -/

namespace Protocol

variable {p q : Protocol} {a caller pool : Address} {s s' : Pool} {amount shares : Nat}
  {op : Operation}

namespace Wired

variable (hp : Wired p)
include hp

/-- In a wired state the oracle is pointed at deployed feeds, and the pools at registered tokens. -/
theorem readable : Readable (fun fault => ¬ fault.OfWiring) p :=
  have hlatest (source : Address) (h : p.feeds.contains source = true) :
      Resolves (p.feeds.latest source) := by
    obtain ⟨round, hround⟩ := Option.isSome_iff_exists.1 h
    exact failsIn_of_ok (by rw [FeedBook.latest, hround])
  { answers _ := Fault.OfAnswer.not_ofWiring
    tvlSource := hlatest _ hp.oracle.tvlSource
    assetSource asset source hsource := hlatest source (hp.oracle.assetSources asset source hsource)
    record a s hs := TokenBook.resolves_record (hp.registered a s hs) }

theorem resolves_underlyerPrice (a : Address) : Resolves (p.underlyerPrice a) :=
  failsIn_bind (hp.readable.pool a) fun _ _ => hp.readable.assetPrice _

theorem resolves_underlyerValue (a : Address) (amount : Nat) :
    Resolves (p.underlyerValue a amount) := by
  refine failsIn_ite (failsIn_ok 0) (failsIn_bind (hp.readable.pool a) fun s hs => ?_)
  refine failsIn_bind (hp.readable.decimals hs) fun _ _ => ?_
  refine failsIn_bind (hp.readable.assetPrice _) fun _ _ => ?_
  exact resolves_of_computes (computes_worth _ _ _)

theorem resolves_poolValue (a : Address) : Resolves (p.poolValue a) :=
  failsIn_bind (hp.readable.snapshot a) fun s _ => resolves_of_computes s.computes_totalValue

theorem resolves_shareValue (a : Address) (shares : Nat) : Resolves (p.shareValue a shares) := by
  refine failsIn_bind (hp.readable.pool a) fun _ _ => failsIn_ite (failsIn_error id) ?_
  exact failsIn_bind (hp.readable.snapshot a) fun s _ => s.resolves_shareValue shares

theorem resolves_mintAmount (a : Address) (amount : Nat) : Resolves (p.mintAmount a amount) := by
  refine failsIn_bind (hp.readable.pool a) fun s hs => failsIn_ite ?_ ?_
  · refine failsIn_bind (hp.readable.decimals hs) fun _ _ => ?_
    exact resolves_of_computes (computes_bootstrapMint _ _)
  · refine failsIn_bind (hp.readable.snapshot a) fun s _ => ?_
    exact resolves_of_computes (s.computes_sharesFor amount)

theorem resolves_underlyerFor (a : Address) (shares : Nat) :
    Resolves (p.underlyerFor a shares) := by
  refine failsIn_ite (failsIn_ok 0) (failsIn_bind (hp.readable.pool a) fun _ _ => ?_)
  refine failsIn_ite (failsIn_error id) ?_
  exact failsIn_bind (hp.readable.snapshot a) fun s _ => s.resolves_unitsFor shares

/-- The fees of a pool are never above the whole, whatever its staff sets. -/
theorem resolves_quote (a holder : Address) (shares : Nat) : Resolves (p.quote a holder shares) := by
  refine failsIn_bind (hp.readable.pool a) fun s hs => ?_
  refine failsIn_bind (hp.resolves_underlyerFor a shares) fun base _ => ?_
  have hterms := (hp.deployed a s hs).terms
  simp only [PoolTerms.validate, refuse_eq_ok] at hterms
  obtain ⟨-, hfees, -⟩ := hterms
  exact RedemptionQuote.resolves_of base _ (by omega) (by omega)

end Wired

/-! ## Deposits and redemptions -/

/-- A wired state stays wired if nothing that is referred to changes. -/
theorem Wired.congr (hp : Wired p)
    (hpool : ∀ a t, q.pool a = .ok t →
      ∃ s, p.pool a = .ok s ∧ t.underlyer = s.underlyer ∧ t.terms = s.terms)
    (hlp : q.lpAccount = p.lpAccount) (horacle : q.oracle = p.oracle) (hfeeds : q.feeds = p.feeds)
    (htraits : ∀ t, q.tokens.traits t = p.tokens.traits t) (hlisted : Listed q) : Wired q where
  deployed a t ht := by
    obtain ⟨s, hs, hunderlyer, hterms⟩ := hpool a t ht
    obtain ⟨hvalid, hnamed, haddress, hapart⟩ := hp.deployed a s hs
    exact ⟨hterms ▸ hvalid, hunderlyer ▸ hnamed, haddress, hlp ▸ hapart⟩
  lpAccount := hlp ▸ hp.lpAccount
  registered a t ht := by
    obtain ⟨s, hs, hunderlyer, -⟩ := hpool a t ht
    exact hunderlyer ▸ TokenBook.isRegistered_congr htraits (hp.registered a s hs)
  pointed a t ht := by
    obtain ⟨s, hs, hunderlyer, -⟩ := hpool a t ht
    rw [hunderlyer, horacle]
    exact hp.pointed a s hs
  oracle := by
    rw [horacle, hfeeds]
    exact hp.oracle
  listed := hlisted

/-- What a deposit and a redemption write leaves the references as they are. -/
theorem Wired.exchanged {tokens : TokenBook} (hp : Wired p)
    (hq : q = { p with tokens, pools := p.pools.insert a s' }) (hs : p.pool a = .ok s)
    (hunderlyer : s'.underlyer = s.underlyer) (hterms : s'.terms = s.terms)
    (htraits : ∀ t, tokens.traits t = p.tokens.traits t) : Wired q := by
  subst hq
  refine hp.congr (fun b t ht => ?_) rfl rfl rfl htraits (hp.listed.congr rfl htraits)
  rw [pool_of_insert rfl] at ht
  split at ht
  next hb =>
    obtain rfl := Except.ok.inj ht
    exact ⟨s, hb ▸ hs, hunderlyer, hterms⟩
  next => exact ⟨t, ht, rfl, rfl⟩

theorem Wired.resolves_deposit (hp : Wired p) (hcaller : ¬ caller.isEmpty = true) :
    StopsIn (fun fault => ¬ fault.OfWiring) (deposit caller pool amount) p := by
  refine stopsIn_atomically (stopsIn_ask_bind (hp.readable.pool pool) fun s hs => ?_)
  have hregistered := hp.registered pool s hs
  have hopen : Resolves s.requireDepositsOpen :=
    failsIn_bind s.resolves_requireRunning fun _ _ => failsIn_ite (failsIn_error id) (failsIn_ok ())
  refine stopsIn_demand_bind hopen fun _ _ => stopsIn_refuse_then id ?_
  refine stopsIn_ask_bind (TokenBook.resolves_allowance hregistered _ _) fun _ _ => ?_
  refine stopsIn_refuse_then id (stopsIn_ask_bind (hp.resolves_mintAmount _ _) fun shares _ => ?_)
  have htarget := (hp.deployed pool s hs).address
  refine stopsIn_onTokens_bind (TokenBook.resolves_transferFrom hregistered htarget)
    fun tokens htokens => stopsIn_get_bind ?_
  refine stopsIn_onPool_bind (hp.readable.pool pool)
    (fun _ _ => failsIn_bind (ShareBook.resolves_mint hcaller _) fun _ _ => failsIn_ok _)
    fun t t' ht ht' => ?_
  obtain rfl : s = t := ok_unique hs ht
  obtain ⟨book, -, rfl⟩ := Pool.addDeposit_eq_ok.1 ht'
  refine stopsIn_ask_bind (resolves_poolValue ?_ pool) fun _ _ => ?_
  · exact hp.exchanged rfl hs rfl rfl (TokenBook.moved_of_transferFrom htokens).traits
  exact stopsIn_logEvent_bind fun _ => stopsIn_pure

theorem Wired.resolves_redeem (hp : Wired p) (hcaller : ¬ caller.isEmpty = true) :
    StopsIn (fun fault => ¬ fault.OfWiring) (redeem caller pool shares) p := by
  refine stopsIn_atomically (stopsIn_ask_bind (hp.readable.pool pool) fun s hs => ?_)
  have hregistered := hp.registered pool s hs
  have hopen : Resolves s.requireRedemptionsOpen :=
    failsIn_bind s.resolves_requireRunning fun _ _ => failsIn_ite (failsIn_error id) (failsIn_ok ())
  refine stopsIn_demand_bind hopen fun _ _ => stopsIn_refuse_then id (stopsIn_refuse_then id ?_)
  refine stopsIn_ask_bind (hp.resolves_quote _ _ _) fun _ _ => ?_
  refine stopsIn_ask_bind (hp.readable.balanceOf hs _) fun _ _ => ?_
  refine stopsIn_refuse_then id (stopsIn_onPool_bind (hp.readable.pool pool)
    (fun t _ => failsIn_bind (t.shares.resolves_burn _ _) fun _ _ => failsIn_ok _)
    fun t t' ht ht' => ?_)
  obtain rfl : s = t := ok_unique hs ht
  obtain ⟨book, -, rfl⟩ := Pool.takeShares_eq_ok.1 ht'
  refine stopsIn_onTokens_bind (TokenBook.resolves_transfer hregistered hcaller)
    fun tokens htokens => ?_
  refine stopsIn_ask_bind (resolves_poolValue ?_ pool) fun _ _ => ?_
  · exact hp.exchanged rfl hs rfl rfl (TokenBook.moved_of_transfer htokens).traits
  exact stopsIn_logEvent_bind fun _ => stopsIn_pure

/-! ## Batches -/

theorem wired_registerUnderlyer (hp : Wired p) (h : registerUnderlyer pool p = .ok () q) : Wired q := by
  have hlisted := listed_registerUnderlyer hp.listed h
  obtain ⟨s, -, ⟨-, rfl⟩ | ⟨-, info, allocation, -, -, rfl⟩⟩ := registerUnderlyer_eq_ok.1 h
  · exact hp
  · exact hp.congr (fun _ t ht => ⟨t, ht, rfl, rfl⟩) rfl rfl rfl (fun _ => rfl) hlisted

theorem wired_leg (kind : LegKind) (hp : Wired p) (h : kind.leg pool shares amount p = .ok () q) :
    Wired q := by
  have hlisted := listed_leg kind hp.listed h
  obtain ⟨-, rfl⟩ | ⟨-, _, s, tokens, -, -, -, ht, rfl⟩ := LegKind.leg_eq_ok.1 h
  · exact hp
  · exact hp.congr (fun _ t ht => ⟨t, ht, rfl, rfl⟩) rfl rfl rfl (TokenBook.moved_of_transfer ht).traits
      hlisted

/-- The allocation is asked for tokens alone that it does not list and that have an address. -/
theorem Wired.resolves_registerUnderlyer (hp : Wired p) (pool : Address) :
    StopsIn (fun fault => ¬ fault.OfWiring) (registerUnderlyer pool) p := by
  intro fault h
  rcases registerUnderlyer_stops.1 h with h | ⟨s, hs, hnew, h | ⟨info, -, h⟩⟩
  · exact hp.readable.pool pool fault h
  · exact hp.readable.traits hs fault h
  · refine (failsIn_bind (resolves_authorize _ _ _) fun _ _ => ?_ : Resolves _) fault h
    rw [if_neg (hp.deployed pool s hs).underlyer, if_neg hnew]
    exact failsIn_ok _

theorem Wired.resolves_sendToLpAccount (hp : Wired p) (caller pool : Address) (amount : Nat) :
    StopsIn (fun fault => ¬ fault.OfWiring) (sendToLpAccount caller pool amount) p := by
  intro fault h
  rcases sendToLpAccount_stops.1 h with h | ⟨s, hs, h | ⟨-, h⟩⟩
  · exact hp.readable.pool pool fault h
  · exact (failsIn_bind (resolves_authorize _ _ _) fun _ _ => s.resolves_requireRunning :
      Resolves _) fault h
  · exact TokenBook.resolves_transfer (hp.registered pool s hs) hp.lpAccount fault h

theorem Wired.resolves_returnToPool (hp : Wired p) (caller pool : Address) (amount : Nat) :
    StopsIn (fun fault => ¬ fault.OfWiring) (returnToPool caller pool amount) p := by
  intro fault h
  rcases returnToPool_stops.1 h with h | ⟨-, h | ⟨s, hs, h⟩⟩
  · exact resolves_authorize _ _ _ fault h
  · exact hp.readable.pool pool fault h
  · exact TokenBook.resolves_transfer (hp.registered pool s hs) (hp.deployed pool s hs).address fault h

theorem Wired.resolves_leg (hp : Wired p) (kind : LegKind) (hpool : ¬ pool.isEmpty = true) :
    StopsIn (fun fault => ¬ fault.OfWiring) (kind.leg pool shares amount) p := by
  have hbook {metaToken : MetaToken} {log : List LogEntry} : Wired { p with metaToken, log } :=
    hp.congr (fun _ t ht => ⟨t, ht, rfl, rfl⟩) rfl rfl rfl (fun _ => rfl) hp.listed
  intro fault h
  cases kind with
  | sends =>
    obtain ⟨-, h | ⟨book, -, h⟩⟩ := mintAndSend_stops.1 h
    · exact ShareBook.resolves_mint hpool _ fault h
    · exact hbook.resolves_sendToLpAccount _ _ _ fault h
  | recalls =>
    obtain ⟨-, h | ⟨book, -, h⟩⟩ := burnAndReturn_stops.1 h
    · exact ShareBook.resolves_burn _ _ _ fault h
    · exact hbook.resolves_returnToPool _ _ _ fault h

theorem resolves_lockAfterMove (p : Protocol) :
    StopsIn (fun fault => ¬ fault.OfWiring) lockAfterMove p := by
  intro fault h
  rcases Oracle.lock_stops.1 (lockAfterMove_stops.1 h) with h | ⟨-, -, rfl⟩
  · exact resolves_authorize _ _ _ fault h
  · exact id

theorem Wired.resolves_batch {pools : List Address} {amounts : List Nat} {fault : Fault}
    (hp : Wired p) (kind : LegKind) (h : BatchStops kind.leg pools amounts p fault) :
    ¬ fault.OfWiring := by
  refine h.faults (I := Wired) (S := fun fault => ¬ fault.OfWiring) ?_ ?_ ?_ ?_ ?_ ?_ hp
  · exact fun pool _ hp => hp.resolves_registerUnderlyer pool
  · exact fun _ _ _ => wired_registerUnderlyer
  · exact fun _ hp => hp.readable.metaDeltas pools amounts
  · intro pool delta amount deltas q r hpool hq hdeltas hr
    obtain ⟨s, hs⟩ := pool_of_metaDeltas hdeltas hpool
    exact hr.resolves_leg kind (hq.deployed pool s hs).address
  · exact fun _ _ _ _ _ => wired_leg kind
  · exact fun p _ => resolves_lockAfterMove p

theorem Wired.resolves_rebalance (hp : Wired p) (hop : op.isRebalance = true) :
    StopsIn (fun fault => ¬ fault.OfWiring) op.perform p := by
  have hgate (caller : Address) (permission : Permission) :
      Resolves (p.metaToken.roles.authorize caller permission) := resolves_authorize _ _ _
  intro fault h
  cases op with
  | sendSurplus caller ids =>
    rcases sendSurplus_stops (Operation.reply_stops.1 h) with h | h | ⟨pools, topUps, -, h⟩
    · exact hgate _ _ fault h
    · exact hp.readable.rebalanceAmounts ids fault h
    · exact hp.resolves_batch .sends h
  | recallShortfall caller ids =>
    rcases recallShortfall_stops (Operation.reply_stops.1 h) with
      h | ⟨-, h | ⟨pools, topUps, -, h | ⟨available, -, h | ⟨amounts, -, h⟩⟩⟩⟩
    · exact hgate _ _ fault h
    · exact hp.readable.rebalanceAmounts ids fault h
    · exact hp.readable.lpHoldings pools fault h
    · exact hp.readable.cappedShortfalls topUps available fault h
    · exact hp.resolves_batch .recalls h
  | sendByHand caller pools amounts =>
    rcases byHand_stops (Operation.complete_stops.1 h) with h | h | h
    · exact hgate _ _ fault h
    · exact hp.readable.requirePools pools amounts fault h
    · exact hp.resolves_batch .sends h
  | recallByHand caller pools amounts =>
    rcases byHand_stops (Operation.complete_stops.1 h) with h | h | h
    · exact hgate _ _ fault h
    · exact hp.readable.requirePools pools amounts fault h
    · exact hp.resolves_batch .recalls h
  | _ => cases hop

end Protocol

/-! ## Reachable states -/

/-- Whether an operation exchanges shares for an account with an address, or moves capital in a batch. -/
def Operation.valuesPools : Operation → Bool
  | .deposit caller _ _ | .redeem caller _ _ => !caller.isEmpty
  | op => op.isRebalance

namespace Protocol

variable {p : Protocol} {op : Operation}

/-- No view that values something, and no quote, fails for a reference. -/
structure ViewsResolve (p : Protocol) : Prop where
  tvl : Resolves p.tvl
  assetPrice : ∀ asset, Resolves (p.assetPrice asset)
  underlyerPrice : ∀ a, Resolves (p.underlyerPrice a)
  underlyerValue : ∀ a amount, Resolves (p.underlyerValue a amount)
  deployedValue : ∀ a, Resolves (p.deployedValue a)
  snapshot : ∀ a, Resolves (p.snapshot a)
  poolValue : ∀ a, Resolves (p.poolValue a)
  shareValue : ∀ a shares, Resolves (p.shareValue a shares)
  mintAmount : ∀ a amount, Resolves (p.mintAmount a amount)
  underlyerFor : ∀ a shares, Resolves (p.underlyerFor a shares)
  isEarly : ∀ a holder, Resolves (p.isEarly a holder)
  quote : ∀ a holder shares, Resolves (p.quote a holder shares)
  topUp : ∀ a, Resolves (p.topUp a)
  rebalanceAmounts : ∀ ids, Resolves (p.rebalanceAmounts ids)
  lpBalances : ∀ ids, Resolves (p.lpBalances ids)
  metaDeltas : ∀ pools amounts, Resolves (p.metaDeltas pools amounts)

theorem Wired.viewsResolve (hp : Wired p) : ViewsResolve p where
  tvl := hp.readable.tvl
  assetPrice := hp.readable.assetPrice
  underlyerPrice := hp.resolves_underlyerPrice
  underlyerValue := hp.resolves_underlyerValue
  deployedValue := hp.readable.deployedValue
  snapshot := hp.readable.snapshot
  poolValue := hp.resolves_poolValue
  shareValue := hp.resolves_shareValue
  mintAmount := hp.resolves_mintAmount
  underlyerFor := hp.resolves_underlyerFor
  isEarly a _ := failsIn_bind (hp.readable.pool a) fun _ _ => failsIn_ok _
  quote := hp.resolves_quote
  topUp := hp.readable.topUp
  rebalanceAmounts := hp.readable.rebalanceAmounts
  lpBalances ids := failsIn_bind (hp.readable.poolAddresses ids) fun _ _ => hp.readable.lpHoldings _
  metaDeltas := hp.readable.metaDeltas

theorem Wired.resolves_perform (hp : Wired p) (hop : op.valuesPools = true) :
    StopsIn (fun fault => ¬ fault.OfWiring) op.perform p := by
  intro fault h
  cases op with
  | deposit caller pool amount =>
    exact hp.resolves_deposit (by simpa [Operation.valuesPools] using hop) fault (Operation.reply_stops.1 h)
  | redeem caller pool shares =>
    exact hp.resolves_redeem (by simpa [Operation.valuesPools] using hop) fault (Operation.reply_stops.1 h)
  | _ =>
    refine hp.resolves_rebalance ?_ fault h
    exact hop

/-- In every reachable state the terms of every pool are valid, its underlyer is a registered token with
an asset source, the stale period is positive, the oracle reads deployed feeds alone and the allocation
says of every token what the token book says. So no view that values something, no deposit or redemption
of an account with an address and no rebalance fails for a reference. -/
theorem references_resolve (p : Protocol) (h : Reachable p) :
    (∀ a s, p.pool a = .ok s → s.terms.validate = .ok () ∧
      p.tokens.isRegistered s.underlyer = true ∧
      ∃ source, p.oracle.assetSource s.underlyer = some source) ∧
    0 < p.oracle.stalePeriod ∧
    p.feeds.contains p.oracle.tvlSource = true ∧
    (∀ asset source, p.oracle.assetSource asset = some source → p.feeds.contains source = true) ∧
    (∀ token data, p.allocation.tokens.get? token = some data →
      data.token = token ∧ p.tokens.traits token = .ok ⟨data.symbol, data.decimals⟩) ∧
    ViewsResolve p ∧
    ∀ (op : Operation) (fault : Fault), op.valuesPools = true → op.fault? p = some fault →
      ¬ fault.OfWiring := by
  have hp := h.wired
  refine ⟨fun a s hs => ⟨(hp.deployed a s hs).terms, hp.registered a s hs, ?_⟩, hp.oracle.stalePeriod,
    hp.oracle.tvlSource, hp.oracle.assetSources, hp.listed, hp.viewsResolve, ?_⟩
  · exact Option.isSome_iff_exists.1 (hp.pointed a s hs)
  · exact fun op fault hop hfault => hp.resolves_perform hop fault (Operation.stops_of_fault? hfault)

/-- An asset gets another source and a pool other fees; then capital moves, which lists the asset and
leaves the oracle locked. -/
def migration : List Operation :=
  [.openFeed ⟨"usdc-spare"⟩ 100000000,
    .setAssetSource ⟨"emergencySafe"⟩ ⟨"USDC"⟩ ⟨"usdc-spare"⟩,
    .setArbitrageFee ⟨"adminSafe"⟩ ⟨"usdcPool"⟩ 10000 60,
    .mintTokens ⟨"USDC"⟩ ⟨"usdcPool"⟩ 500,
    .sendByHand ⟨"emergencySafe"⟩ [⟨"usdcPool"⟩] [400]]

def migrated : Protocol := initial.run migration

theorem references_resolve_migrated :
    migrated.oracle.assetSource ⟨"USDC"⟩ = some ⟨"usdc-spare"⟩ ∧
      migrated.feeds.contains ⟨"usdc-spare"⟩ = true ∧
      (∃ data, migrated.allocation.tokens.get? ⟨"USDC"⟩ = some data ∧
        migrated.tokens.traits ⟨"USDC"⟩ = .ok ⟨data.symbol, data.decimals⟩) ∧
      Resolves (migrated.quote ⟨"usdcPool"⟩ ⟨"alice"⟩ 10) ∧
      ∃ fault, (Operation.recallByHand ⟨"emergencySafe"⟩ [⟨"usdcPool"⟩] [400]).fault? migrated =
        some fault ∧ ¬ fault.OfWiring := by
  obtain ⟨-, -, -, hsources, hlisted, hviews, hfaults⟩ :=
    references_resolve migrated (reachable_initial.run migration)
  have hpointed : migrated.oracle.assetSource ⟨"USDC"⟩ = some ⟨"usdc-spare"⟩ := by decide +kernel
  obtain ⟨data, hdata⟩ : ∃ data, migrated.allocation.tokens.get? ⟨"USDC"⟩ = some data :=
    Option.isSome_iff_exists.1 (by decide +kernel)
  obtain ⟨fault, hfault⟩ : ∃ fault,
      (Operation.recallByHand ⟨"emergencySafe"⟩ [⟨"usdcPool"⟩] [400]).fault? migrated = some fault :=
    Option.isSome_iff_exists.1 (by decide +kernel)
  exact ⟨hpointed, hsources _ _ hpointed, ⟨data, hdata, (hlisted _ data hdata).2⟩, hviews.quote _ _ _,
    fault, hfault, hfaults _ fault rfl hfault⟩

end Protocol

end MetaPool
