import MetaPool.Proofs.Action
import MetaPool.Proofs.Step.Atomicity

/-!
# What a success says

A successful run passed every guard on its way. The lemmas that end in `eq_ok` read that off the
constructors of an action. For the body of an operation they give all that was checked, in order,
and the state that is left: `deposit_eq_ok`, `redeem_eq_ok`, `controlPool_eq_ok` and so on. A batch
is a walk of its legs between two steps that write neither pools nor meta shares (`Batch`).
-/

namespace MetaPool

namespace Protocol

/-! ## Actions -/

section

variable {α : Type} {x : Action α} {p q : Protocol} {a : α}

theorem demand_eq_ok {v : Except Fault α} : demand v p = .ok a q ↔ v = .ok a ∧ q = p := by
  cases v <;> simp [demand, eq_comm]

theorem ask_eq_ok {view : Protocol → Except Fault α} :
    ask view p = .ok a q ↔ view p = .ok a ∧ q = p := demand_eq_ok

theorem atomically_eq_ok : atomically x p = .ok a q ↔ x p = .ok a q := by
  unfold atomically
  cases x p <;> simp

end

section

variable {p q : Protocol} {u : Unit}

theorem logEvent_eq_ok {event : Event} : logEvent event p = .ok u q ↔
    q = { p with log := p.log ++ [⟨p.clock.height, p.clock.time, event⟩] } := modify_eq_ok

theorem onTokens_eq_ok {change : TokenBook → Except Fault TokenBook} :
    onTokens change p = .ok u q ↔
      ∃ tokens, change p.tokens = .ok tokens ∧ q = { p with tokens } := by
  simp only [onTokens, bind_eq_ok, ask_eq_ok, modify_eq_ok]
  grind

theorem onFeeds_eq_ok {change : FeedBook → Except Fault FeedBook} :
    onFeeds change p = .ok u q ↔ ∃ feeds, change p.feeds = .ok feeds ∧ q = { p with feeds } := by
  simp only [onFeeds, bind_eq_ok, ask_eq_ok, modify_eq_ok]
  grind

theorem onMetaToken_eq_ok {change : MetaToken → Except Fault MetaToken} :
    onMetaToken change p = .ok u q ↔
      ∃ metaToken, change p.metaToken = .ok metaToken ∧ q = { p with metaToken } := by
  simp only [onMetaToken, bind_eq_ok, ask_eq_ok, modify_eq_ok]
  grind

theorem onPool_eq_ok {address : Address} {change : Pool → Except Fault Pool} :
    onPool address change p = .ok u q ↔
      ∃ pool pool', p.pool address = .ok pool ∧ change pool = .ok pool' ∧
        q = { p with pools := p.pools.insert address pool' } := by
  simp only [onPool, bind_eq_ok, ask_eq_ok, modify_eq_ok, except_bind_eq_ok]
  grind

theorem onOracle_eq_ok {α : Type} {setter : Clock → FeedBook → Oracle.Setter α} {a : α} :
    onOracle setter p = .ok a q ↔
      ∃ oracle, setter p.clock p.feeds p.oracle = .ok a oracle ∧ q = { p with oracle } := by
  unfold onOracle
  cases setter p.clock p.feeds p.oracle <;> grind

/-- A walk that logs an event for each element of a list. -/
theorem logEvents_eq_ok {γ : Type} {l : List γ} {event : γ → Event} :
    (l.forM fun c => logEvent (event c) : Action Unit) p = .ok u q ↔
      q = { p with log := p.log ++ l.map fun c => ⟨p.clock.height, p.clock.time, event c⟩ } := by
  induction l generalizing p with
  | nil => exact pure_eq_ok.trans (by simp)
  | cons c l ih =>
    refine bind_eq_ok.trans ?_
    simp only [logEvent_eq_ok, ih]
    simp

/-! ## The environment -/

theorem publish_eq_ok {source : Address} {answer : Int} : publish source answer p = .ok u q ↔
    ∃ feeds, p.feeds.publish source ⟨answer, p.clock.time⟩ = .ok feeds ∧ q = { p with feeds } := by
  unfold publish
  rw [get_bind_eq_ok, onFeeds_eq_ok]

theorem publishPrice_eq_ok {asset : Address} {answer : Int} :
    publishPrice asset answer p = .ok u q ↔
      ∃ source, p.oracle.assetSource asset = some source ∧ publish source answer p = .ok u q := by
  unfold publishPrice
  rw [get_bind_eq_ok]
  cases p.oracle.assetSource asset with
  | some source => simp
  | none => simp [throw_eq_ok]

theorem openFeed_eq_ok {source : Address} {answer : Int} : openFeed source answer p = .ok u q ↔
    ∃ feeds, p.feeds.add source ⟨answer, p.clock.time⟩ = .ok feeds ∧ q = { p with feeds } := by
  unfold openFeed
  rw [get_bind_eq_ok, onFeeds_eq_ok]

/-! ## Operations -/

theorem deposit_eq_ok {caller pool : Address} {amount shares : Nat} :
    deposit caller pool amount p = .ok shares q ↔
      ∃ state state' tokens value,
        p.pool pool = .ok state ∧ state.requireDepositsOpen = .ok () ∧ amount ≠ 0 ∧
        (∃ allowed, p.tokens.allowance state.underlyer caller pool = .ok allowed ∧
          ¬ allowed < amount) ∧
        p.mintAmount pool amount = .ok shares ∧
        p.tokens.transferFrom state.underlyer pool caller pool amount = .ok tokens ∧
        state.addDeposit caller shares p.clock.time = .ok state' ∧
        { p with tokens, pools := p.pools.insert pool state' }.poolValue pool = .ok value ∧
        q = { p with
          tokens, pools := p.pools.insert pool state'
          log := p.log ++ [⟨p.clock.height, p.clock.time,
            .deposited pool caller state.underlyer amount shares value⟩] } := by
  simp only [deposit, atomically_eq_ok, bind_eq_ok, ask_eq_ok, demand_eq_ok, refuse_then_eq_ok,
    get_eq_ok, onTokens_eq_ok, onPool_eq_ok, logEvent_eq_ok, pure_eq_ok, and_assoc, exists_and_left,
    exists_eq_left, exists_const]
  constructor
  · rintro ⟨state, hs, ⟨⟩, hopen, hne, allowed, hallow, hle, _, hmint, r, ⟨tokens, ht, rfl⟩, r',
      ⟨state₁, hs₁, state', hadd, rfl⟩, value, hv, rfl, rfl⟩
    obtain rfl : state = state₁ := ok_unique hs hs₁
    exact ⟨state, hs, hopen, hne, ⟨allowed, hallow, hle⟩, hmint, state', tokens, ht, hadd, value, hv,
      rfl⟩
  · rintro ⟨state, hs, hopen, hne, ⟨allowed, hallow, hle⟩, hmint, state', tokens, ht, hadd, value,
      hv, rfl⟩
    exact ⟨state, hs, (), hopen, hne, allowed, hallow, hle, shares, hmint, _, ⟨tokens, ht, rfl⟩, _,
      ⟨state, hs, state', hadd, rfl⟩, value, hv, rfl, rfl⟩

theorem redeem_eq_ok {caller pool : Address} {shares paid : Nat} :
    redeem caller pool shares p = .ok paid q ↔
      ∃ state state' tokens available quote value,
        p.pool pool = .ok state ∧ state.requireRedemptionsOpen = .ok () ∧ shares ≠ 0 ∧
        ¬ state.shares.balanceOf caller < shares ∧
        p.quote pool caller shares = .ok quote ∧ paid = quote.net ∧
        p.tokens.balanceOf state.underlyer pool = .ok available ∧ ¬ paid > available ∧
        state.takeShares caller shares = .ok state' ∧
        p.tokens.transfer state.underlyer pool caller paid = .ok tokens ∧
        { p with tokens, pools := p.pools.insert pool state' }.poolValue pool = .ok value ∧
        q = { p with
          tokens, pools := p.pools.insert pool state'
          log := p.log ++ [⟨p.clock.height, p.clock.time,
            .redeemed pool caller state.underlyer paid shares value⟩] } := by
  simp only [redeem, atomically_eq_ok, bind_eq_ok, ask_eq_ok, demand_eq_ok, refuse_then_eq_ok,
    onTokens_eq_ok, onPool_eq_ok, logEvent_eq_ok, pure_eq_ok, and_assoc, exists_and_left,
    exists_eq_left, exists_const]
  constructor
  · rintro ⟨state, hs, ⟨⟩, hopen, hne, hhas, quote, hq, available, hav, hle, r,
      ⟨state₁, hs₁, state', htake, rfl⟩, r', ⟨tokens, ht, rfl⟩, value, hv, rfl, rfl⟩
    obtain rfl : state = state₁ := ok_unique hs hs₁
    exact ⟨state, hs, hopen, hne, hhas, state', tokens, available, quote, hq, rfl, hav, hle, htake,
      ht, value, hv, rfl⟩
  · rintro ⟨state, hs, hopen, hne, hhas, state', tokens, available, quote, hq, rfl, hav, hle, htake,
      ht, value, hv, rfl⟩
    exact ⟨state, hs, (), hopen, hne, hhas, quote, hq, available, hav, hle, _,
      ⟨state, hs, state', htake, rfl⟩, _, ⟨tokens, ht, rfl⟩, value, hv, rfl, rfl⟩

theorem sendToLpAccount_eq_ok {caller pool : Address} {amount : Nat} :
    sendToLpAccount caller pool amount p = .ok u q ↔
      ∃ state tokens, p.pool pool = .ok state ∧ state.authorizeSend caller = .ok () ∧
        p.tokens.transfer state.underlyer pool p.lpAccount.address amount = .ok tokens ∧
        q = { p with
          tokens
          log := p.log ++ [⟨p.clock.height, p.clock.time,
            .capitalSent pool state.underlyer amount⟩] } := by
  simp only [sendToLpAccount, atomically_eq_ok, bind_eq_ok, ask_eq_ok, demand_eq_ok, get_eq_ok,
    onTokens_eq_ok, logEvent_eq_ok, and_assoc, exists_and_left, exists_eq_left, exists_const]
  constructor
  · rintro ⟨state, hs, ⟨⟩, hcaller, _, ⟨tokens, ht, rfl⟩, rfl⟩
    exact ⟨state, hs, hcaller, tokens, ht, rfl⟩
  · rintro ⟨state, hs, hcaller, tokens, ht, rfl⟩
    exact ⟨state, hs, (), hcaller, _, ⟨tokens, ht, rfl⟩, rfl⟩

theorem returnToPool_eq_ok {caller pool : Address} {amount : Nat} :
    returnToPool caller pool amount p = .ok u q ↔
      p.lpAccount.authorizeReturn caller = .ok () ∧ ∃ state tokens, p.pool pool = .ok state ∧
        p.tokens.transfer state.underlyer p.lpAccount.address pool amount = .ok tokens ∧
        q = { p with
          tokens
          log := p.log ++ [⟨p.clock.height, p.clock.time,
            .capitalReturned pool state.underlyer amount⟩] } := by
  simp only [returnToPool, atomically_eq_ok, bind_eq_ok, ask_eq_ok, demand_eq_ok, get_eq_ok,
    onTokens_eq_ok, logEvent_eq_ok, and_assoc, exists_and_left, exists_eq_left, exists_const]
  constructor
  · rintro ⟨⟨⟩, hcaller, state, hs, _, ⟨tokens, ht, rfl⟩, rfl⟩
    exact ⟨hcaller, state, hs, tokens, ht, rfl⟩
  · rintro ⟨hcaller, state, hs, tokens, ht, rfl⟩
    exact ⟨(), hcaller, state, hs, _, ⟨tokens, ht, rfl⟩, rfl⟩

theorem controlPool_eq_ok {pool : Address} {change : Pool → Except Fault Pool} {event : Event} :
    (atomically do onPool pool change; logEvent event) p = .ok u q ↔
      ∃ state state', p.pool pool = .ok state ∧ change state = .ok state' ∧
        q = { p with
          pools := p.pools.insert pool state'
          log := p.log ++ [⟨p.clock.height, p.clock.time, event⟩] } := by
  simp only [atomically_eq_ok, bind_eq_ok, onPool_eq_ok, logEvent_eq_ok, exists_const]
  constructor
  · rintro ⟨_, ⟨state, state', hs, hs', rfl⟩, rfl⟩
    exact ⟨state, state', hs, hs', rfl⟩
  · rintro ⟨state, state', hs, hs', rfl⟩
    exact ⟨_, ⟨state, state', hs, hs', rfl⟩, rfl⟩

theorem controlOracle_eq_ok {α : Type} {setter : Clock → FeedBook → Oracle.Setter α}
    {event : α → Event} :
    (atomically do let a ← onOracle setter; logEvent (event a)) p = .ok u q ↔
      ∃ a oracle, setter p.clock p.feeds p.oracle = .ok a oracle ∧
        q = { p with
          oracle
          log := p.log ++ [⟨p.clock.height, p.clock.time, event a⟩] } := by
  simp only [atomically_eq_ok, bind_eq_ok, onOracle_eq_ok, logEvent_eq_ok]
  constructor
  · rintro ⟨a, _, ⟨oracle, hset, rfl⟩, rfl⟩
    exact ⟨a, oracle, hset, rfl⟩
  · rintro ⟨a, oracle, hset, rfl⟩
    exact ⟨a, _, ⟨oracle, hset, rfl⟩, rfl⟩

/-- A lock logs its end. -/
theorem lock_eq_ok {setter : Clock → FeedBook → Oracle.Setter Unit} :
    (do onOracle setter; logEvent (.oracleLocked (← get).oracle.lockEnd)) p = .ok u q ↔
      ∃ oracle, setter p.clock p.feeds p.oracle = .ok () oracle ∧
        q = { p with
          oracle
          log := p.log ++ [⟨p.clock.height, p.clock.time, .oracleLocked oracle.lockEnd⟩] } := by
  simp only [bind_eq_ok, onOracle_eq_ok, get_eq_ok, logEvent_eq_ok]
  constructor
  · rintro ⟨_, _, ⟨oracle, hset, rfl⟩, _, _, ⟨rfl, rfl⟩, rfl⟩
    exact ⟨oracle, hset, rfl⟩
  · rintro ⟨oracle, hset, rfl⟩
    exact ⟨(), _, ⟨oracle, hset, rfl⟩, _, _, ⟨rfl, rfl⟩, rfl⟩

theorem setAssetSources_eq_ok {caller : Address} {assets sources : List Address} :
    setAssetSources caller assets sources p = .ok u q ↔
      ∃ oracle, Oracle.setAssetSources caller p.feeds assets sources p.oracle = .ok () oracle ∧
        q = { p with
          oracle
          log := p.log ++ (assets.zip sources).map fun e =>
            ⟨p.clock.height, p.clock.time, .assetSourceChanged e.1 e.2⟩ } := by
  simp only [setAssetSources, atomically_eq_ok, bind_eq_ok, onOracle_eq_ok, logEvents_eq_ok]
  constructor
  · rintro ⟨_, _, ⟨oracle, hset, rfl⟩, rfl⟩
    exact ⟨oracle, hset, rfl⟩
  · rintro ⟨oracle, hset, rfl⟩
    exact ⟨(), _, ⟨oracle, hset, rfl⟩, rfl⟩

/-! ## Batches -/

theorem registerUnderlyer_eq_ok {pool : Address} :
    registerUnderlyer pool p = .ok u q ↔ ∃ state, p.pool pool = .ok state ∧
      (p.allocation.isRegistered state.underlyer = true ∧ q = p ∨
        ¬ p.allocation.isRegistered state.underlyer = true ∧
          ∃ info allocation, p.tokens.traits state.underlyer = .ok info ∧
            p.allocation.register p.metaToken.address
              ⟨state.underlyer, info.symbol, info.decimals⟩ = .ok allocation ∧
            q = { p with
              allocation
              log := p.log ++ [⟨p.clock.height, p.clock.time,
                .tokenRegistered state.underlyer info.symbol info.decimals⟩] }) := by
  simp only [registerUnderlyer, bind_eq_ok, ask_eq_ok, get_eq_ok]
  constructor
  · rintro ⟨state, _, ⟨hs, rfl⟩, _, _, ⟨rfl, rfl⟩, h⟩
    refine ⟨state, hs, ?_⟩
    split at h
    next hlisted => exact .inl ⟨hlisted, (pure_eq_ok.1 h).2⟩
    next hlisted =>
      simp only [bind_eq_ok, ask_eq_ok, get_eq_ok, modify_eq_ok, logEvent_eq_ok] at h
      obtain ⟨info, _, ⟨hinfo, rfl⟩, _, _, ⟨rfl, rfl⟩, allocation, _, ⟨hreg, rfl⟩, _, _, rfl, rfl⟩ :=
        h
      exact .inr ⟨hlisted, info, allocation, hinfo, hreg, rfl⟩
  · rintro ⟨state, hs, h⟩
    refine ⟨state, p, ⟨hs, rfl⟩, p, p, ⟨rfl, rfl⟩, ?_⟩
    split
    next hlisted => exact pure_eq_ok.2 ⟨rfl, (h.resolve_right fun h => h.1 hlisted).2⟩
    next hlisted =>
      obtain ⟨-, info, allocation, hinfo, hreg, rfl⟩ := h.resolve_left fun h => hlisted h.1
      simp only [bind_eq_ok, ask_eq_ok, get_eq_ok, modify_eq_ok, logEvent_eq_ok]
      exact ⟨info, p, ⟨hinfo, rfl⟩, p, p, ⟨rfl, rfl⟩, allocation, p, ⟨hreg, rfl⟩, (), _, rfl, rfl⟩

theorem lockAfterMove_eq_ok : lockAfterMove p = .ok u q ↔
    ∃ oracle, Oracle.lock p.metaToken.address p.clock p.oracle = .ok () oracle ∧
      q = { p with
        oracle
        log := p.log ++ [⟨p.clock.height, p.clock.time, .oracleLocked oracle.lockEnd⟩] } := by
  unfold lockAfterMove
  rw [get_bind_eq_ok]
  exact lock_eq_ok

theorem mintAndSend_eq_ok {pool : Address} {shares amount : Nat} :
    mintAndSend pool shares amount p = .ok u q ↔ shares = 0 ∧ q = p ∨ shares ≠ 0 ∧
      ∃ metaToken, p.metaToken.mint pool shares = .ok metaToken ∧
        sendToLpAccount metaToken.address pool amount { p with
          metaToken
          log := p.log ++ [⟨p.clock.height, p.clock.time, .metaMinted pool shares⟩] } =
            .ok () q := by
  unfold mintAndSend
  by_cases h : shares = 0
  · simp [h, pure_eq_ok]
  · simp only [h, ↓reduceIte, bind_eq_ok, onMetaToken_eq_ok, logEvent_eq_ok, get_eq_ok]
    grind

theorem burnAndReturn_eq_ok {pool : Address} {shares amount : Nat} :
    burnAndReturn pool shares amount p = .ok u q ↔ shares = 0 ∧ q = p ∨ shares ≠ 0 ∧
      ∃ metaToken, p.metaToken.burn pool shares = .ok metaToken ∧
        returnToPool metaToken.address pool amount { p with
          metaToken
          log := p.log ++ [⟨p.clock.height, p.clock.time, .metaBurned pool shares⟩] } =
            .ok () q := by
  unfold burnAndReturn
  by_cases h : shares = 0
  · simp [h, pure_eq_ok]
  · simp only [h, ↓reduceIte, bind_eq_ok, onMetaToken_eq_ok, logEvent_eq_ok, get_eq_ok]
    grind

theorem moveBatch_eq_ok {leg : Address → Nat → Nat → Action Unit} {pools : List Address}
    {amounts : List Nat} :
    moveBatch leg pools amounts p = .ok u q ↔
      ∃ deltas r, p.metaDeltas pools amounts = .ok deltas ∧
        (((pools.zip amounts).zip deltas).forM fun ((pool, amount), delta) =>
          leg pool delta amount : Action Unit) p = .ok () r ∧
        lockAfterMove r = .ok () q := by
  simp only [moveBatch, bind_eq_ok, ask_eq_ok]
  grind

/-- A successful batch lists the underlyers first and then moves. -/
def Batch (leg : Address → Nat → Nat → Action Unit) (pools : List Address) (amounts : List Nat)
    (p q : Protocol) : Prop :=
  ∃ r, pools.forM registerUnderlyer p = .ok () r ∧ moveBatch leg pools amounts r = .ok () q

/-- A batch preserves what its parts do: the listing, the legs and the lock. -/
theorem Batch.walk {leg : Address → Nat → Nat → Action Unit} {pools : List Address}
    {amounts : List Nat} {I : Protocol → Prop}
    (hlist : ∀ pool p q, I p → registerUnderlyer pool p = .ok () q → I q)
    (hleg : ∀ pool delta amount p q, I p → leg pool delta amount p = .ok () q → I q)
    (hlock : ∀ p q, I p → lockAfterMove p = .ok () q → I q)
    (hp : I p) (h : Batch leg pools amounts p q) : I q := by
  obtain ⟨r, hlisted, hmove⟩ := h
  obtain ⟨deltas, s, -, hlegs, hlocked⟩ := moveBatch_eq_ok.1 hmove
  have hr : I r := forM_preserves (fun _ _ => hlist _) hp hlisted
  have hs : I s := forM_preserves (fun _ _ _ _ => hleg _ _ _ _ _) hr hlegs
  exact hlock s q hs hlocked

/-- A batch preserves what each leg does, if neither the allocation nor the oracle bears on it. -/
theorem Batch.preserves {leg : Address → Nat → Nat → Action Unit} {pools : List Address}
    {amounts : List Nat} {I : Protocol → Prop}
    (hframe : ∀ p q, Frame [.allocation, .oracle] p q → I p → I q)
    (hleg : ∀ pool delta amount p q, I p → leg pool delta amount p = .ok () q → I q)
    (hp : I p) (h : Batch leg pools amounts p q) : I q := by
  refine h.walk (fun pool p q hI hlist => hframe p q ?_ hI) hleg
    (fun p q hI hlock => hframe p q ?_ hI) hp
  · exact (within_registerUnderlyer List.mem_cons_self pool).frame hlist
  · exact (within_lockAfterMove (.tail _ List.mem_cons_self)).frame hlock

/-- The lock comes last in a batch, and nothing before it writes the oracle or the clock. -/
theorem Batch.lock {leg : Address → Nat → Nat → Action Unit} {pools : List Address}
    {amounts : List Nat}
    (hleg : ∀ pool delta amount, Within [.tokens, .metaToken, .allocation] (leg pool delta amount))
    (h : Batch leg pools amounts p q) :
    ∃ r, Frame [.tokens, .metaToken, .allocation] p r ∧ lockAfterMove r = .ok () q := by
  obtain ⟨r, hlisted, hmove⟩ := h
  obtain ⟨deltas, s, -, hlegs, hlocked⟩ := moveBatch_eq_ok.1 hmove
  have hr : Frame [.tokens, .metaToken, .allocation] p r :=
    (within_forM fun pool => within_registerUnderlyer (by decide) pool).frame hlisted
  have hs := (within_forM fun _ => hleg _ _ _).frame hlegs
  exact ⟨s, hr.trans hs, hlocked⟩

theorem sendSurplus_eq_ok {caller : Address} {ids : List String} {amounts : List Nat} :
    sendSurplus caller ids p = .ok amounts q ↔
      p.metaToken.roles.authorize caller .sendSurplus = .ok () ∧ ∃ pools topUps,
        p.rebalanceAmounts ids = .ok (pools, topUps) ∧ amounts = surpluses topUps ∧
        Batch mintAndSend pools amounts p q := by
  simp only [sendSurplus, atomically_eq_ok, bind_eq_ok, ask_eq_ok, pure_eq_ok, Batch]
  grind

theorem recallShortfall_eq_ok {caller : Address} {ids : List String} {amounts : List Nat} :
    recallShortfall caller ids p = .ok amounts q ↔
      p.metaToken.roles.authorize caller .recallShortfall = .ok () ∧ ∃ pools topUps available,
        p.rebalanceAmounts ids = .ok (pools, topUps) ∧ p.lpHoldings pools = .ok available ∧
        cappedShortfalls topUps available = .ok amounts ∧
        Batch burnAndReturn pools amounts p q := by
  simp only [recallShortfall, atomically_eq_ok, bind_eq_ok, ask_eq_ok, demand_eq_ok, pure_eq_ok,
    Batch]
  grind

theorem sendByHand_eq_ok {caller : Address} {pools : List Address} {amounts : List Nat} :
    sendByHand caller pools amounts p = .ok u q ↔
      p.metaToken.roles.authorize caller .sendByHand = .ok () ∧
        requirePools pools amounts p = .ok () ∧ Batch mintAndSend pools amounts p q := by
  simp only [sendByHand, atomically_eq_ok, bind_eq_ok, ask_eq_ok, Batch]
  grind

theorem recallByHand_eq_ok {caller : Address} {pools : List Address} {amounts : List Nat} :
    recallByHand caller pools amounts p = .ok u q ↔
      p.metaToken.roles.authorize caller .recallByHand = .ok () ∧
        requirePools pools amounts p = .ok () ∧ Batch burnAndReturn pools amounts p q := by
  simp only [recallByHand, atomically_eq_ok, bind_eq_ok, ask_eq_ok, Batch]
  grind

end

end Protocol

namespace Operation

open Protocol

variable {p q : Protocol} {out : Outcome}

theorem reply_eq_ok {α : Type} {x : Action α} {reply : α → Outcome} :
    (do return reply (← x)) p = .ok out q ↔ ∃ a, out = reply a ∧ x p = .ok a q := by
  simp only [bind_eq_ok, pure_eq_ok]
  grind

theorem complete_eq_ok {x : Action Unit} :
    complete x p = .ok out q ↔ out = .done ∧ x p = .ok () q := by
  simp only [complete, bind_eq_ok, pure_eq_ok]
  grind

/-- A successful rebalance is a batch of one of the two kinds of leg. -/
theorem batch_of_ok {op : Operation} (hop : op.isRebalance = true) (h : op.perform p = .ok out q) :
    ∃ pools amounts,
      Batch mintAndSend pools amounts p q ∨ Batch burnAndReturn pools amounts p q := by
  cases op with
  | sendSurplus =>
    obtain ⟨_, -, h⟩ := reply_eq_ok.1 h
    obtain ⟨-, pools, topUps, -, -, hbatch⟩ := sendSurplus_eq_ok.1 h
    exact ⟨_, _, .inl hbatch⟩
  | recallShortfall =>
    obtain ⟨_, -, h⟩ := reply_eq_ok.1 h
    obtain ⟨-, pools, topUps, available, -, -, -, hbatch⟩ := recallShortfall_eq_ok.1 h
    exact ⟨_, _, .inr hbatch⟩
  | sendByHand => exact ⟨_, _, .inl (sendByHand_eq_ok.1 (complete_eq_ok.1 h).2).2.2⟩
  | recallByHand => exact ⟨_, _, .inr (recallByHand_eq_ok.1 (complete_eq_ok.1 h).2).2.2⟩
  | _ => cases hop

/-- A successful operation leaves alone what it does not write. -/
theorem frame_of_ok {op : Operation} (h : op.perform p = .ok out q) : Frame op.writes p q :=
  (within_perform op).frame h

end Operation

end MetaPool
