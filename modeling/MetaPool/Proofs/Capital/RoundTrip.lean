import MetaPool.Proofs.Capital.Walk
import MetaPool.Proofs.Price.Lock

/-!
# Round trips

Capital of one pool that is sent by hand and later recalled by hand leaves no trace in what anybody
holds (`roundTrip_exact`), if nobody's holdings and not the price have changed in between and the TVL
has grown by the worth of that capital. Both ways take the same meta shares then
(`metaDelta_roundTrip`), so that the recall undoes what the send did (`Lent`). A recall that takes less
leaves the rest lent (`Lent.rest`).

    sendByHand … p = .ok () q → Lent p q …                          (lent_of_send)
    recallByHand … p = .ok () q → Lent q p …                        (lent_of_recall)
-/

namespace MetaPool

theorem TokenBook.held_eq_shown (b : TokenBook) (t a : Address) :
    b.held t a = shown (b.balanceOf t a) := by
  unfold held balanceOf record
  cases b.records.get? t <;> rfl

/-- What can be read of a balance depends on whether its token is known and what is held. -/
theorem TokenBook.balanceOf_eq_map (b : TokenBook) (t a : Address) :
    b.balanceOf t a = (b.traits t).map fun _ => b.held t a := by
  unfold held balanceOf traits record
  cases b.records.get? t <;> rfl

namespace Protocol

variable {p q r : Protocol} {caller pool token : Address} {amount shares : Nat} {s : Pool} {u : Unit}

/-! ## What is held -/

/-- Everybody holds the same tokens and the same meta shares, of as many in all. -/
structure SameHoldings (p q : Protocol) : Prop where
  tokens : ∀ t a, q.tokens.balanceOf t a = p.tokens.balanceOf t a
  metaShares : ∀ a, q.metaToken.balanceOf a = p.metaToken.balanceOf a
  metaSupply : q.metaToken.supply = p.metaToken.supply

theorem SameHoldings.held (h : SameHoldings p q) (t a : Address) :
    q.tokens.held t a = p.tokens.held t a := by
  rw [TokenBook.held_eq_shown, TokenBook.held_eq_shown, h.tokens]

theorem SameHoldings.refl (p : Protocol) : SameHoldings p p := ⟨fun _ _ => rfl, fun _ => rfl, rfl⟩

theorem SameHoldings.trans (h : SameHoldings p q) (h' : SameHoldings q r) : SameHoldings p r where
  tokens t a := (h'.tokens t a).trans (h.tokens t a)
  metaShares a := (h'.metaShares a).trans (h.metaShares a)
  metaSupply := h'.metaSupply.trans h.metaSupply

/-- Only operations that write tokens or meta shares change what is held. -/
theorem sameHoldings_run {ops : List Operation}
    (hops : ∀ op ∈ ops, .tokens ∉ op.writes ∧ .metaToken ∉ op.writes) :
    SameHoldings p (p.run ops) := by
  induction ops generalizing p with
  | nil => exact .refl p
  | cons op ops ih =>
    rw [List.forall_mem_cons] at hops
    refine SameHoldings.trans ?_ (ih hops.2)
    have hframe := Operation.frame_after p op
    have htokens : (p.after op).tokens = p.tokens := hframe .tokens hops.1.1
    have hmeta : (p.after op).metaToken = p.metaToken := hframe .metaToken hops.1.2
    exact ⟨fun t a => by rw [htokens], fun a => by rw [hmeta], by rw [hmeta]⟩

/-- A pool has lent tokens to the LP account against meta shares. -/
structure Lent (p q : Protocol) (pool token : Address) (amount shares : Nat) : Prop where
  lpAccount : q.lpAccount = p.lpAccount
  traits : ∀ t, q.tokens.traits t = p.tokens.traits t
  tokens : ∀ t a, q.tokens.held t a + (if t = token ∧ a = pool then amount else 0) =
    p.tokens.held t a + (if t = token ∧ a = p.lpAccount.address then amount else 0)
  metaShares : ∀ a, q.metaToken.balanceOf a =
    p.metaToken.balanceOf a + if a = pool then shares else 0
  metaSupply : q.metaToken.supply = p.metaToken.supply + shares

theorem Lent.refl (p : Protocol) (pool token : Address) : Lent p p pool token 0 0 where
  lpAccount := rfl
  traits _ := rfl
  tokens _ _ := by simp
  metaShares _ := by simp
  metaSupply := rfl

/-- To have lent nothing is to hold the same. -/
theorem Lent.sameHoldings (h : Lent p q pool token 0 0) : SameHoldings p q where
  tokens t a := by
    have hheld : q.tokens.held t a = p.tokens.held t a := by simpa using h.tokens t a
    rw [TokenBook.balanceOf_eq_map, TokenBook.balanceOf_eq_map, hheld, h.traits]
  metaShares a := by simpa using h.metaShares a
  metaSupply := h.metaSupply

/-- A pool that has lent something and has got back some of it has lent the rest. -/
theorem Lent.rest {p' q' : Protocol} {returned burned : Nat} (h : Lent p q pool token amount shares)
    (h' : Lent p' q' pool token returned burned) (hlp : q'.lpAccount = q.lpAccount)
    (htraits : ∀ t, q'.tokens.traits t = q.tokens.traits t) (hsame : SameHoldings q q')
    (hreturned : returned ≤ amount) (hburned : burned ≤ shares) :
    Lent p p' pool token (amount - returned) (shares - burned) := by
  have hlp' : p'.lpAccount = p.lpAccount := by rw [← h'.lpAccount, hlp, h.lpAccount]
  refine ⟨hlp', fun t => ?_, fun t a => ?_, fun a => ?_, ?_⟩
  · rw [← h'.traits, htraits, h.traits]
  · have hlent := h.tokens t a
    have hlent' := h'.tokens t a
    rw [hlp', hsame.held] at hlent'
    split_ifs at hlent hlent' ⊢ <;> omega
  · have hlent := h.metaShares a
    have hlent' := h'.metaShares a
    rw [hsame.metaShares] at hlent'
    split_ifs at hlent hlent' ⊢ <;> omega
  · have hlent := h.metaSupply
    have hlent' := h'.metaSupply
    rw [hsame.metaSupply] at hlent'
    omega

/-- To have lent the same from two states and hold the same is to have held the same. -/
theorem Lent.cancel {p' q' : Protocol} (h : Lent p q pool token amount shares)
    (h' : Lent p' q' pool token amount shares) (hlp : q'.lpAccount = q.lpAccount)
    (htraits : ∀ t, q'.tokens.traits t = q.tokens.traits t) (hsame : SameHoldings q q') :
    SameHoldings p p' := by
  have hrest := h.rest h' hlp htraits hsame (Nat.le_refl _) (Nat.le_refl _)
  rw [Nat.sub_self, Nat.sub_self] at hrest
  exact hrest.sameHoldings

/-! ## Legs -/

/-- What a leg moves: nothing without meta shares. -/
def movedFor (shares amount : Nat) : Nat := if shares = 0 then 0 else amount

theorem lent_of_mintAndSend (hs : p.pool pool = .ok s)
    (h : mintAndSend pool shares amount p = .ok u q) :
    Lent p q pool s.underlyer (movedFor shares amount) shares := by
  unfold movedFor
  obtain ⟨rfl, rfl⟩ | ⟨hshares, metaToken, hmint, hsend⟩ := mintAndSend_eq_ok.1 h
  · exact .refl q pool s.underlyer
  · rw [if_neg hshares]
    obtain ⟨book, hbook, rfl⟩ := MetaToken.mint_eq_ok.1 hmint
    obtain ⟨s', tokens, hs', -, ht, rfl⟩ := sendToLpAccount_eq_ok.1 hsend
    obtain rfl : s = s' := ok_unique hs hs'
    have hmoved := TokenBook.moved_of_transfer ht
    exact ⟨rfl, hmoved.traits, hmoved.held, ShareBook.balanceOf_of_mint hbook,
      ShareBook.supply_of_mint hbook⟩

theorem lent_of_burnAndReturn (hs : p.pool pool = .ok s)
    (h : burnAndReturn pool shares amount p = .ok u q) :
    Lent q p pool s.underlyer (movedFor shares amount) shares := by
  unfold movedFor
  obtain ⟨rfl, rfl⟩ | ⟨hshares, metaToken, hburn, hreturn⟩ := burnAndReturn_eq_ok.1 h
  · exact .refl q pool s.underlyer
  · rw [if_neg hshares]
    obtain ⟨book, hbook, rfl⟩ := MetaToken.burn_eq_ok.1 hburn
    obtain ⟨-, s', tokens, hs', ht, rfl⟩ := returnToPool_eq_ok.1 hreturn
    obtain rfl : s = s' := ok_unique hs hs'
    have hmoved := TokenBook.moved_of_transfer ht
    obtain ⟨hle, hsupply⟩ := ShareBook.supply_of_burn hbook
    refine ⟨rfl, fun t => (hmoved.traits t).symm, fun t a => (hmoved.held t a).symm,
      fun a => (ShareBook.balanceOf_of_burn hbook a).symm, ?_⟩
    show p.metaToken.shares.supply = book.supply + shares
    omega

/-! ## Batches of one pool -/

theorem metaDeltas_singleton {deltas : List Nat} : p.metaDeltas [pool] [amount] = .ok deltas ↔
    ∃ tvl shares, (if p.metaToken.supply = 0 then .ok 0 else p.tvl) = .ok tvl ∧
      p.metaDeltaAt tvl (pool, amount) = .ok shares ∧ deltas = [shares] := by
  rw [metaDeltas_eq_ok]
  simp only [List.length_singleton, true_and, List.zip_cons_cons, List.zip_nil_right, List.mapM_cons,
    List.mapM_nil, except_bind_eq_ok, except_pure_eq_ok]
  grind

/-- What a batch leaves alone before and after its legs. -/
theorem lent_of_frames {p' q' : Protocol} (hp : Frame [.allocation, .oracle] p p')
    (hq : Frame [.allocation, .oracle] q' q) :
    (Lent p' q' pool token amount shares → Lent p q pool token amount shares) ∧
      (Lent q' p' pool token amount shares → Lent q p pool token amount shares) := by
  have hlp : p'.lpAccount = p.lpAccount := hp .lpAccount (by decide)
  have htokens : p'.tokens = p.tokens := hp .tokens (by decide)
  have hmeta : p'.metaToken = p.metaToken := hp .metaToken (by decide)
  have hlp' : q.lpAccount = q'.lpAccount := hq .lpAccount (by decide)
  have htokens' : q.tokens = q'.tokens := hq .tokens (by decide)
  have hmeta' : q.metaToken = q'.metaToken := hq .metaToken (by decide)
  constructor
  · rintro ⟨hlp₁, htraits, htokens₁, hshares, hsupply⟩
    constructor <;> simp only [hlp', htokens', hmeta', ← hlp, ← htokens, ← hmeta] <;> assumption
  · rintro ⟨hlp₁, htraits, htokens₁, hshares, hsupply⟩
    constructor <;> simp only [hlp', htokens', hmeta', ← hlp, ← htokens, ← hmeta] <;> assumption

/-- A batch of one pool is one leg between two steps that write neither tokens nor meta shares. -/
theorem leg_of_batch {leg : Address → Nat → Nat → Action Unit}
    (h : Batch leg [pool] [amount] p q) : ∃ p' q' s tvl shares,
      Frame [.allocation, .oracle] p p' ∧ Frame [.allocation, .oracle] q' q ∧
      p'.pool pool = .ok s ∧ p.pool pool = .ok s ∧
      (if p.metaToken.supply = 0 then .ok 0 else p.tvl) = .ok tvl ∧
      p.metaDeltaAt tvl (pool, amount) = .ok shares ∧ leg pool shares amount p' = .ok () q' := by
  obtain ⟨p', hlisted, hmove⟩ := h
  obtain ⟨deltas, q', hdeltas, hlegs, hlock⟩ := moveBatch_eq_ok.1 hmove
  rw [metaDeltas_of_listed hlisted] at hdeltas
  obtain ⟨tvl, shares, htvl, hshares, rfl⟩ := metaDeltas_singleton.1 hdeltas
  obtain ⟨s, -, -, hs, -⟩ := metaDeltaAt_eq_ok.1 hshares
  have hlist : Frame [.allocation, .oracle] p p' :=
    (within_forM fun pool => within_registerUnderlyer (by decide) pool).frame hlisted
  obtain ⟨⟨⟩, q'', hleg, hnil⟩ := bind_eq_ok.1 hlegs
  obtain ⟨-, rfl⟩ := pure_eq_ok.1 hnil
  refine ⟨p', q', s, tvl, shares, hlist, (within_lockAfterMove (by decide)).frame hlock, ?_, hs, htvl,
    hshares, hleg⟩
  rw [pool_of_eq (hlist .pools (by decide)), hs]

theorem lent_of_send (h : sendByHand caller [pool] [amount] p = .ok u q) : ∃ s tvl shares,
    p.pool pool = .ok s ∧ (if p.metaToken.supply = 0 then .ok 0 else p.tvl) = .ok tvl ∧
      p.metaDeltaAt tvl (pool, amount) = .ok shares ∧
      Lent p q pool s.underlyer (movedFor shares amount) shares := by
  obtain ⟨-, -, hbatch⟩ := sendByHand_eq_ok.1 h
  obtain ⟨p', q', s, tvl, shares, hp, hq, hs', hs, htvl, hshares, hleg⟩ := leg_of_batch hbatch
  exact ⟨s, tvl, shares, hs, htvl, hshares, (lent_of_frames hp hq).1 (lent_of_mintAndSend hs' hleg)⟩

theorem lent_of_recall (h : recallByHand caller [pool] [amount] p = .ok u q) : ∃ s tvl shares,
    p.pool pool = .ok s ∧ (if p.metaToken.supply = 0 then .ok 0 else p.tvl) = .ok tvl ∧
      p.metaDeltaAt tvl (pool, amount) = .ok shares ∧
      Lent q p pool s.underlyer (movedFor shares amount) shares := by
  obtain ⟨-, -, hbatch⟩ := recallByHand_eq_ok.1 h
  obtain ⟨p', q', s, tvl, shares, hp, hq, hs', hs, htvl, hshares, hleg⟩ := leg_of_batch hbatch
  exact ⟨s, tvl, shares, hs, htvl, hshares, (lent_of_frames hp hq).2 (lent_of_burnAndReturn hs' hleg)⟩

/-! ## Recalls that succeed -/

/-- A leg that the LP account can pay succeeds. -/
theorem exists_burnAndReturn {leg : Leg} {x : TokenRecord} (hp : Sound p) (hleg : Covered p leg s x)
    (hheld : leg.2 ≠ 0 → leg.1.2 ≤ p.tokens.held s.underlyer p.lpAccount.address) :
    ∃ q, burnAndReturn leg.1.1 leg.2 leg.1.2 p = .ok () q := by
  obtain ⟨⟨⟩, q, hok⟩ := exists_ok_of_not_stops (x := burnAndReturn leg.1.1 leg.2 leg.1.2) (p := p)
    fun fault hstop => by
      obtain ⟨hshares, -, hlt⟩ := exceeds_of_burnAndReturn hp hleg hstop
      exact absurd (hheld hshares) (Nat.not_le.2 hlt)
  exact ⟨q, hok⟩

/-- An oracle that is not locked can be locked. -/
theorem exists_lockAfterMove (hp : Linked p) (hopen : ¬ p.isOracleLocked = true) :
    ∃ q, lockAfterMove p = .ok () q := by
  have hauth := hp.authorize .oracle .lockOracle nofun rfl rfl
  have hend : p.oracle.lockEnd ≤ p.clock.height := by
    simpa [isOracleLocked, Oracle.isLocked] using hopen
  have hlater := UInt64.le_trans hend (le_addHeights p.clock.height p.oracle.lockPeriod)
  exact ⟨_, lockAfterMove_eq_ok.2 ⟨_, Oracle.lock_eq_ok.2 ⟨hauth, UInt64.not_lt.2 hlater, rfl⟩, rfl⟩⟩

/-- While the oracle is not locked, capital that a pool has meta shares for and the LP account holds
can be recalled by hand. -/
theorem exists_recallByHand (h : Reachable p) (hcaller : p.metaToken.roles.holds .emergency caller = true)
    (hopen : ¬ p.isOracleLocked = true) (hdelta : p.metaDeltas [pool] [amount] = .ok [shares])
    (hs : p.pool pool = .ok s) (hshares : shares ≤ p.metaToken.balanceOf pool)
    (hheld : shares ≠ 0 → amount ≤ p.tokens.held s.underlyer p.lpAccount.address) :
    ∃ q, recallByHand caller [pool] [amount] p = .ok () q := by
  obtain ⟨tvl, shares', -, hshares', hsingle⟩ := metaDeltas_singleton.1 hdelta
  obtain rfl : shares = shares' := List.singleton_inj.1 hsingle
  obtain ⟨s', price, decimals, hs', -, hdecimals, -⟩ := metaDeltaAt_eq_ok.1 hshares'
  obtain rfl : s = s' := ok_unique hs hs'
  obtain ⟨traits, htraits, -⟩ := except_bind_eq_ok.1 hdecimals
  obtain ⟨x, hx, -⟩ := TokenBook.traits_eq_ok.1 htraits
  have hcovered : Covered p ((pool, amount), shares) s x := ⟨hs, h.deployed hs, hx, hshares⟩
  have hknown : ∀ a ∈ [pool], ∃ s x, p.pool a = .ok s ∧ p.tokens.traits s.underlyer = .ok x := by
    intro a ha
    rw [List.mem_singleton.1 ha]
    exact ⟨s, traits, hs, htraits⟩
  obtain ⟨q, hlisted⟩ := exists_listed h hknown
  have hframe := frame_of_listed hlisted
  have htokens : q.tokens = p.tokens := hframe .tokens (by decide)
  have hmeta : q.metaToken = p.metaToken := hframe .metaToken (by decide)
  have hlp : q.lpAccount = p.lpAccount := hframe .lpAccount (by decide)
  have hcovered' : Covered q ((pool, amount), shares) s x :=
    hcovered.congr (hframe .pools (by decide)) hlp (by rw [htokens, hx]) (by rw [hmeta])
  have hq : Sound q := sound_of_listed h.sound hlisted
  obtain ⟨r, hleg⟩ := exists_burnAndReturn hq hcovered' (by rwa [htokens, hlp])
  have hwithin : Within [.tokens, .metaToken] (burnAndReturn pool shares amount) :=
    within_burnAndReturn (by decide) (by decide) pool shares amount
  have hlegFrame := hwithin.frame hleg
  have hopen' : ¬ r.isOracleLocked = true := by
    have hclock : r.clock = p.clock :=
      (hlegFrame .clock (by decide)).trans (hframe .clock (by decide))
    have horacle : r.oracle = p.oracle :=
      (hlegFrame .oracle (by decide)).trans (hframe .oracle (by decide))
    rwa [isOracleLocked_congr hclock horacle]
  obtain ⟨r', hlock⟩ := exists_lockAfterMove (sound_burnAndReturn hq hleg).linked hopen'
  have hlegs : walk [((pool, amount), shares)] q = .ok () r :=
    bind_eq_ok.2 ⟨(), r, hleg, rfl⟩
  refine ⟨r', recallByHand_eq_ok.2 ⟨RoleTable.authorize_eq_ok.2 hcaller, ?_, q, hlisted, ?_⟩⟩
  · refine refuse_eq_ok.2 ⟨by simp, except_forM_eq_ok.2 fun a ha => ?_⟩
    rw [List.mem_singleton.1 ha]
    exact except_bind_eq_ok.2 ⟨s, hs, rfl⟩
  · exact moveBatch_eq_ok.2 ⟨[shares], r, (metaDeltas_of_listed hlisted).trans hdelta, hlegs, hlock⟩

/-! ## There and back -/

/-- The value of an amount is the worth that its delta reads. -/
theorem underlyerValue_of_worth {price decimals v : Nat} (hs : p.pool pool = .ok s)
    (hprice : p.assetPrice s.underlyer = .ok price)
    (hdecimals : p.tokens.decimals s.underlyer = .ok decimals)
    (hworth : worth amount price decimals = .ok v) : p.underlyerValue pool amount = .ok v := by
  unfold underlyerValue
  split
  next hnone =>
    obtain ⟨-, rfl, -⟩ := worth_eq_ok.1 hworth
    simp [hnone]
  next =>
    refine except_bind_eq_ok.2 ⟨s, hs, except_bind_eq_ok.2 ⟨decimals, hdecimals, ?_⟩⟩
    exact except_bind_eq_ok.2 ⟨price, hprice, hworth⟩

theorem lpAccount_run (p : Protocol) (ops : List Operation) :
    (p.run ops).lpAccount = p.lpAccount :=
  run_eq_of_ok (f := fun p => p.lpAccount)
    (fun p op _ _ h => after_of_ok h ▸ Operation.lpAccount_after p op) p ops

/-- A pool stays deployed with its underlyer. -/
theorem pool_of_run (hs : p.pool pool = .ok s) (ops : List Operation) :
    ∃ s', (p.run ops).pool pool = .ok s' ∧ s'.underlyer = s.underlyer := by
  have hsame := underlyer_run p ops pool
  rw [hs] at hsame
  cases hs' : (p.run ops).pool pool with
  | error fault => simp [hs', Except.map] at hsame
  | ok s' =>
    rw [hs'] at hsame
    exact ⟨s', rfl, Except.ok.inj hsame⟩

/-- With the meta shares of a send in the supply and the worth of the capital in the TVL, a recall reads
the same meta shares. -/
theorem metaDeltas_back {s' : Pool} {tvl value : Nat}
    (hstate : 0 < p.metaToken.supply ∧ 0 < tvl ∨ p.metaToken.supply = 0 ∧ tvl = 0)
    (hs : p.pool pool = .ok s) (hdelta : p.metaDeltaAt tvl (pool, amount) = .ok shares)
    (hvalue : p.underlyerValue pool amount = .ok value) (hs' : q.pool pool = .ok s')
    (hunderlyer : s'.underlyer = s.underlyer)
    (hsupply : q.metaToken.supply = p.metaToken.supply + shares)
    (htraits : ∀ t, q.tokens.traits t = p.tokens.traits t)
    (hprice : q.underlyerPrice pool = p.underlyerPrice pool) (htvl : q.tvl = .ok (tvl + value)) :
    q.metaDeltas [pool] [amount] = .ok [shares] := by
  obtain ⟨s₁, price, decimals, hs₁, hprice₁, hdecimals, hdelta⟩ := metaDeltaAt_eq_ok.1 hdelta
  obtain rfl : s = s₁ := ok_unique hs hs₁
  obtain ⟨value₁, hworth, hrate⟩ := metaDelta_eq_ok.1 hdelta
  obtain rfl : value = value₁ := ok_unique hvalue (underlyerValue_of_worth hs hprice₁ hdecimals hworth)
  have hback := metaDelta_roundTrip hdelta hworth hstate
  rw [← hsupply] at hback
  refine metaDeltas_singleton.2 ⟨tvl + value, shares, ?_, metaDeltaAt_eq_ok.2 ?_, rfl⟩
  · split
    next hnone =>
      -- then the send was at the bootstrap rate, and its capital worth nothing
      obtain ⟨hnone, rfl⟩ : p.metaToken.supply = 0 ∧ shares = 0 := by omega
      rw [if_pos (.inr hnone)] at hrate
      obtain ⟨hzero, -⟩ := Checked.mul_eq_ok.1 hrate
      unfold bootstrapMetaShares at hzero
      exact congrArg Except.ok (by omega)
    next => exact htvl
  · refine ⟨s', price, decimals, hs', ?_, ?_, hback⟩
    · simpa only [underlyerPrice, hs, hs', hprice₁, bind, Except.bind] using hprice
    · rw [hunderlyer, TokenBook.decimals, htraits]
      exact hdecimals

/-- Capital of a pool that is sent by hand in a reachable state and recalled by hand in any later state
with the same holdings and the same price, when the TVL reads the worth of that capital more than it
did, is recalled successfully, and everybody then holds what it held before the send: of every token
and of the meta shares, of which there are as many as before. -/
theorem roundTrip_exact (p : Protocol) (h : Reachable p) (caller recaller pool : Address)
    (amount tvl value : Nat) (htvl : p.tvl = .ok tvl)
    (hstate : 0 < p.metaToken.supply ∧ 0 < tvl ∨ p.metaToken.supply = 0 ∧ tvl = 0)
    (hvalue : p.underlyerValue pool amount = .ok value) (out : Outcome) (q : Protocol)
    (hsend : (Operation.sendByHand caller [pool] [amount]).perform p = .ok out q)
    (later : List Operation) (hsame : SameHoldings q (q.run later))
    (hprice : (q.run later).underlyerPrice pool = p.underlyerPrice pool)
    (htvl' : (q.run later).tvl = .ok (tvl + value))
    (hrecaller : p.metaToken.roles.holds .emergency recaller = true) :
    ∃ out' r, (Operation.recallByHand recaller [pool] [amount]).perform (q.run later) = .ok out' r ∧
      SameHoldings p r := by
  have hq : Reachable q := after_of_ok hsend ▸ h.step _
  have hrun : q.run later = p.run (.sendByHand caller [pool] [amount] :: later) := by
    rw [← after_of_ok hsend]
    rfl
  have hroles : SameRoles p (q.run later) := hrun ▸ sameRoles_run p _
  have htraits (t : Address) : (q.run later).tokens.traits t = p.tokens.traits t :=
    hrun ▸ traits_run p _ t
  have hlp : (q.run later).lpAccount = q.lpAccount := lpAccount_run q later
  obtain ⟨-, hsend⟩ := Operation.complete_eq_ok.1 hsend
  obtain ⟨s, tvl₁, shares, hs, hreading, hdelta, hlent⟩ := lent_of_send hsend
  obtain rfl : tvl = tvl₁ := by
    rcases hstate with ⟨hsupply, -⟩ | ⟨hsupply, rfl⟩
    · rw [if_neg (by omega)] at hreading
      exact ok_unique htvl hreading
    · rw [if_pos hsupply] at hreading
      exact Except.ok.inj hreading
  obtain ⟨s', hs', hunderlyer⟩ : ∃ s', (q.run later).pool pool = .ok s' ∧ s'.underlyer = s.underlyer :=
    hrun ▸ pool_of_run hs _
  have hback : (q.run later).metaDeltas [pool] [amount] = .ok [shares] :=
    metaDeltas_back hstate hs hdelta hvalue hs' hunderlyer (hsame.metaSupply.trans hlent.metaSupply)
      htraits hprice htvl'
  -- the pool has the meta shares of the send, and the LP account what was sent for them
  have hshares : shares ≤ (q.run later).metaToken.balanceOf pool := by
    rw [hsame.metaShares, hlent.metaShares, if_pos rfl]
    exact Nat.le_add_left _ _
  have hheld : shares ≠ 0 →
      amount ≤ (q.run later).tokens.held s'.underlyer (q.run later).lpAccount.address := by
    intro hne
    have hlender := hlent.tokens s.underlyer p.lpAccount.address
    have hapart := (h.deployed hs).apart.symm
    simp only [hapart, movedFor, hne, and_false, and_self, ↓reduceIte] at hlender
    rw [hlp, hlent.lpAccount, hunderlyer, hsame.held]
    omega
  have hopen : ¬ (q.run later).isOracleLocked = true := by
    intro hlocked
    rw [tvl_of_locked hlocked] at htvl'
    cases htvl'
  have hrecaller' : (q.run later).metaToken.roles.holds .emergency recaller = true := by
    rwa [Except.ok.inj (hroles.roles .metaToken)]
  obtain ⟨r, hrecall⟩ :=
    exists_recallByHand (hq.run later) hrecaller' hopen hback hs' hshares hheld
  obtain ⟨s₁, tvl₁, shares₁, hs₁, hreading₁, hdelta₁, hlent₁⟩ := lent_of_recall hrecall
  obtain rfl : s' = s₁ := ok_unique hs' hs₁
  obtain rfl : shares = shares₁ := by
    have hagain := metaDeltas_singleton.2 ⟨tvl₁, shares₁, hreading₁, hdelta₁, rfl⟩
    exact List.singleton_inj.1 (ok_unique hback hagain)
  rw [hunderlyer] at hlent₁
  refine ⟨.done, r, Operation.complete_eq_ok.2 ⟨rfl, hrecall⟩, hlent.cancel hlent₁ hlp ?_ hsame⟩
  exact fun t => traits_run q later t

/-- Five hundred units are with the LP account, which have lost a third of their worth. -/
def afterLoss : Protocol :=
  initial.run [.mintTokens ⟨"USDC"⟩ ⟨"usdcPool"⟩ 600,
    .sendByHand ⟨"emergencySafe"⟩ [⟨"usdcPool"⟩] [500], .passBlocks 135, .publishTvl 33333]

/-- Seven units more are sent, and the TVL is reported again once the lock is over. -/
def sevenSent : Protocol := afterLoss.after (.sendByHand ⟨"emergencySafe"⟩ [⟨"usdcPool"⟩] [7])

theorem roundTrip_exact_sevenSent :
    sevenSent.metaToken.supply = afterLoss.metaToken.supply + 1050010 ∧
      ∃ out r, (Operation.recallByHand ⟨"emergencySafe"⟩ [⟨"usdcPool"⟩] [7]).perform
          (sevenSent.run [.passBlocks 135, .publishTvl 34033]) = .ok out r ∧
        SameHoldings afterLoss r := by
  refine ⟨by decide +kernel, ?_⟩
  obtain ⟨out, hsend⟩ : ∃ out, (Operation.sendByHand ⟨"emergencySafe"⟩ [⟨"usdcPool"⟩] [7]).perform
      afterLoss = .ok out sevenSent := perform_of_not_fails (by decide +kernel)
  have hsame : SameHoldings sevenSent (sevenSent.run [.passBlocks 135, .publishTvl 34033]) :=
    sameHoldings_run (by decide)
  have hprice : afterLoss.underlyerPrice ⟨"usdcPool"⟩ = .ok 100000000 :=
    eq_ok_of_toOption (by decide +kernel)
  have hprice' : (sevenSent.run [.passBlocks 135, .publishTvl 34033]).underlyerPrice ⟨"usdcPool"⟩ =
      .ok 100000000 := eq_ok_of_toOption (by decide +kernel)
  exact roundTrip_exact afterLoss (reachable_initial.run _) ⟨"emergencySafe"⟩ ⟨"emergencySafe"⟩
    ⟨"usdcPool"⟩ 7 33333 700 (eq_ok_of_toOption (by decide +kernel)) (.inl (by decide +kernel))
    (eq_ok_of_toOption (by decide +kernel)) out sevenSent hsend _ hsame (hprice'.trans hprice.symm)
    (eq_ok_of_toOption (by decide +kernel)) (by decide +kernel)

end Protocol

end MetaPool
