import MetaPool.Proofs.Ledger.Conservation
import MetaPool.Proofs.Ledger.Consistency
import MetaPool.Proofs.Ledger.Deposit
import MetaPool.Proofs.Value.Exchange

/-!
# When a redemption succeeds

A redemption is decided by what can be asked before it: whether its pool is open, whether the caller has
the shares, what would be paid for them and whether the pool has that much (`Redeemable`). What comes
after these checks, a burn, a transfer and another valuation of the pool, cannot fail in a reachable
state.

    no more shares are burned than there are: the share book is balanced    (Books.poolShares)
    whoever has shares has a name to be paid to                             (Reachable.holdersNamed)
    two balances together are an amount                                     (exists_transfer)
    a pool that has paid is worth no more than before                       (exists_poolValue)

`Redeemed` says what becomes of every component, and that nothing else changes.
-/

namespace MetaPool.Protocol

variable {p q : Protocol} {caller pool : Address} {shares paid : Nat} {s s' : Pool}
  {quote : RedemptionQuote} {tokens : TokenBook}

/-! ## Holders have names -/

/-- The empty address holds no shares of any pool. -/
def HoldersNamed (p : Protocol) : Prop :=
  ∀ a s, p.pool a = .ok s → ∀ holder : Address, holder.isEmpty = true → s.shares.balanceOf holder = 0

theorem holdersNamed_of_deploy {plan : Plan} {clock : Clock} (h : Protocol.deploy plan clock = .ok p) :
    p.HoldersNamed := by
  intro a s hs holder _
  obtain ⟨_, -, -, hnew⟩ := pool_of_deploy h hs
  obtain ⟨-, -, -, rfl⟩ := Pool.new_eq_ok.1 hnew
  rfl

theorem balanceOf_of_change {op : Operation} {a holder : Address} (hempty : holder.isEmpty = true)
    (hnone : s.shares.balanceOf holder = 0) (h : s.Change op a s') :
    s'.shares.balanceOf holder = 0 := by
  cases h with
  | deposit caller amount minted time hop h =>
    obtain ⟨book, hbook, rfl⟩ := Pool.addDeposit_eq_ok.1 h
    have hne : holder ≠ caller := fun e => (ShareBook.mint_eq_ok.1 hbook).1 (e ▸ hempty)
    rw [ShareBook.balanceOf_of_mint hbook, hnone, if_neg hne]
  | redeem caller burned hop h =>
    obtain ⟨book, hbook, rfl⟩ := Pool.takeShares_eq_ok.1 h
    have hbalance := ShareBook.balanceOf_of_burn hbook holder
    exact Nat.eq_zero_of_add_eq_zero_right (hbalance.trans hnone)
  | control h => rw [h.shares, hnone]

theorem holdersNamed_of_ok {op : Operation} {out : Outcome} (hp : p.HoldersNamed) (h : op.perform p = .ok out q) :
    q.HoldersNamed := by
  intro b t ht holder hempty
  rcases Operation.pools_of_ok h with hpools | ⟨a, s, s', hs, hchange, hpools⟩
  · rw [pool_of_eq hpools] at ht
    exact hp b t ht holder hempty
  · rw [pool_of_insert hpools] at ht
    split at ht
    · obtain rfl := Except.ok.inj ht
      exact balanceOf_of_change hempty (hp a s hs holder hempty) hchange
    · exact hp b t ht holder hempty

theorem Reachable.holdersNamed (h : Reachable p) : p.HoldersNamed :=
  h.invariant (fun _ _ _ => holdersNamed_of_deploy) fun _ _ _ _ => holdersNamed_of_ok

/-! ## What is checked -/

/-- What a redemption checks before it writes anything: the pool is open, the caller has the shares, and
the pool has what the caller is quoted. -/
structure Redeemable (p : Protocol) (caller pool : Address) (shares : Nat) (s : Pool)
    (quote : RedemptionQuote) : Prop where
  deployed : p.pool pool = .ok s
  running : s.locks.paused = false
  unlocked : s.locks.redemptions = false
  some : 0 < shares
  owned : shares ≤ s.shares.balanceOf caller
  quoted : p.quote pool caller shares = .ok quote
  covered : quote.net ≤ p.tokens.held s.underlyer pool

/-- A quote for some shares has valued the pool. -/
theorem snapshot_of_quote (h : p.quote pool caller shares = .ok quote) (hsome : 0 < shares) :
    ∃ snap, p.snapshot pool = .ok snap ∧ snap.totalValue = .ok snap.value := by
  obtain ⟨_, base, -, hbase, -⟩ := quote_eq_ok.1 h
  obtain ⟨snap, hsnap, hunits⟩ := unitsFor_of_underlyerFor hbase (Nat.pos_iff_ne_zero.1 hsome)
  rcases Snapshot.unitsFor_eq_ok.1 hunits with ⟨hnone, -⟩ | ⟨-, _, hworth, -⟩
  · omega
  · exact ⟨snap, hsnap, (Snapshot.shareValue_eq_ok.1 hworth).2.1⟩

/-- What was checked of a redemption that succeeded. -/
theorem redeemable_of_redeem (h : redeem caller pool shares p = .ok paid q) :
    ∃ s quote, Redeemable p caller pool shares s quote ∧ paid = quote.net := by
  obtain ⟨s, _, _, available, quote, _, hs, hopen, hne, howned, hquote, rfl, havailable, hcovered, -⟩ :=
    redeem_eq_ok.1 h
  obtain ⟨hrunning, hunlocked⟩ := Pool.requireRedemptionsOpen_eq_ok.1 hopen
  obtain ⟨-, rfl⟩ := TokenBook.balanceOf_eq_ok.1 havailable
  exact ⟨s, quote, ⟨hs, hrunning, hunlocked, Nat.pos_of_ne_zero hne, Nat.not_lt.1 howned, hquote,
    Nat.not_lt.1 hcovered⟩, rfl⟩

/-! ## What comes after the checks -/

/-- A caller with shares can be paid: the move fails neither for its target nor for a sum of balances. -/
theorem Redeemable.exists_transfer (hp : Reachable p) (h : Redeemable p caller pool shares s quote) :
    ∃ tokens, p.tokens.transfer s.underlyer pool caller quote.net = .ok tokens := by
  have hnamed : ¬ caller.isEmpty = true := by
    intro hempty
    have hnone := hp.holdersNamed pool s h.deployed caller hempty
    have howned := h.owned
    have hsome := h.some
    omega
  obtain ⟨snap, hsnap, -⟩ := snapshot_of_quote h.quoted h.some
  obtain ⟨s₁, hs₁, -, -, hidle, -⟩ := snapshot_eq_ok.1 hsnap
  obtain rfl : s = s₁ := ok_unique h.deployed hs₁
  obtain ⟨r, hr, -⟩ := TokenBook.balance_eq_ok.1 hidle
  refine TokenBook.exists_transfer hp.tokens_balanced hnamed hr ?_
  rw [← TokenBook.held_of_record hr]
  exact h.covered

/-- Shares that the caller has can be burned: nobody has more than there are. -/
theorem Redeemable.exists_takeShares (hp : Reachable p) (h : Redeemable p caller pool shares s quote) :
    ∃ s', s.takeShares caller shares = .ok s' := by
  have hbalanced := hp.books.poolShares pool s (pool_eq_ok.1 h.deployed)
  have hle := h.owned.trans (hbalanced.balanceOf_le_supply caller)
  exact ⟨_, Pool.takeShares_eq_ok.2 ⟨_, ShareBook.burn_eq_ok.2 ⟨h.owned, hle, rfl⟩, rfl⟩⟩

/-- What a payment leaves can be valued: it is no more than was valued for the quote. -/
theorem Redeemable.exists_poolValue (h : Redeemable p caller pool shares s quote)
    (htokens : p.tokens.transfer s.underlyer pool caller quote.net = .ok tokens)
    (htake : s.takeShares caller shares = .ok s') :
    ∃ value, poolValue { p with tokens, pools := p.pools.insert pool s' } pool = .ok value := by
  obtain ⟨snap, hsnap, hvalue⟩ := snapshot_of_quote h.quoted h.some
  obtain ⟨book, -, rfl⟩ := Pool.takeShares_eq_ok.1 htake
  have hmoved := TokenBook.moved_of_transfer htokens
  have hex : Exchange p { p with tokens, pools := p.pools.insert pool { s with shares := book } }
      caller pool := exchange_of_moved rfl hmoved (.inr rfl) (.inl rfl)
  have hsnap' := hex.snapshot_eq h.deployed (pool_insert_self p pool _ tokens p.log) rfl hsnap
  have hless : tokens.held s.underlyer pool ≤ snap.idleBalance := by
    obtain ⟨s₁, hs₁, -, -, hidle, -⟩ := snapshot_eq_ok.1 hsnap
    obtain rfl : s = s₁ := ok_unique h.deployed hs₁
    rw [(TokenBook.balanceOf_eq_ok.1 hidle).2]
    have hheld := hmoved.held s.underlyer pool
    simp only [true_and, ↓reduceIte] at hheld
    split at hheld <;> omega
  exact ⟨_, poolValue_eq_ok.2 ⟨_, hsnap', Snapshot.totalValue_of_le hvalue hless⟩⟩

/-- So a redemption that passes its checks succeeds, with the net amount of its quote. -/
theorem Redeemable.exists_redeem (hp : Reachable p) (h : Redeemable p caller pool shares s quote) :
    ∃ q, redeem caller pool shares p = .ok quote.net q := by
  obtain ⟨tokens, htokens⟩ := h.exists_transfer hp
  obtain ⟨s', htake⟩ := h.exists_takeShares hp
  obtain ⟨value, hvalue⟩ := h.exists_poolValue htokens htake
  obtain ⟨snap, hsnap, -⟩ := snapshot_of_quote h.quoted h.some
  obtain ⟨s₁, hs₁, -, -, hidle, -⟩ := snapshot_eq_ok.1 hsnap
  obtain rfl : s = s₁ := ok_unique h.deployed hs₁
  obtain ⟨hknown, -⟩ := TokenBook.balanceOf_eq_ok.1 hidle
  exact ⟨_, redeem_eq_ok.2 ⟨s, s', tokens, _, quote, value, h.deployed,
    Pool.requireRedemptionsOpen_eq_ok.2 ⟨h.running, h.unlocked⟩, Nat.pos_iff_ne_zero.1 h.some,
    Nat.not_lt.2 h.owned, h.quoted, rfl, TokenBook.balanceOf_eq_ok.2 ⟨hknown, rfl⟩,
    Nat.not_lt.2 h.covered, htake, htokens, hvalue, rfl⟩⟩

/-! ## What it leaves -/

/-- What a redemption does to its pool, to the balances of the underlyer and to the log, and that nothing
else changes. -/
structure Redeemed (caller pool : Address) (shares paid : Nat) (p q : Protocol) (s s' : Pool) : Prop where
  frame : q = { p with tokens := q.tokens, pools := q.pools, log := q.log }
  before : p.pool pool = .ok s
  after : q.pool pool = .ok s'
  pool_ne : ∀ b, b ≠ pool → q.pool b = p.pool b
  rest : s' = { s with shares := s'.shares }
  supply : s'.shares.supply + shares = s.shares.supply
  balance : ∀ a, s'.shares.balanceOf a + (if a = caller then shares else 0) = s.shares.balanceOf a
  moved : TokenBook.Moved p.tokens q.tokens s.underlyer pool caller paid
  record : ∃ r r', p.tokens.records.get? s.underlyer = some r ∧
    q.tokens.records.get? s.underlyer = some r' ∧ r' = { r with balances := r'.balances }
  record_ne : ∀ t, t ≠ s.underlyer → q.tokens.records.get? t = p.tokens.records.get? t
  log : ∃ value, q.poolValue pool = .ok value ∧ q.log = p.log ++ [⟨p.clock.height, p.clock.time,
    .redeemed pool caller s.underlyer paid shares value⟩]

theorem redeemed_of_redeem (h : redeem caller pool shares p = .ok paid q) :
    ∃ s s', Redeemed caller pool shares paid p q s s' := by
  obtain ⟨s, s', tokens, _, quote, value, hs, -, -, -, -, -, -, -, htake, htokens, hvalue, rfl⟩ :=
    redeem_eq_ok.1 h
  obtain ⟨book, hbook, rfl⟩ := Pool.takeShares_eq_ok.1 htake
  obtain ⟨r, r', hr, hr', htraits, hsupply, hallowances, hother⟩ := TokenBook.record_of_transfer htokens
  obtain ⟨hle, hburned⟩ := ShareBook.supply_of_burn hbook
  refine ⟨s, { s with shares := book }, ?_⟩
  exact {
    frame := rfl
    before := hs
    after := by rw [pool_of_insert rfl, if_pos rfl]
    pool_ne := fun b hb => by rw [pool_of_insert rfl, if_neg hb]
    rest := rfl
    supply := by
      show book.supply + shares = s.shares.supply
      omega
    balance := ShareBook.balanceOf_of_burn hbook
    moved := TokenBook.moved_of_transfer htokens
    record := ⟨r, r', hr, hr', by rw [← htraits, ← hsupply, ← hallowances]⟩
    record_ne := hother
    log := ⟨value, hvalue, rfl⟩ }

/-- In a reachable state a redemption succeeds exactly if it passes its checks. It pays the net amount of
its quote, and changes nothing but what `Redeemed` says: for a caller other than the pool, the underlyer
of the two by what is paid, and the caller's shares and their supply by the shares. -/
theorem redeem_iff_redeemable (p : Protocol) (h : Reachable p) (caller pool : Address) (shares : Nat) :
    ((∃ paid q, redeem caller pool shares p = .ok paid q) ↔
      ∃ s quote, Redeemable p caller pool shares s quote) ∧
    ∀ paid q, redeem caller pool shares p = .ok paid q →
      ∃ s s' quote, Redeemable p caller pool shares s quote ∧ paid = quote.net ∧
        Redeemed caller pool shares paid p q s s' ∧
        (caller ≠ pool →
          q.tokens.held s.underlyer pool + paid = p.tokens.held s.underlyer pool ∧
          q.tokens.held s.underlyer caller = p.tokens.held s.underlyer caller + paid) ∧
        ∀ t a, t ≠ s.underlyer ∨ a ≠ pool ∧ a ≠ caller → q.tokens.held t a = p.tokens.held t a := by
  refine ⟨⟨?_, ?_⟩, ?_⟩
  · rintro ⟨paid, q, hok⟩
    obtain ⟨s, quote, hredeemable, -⟩ := redeemable_of_redeem hok
    exact ⟨s, quote, hredeemable⟩
  · rintro ⟨s, quote, hredeemable⟩
    obtain ⟨q, hok⟩ := hredeemable.exists_redeem h
    exact ⟨quote.net, q, hok⟩
  · intro paid q hok
    obtain ⟨s, quote, hredeemable, hpaid⟩ := redeemable_of_redeem hok
    obtain ⟨s₁, s', hredeemed⟩ := redeemed_of_redeem hok
    obtain rfl : s = s₁ := ok_unique hredeemable.deployed hredeemed.before
    have hmoved := hredeemed.moved
    refine ⟨s, s', quote, hredeemable, hpaid, hredeemed, fun hcaller => ⟨?_, ?_⟩, ?_⟩
    · rw [hmoved.held_source (Ne.symm hcaller)]
      exact Nat.sub_add_cancel hmoved.enough
    · exact hmoved.held_target (Ne.symm hcaller)
    · rintro t a (ht | ⟨hpool, hcaller⟩)
      · simpa [ht] using hmoved.held t a
      · exact hmoved.held_other hpool hcaller

/-- Four tenths of a deposit are with the LP account, and the TVL says so. -/
def lowReserve : Protocol := deployedCapital.run [.passBlocks 135, .publishTvl 40000]

/-- Half of the shares can be redeemed, and seven tenths cannot: the pool is worth enough, but six tenths
are all it has. -/
theorem redeem_iff_redeemable_lowReserve :
    (∃ q, redeem ⟨"alice"⟩ ⟨"usdcPool"⟩ 500000000000000000 lowReserve = .ok 475 q ∧
        q.tokens.held ⟨"USDC"⟩ ⟨"usdcPool"⟩ + 475 = lowReserve.tokens.held ⟨"USDC"⟩ ⟨"usdcPool"⟩) ∧
      ¬ ∃ paid q, redeem ⟨"alice"⟩ ⟨"usdcPool"⟩ 700000000000000000 lowReserve = .ok paid q := by
  have hreachable : Reachable lowReserve := (reachable_initial.run _).run _
  have hunderlyer {s : Pool} (hs : lowReserve.pool ⟨"usdcPool"⟩ = .ok s) : s.underlyer = ⟨"USDC"⟩ := by
    have hread : (lowReserve.pool ⟨"usdcPool"⟩).toOption.map Pool.underlyer = some ⟨"USDC"⟩ := by
      decide +kernel
    rw [hs] at hread
    exact Option.some.inj hread
  constructor
  · have hok : redeem ⟨"alice"⟩ ⟨"usdcPool"⟩ 500000000000000000 lowReserve = .ok 475
        (lowReserve.after (.redeem ⟨"alice"⟩ ⟨"usdcPool"⟩ 500000000000000000)) := by rfl
    obtain ⟨_, _, _, hredeemable, -, -, hheld, -⟩ :=
      (redeem_iff_redeemable lowReserve hreachable _ _ _).2 _ _ hok
    rw [hunderlyer hredeemable.deployed] at hheld
    exact ⟨_, hok, (hheld (by decide)).1⟩
  · intro hok
    obtain ⟨s, quote, hredeemable⟩ :=
      (redeem_iff_redeemable lowReserve hreachable _ _ _).1.1 hok
    have hquote : lowReserve.quote ⟨"usdcPool"⟩ ⟨"alice"⟩ 700000000000000000 =
        .ok ⟨700, 0, 35, 665⟩ := eq_ok_of_toOption (by decide +kernel)
    have hheld : lowReserve.tokens.held ⟨"USDC"⟩ ⟨"usdcPool"⟩ = 600 := by decide +kernel
    have hcovered := hredeemable.covered
    rw [hunderlyer hredeemable.deployed, hheld, ok_unique hredeemable.quoted hquote] at hcovered
    exact absurd hcovered (by decide)

end MetaPool.Protocol
