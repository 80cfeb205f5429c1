import MetaPool.Proofs.Ledger.Shares
import MetaPool.Proofs.Ledger.Tokens
import MetaPool.Proofs.Value.Views

/-!
# Deposits and redemptions as exchanges

A deposit or a redemption moves tokens between the caller and one pool and changes the shares of
that pool. Prices, decimals and deployed values stay, so all that it changes in the snapshot of its
pool are the idle balance and the share supply, and the other pools do not see it.

    q.snapshot pool = p.snapshot pool + amount, + shares            (snapshot_of_deposit)
    q.snapshot pool = p.snapshot pool - paid, - shares              (snapshot_of_redeem)
    q.snapshot a = p.snapshot a                                     (Exchange.snapshot_ne)
-/

namespace MetaPool.Protocol

variable {p q : Protocol} {a pool caller : Address} {s : Snapshot}

/-- Tokens and shares of one pool have changed; of the tokens nothing but balances and
allowances. -/
structure Exchange (p q : Protocol) (caller pool : Address) : Prop where
  clock : q.clock = p.clock
  feeds : q.feeds = p.feeds
  oracle : q.oracle = p.oracle
  metaToken : q.metaToken = p.metaToken
  traits : ∀ t, q.tokens.traits t = p.tokens.traits t
  pool_ne : ∀ b, b ≠ pool → q.pool b = p.pool b
  held_ne : ∀ t b, b ≠ pool → b ≠ caller → q.tokens.held t b = p.tokens.held t b

theorem Exchange.symm (h : Exchange p q caller pool) : Exchange q p caller pool where
  clock := h.clock.symm
  feeds := h.feeds.symm
  oracle := h.oracle.symm
  metaToken := h.metaToken.symm
  traits t := (h.traits t).symm
  pool_ne b hb := (h.pool_ne b hb).symm
  held_ne t b hpool hcaller := (h.held_ne t b hpool hcaller).symm

theorem Exchange.assetPrice_eq (h : Exchange p q caller pool) (asset : Address) :
    q.assetPrice asset = p.assetPrice asset := by
  simp only [assetPrice, h.clock, h.feeds, h.oracle]

theorem Exchange.deployedValue_eq (h : Exchange p q caller pool) (b : Address) :
    q.deployedValue b = p.deployedValue b := by
  simp only [deployedValue, tvl, h.clock, h.feeds, h.oracle, h.metaToken]

theorem Exchange.snapshot_eq (h : Exchange p q caller pool) {state state' : Pool}
    (hs : p.pool a = .ok state) (hs' : q.pool a = .ok state')
    (hunderlyer : state'.underlyer = state.underlyer) (hsnap : p.snapshot a = .ok s) :
    q.snapshot a = .ok { s with
      idleBalance := q.tokens.held state.underlyer a, shareSupply := state'.shares.supply } := by
  obtain ⟨state₁, hs₁, hprice, hdec, hidle, hdep, -⟩ := snapshot_eq_ok.1 hsnap
  obtain rfl : state = state₁ := ok_unique hs hs₁
  obtain ⟨⟨x, hx⟩, -⟩ := TokenBook.balanceOf_eq_ok.1 hidle
  refine snapshot_eq_ok.2 ⟨state', hs', ?_, ?_, ?_, ?_, rfl⟩
  · rw [hunderlyer, h.assetPrice_eq, hprice]
  · simpa only [TokenBook.decimals, hunderlyer, h.traits] using hdec
  · rw [hunderlyer]
    exact TokenBook.balanceOf_eq_ok.2 ⟨⟨x, by rw [h.traits, hx]⟩, rfl⟩
  · rw [h.deployedValue_eq, hdep]

/-- Other pools do not see an exchange, unless one is the caller. -/
theorem Exchange.snapshot_ne (h : Exchange p q caller pool) (hpool : a ≠ pool) (hcaller : a ≠ caller)
    (hsnap : p.snapshot a = .ok s) : q.snapshot a = .ok s := by
  obtain ⟨state, hs, -, -, hidle, -, hsupply⟩ := snapshot_eq_ok.1 hsnap
  have hs' : q.pool a = .ok state := by rw [h.pool_ne a hpool, hs]
  rw [h.snapshot_eq hs hs' rfl hsnap, h.held_ne _ a hpool hcaller, ← hsupply,
    ← (TokenBook.balanceOf_eq_ok.1 hidle).2]

theorem pool_insert_self (p : Protocol) (a : Address) (state : Pool) (tokens : TokenBook)
    (log : List LogEntry) :
    Protocol.pool { p with tokens, pools := p.pools.insert a state, log } a = .ok state := by
  rw [pool_of_insert rfl, if_pos rfl]

/-- A write of one pool and a move of tokens between it and the caller. -/
theorem exchange_of_moved {token source target : Address} {amount : Nat} {tokens : TokenBook}
    {log : List LogEntry} {state : Pool}
    (hq : q = { p with tokens, pools := p.pools.insert pool state, log })
    (hmoved : TokenBook.Moved p.tokens tokens token source target amount)
    (hsource : source = caller ∨ source = pool) (htarget : target = caller ∨ target = pool) :
    Exchange p q caller pool := by
  subst hq
  refine ⟨rfl, rfl, rfl, rfl, hmoved.traits, ?_, ?_⟩
  · intro b hb
    rw [pool_of_insert rfl, if_neg hb]
  · intro t b hpool hcaller
    apply hmoved.held_other
    · rcases hsource with rfl | rfl <;> assumption
    · rcases htarget with rfl | rfl <;> assumption

theorem exchange_of_deposit {amount shares : Nat}
    (h : deposit caller pool amount p = .ok shares q) : Exchange p q caller pool := by
  obtain ⟨_, _, _, _, -, -, -, -, -, ht, -, -, hq⟩ := deposit_eq_ok.1 h
  exact exchange_of_moved hq (TokenBook.moved_of_transferFrom ht) (.inl rfl) (.inr rfl)

theorem exchange_of_redeem {shares paid : Nat} (h : redeem caller pool shares p = .ok paid q) :
    Exchange p q caller pool := by
  obtain ⟨_, _, _, _, _, _, -, -, -, -, -, -, -, -, -, ht, -, hq⟩ := redeem_eq_ok.1 h
  exact exchange_of_moved hq (TokenBook.moved_of_transfer ht) (.inr rfl) (.inl rfl)

/-- A deposit adds its amount to the idle balance and its shares to the supply. -/
theorem snapshot_of_deposit {amount shares : Nat} (h : deposit caller pool amount p = .ok shares q)
    (hcaller : caller ≠ pool) (hsnap : p.snapshot pool = .ok s) :
    q.snapshot pool = .ok { s with
      idleBalance := s.idleBalance + amount, shareSupply := s.shareSupply + shares } := by
  have hex := exchange_of_deposit h
  obtain ⟨state, state', tokens, v, hs, -, -, -, -, ht, hadd, -, rfl⟩ := deposit_eq_ok.1 h
  obtain ⟨book, hbook, rfl⟩ := Pool.addDeposit_eq_ok.1 hadd
  obtain ⟨state₁, hs₁, -, -, hidle, -, hsupply⟩ := snapshot_eq_ok.1 hsnap
  obtain rfl : state = state₁ := ok_unique hs hs₁
  rw [hex.snapshot_eq hs (pool_insert_self _ _ _ _ _) rfl hsnap, hsupply,
    (TokenBook.balanceOf_eq_ok.1 hidle).2, ← ShareBook.supply_of_mint hbook,
    ← (TokenBook.moved_of_transferFrom ht).held_target hcaller]

/-- A redemption takes what it pays from the idle balance and its shares from the supply. -/
theorem snapshot_of_redeem {shares paid : Nat} (h : redeem caller pool shares p = .ok paid q)
    (hcaller : caller ≠ pool) (hsnap : p.snapshot pool = .ok s) :
    shares ≤ s.shareSupply ∧ q.snapshot pool = .ok { s with
      idleBalance := s.idleBalance - paid, shareSupply := s.shareSupply - shares } := by
  have hex := exchange_of_redeem h
  obtain ⟨state, state', tokens, _, quote, v, hs, -, -, -, -, rfl, -, -, htake, ht, -, rfl⟩ :=
    redeem_eq_ok.1 h
  obtain ⟨book, hbook, rfl⟩ := Pool.takeShares_eq_ok.1 htake
  obtain ⟨hle, hburn⟩ := ShareBook.supply_of_burn hbook
  obtain ⟨state₁, hs₁, -, -, hidle, -, hsupply⟩ := snapshot_eq_ok.1 hsnap
  obtain rfl : state = state₁ := ok_unique hs hs₁
  rw [hex.snapshot_eq hs (pool_insert_self _ _ _ _ _) rfl hsnap, hsupply,
    (TokenBook.balanceOf_eq_ok.1 hidle).2, ← hburn,
    ← (TokenBook.moved_of_transfer ht).held_source (Ne.symm hcaller)]
  exact ⟨hle, rfl⟩

end MetaPool.Protocol
