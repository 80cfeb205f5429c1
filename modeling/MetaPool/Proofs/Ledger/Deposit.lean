import MetaPool.Proofs.Collection.Lookup
import MetaPool.Proofs.Ledger.Pools
import MetaPool.Proofs.Ledger.Shares
import MetaPool.Proofs.Ledger.Tokens

/-!
# What backs a deposit

A deposit takes its amount out of what the caller lets the pool move and mints shares for it. `Deposited`
says what becomes of every component, and that nothing else changes. The amount goes from the caller to
the pool (`Backed`), unless these are one account: a move to oneself succeeds and moves nothing, so that
a pool which deposits into itself gets shares for underlyer that it had before.

    deposit caller pool amount p = .ok shares q → (Backed … ↔ caller ≠ pool)      (deposit_backed_iff)
-/

namespace MetaPool

/-! ## Moves out of an allowance -/

namespace TokenRecord

variable {r r' : TokenRecord} {owner spender source target : Address} {amount v : Nat}

theorem allowance_approve (o s : Address) : (r.approve owner spender v).allowance o s =
    if o = owner ∧ s = spender then v else r.allowance o s := by
  simp only [allowance, approve, OrderedMap.get?_insert]
  by_cases ho : o = owner
  · subst ho
    by_cases hs : s = spender <;> simp [OrderedMap.get?_insert, hs]
  · simp [ho]

/-- What a spender does to a record by moving tokens out of what the owner lets it move. The owner may be
the target as well. -/
structure Pulled (r r' : TokenRecord) (owner spender target : Address) (amount : Nat) : Prop where
  traits : r'.traits = r.traits
  supply : r'.supply = r.supply
  balance : ∀ a, r'.balanceOf a + (if a = owner then amount else 0) =
    r.balanceOf a + (if a = target then amount else 0)
  allowed : r'.allowance owner spender + amount = r.allowance owner spender
  allowance : ∀ o s, ¬ (o = owner ∧ s = spender) → r'.allowance o s = r.allowance o s

end TokenRecord

namespace TokenBook

variable {b b' : TokenBook} {token source target spender : Address} {amount : Nat}

theorem pulled_of_transferFrom (h : b.transferFrom token spender source target amount = .ok b') :
    ∃ r r', b.records.get? token = some r ∧ b'.records.get? token = some r' ∧
      r.Pulled r' source spender target amount ∧
      ∀ t, t ≠ token → b'.records.get? t = b.records.get? t := by
  obtain ⟨allowed, moved, hallowed, hle, htransfer, happrove⟩ := transferFrom_eq_ok.1 h
  obtain ⟨r, m, hr, hm, htraits, hsupply, hallowances, hother⟩ := record_of_transfer htransfer
  obtain ⟨m₁, hm₁, rfl⟩ := approve_eq_ok.1 happrove
  obtain rfl : m = m₁ := Option.some.inj (hm.symm.trans hm₁)
  obtain rfl : allowed = r.allowance source spender := by
    simpa [TokenBook.allowance, record, hr, Functor.map, Except.map, eq_comm] using hallowed
  refine ⟨r, m.approve source spender (r.allowance source spender - amount), hr,
    by rw [OrderedMap.get?_insert, if_pos rfl], ⟨htraits, hsupply, ?_, ?_, ?_⟩, ?_⟩
  · intro a
    have hheld := (moved_of_transfer htransfer).held token a
    simp only [held_of_record hr, held_of_record hm, true_and] at hheld
    exact hheld
  · rw [TokenRecord.allowance_approve, if_pos ⟨rfl, rfl⟩]
    exact Nat.sub_add_cancel hle
  · intro o s hne
    rw [TokenRecord.allowance_approve, if_neg hne]
    simp only [TokenRecord.allowance, hallowances]
  · intro t ht
    rw [OrderedMap.get?_insert, if_neg ht]
    exact hother t ht

end TokenBook

/-! ## Deposits -/

namespace Protocol

variable {p q : Protocol} {caller pool : Address} {amount shares : Nat}

/-- What a deposit does to its pool, to the record of the underlyer and to the log, and that nothing else
changes. -/
structure Deposited (caller pool : Address) (amount shares : Nat) (p q : Protocol) (s s' : Pool)
    (r r' : TokenRecord) : Prop where
  frame : q = { p with tokens := q.tokens, pools := q.pools, log := q.log }
  before : p.pool pool = .ok s ∧ p.tokens.records.get? s.underlyer = some r
  after : q.pool pool = .ok s' ∧ q.tokens.records.get? s.underlyer = some r'
  pool_ne : ∀ b, b ≠ pool → q.pool b = p.pool b
  record_ne : ∀ t, t ≠ s.underlyer → q.tokens.records.get? t = p.tokens.records.get? t
  pulled : r.Pulled r' caller pool pool amount
  rest : s' = { s with shares := s'.shares, lastDeposit := s'.lastDeposit }
  supply : s'.shares.supply = s.shares.supply + shares
  balance : ∀ a, s'.shares.balanceOf a = s.shares.balanceOf a + if a = caller then shares else 0
  lastDeposit : ∀ a, s'.lastDeposit.get? a =
    if a = caller then some p.clock.time else s.lastDeposit.get? a
  log : ∃ value, q.poolValue pool = .ok value ∧ q.log = p.log ++ [⟨p.clock.height, p.clock.time,
    .deposited pool caller s.underlyer amount shares value⟩]

theorem deposited_of_deposit (h : deposit caller pool amount p = .ok shares q) :
    amount ≠ 0 ∧ ∃ s s' r r', Deposited caller pool amount shares p q s s' r r' := by
  obtain ⟨s, s', tokens, value, hs, -, hne, -, -, ht, hadd, hvalue, rfl⟩ := deposit_eq_ok.1 h
  obtain ⟨r, r', hr, hr', hpulled, hother⟩ := TokenBook.pulled_of_transferFrom ht
  obtain ⟨book, hbook, rfl⟩ := Pool.addDeposit_eq_ok.1 hadd
  refine ⟨hne, s, { s with shares := book, lastDeposit := s.lastDeposit.insert caller p.clock.time },
    r, r', ?_⟩
  exact {
    frame := rfl
    before := ⟨hs, hr⟩
    after := ⟨by rw [pool_of_insert rfl, if_pos rfl], hr'⟩
    pool_ne := fun b hb => by rw [pool_of_insert rfl, if_neg hb]
    record_ne := hother
    pulled := hpulled
    rest := rfl
    supply := ShareBook.supply_of_mint hbook
    balance := ShareBook.balanceOf_of_mint hbook
    lastDeposit := fun a => by rw [OrderedMap.get?_insert]
    log := ⟨value, hvalue, rfl⟩ }

/-- The underlyer of a deposit has left the caller and has arrived in the pool. -/
structure Backed (caller pool : Address) (amount : Nat) (r r' : TokenRecord) : Prop where
  left : r'.balanceOf caller + amount = r.balanceOf caller
  arrived : r'.balanceOf pool = r.balanceOf pool + amount

/-- A deposit changes nothing but what `Deposited` says, whoever the caller is. It is backed exactly if
the caller is not the pool itself. If it is, no balance changes, and the shares are minted all the same. -/
theorem deposit_backed_iff (p q : Protocol) (caller pool : Address) (amount shares : Nat)
    (h : deposit caller pool amount p = .ok shares q) :
    ∃ s s' r r', Deposited caller pool amount shares p q s s' r r' ∧
      (Backed caller pool amount r r' ↔ caller ≠ pool) ∧
      (∀ a, a ≠ caller → a ≠ pool → r'.balanceOf a = r.balanceOf a) ∧
      (caller = pool → ∀ a, r'.balanceOf a = r.balanceOf a) := by
  obtain ⟨hne, s, s', r, r', hdeposited⟩ := deposited_of_deposit h
  have hbalance := hdeposited.pulled.balance
  refine ⟨s, s', r, r', hdeposited, ⟨?_, fun hcaller => ⟨?_, ?_⟩⟩, ?_, ?_⟩
  · rintro ⟨hleft, harrived⟩ rfl
    omega
  · have hleft := hbalance caller
    rwa [if_pos rfl, if_neg hcaller] at hleft
  · have harrived := hbalance pool
    rwa [if_pos rfl, if_neg (Ne.symm hcaller)] at harrived
  · intro a hcaller hpool
    have hother := hbalance a
    rwa [if_neg hcaller, if_neg hpool] at hother
  · rintro rfl a
    exact Nat.add_right_cancel (hbalance a)

/-- The LP account has underlyer of its own and lets a pool move some of it. -/
def lpAccountApproved : Protocol :=
  initial.run [.mintTokens ⟨"USDC"⟩ ⟨"lpAccount"⟩ 9, .approve ⟨"USDC"⟩ ⟨"lpAccount"⟩ ⟨"usdcPool"⟩ 7]

theorem deposit_backed_iff_lpAccount :
    ∃ q s s' r r', deposit ⟨"lpAccount"⟩ ⟨"usdcPool"⟩ 5 lpAccountApproved = .ok 5000000000000000 q ∧
      Deposited ⟨"lpAccount"⟩ ⟨"usdcPool"⟩ 5 5000000000000000 lpAccountApproved q s s' r r' ∧
      Backed ⟨"lpAccount"⟩ ⟨"usdcPool"⟩ 5 r r' := by
  have h : deposit ⟨"lpAccount"⟩ ⟨"usdcPool"⟩ 5 lpAccountApproved = .ok 5000000000000000
      (lpAccountApproved.after (.deposit ⟨"lpAccount"⟩ ⟨"usdcPool"⟩ 5)) := by rfl
  obtain ⟨s, s', r, r', hdeposited, hiff, -, -⟩ := deposit_backed_iff _ _ _ _ _ _ h
  exact ⟨_, s, s', r, r', h, hdeposited, hiff.2 (by decide)⟩

/-- A pool has underlyer and lets itself move it. -/
def poolApproved : Protocol :=
  initial.run [.mintTokens ⟨"USDC"⟩ ⟨"usdcPool"⟩ 5, .approve ⟨"USDC"⟩ ⟨"usdcPool"⟩ ⟨"usdcPool"⟩ 5]

/-- A pool can deposit into itself. It gets its shares, and has no more underlyer than before. -/
theorem self_deposit_unbacked :
    Reachable poolApproved ∧
      ∃ q, deposit ⟨"usdcPool"⟩ ⟨"usdcPool"⟩ 5 poolApproved = .ok 5000000000000000 q ∧
        q.tokens.balanceOf ⟨"USDC"⟩ ⟨"usdcPool"⟩ = .ok 5 ∧
        poolApproved.tokens.balanceOf ⟨"USDC"⟩ ⟨"usdcPool"⟩ = .ok 5 ∧
        (poolApproved.pools.get? ⟨"usdcPool"⟩).map (·.shares.supply) = some 0 ∧
        (q.pools.get? ⟨"usdcPool"⟩).map (·.shares.supply) = some 5000000000000000 := by
  refine ⟨reachable_initial.run _, poolApproved.after (.deposit ⟨"usdcPool"⟩ ⟨"usdcPool"⟩ 5), ?_⟩
  refine ⟨by rfl, by rfl, by rfl, by rfl, by rfl⟩

end Protocol

end MetaPool
