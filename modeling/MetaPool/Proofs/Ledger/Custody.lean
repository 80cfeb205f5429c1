import MetaPool.Proofs.Ledger.Shares
import MetaPool.Proofs.Ledger.Spending

/-!
# Nobody touches another's assets

An account that is neither a pool nor the LP account keeps its shares and its deposit times, and
loses none of its tokens, unless it is itself the caller of an operation. No role changes that, no
list of pools or amounts of a batch, and no allowance that the account has granted.

    op.caller? ≠ some u → Untouched u p (p.after op)                (untouched_after)
    op.caller? ≠ some u for all of ops → Untouched u p (p.run ops)  (untouched_run)

Nobody is the caller of an approval, which moves nothing, or of a mint, which only credits.
-/

namespace MetaPool

/-- A change of a pool bears on the caller's stake alone. -/
theorem Pool.stake_of_change {op : Operation} {a u : Address} {s s' : Pool}
    (h : s.Change op a s') (hu : op.caller? ≠ some u) :
    s'.shares.balanceOf u = s.shares.balanceOf u ∧ s'.lastDeposit.get? u = s.lastDeposit.get? u := by
  cases h with
  | deposit caller amount shares time hop h =>
    obtain ⟨book, hmint, rfl⟩ := addDeposit_eq_ok.1 h
    have hne : u ≠ caller := by
      rintro rfl
      exact hu (hop ▸ rfl)
    have hbalance := ShareBook.balanceOf_of_mint hmint u
    rw [if_neg hne, Nat.add_zero] at hbalance
    exact ⟨hbalance, by rw [OrderedMap.get?_insert, if_neg hne]⟩
  | redeem caller shares hop h =>
    obtain ⟨book, hburn, rfl⟩ := takeShares_eq_ok.1 h
    have hne : u ≠ caller := by
      rintro rfl
      exact hu (hop ▸ rfl)
    have hbalance := ShareBook.balanceOf_of_burn hburn u
    rw [if_neg hne, Nat.add_zero] at hbalance
    exact ⟨hbalance, rfl⟩
  | control h => rw [h.shares, h.lastDeposit]; exact ⟨rfl, rfl⟩

namespace TokenBook

variable {may : Address → Prop} {b b' : TokenBook} {token holder t u : Address} {amount v : Nat}

theorem balance_le_of_spent (h : b.Spent may b') (hu : ¬ may u) (hv : b.balanceOf t u = .ok v) :
    ∃ w, b'.balanceOf t u = .ok w ∧ v ≤ w := by
  obtain ⟨r, hr, rfl⟩ := balance_eq_ok.1 hv
  obtain ⟨r', hr', hspent⟩ := h.record t r hr
  exact ⟨r'.balanceOf u, balance_eq_ok.2 ⟨r', hr', rfl⟩, hspent.balance u hu⟩

theorem balance_le_of_mint (h : b.mint token holder amount = .ok b')
    (hv : b.balanceOf t u = .ok v) : ∃ w, b'.balanceOf t u = .ok w ∧ v ≤ w := by
  obtain ⟨r, hr, rfl⟩ := balance_eq_ok.1 hv
  obtain ⟨s, hs, -, -, rfl⟩ := mint_eq_ok.1 h
  by_cases ht : t = token
  · subst ht
    obtain rfl := Option.some.inj (hr.symm.trans hs)
    refine ⟨_, balance_eq_ok.2 ⟨_, by rw [OrderedMap.get?_insert, if_pos rfl], rfl⟩, ?_⟩
    rw [TokenRecord.balanceOf_credited]
    split
    next hu => rw [hu]; exact Nat.le_add_right _ _
    next => exact Nat.le_refl _
  · refine ⟨_, balance_eq_ok.2 ⟨r, ?_, rfl⟩, Nat.le_refl _⟩
    rw [OrderedMap.get?_insert, if_neg ht, hr]

end TokenBook

namespace Protocol

variable {p q r : Protocol} {u : Address} {op : Operation} {out : Outcome}

/-- In every pool the account has the same shares and the same deposit time, and of every token it
has no less. -/
structure Untouched (u : Address) (p q : Protocol) : Prop where
  shares : ∀ a, (q.pool a).map (·.shares.balanceOf u) = (p.pool a).map (·.shares.balanceOf u)
  lastDeposit : ∀ a, (q.pool a).map (·.lastDeposit.get? u) = (p.pool a).map (·.lastDeposit.get? u)
  tokens : ∀ t v, p.tokens.balanceOf t u = .ok v → ∃ w, q.tokens.balanceOf t u = .ok w ∧ v ≤ w

theorem Untouched.refl (u : Address) (p : Protocol) : Untouched u p p :=
  ⟨fun _ => rfl, fun _ => rfl, fun _ v hv => ⟨v, hv, Nat.le_refl v⟩⟩

theorem Untouched.trans (h : Untouched u p q) (h' : Untouched u q r) : Untouched u p r where
  shares a := (h'.shares a).trans (h.shares a)
  lastDeposit a := (h'.lastDeposit a).trans (h.lastDeposit a)
  tokens t v hv := by
    obtain ⟨w, hw, hvw⟩ := h.tokens t v hv
    obtain ⟨x, hx, hwx⟩ := h'.tokens t w hw
    exact ⟨x, hx, Nat.le_trans hvw hwx⟩

theorem untouched_of_ok (hpool : u ∉ p.pools.keys) (hlp : u ≠ p.lpAccount.address)
    (hcaller : op.caller? ≠ some u) (h : op.perform p = .ok out q) : Untouched u p q where
  shares := (Operation.pools_of_ok h).map_eq fun _ _ _ hc => (Pool.stake_of_change hc hcaller).1
  lastDeposit :=
    (Operation.pools_of_ok h).map_eq fun _ _ _ hc => (Pool.stake_of_change hc hcaller).2
  tokens t v hv := by
    have hmay : ¬ op.maySpend p u := by
      rintro (h | ⟨s, hs, -⟩ | h)
      · exact hcaller h
      · exact hpool (mem_keys_of_pool hs)
      · exact hlp h
    cases Operation.tokens_of_ok h with
    | credited token holder amount hop hmint => exact TokenBook.balance_le_of_mint hmint hv
    | spent hop hspent => exact TokenBook.balance_le_of_spent hspent hmay hv

theorem untouched_after (hpool : u ∉ p.pools.keys) (hlp : u ≠ p.lpAccount.address)
    (hcaller : op.caller? ≠ some u) : Untouched u p (p.after op) := by
  rcases ok_or_unchanged p op with ⟨out, h⟩ | ⟨-, hsame⟩
  · exact untouched_of_ok hpool hlp hcaller h
  · rw [hsame]
    exact .refl u p

theorem untouched_run {ops : List Operation} (hpool : u ∉ p.pools.keys)
    (hlp : u ≠ p.lpAccount.address) (hcaller : ∀ op ∈ ops, op.caller? ≠ some u) :
    Untouched u p (p.run ops) := by
  induction ops generalizing p with
  | nil => exact .refl u p
  | cons op ops ih =>
    rw [List.forall_mem_cons] at hcaller
    have hstep : Untouched u p (p.after op) := untouched_after hpool hlp hcaller.1
    refine hstep.trans (ih ?_ ?_ hcaller.2)
    · rwa [mem_keys_after]
    · rwa [Operation.lpAccount_after]

/-- Whatever others do, also with roles, in batches or in a long history, an account that is neither
a pool nor the LP account keeps its shares and its deposit times and loses no tokens. -/
theorem untouched_by_others (p : Protocol) (u : Address) (hpool : u ∉ p.pools.keys)
    (hlp : u ≠ p.lpAccount.address) :
    (∀ op : Operation, op.caller? ≠ some u → Untouched u p (p.after op)) ∧
      ∀ ops : List Operation, (∀ op ∈ ops, op.caller? ≠ some u) → Untouched u p (p.run ops) :=
  ⟨fun _ => untouched_after hpool hlp, fun _ => untouched_run hpool hlp⟩

/-- Two depositors, one of whom lets the pool move more of its tokens. -/
def twoDepositors : Protocol :=
  initial.run [.mintTokens ⟨"USDC"⟩ ⟨"alice"⟩ 1000, .mintTokens ⟨"USDC"⟩ ⟨"bob"⟩ 1000,
    .approve ⟨"USDC"⟩ ⟨"alice"⟩ ⟨"usdcPool"⟩ 1000, .approve ⟨"USDC"⟩ ⟨"bob"⟩ ⟨"usdcPool"⟩ 1000,
    .deposit ⟨"alice"⟩ ⟨"usdcPool"⟩ 300, .deposit ⟨"bob"⟩ ⟨"usdcPool"⟩ 700]

/-- The other redeems, operators change a fee and send capital away. -/
def byOthers : List Operation :=
  [.redeem ⟨"bob"⟩ ⟨"usdcPool"⟩ 10, .setWithdrawFee ⟨"adminSafe"⟩ ⟨"usdcPool"⟩ 100,
    .sendByHand ⟨"emergencySafe"⟩ [⟨"usdcPool"⟩] [900]]

theorem untouched_alice :
    0 < twoDepositors.tokens.held ⟨"USDC"⟩ ⟨"alice"⟩ ∧
      Untouched ⟨"alice"⟩ twoDepositors (twoDepositors.after (.redeem ⟨"bob"⟩ ⟨"usdcPool"⟩ 10)) ∧
      Untouched ⟨"alice"⟩ twoDepositors (twoDepositors.run byOthers) := by
  have hothers := untouched_by_others twoDepositors ⟨"alice"⟩ (by decide +kernel) (by decide +kernel)
  exact ⟨by decide +kernel, hothers.1 _ (by decide), hothers.2 byOthers (by decide)⟩

end Protocol

end MetaPool
