import MetaPool.Proofs.Step.History
import MetaPool.Proofs.Value.Exchange

/-!
# A deposit taken back

Whoever deposits an amount and redeems some of the shares for it at once gets at most the amount. The
shares are worth no more than the deposit, although the deposit may raise the total value by one more
than its worth, where both floors of the idle value meet: what is above goes to all shares alike, and
those that were there before keep a part of it.

    value after ≤ value before + worth of the amount + 1              (value_le_add_succ)
    x ≤ m → worth of x shares after ≤ worth of the amount             (shareValue_le_of_mint)
    x ≤ m → units for x shares after ≤ amount                         (unitsFor_le_of_mint)

It takes shares that were there before: the first deposit into a pool is not priced by a snapshot.
-/

namespace MetaPool

namespace Snapshot

variable {s : Snapshot} {amount m x v units : Nat}

/-- The floor of a sum is at most one more than two floors. -/
theorem value_le_add_succ (s : Snapshot) (amount : Nat) :
    value { s with idleBalance := s.idleBalance + amount } ≤
      s.value + amount * s.price / 10 ^ s.decimals + 1 := by
  have hle : (s.idleBalance * s.price + amount * s.price) / 10 ^ s.decimals ≤
      s.idleBalance * s.price / 10 ^ s.decimals + amount * s.price / 10 ^ s.decimals + 1 :=
    Nat.add_div_le_div_add_div_add_one _ _ _
  simp only [value, Nat.add_mul]
  omega

/-- Right after a deposit, shares that it minted are worth at most what it is worth. If they were worth
one more, the shares from before would be left with nothing of that one. -/
theorem shareValue_le_of_mint (h : s.sharesFor amount = .ok m) (hS : s.shareSupply ≠ 0) (hx : x ≤ m)
    (hv : shareValue { s with
      idleBalance := s.idleBalance + amount, shareSupply := s.shareSupply + m } x = .ok v) :
    v ≤ amount * s.price / 10 ^ s.decimals := by
  have hmint := sharesFor_mul_le h hS
  have hgrown := s.value_le_add_succ amount
  have hclaim := (Checked.prorate_bounds (shareValue_eq_ok.1 hv).2.2).1
  change v * (s.shareSupply + m) ≤ value { s with idleBalance := s.idleBalance + amount } * x at hclaim
  generalize amount * s.price / 10 ^ s.decimals = w at hmint hgrown ⊢
  by_contra hmore
  have hclaims : (w + 1) * (s.shareSupply + m) ≤ (s.value + w + 1) * m :=
    calc (w + 1) * (s.shareSupply + m) ≤ v * (s.shareSupply + m) := Nat.mul_le_mul_right _ (by omega)
      _ ≤ value { s with idleBalance := s.idleBalance + amount } * x := hclaim
      _ ≤ (s.value + w + 1) * m := Nat.mul_le_mul hgrown hx
  have hsupply : s.shareSupply * w + s.shareSupply ≤ m * s.value := by
    simp only [Nat.add_mul, Nat.mul_add, Nat.one_mul] at hclaims
    rw [Nat.mul_comm s.shareSupply, Nat.mul_comm m]
    omega
  omega

theorem unitsFor_le_of_mint (h : s.sharesFor amount = .ok m) (hS : s.shareSupply ≠ 0) (hx : x ≤ m)
    (hunits : unitsFor { s with
      idleBalance := s.idleBalance + amount, shareSupply := s.shareSupply + m } x = .ok units) :
    units ≤ amount := by
  rcases unitsFor_eq_ok.1 hunits with ⟨-, rfl⟩ | ⟨-, v, hv, hunits⟩
  · exact Nat.zero_le _
  obtain ⟨-, -, rfl, -⟩ := unitsWorth_eq_ok.1 hunits
  refine Nat.div_le_of_le_mul ?_
  calc v * 10 ^ s.decimals
      ≤ amount * s.price / 10 ^ s.decimals * 10 ^ s.decimals :=
        Nat.mul_le_mul_right _ (shareValue_le_of_mint h hS hx hv)
    _ ≤ amount * s.price := Nat.div_mul_le_self _ _
    _ = s.price * amount := Nat.mul_comm _ _

end Snapshot

namespace Protocol

/-- A deposit into a pool with shares, taken back in one redemption of some of its shares, pays no more
than was deposited. That holds before fees, for every price and whatever the pool is worth. -/
theorem redeem_le_deposit (p q r : Protocol) (caller pool : Address) (amount minted shares paid : Nat)
    (hcaller : caller ≠ pool) (hsupply : 0 < p.shareSupply pool)
    (hdeposit : deposit caller pool amount p = .ok minted q) (hshares : shares ≤ minted)
    (hredeem : redeem caller pool shares q = .ok paid r) :
    paid ≤ amount ∧ ∃ quote, q.quote pool caller shares = .ok quote ∧ quote.net = paid ∧
      quote.base ≤ amount := by
  obtain ⟨_, _, _, _, -, -, -, -, hmint, -, -, -, -⟩ := deposit_eq_ok.1 hdeposit
  obtain ⟨s, hsnap, hmint⟩ := sharesFor_of_mintAmount hmint hsupply
  rw [shareSupply_of_snapshot hsnap] at hsupply
  have hsnap' := snapshot_of_deposit hdeposit hcaller hsnap
  obtain ⟨_, _, _, _, quote, _, -, -, hne, -, hquote, rfl, -, -, -, -, -, -⟩ := redeem_eq_ok.1 hredeem
  obtain ⟨_, base, -, hbase, hof⟩ := quote_eq_ok.1 hquote
  obtain ⟨s', hs', hunits⟩ := unitsFor_of_underlyerFor hbase hne
  obtain rfl := ok_unique hsnap' hs'
  have hle : base ≤ amount := Snapshot.unitsFor_le_of_mint hmint (by omega) hshares hunits
  exact ⟨(RedemptionQuote.net_le_base hof).trans hle, quote, hquote, rfl, by
    rwa [RedemptionQuote.base_eq hof]⟩

/-- The price of the underlyer has fallen until the shares are worthless, and there are no fees. -/
def worthless : Protocol :=
  initial.run [.mintTokens ⟨"USDC"⟩ ⟨"alice"⟩ 600000, .approve ⟨"USDC"⟩ ⟨"alice"⟩ ⟨"usdcPool"⟩ 600000,
    .deposit ⟨"alice"⟩ ⟨"usdcPool"⟩ 600000, .publishPrice ⟨"USDC"⟩ 1,
    .setWithdrawFee ⟨"adminSafe"⟩ ⟨"usdcPool"⟩ 0, .setArbitrageFee ⟨"adminSafe"⟩ ⟨"usdcPool"⟩ 0 0,
    .mintTokens ⟨"USDC"⟩ ⟨"bob"⟩ 1400000, .approve ⟨"USDC"⟩ ⟨"bob"⟩ ⟨"usdcPool"⟩ 1400000]

/-- A pool that is worth nothing is worth `2` after a deposit worth `1`. It pays out `1`. -/
theorem redeem_le_deposit_worthless :
    Reachable worthless ∧ worthless.poolValue ⟨"usdcPool"⟩ = .ok 0 ∧
      ∃ q r, deposit ⟨"bob"⟩ ⟨"usdcPool"⟩ 1400000 worthless = .ok 1400000000000000000000 q ∧
        q.poolValue ⟨"usdcPool"⟩ = .ok 2 ∧
        redeem ⟨"bob"⟩ ⟨"usdcPool"⟩ 1400000000000000000000 q = .ok 1000000 r ∧ 1000000 ≤ 1400000 := by
  have hdeposit : deposit ⟨"bob"⟩ ⟨"usdcPool"⟩ 1400000 worthless = .ok 1400000000000000000000
      (worthless.after (.deposit ⟨"bob"⟩ ⟨"usdcPool"⟩ 1400000)) := by rfl
  have hredeem : redeem ⟨"bob"⟩ ⟨"usdcPool"⟩ 1400000000000000000000
      (worthless.after (.deposit ⟨"bob"⟩ ⟨"usdcPool"⟩ 1400000)) = .ok 1000000
      ((worthless.after (.deposit ⟨"bob"⟩ ⟨"usdcPool"⟩ 1400000)).after
        (.redeem ⟨"bob"⟩ ⟨"usdcPool"⟩ 1400000000000000000000)) := by rfl
  refine ⟨reachable_initial.run _, by decide +kernel, _, _, hdeposit, by decide +kernel, hredeem, ?_⟩
  exact (redeem_le_deposit _ _ _ _ _ _ _ _ _ (by decide) (by decide +kernel) hdeposit
    (Nat.le_refl _) hredeem).1

end Protocol

end MetaPool
