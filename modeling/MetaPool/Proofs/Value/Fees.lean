import MetaPool.Proofs.Value.Snapshot

/-!
# Fees and what they leave

A redemption is charged one fee or two, each a floored portion of the same base. As long as the rates
that are charged do not exceed the whole, the fees and the net amount add up to the base; beyond that
the net amount is cut off at zero.

    withdrawFee = base * withdrawBps / wholeBps                     (quote_splits_base)
    net + withdrawFee + arbitrageFee = base
    base ≤ base' → net ≤ net' + 1

Two floors can both go up where their sum should go up by one, so a larger base may net one unit less:
two fees of one half leave all of a base of 1 and nothing of a base of 2. One fee alone never does that.
-/

namespace MetaPool.RedemptionQuote

/-- The fee of a base amount at a rate in basis points. -/
def fee (base bps : Nat) : Nat := base * bps / wholeBps

variable {base base' bps withdrawBps arbitrageBps : Nat} {early : Bool}

@[simp] theorem fee_zero (base : Nat) : fee base 0 = 0 := by simp [fee]

/-! ## One fee -/

/-- A fee grows no faster than its base. -/
theorem fee_le_add (hle : base ≤ base') (hbps : bps ≤ wholeBps) :
    fee base' bps ≤ fee base bps + (base' - base) := by
  have hgrown : base' * bps ≤ base * bps + (base' - base) * wholeBps := by
    calc base' * bps = base * bps + (base' - base) * bps := by
          rw [← Nat.add_mul, Nat.add_sub_cancel' hle]
      _ ≤ _ := Nat.add_le_add_left (Nat.mul_le_mul_left _ hbps) _
  calc fee base' bps ≤ (base * bps + (base' - base) * wholeBps) / wholeBps :=
        Nat.div_le_div_right hgrown
    _ = fee base bps + (base' - base) := Nat.add_mul_div_right _ _ (by decide)

theorem fee_le (hbps : bps ≤ wholeBps) : fee base bps ≤ base := by
  have h := fee_le_add (Nat.zero_le base) hbps
  simpa [fee] using h

/-! ## Two fees -/

/-- Two fees of one base are the fee at both rates together, or one unit less. -/
theorem fee_add_bounds (base withdrawBps arbitrageBps : Nat) :
    fee base withdrawBps + fee base arbitrageBps ≤ fee base (withdrawBps + arbitrageBps) ∧
      fee base (withdrawBps + arbitrageBps) ≤ fee base withdrawBps + fee base arbitrageBps + 1 := by
  unfold fee wholeBps
  rw [Nat.mul_add]
  omega

/-- The fees of a larger base are larger by at most what the base is, and one unit. -/
theorem fees_le_add (hle : base ≤ base') (hcharged : withdrawBps + arbitrageBps ≤ wholeBps) :
    fee base' withdrawBps + fee base' arbitrageBps ≤
      fee base withdrawBps + fee base arbitrageBps + (base' - base) + 1 := by
  have htogether := fee_le_add hle hcharged
  have hbefore := fee_add_bounds base withdrawBps arbitrageBps
  have hafter := fee_add_bounds base' withdrawBps arbitrageBps
  omega

/-! ## Quotes -/

/-- The quote of a redemption that is not early is that of one without an arbitrage fee. -/
theorem of_eq (hbase : base ≤ maxAmount) (hwithdraw : withdrawBps ≤ wholeBps)
    (harbitrage : arbitrageBps ≤ wholeBps) :
    RedemptionQuote.of base withdrawBps arbitrageBps early = .ok
      ⟨base, fee base withdrawBps, fee base (if early then arbitrageBps else 0),
        base - fee base withdrawBps - fee base (if early then arbitrageBps else 0)⟩ := by
  have hportion {bps : Nat} (hbps : bps ≤ wholeBps) : Checked.portion base bps = .ok (fee base bps) :=
    Checked.prorate_of_le hbps (by decide) hbase
  refine refuse_eq_ok.2 ⟨by omega, except_bind_eq_ok.2 ⟨_, hportion hwithdraw, ?_⟩⟩
  cases early with
  | false => exact except_bind_eq_ok.2 ⟨0, rfl, by simp [pure, Except.pure]⟩
  | true => exact except_bind_eq_ok.2 ⟨_, hportion harbitrage, rfl⟩

/-- A redemption of any base amount at any two rates is quoted, early or not. Each fee is the floored
portion of the base at its rate, and only an early redemption pays the second. If the rates that are
charged do not exceed the whole, nothing of the base is lost between the payout and the fees; if they
do, the payout is cut off at zero. It pays to wait, and a larger base nets at most one unit less, and no
less if the withdraw fee is the only one. -/
theorem quote_splits_base (base withdrawBps arbitrageBps : Nat) (hbase : base ≤ maxAmount)
    (hwithdraw : withdrawBps ≤ wholeBps) (harbitrage : arbitrageBps ≤ wholeBps) (early : Bool) :
    ∃ quote, RedemptionQuote.of base withdrawBps arbitrageBps early = .ok quote ∧
      (quote.base = base ∧ quote.withdrawFee = base * withdrawBps / wholeBps ∧
        quote.arbitrageFee = if early then base * arbitrageBps / wholeBps else 0) ∧
      (withdrawBps + (if early then arbitrageBps else 0) ≤ wholeBps →
        quote.net + quote.withdrawFee + quote.arbitrageFee = base) ∧
      (wholeBps < withdrawBps + (if early then arbitrageBps else 0) →
        (quote.net : Int) = max 0 ((base : Int) - (quote.withdrawFee + quote.arbitrageFee))) ∧
      (∀ late, RedemptionQuote.of base withdrawBps arbitrageBps false = .ok late →
        quote.net ≤ late.net) ∧
      ∀ base' quote', base ≤ base' → base' ≤ maxAmount →
        RedemptionQuote.of base' withdrawBps arbitrageBps early = .ok quote' →
        (withdrawBps + (if early then arbitrageBps else 0) ≤ wholeBps →
          quote.net ≤ quote'.net + 1) ∧
        (early = false ∨ arbitrageBps = 0 → quote.net ≤ quote'.net) := by
  refine ⟨_, of_eq hbase hwithdraw harbitrage, ⟨rfl, rfl, ?_⟩, ?_, ?_, ?_, ?_⟩
  · cases early with
    | false => exact fee_zero base
    | true => rfl
  · intro hcharged
    have hfees := (fee_add_bounds base withdrawBps (if early then arbitrageBps else 0)).1
    have hwhole : fee base (withdrawBps + if early then arbitrageBps else 0) ≤ base :=
      fee_le hcharged
    dsimp only
    omega
  · intro _
    dsimp only
    omega
  · intro late hlate
    obtain rfl := ok_unique hlate (of_eq hbase hwithdraw harbitrage)
    simp
  · intro base' quote' hle hbase' hquote'
    obtain rfl := ok_unique hquote' (of_eq hbase' hwithdraw harbitrage)
    dsimp only
    refine ⟨fun hcharged => ?_, fun hsingle => ?_⟩
    · have hgrown := fees_le_add hle hcharged
      omega
    · have hgrown := fee_le_add hle hwithdraw
      have hnone : (if early then arbitrageBps else 0) = 0 := by
        rcases hsingle with rfl | rfl <;> simp
      rw [hnone, fee_zero, fee_zero]
      omega

/-- Two fees of one half: all of 1 is paid out, and nothing of 2. -/
theorem quote_splits_base_halves : ∃ quote quote',
    RedemptionQuote.of 1 5000 5000 true = .ok quote ∧ quote.net = 1 ∧
      RedemptionQuote.of 2 5000 5000 true = .ok quote' ∧ quote'.net = 0 ∧
      quote'.withdrawFee = 1 ∧ quote'.arbitrageFee = 1 ∧ quote.net ≤ quote'.net + 1 := by
  obtain ⟨quote, hquote, -, -, -, -, hlarger⟩ :=
    quote_splits_base 1 5000 5000 (by decide) (by decide) (by decide) true
  obtain ⟨quote', hquote', ⟨-, hwithdraw, harbitrage⟩, -⟩ :=
    quote_splits_base 2 5000 5000 (by decide) (by decide) (by decide) true
  obtain rfl : quote = ⟨1, 0, 0, 1⟩ := ok_unique hquote rfl
  have hnet : quote'.net = 0 := by
    obtain rfl : quote' = ⟨2, 1, 1, 0⟩ := ok_unique hquote' rfl
    rfl
  exact ⟨_, quote', hquote, rfl, hquote', hnet, hwithdraw, harbitrage,
    (hlarger 2 _ (by decide) (by decide) hquote').1 (by decide)⟩

end MetaPool.RedemptionQuote
