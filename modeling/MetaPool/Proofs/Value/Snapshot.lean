import MetaPool.Pool.Redemption
import MetaPool.Pool.Snapshot
import MetaPool.Proofs.Quantity.Checked

/-!
# Rounding favours those who stay

What a deposit mints and what a redemption takes out, each against the snapshot before it. All
divisions are cleared: a price per share is compared by its cross product.

    m shares for an amount:  V * (S + m) ≤ V' * S                   (price_of_sharesFor)
    units for x shares:      V * (S - x) ≤ V' * S                   (price_of_unitsFor)

Here `V` and `S` are total value and supply before, and `V'` is the total value with the amount
added to the idle balance, or with no more than the units taken from it.
-/

namespace MetaPool

namespace Snapshot

variable {s : Snapshot} {amount shares units m v : Nat}

/-- The worth of the idle balance and the deployed value, rounded down. -/
def value (s : Snapshot) : Nat := s.idleBalance * s.price / 10 ^ s.decimals + s.deployedValue

theorem totalValue_eq_ok : s.totalValue = .ok v ↔
    s.decimals ≤ maxDecimals ∧ v = s.value ∧ s.value ≤ maxAmount := by
  simp only [totalValue, idleValue, worthOf, except_bind_eq_ok, worth_eq_ok, Checked.add_eq_ok,
    value]
  constructor
  · rintro ⟨_, ⟨hd, rfl, -⟩, rfl, hv⟩
    exact ⟨hd, rfl, hv⟩
  · rintro ⟨hd, rfl, hv⟩
    exact ⟨_, ⟨hd, rfl, by omega⟩, rfl, hv⟩

/-- What can be valued can be valued with less in the idle balance, whatever the supply is. -/
theorem totalValue_of_le {supply : Nat} (h : s.totalValue = .ok v) (hle : units ≤ s.idleBalance) :
    { s with idleBalance := units, shareSupply := supply }.totalValue =
      .ok { s with idleBalance := units, shareSupply := supply }.value := by
  obtain ⟨hdecimals, rfl, hfits⟩ := totalValue_eq_ok.1 h
  refine totalValue_eq_ok.2 ⟨hdecimals, rfl, Nat.le_trans ?_ hfits⟩
  exact Nat.add_le_add_right (Nat.div_le_div_right (Nat.mul_le_mul_right _ hle)) _

theorem shareValue_eq_ok : s.shareValue shares = .ok v ↔ s.shareSupply ≠ 0 ∧
    s.totalValue = .ok s.value ∧ Checked.prorate s.value shares s.shareSupply = .ok v := by
  simp only [shareValue, refuse_eq_ok, except_bind_eq_ok]
  constructor
  · rintro ⟨hS, _, hV, hv⟩
    obtain ⟨-, rfl, -⟩ := totalValue_eq_ok.1 hV
    exact ⟨hS, hV, hv⟩
  · rintro ⟨hS, hV, hv⟩
    exact ⟨hS, _, hV, hv⟩

theorem unitsFor_eq_ok : s.unitsFor shares = .ok units ↔ shares = 0 ∧ units = 0 ∨ shares ≠ 0 ∧
    ∃ w, s.shareValue shares = .ok w ∧ unitsWorth w s.price s.decimals = .ok units := by
  unfold unitsFor
  by_cases h : shares = 0
  · simp [h, eq_comm]
  · simp [h, except_bind_eq_ok]

/-! ## Deposits -/

/-- The shares for a deposit are at most its part of the total value. A pool whose shares have become
worthless mints at the bootstrap rate, and then there is no value to have a part of. -/
theorem sharesFor_mul_le (h : s.sharesFor amount = .ok m) (hS : s.shareSupply ≠ 0) :
    m * s.value ≤ s.shareSupply * (amount * s.price / 10 ^ s.decimals) := by
  by_cases hV : s.value = 0
  · simp [hV]
  obtain ⟨_, hV', h⟩ := except_bind_eq_ok.1 h
  obtain ⟨-, rfl, -⟩ := totalValue_eq_ok.1 hV'
  rw [if_neg (by simp [hS, hV])] at h
  obtain ⟨w, hw, hm⟩ := except_bind_eq_ok.1 h
  obtain ⟨-, rfl, -⟩ := worth_eq_ok.1 hw
  exact (Checked.prorate_bounds hm).1

/-- Two floors are never above the floor of the sum. -/
theorem value_add_le (s : Snapshot) (amount : Nat) :
    s.value + amount * s.price / 10 ^ s.decimals ≤
      value { s with idleBalance := s.idleBalance + amount } := by
  have h : s.idleBalance * s.price / 10 ^ s.decimals + amount * s.price / 10 ^ s.decimals ≤
      (s.idleBalance * s.price + amount * s.price) / 10 ^ s.decimals := Nat.div_add_div_le_add_div
  simp only [value, Nat.add_mul]
  omega

/-- A deposit does not lower the price per share. -/
theorem price_of_sharesFor (h : s.sharesFor amount = .ok m) (hS : s.shareSupply ≠ 0) :
    s.value * (s.shareSupply + m) ≤
      value { s with idleBalance := s.idleBalance + amount } * s.shareSupply := by
  have hm := sharesFor_mul_le h hS
  calc s.value * (s.shareSupply + m)
      = s.value * s.shareSupply + m * s.value := by rw [Nat.mul_add, Nat.mul_comm m]
    _ ≤ s.value * s.shareSupply + s.shareSupply * (amount * s.price / 10 ^ s.decimals) :=
        Nat.add_le_add_left hm _
    _ = (s.value + amount * s.price / 10 ^ s.decimals) * s.shareSupply := by
        rw [Nat.add_mul, Nat.mul_comm s.shareSupply]
    _ ≤ _ := Nat.mul_le_mul_right _ (s.value_add_le amount)

/-! ## Redemptions -/

/-- Units that are worth at most `w` lower the total value by at most `w`. -/
theorem value_le_sub_add {w : Nat} (hu : units * s.price ≤ w * 10 ^ s.decimals) :
    s.value ≤ value { s with idleBalance := s.idleBalance - units } + w := by
  have hpos : 0 < 10 ^ s.decimals := Nat.pow_pos (by decide)
  have hidle : s.idleBalance * s.price ≤
      (s.idleBalance - units) * s.price + w * 10 ^ s.decimals := by
    calc s.idleBalance * s.price ≤ (s.idleBalance - units + units) * s.price :=
          Nat.mul_le_mul_right _ (by omega)
      _ = (s.idleBalance - units) * s.price + units * s.price := Nat.add_mul _ _ _
      _ ≤ _ := Nat.add_le_add_left hu _
  have hdiv := Nat.div_le_div_right (c := 10 ^ s.decimals) hidle
  rw [Nat.add_mul_div_right _ _ hpos] at hdiv
  simp only [value]
  omega

/-- A redemption of some shares for at most their units does not lower the price per share. -/
theorem price_of_unitsFor {paid : Nat} (h : s.unitsFor shares = .ok units) (hpaid : paid ≤ units)
    (hshares : shares ≤ s.shareSupply) :
    s.value * (s.shareSupply - shares) ≤
      value { s with idleBalance := s.idleBalance - paid } * s.shareSupply := by
  obtain ⟨w, hw, hu⟩ : ∃ w, w * s.shareSupply ≤ s.value * shares ∧
      paid * s.price ≤ w * 10 ^ s.decimals := by
    rcases unitsFor_eq_ok.1 h with ⟨rfl, rfl⟩ | ⟨-, w, hw, hu⟩
    · exact ⟨0, by simp, by simp [Nat.le_zero.1 hpaid]⟩
    · obtain ⟨-, -, rfl, -⟩ := unitsWorth_eq_ok.1 hu
      refine ⟨w, (Checked.prorate_bounds (shareValue_eq_ok.1 hw).2.2).1, ?_⟩
      exact Nat.le_trans (Nat.mul_le_mul_right _ hpaid) (Nat.div_mul_le_self _ _)
  have hsub := s.value_le_sub_add hu
  calc s.value * (s.shareSupply - shares)
      = s.value * s.shareSupply - s.value * shares := Nat.mul_sub _ _ _
    _ ≤ s.value * s.shareSupply - w * s.shareSupply := Nat.sub_le_sub_left hw _
    _ = (s.value - w) * s.shareSupply := (Nat.sub_mul _ _ _).symm
    _ ≤ _ := Nat.mul_le_mul_right _ (by omega)

end Snapshot

namespace RedemptionQuote

variable {base withdrawBps arbitrageBps : Nat} {early : Bool} {quote : RedemptionQuote}

/-- What a quote is made of: its base, a fee of the base, a second one if it is early, and what is left. -/
theorem of_eq_ok (h : RedemptionQuote.of base withdrawBps arbitrageBps early = .ok quote) :
    quote = ⟨base, base * withdrawBps / wholeBps, if early then base * arbitrageBps / wholeBps else 0,
      base - base * withdrawBps / wholeBps - if early then base * arbitrageBps / wholeBps else 0⟩ := by
  obtain ⟨-, h⟩ := refuse_eq_ok.1 h
  obtain ⟨withdrawFee, hwithdraw, h⟩ := except_bind_eq_ok.1 h
  obtain ⟨-, rfl, -⟩ := Checked.prorate_eq_ok.1 hwithdraw
  cases early with
  | false => exact except_pure_eq_ok.1 h
  | true =>
    obtain ⟨arbitrageFee, harbitrage, h⟩ := except_bind_eq_ok.1 h
    obtain ⟨-, rfl, -⟩ := Checked.prorate_eq_ok.1 harbitrage
    exact except_pure_eq_ok.1 h

theorem eq_of_ok (h : RedemptionQuote.of base withdrawBps arbitrageBps early = .ok quote) :
    ∃ withdrawFee arbitrageFee, quote = ⟨base, withdrawFee, arbitrageFee,
      base - withdrawFee - arbitrageFee⟩ := ⟨_, _, of_eq_ok h⟩

theorem base_eq (h : RedemptionQuote.of base withdrawBps arbitrageBps early = .ok quote) :
    quote.base = base := by
  obtain ⟨_, _, rfl⟩ := eq_of_ok h
  rfl

/-- Fees only take from the base amount. -/
theorem net_le_base (h : RedemptionQuote.of base withdrawBps arbitrageBps early = .ok quote) :
    quote.net ≤ base := by
  obtain ⟨withdrawFee, arbitrageFee, rfl⟩ := eq_of_ok h
  show base - withdrawFee - arbitrageFee ≤ base
  omega

end RedemptionQuote

end MetaPool
