import MetaPool.Proofs.Quantity.Quotients

/-!
# Units and worth, there and back

The worth of units and the units for a worth are both floors, of a quotient and of the quotient upside
down. Converted there and back, an amount never grows, because each floor only takes off. What it loses is
less than one unit and what the first floor took off.

    prorate a b d = .ok c → prorate c d b = .ok a' with a' ≤ a and (a - a') * b < d + b     (prorate_back)

The way back never leaves the amounts, whatever the price, because it ends at or below where the way there
began.
-/

namespace MetaPool

namespace Checked

variable {a b c d : Nat}

/-- A part of less is less, and is an amount if the part of more is. -/
theorem prorate_mono {a' : Nat} (ha : a ≤ a') (h : prorate a' b d = .ok c) :
    ∃ c' ≤ c, prorate a b d = .ok c' := by
  obtain ⟨hd, rfl, hfits⟩ := prorate_eq_ok.1 h
  have hle : a * b / d ≤ a' * b / d := Nat.div_le_div_right (Nat.mul_le_mul_right b ha)
  exact ⟨a * b / d, hle, prorate_eq_ok.2 ⟨hd, rfl, hle.trans hfits⟩⟩

/-- There and back again: the first floor takes less than `d` off `a * b`, and the second less than `b`. -/
theorem prorate_back (h : prorate a b d = .ok c) (hb : b ≠ 0) (ha : a ≤ maxAmount) :
    ∃ a' ≤ a, prorate c d b = .ok a' ∧ (a - a') * b < d + b := by
  obtain ⟨hlow, hhigh⟩ := prorate_bounds h
  have hle : c * d / b ≤ a := by
    apply Nat.div_le_of_le_mul
    rwa [Nat.mul_comm b]
  have hback : prorate c d b = .ok (c * d / b) := prorate_eq_ok.2 ⟨hb, rfl, hle.trans ha⟩
  refine ⟨c * d / b, hle, hback, ?_⟩
  have hrest := (prorate_bounds hback).2
  rw [Nat.add_mul, Nat.one_mul] at hhigh hrest
  rw [Nat.sub_mul]
  omega

end Checked

/-! ## Conversions -/

variable {price decimals : Nat}

theorem worth_eq (hdecimals : decimals ≤ maxDecimals) (amount price : Nat) :
    worth amount price decimals = Checked.prorate amount price (10 ^ decimals) := by
  unfold worth
  rw [Checked.powerOfTen_eq_ok.2 ⟨hdecimals, rfl⟩]
  rfl

theorem unitsWorth_eq (hprice : price ≠ 0) (hdecimals : decimals ≤ maxDecimals) (value : Nat) :
    unitsWorth value price decimals = Checked.prorate value (10 ^ decimals) price := by
  unfold unitsWorth
  rw [if_neg hprice, Checked.powerOfTen_eq_ok.2 ⟨hdecimals, rfl⟩]
  rfl

/-- The units of the magnitude may leave the amounts, and with their sign the signed amounts. -/
theorem signedUnitsWorth_eq (hprice : price ≠ 0) (hdecimals : decimals ≤ maxDecimals) (value : Int) :
    signedUnitsWorth value price decimals =
      match unitsWorth value.natAbs price decimals with
      | .ok units => Checked.fitSigned .overflow (value.sign * units)
      | .error _ => .error .overflow := by
  unfold signedUnitsWorth
  rw [if_neg hprice, Checked.powerOfTen_eq_ok.2 ⟨hdecimals, rfl⟩, unitsWorth_eq hprice hdecimals]
  show Checked.prorateSigned value (10 ^ decimals) price = _
  unfold Checked.prorateSigned
  rcases Checked.prorate_cases value.natAbs (10 ^ decimals) hprice with ⟨-, hok⟩ | ⟨-, herror⟩
  · rw [hok]
    exact congrArg (Checked.fitSigned .overflow) (Checked.signed_magnitude value (10 ^ decimals) price)
  · rw [herror]
    rfl

/-- At every price above zero and in both directions, what is converted can be converted back, comes back as
no more than it was, and has lost less than one step. Less never converts to more. A signed worth converts by
its magnitude and keeps its sign, wherever that is a signed amount, and overflows elsewhere. -/
theorem conversions_lose_less_than_a_step (price decimals : Nat) (hprice : 0 < price)
    (hdecimals : decimals ≤ 38) :
    (∀ amount v, amount ≤ maxAmount → worth amount price decimals = .ok v →
      ∃ back ≤ amount, unitsWorth v price decimals = .ok back ∧
        (amount - back) * price < 10 ^ decimals + price) ∧
    (∀ value units, value ≤ maxAmount → unitsWorth value price decimals = .ok units →
      ∃ back ≤ value, worth units price decimals = .ok back ∧
        (value - back) * 10 ^ decimals < 10 ^ decimals + price) ∧
    (∀ x y w, x ≤ y → worth y price decimals = .ok w →
      ∃ v ≤ w, worth x price decimals = .ok v) ∧
    (∀ x y w, x ≤ y → unitsWorth y price decimals = .ok w →
      ∃ v ≤ w, unitsWorth x price decimals = .ok v) ∧
    ∀ value : Int, signedUnitsWorth value price decimals =
      match unitsWorth value.natAbs price decimals with
      | .ok units =>
        if -2 ^ 127 ≤ value.sign * units ∧ value.sign * units ≤ 2 ^ 127 - 1 then
          .ok (value.sign * units)
        else .error .overflow
      | .error _ => .error .overflow := by
  have hne : price ≠ 0 := Nat.pos_iff_ne_zero.1 hprice
  have hpower : 10 ^ decimals ≠ 0 := Nat.pos_iff_ne_zero.1 (Nat.pow_pos (by decide))
  refine ⟨?_, ?_, ?_, ?_, ?_⟩
  · intro amount v hamount h
    rw [worth_eq hdecimals] at h
    rw [unitsWorth_eq hne hdecimals]
    exact Checked.prorate_back h hne hamount
  · intro value units hvalue h
    rw [unitsWorth_eq hne hdecimals] at h
    rw [worth_eq hdecimals, Nat.add_comm]
    exact Checked.prorate_back h hpower hvalue
  · intro x y w hxy h
    rw [worth_eq hdecimals] at h ⊢
    exact Checked.prorate_mono hxy h
  · intro x y w hxy h
    rw [unitsWorth_eq hne hdecimals] at h ⊢
    exact Checked.prorate_mono hxy h
  · exact signedUnitsWorth_eq hne hdecimals

/-- A unit of six decimals is worth 300 000 000. An amount of 100 000 000 comes to a third of one, and that is
worth 100 less. -/
theorem conversions_lose_less_than_a_step_third :
    0 < 300000000 ∧ 6 ≤ 38 ∧ unitsWorth 100000000 300000000 6 = .ok 333333 ∧
      (∃ back ≤ 100000000, worth 333333 300000000 6 = .ok back ∧
        (100000000 - back) * 10 ^ 6 < 10 ^ 6 + 300000000) ∧
      worth 333333 300000000 6 = .ok 99999900 ∧
      signedUnitsWorth (-100000000) 300000000 6 = .ok (-333333) := by
  obtain ⟨-, hback, -, -, hsigned⟩ :=
    conversions_lose_less_than_a_step 300000000 6 (by decide) (by decide)
  have hunits : unitsWorth 100000000 300000000 6 = .ok 333333 := by decide
  refine ⟨by decide, by decide, hunits, hback 100000000 333333 (by decide) hunits, by decide, ?_⟩
  rw [hsigned]
  decide

end MetaPool
