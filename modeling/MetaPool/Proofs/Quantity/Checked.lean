import Mathlib
import MetaPool.Proofs.View
import MetaPool.Quantity.Worth

/-!
# What checked arithmetic gives

A successful operation gave the exact result, or the floor of the exact quotient, and that is an
amount.

    prorate a b d = .ok c ↔ d ≠ 0 ∧ c = a * b / d ∧ c ≤ maxAmount   (prorate_eq_ok)
    prorate a b d = .ok c → c * d ≤ a * b ∧ a * b < (c + 1) * d     (prorate_bounds)
-/

namespace MetaPool

/-! ## Checked operations -/

namespace Checked

variable {a b c d : Nat}

theorem fit_eq_ok : fit a = .ok c ↔ c = a ∧ a ≤ maxAmount := by
  unfold fit
  rw [require_eq_ok, Except.ok.injEq, eq_comm, and_comm]

theorem add_eq_ok : add a b = .ok c ↔ c = a + b ∧ a + b ≤ maxAmount := fit_eq_ok

theorem sub_eq_ok : sub a b = .ok c ↔ b ≤ a ∧ c = a - b := by
  unfold sub
  rw [require_eq_ok, Except.ok.injEq, eq_comm]

theorem powerOfTen_eq_ok : powerOfTen a = .ok c ↔ a ≤ maxDecimals ∧ c = 10 ^ a := by
  unfold powerOfTen
  rw [require_eq_ok, Except.ok.injEq, eq_comm]
  rfl

theorem prorate_eq_ok : prorate a b d = .ok c ↔ d ≠ 0 ∧ c = a * b / d ∧ a * b / d ≤ maxAmount := by
  unfold prorate
  rw [refuse_eq_ok, fit_eq_ok]

/-- A quotient is rounded down, by less than one. -/
theorem prorate_bounds (h : prorate a b d = .ok c) : c * d ≤ a * b ∧ a * b < (c + 1) * d := by
  obtain ⟨hd, rfl, -⟩ := prorate_eq_ok.1 h
  refine ⟨Nat.div_mul_le_self _ _, ?_⟩
  rw [Nat.mul_comm (_ + 1)]
  exact Nat.lt_mul_div_succ _ (Nat.pos_of_ne_zero hd)

/-- A quotient of a part is an amount if the whole is. -/
theorem prorate_of_le (hb : b ≤ d) (hd : d ≠ 0) (ha : a ≤ maxAmount) :
    prorate a b d = .ok (a * b / d) := by
  refine prorate_eq_ok.2 ⟨hd, rfl, Nat.le_trans ?_ ha⟩
  exact Nat.div_le_of_le_mul (Nat.mul_comm d a ▸ Nat.mul_le_mul_left a hb)

/-- A sum in which no partial sum is above the limit. -/
theorem foldlM_add {ι : Type} {l : List ι} {f : ι → Nat} {n : Nat}
    (h : n + (l.map f).sum ≤ maxAmount) :
    l.foldlM (fun sum i => add sum (f i)) n = .ok (n + (l.map f).sum) := by
  induction l generalizing n with
  | nil => rfl
  | cons i l ih =>
    simp only [List.map_cons, List.sum_cons] at h ⊢
    have hi : add n (f i) = .ok (n + f i) := add_eq_ok.2 ⟨rfl, by omega⟩
    rw [List.foldlM_cons, except_bind_eq_ok]
    exact ⟨n + f i, hi, by rw [ih (by omega), Nat.add_assoc]⟩

end Checked

/-! ## Worth -/

variable {amount value price decimals v : Nat}

theorem worth_eq_ok : worth amount price decimals = .ok v ↔
    decimals ≤ maxDecimals ∧ v = amount * price / 10 ^ decimals ∧ v ≤ maxAmount := by
  have hpos : 10 ^ decimals ≠ 0 := Nat.pos_iff_ne_zero.1 (Nat.pow_pos (by decide))
  simp only [worth, except_bind_eq_ok, Checked.powerOfTen_eq_ok, Checked.prorate_eq_ok]
  constructor
  · rintro ⟨_, ⟨hd, rfl⟩, -, rfl, hv⟩
    exact ⟨hd, rfl, hv⟩
  · rintro ⟨hd, rfl, hv⟩
    exact ⟨_, ⟨hd, rfl⟩, hpos, rfl, hv⟩

theorem unitsWorth_eq_ok : unitsWorth value price decimals = .ok v ↔
    price ≠ 0 ∧ decimals ≤ maxDecimals ∧ v = value * 10 ^ decimals / price ∧ v ≤ maxAmount := by
  simp only [unitsWorth, refuse_eq_ok, except_bind_eq_ok, Checked.powerOfTen_eq_ok,
    Checked.prorate_eq_ok]
  constructor
  · rintro ⟨hp, _, ⟨hd, rfl⟩, -, rfl, hv⟩
    exact ⟨hp, hd, rfl, hv⟩
  · rintro ⟨hp, hd, rfl, hv⟩
    exact ⟨hp, _, ⟨hd, rfl⟩, hp, rfl, hv⟩

end MetaPool
