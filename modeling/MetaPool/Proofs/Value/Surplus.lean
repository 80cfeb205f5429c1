import MetaPool.Proofs.Value.Delta

/-!
# Surpluses

The surplus of a pool is what its idle value is above its target, counted in units of the underlyer and
rounded down (`Snapshot.IsSurplus`). So the pool has these units, and what it keeps is still worth the
target, but no more than the worth of one unit above it.

    amount ≤ balance                                                (IsSurplus.le_balance)
    target ≤ idle → target ≤ worth of balance - amount              (IsSurplus.target_le)
    0 < amount → worth of balance - amount ≤ target + ⌈price⌉       (IsSurplus.le_above)
-/

namespace MetaPool

/-- What a send takes for a top-up: all of a surplus, and nothing for a shortfall. -/
def surplus (t : Int) : Nat := if t < 0 then t.natAbs else 0

theorem surpluses_eq_map (topUps : List Int) : surpluses topUps = topUps.map surplus := rfl

theorem surplus_neg (n : Nat) : surplus (-(n : Int)) = n := by
  unfold surplus
  split <;> omega

theorem surplus_of_nonneg {t : Int} (h : 0 ≤ t) : surplus t = 0 := if_neg (Int.not_lt.2 h)

/-- The worth of one unit, rounded up. -/
def unitCeil (price decimals : Nat) : Nat := (price + 10 ^ decimals - 1) / 10 ^ decimals

namespace Snapshot

variable {s : Snapshot} {percentage target idle amount units : Nat} {t : Int}

/-- The units of what the idle value is above a target, rounded down. -/
structure IsSurplus (s : Snapshot) (target idle amount : Nat) : Prop where
  reads : s.idleValue = .ok idle
  worth_le : amount * s.price ≤ (idle - target) * 10 ^ s.decimals
  lt_worth : amount ≠ 0 → (idle - target) * 10 ^ s.decimals < (amount + 1) * s.price

/-- A top-up below zero is a surplus over the target, and any other leaves none to take. -/
theorem isSurplus_of_topUp (h : s.topUp percentage = .ok t) : ∃ total idle, s.totalValue = .ok total ∧
    s.IsSurplus (total * percentage / wholePercent) idle (surplus t) := by
  obtain ⟨total, idle, htotal, hidle, -, ⟨-, rfl⟩ | hgap⟩ := gap_of_topUp h
  · exact ⟨total, idle, htotal, hidle, by simp [surplus], fun hne => absurd rfl hne⟩
  refine ⟨total, idle, htotal, ?_⟩
  generalize total * percentage / wholePercent = target at hgap ⊢
  obtain ⟨magnitude, hmagnitude, rfl⟩ := signedUnitsWorth_eq_ok hgap
  obtain ⟨hle, hlt⟩ := Checked.prorate_bounds hmagnitude
  by_cases hover : (target : Int) - idle < 0
  · have hgap : ((target : Int) - idle).natAbs = idle - target := by omega
    rw [hgap] at hle hlt
    rw [if_pos hover, surplus_neg]
    exact ⟨hidle, hle, fun _ => hlt⟩
  · rw [if_neg hover, surplus_of_nonneg (Int.natCast_nonneg _)]
    exact ⟨hidle, by simp, fun hne => absurd rfl hne⟩

/-! ## Idle values -/

/-- The idle value is the worth of the balance, rounded down. -/
theorem idleValue_bounds (h : s.idleValue = .ok idle) :
    idle * 10 ^ s.decimals ≤ s.idleBalance * s.price ∧
      s.idleBalance * s.price < (idle + 1) * 10 ^ s.decimals := by
  obtain ⟨power, hpower, h⟩ := except_bind_eq_ok.1 h
  obtain ⟨-, rfl⟩ := Checked.powerOfTen_eq_ok.1 hpower
  exact Checked.prorate_bounds h

/-- A smaller balance has an idle value too. -/
theorem idleValue_of_le (h : s.idleValue = .ok idle) (hle : units ≤ s.idleBalance) :
    idleValue { s with idleBalance := units } = .ok (units * s.price / 10 ^ s.decimals) := by
  obtain ⟨hdecimals, rfl, hfits⟩ := worth_eq_ok.1 h
  refine worth_eq_ok.2 ⟨hdecimals, rfl, ?_⟩
  exact (Nat.div_le_div_right (Nat.mul_le_mul_right _ hle)).trans hfits

/-! ## What a surplus leaves -/

theorem IsSurplus.price_pos (h : s.IsSurplus target idle amount) (hsome : amount ≠ 0) :
    0 < s.price :=
  Nat.pos_of_mul_pos_left (Nat.zero_lt_of_lt (h.lt_worth hsome))

theorem IsSurplus.none_of_le (h : s.IsSurplus target idle amount) (hle : idle ≤ target) :
    amount = 0 := by
  by_contra hsome
  have hworth := h.worth_le
  rw [Nat.sub_eq_zero_of_le hle, Nat.zero_mul, Nat.le_zero, Nat.mul_eq_zero] at hworth
  exact hworth.elim hsome (h.price_pos hsome).ne'

/-- A surplus is worth at most the idle value, and so at most the balance. -/
theorem IsSurplus.le_balance (h : s.IsSurplus target idle amount) : amount ≤ s.idleBalance := by
  by_cases hnone : amount = 0
  · exact hnone ▸ Nat.zero_le _
  refine Nat.le_of_mul_le_mul_right ?_ (h.price_pos hnone)
  calc amount * s.price ≤ (idle - target) * 10 ^ s.decimals := h.worth_le
    _ ≤ idle * 10 ^ s.decimals := Nat.mul_le_mul_right _ (Nat.sub_le _ _)
    _ ≤ s.idleBalance * s.price := (idleValue_bounds h.reads).1

/-- Without its surplus a pool still keeps the worth of its target. -/
theorem IsSurplus.target_le (h : s.IsSurplus target idle amount) (hle : target ≤ idle)
    (hunits : s.idleBalance ≤ units + amount) : target ≤ units * s.price / 10 ^ s.decimals := by
  rw [Nat.le_div_iff_mul_le (Nat.pow_pos (by decide))]
  have hgiven : idle * 10 ^ s.decimals = target * 10 ^ s.decimals + (idle - target) * 10 ^ s.decimals := by
    rw [← Nat.add_mul, Nat.add_sub_cancel' hle]
  have hkept : s.idleBalance * s.price ≤ units * s.price + amount * s.price := by
    rw [← Nat.add_mul]
    exact Nat.mul_le_mul_right _ hunits
  have hworth := h.worth_le
  have hidle := (idleValue_bounds h.reads).1
  omega

/-- A pool that has given a surplus keeps no more than the worth of one unit above its target: both the
surplus and the idle value before it have been rounded down. -/
theorem IsSurplus.le_above (h : s.IsSurplus target idle amount) (hsome : amount ≠ 0)
    (hunits : units + amount = s.idleBalance) :
    units * s.price / 10 ^ s.decimals ≤ target + unitCeil s.price s.decimals := by
  have hpos : 0 < 10 ^ s.decimals := Nat.pow_pos (by decide)
  have hgiven : idle * 10 ^ s.decimals ≤ target * 10 ^ s.decimals + (idle - target) * 10 ^ s.decimals := by
    rw [← Nat.add_mul]
    exact Nat.mul_le_mul_right _ (by omega)
  have hkept : s.idleBalance * s.price = units * s.price + amount * s.price := by
    rw [← Nat.add_mul, hunits]
  have hworth := h.lt_worth hsome
  have hidle := (idleValue_bounds h.reads).2
  rw [Nat.succ_mul] at hworth hidle
  calc units * s.price / 10 ^ s.decimals
      ≤ (s.price + 10 ^ s.decimals - 1 + target * 10 ^ s.decimals) / 10 ^ s.decimals :=
        Nat.div_le_div_right (by omega)
    _ = target + unitCeil s.price s.decimals := by
        rw [Nat.add_mul_div_right _ _ hpos, Nat.add_comm, unitCeil]

end Snapshot

end MetaPool
