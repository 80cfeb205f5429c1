import MetaPool.Proofs.Value.Apportion
import MetaPool.Proofs.Value.Faults

/-!
# Deltas of meta shares

A delta is the floor of the supply's part that the moved value is of the TVL. Three bounds follow from
its rounding alone.

    delta after moving in v, against T + v, = delta before, against T   (prorate_roundTrip)
    deltas of the parts of an amount ≤ delta of the amount              (metaDelta_split)
    delta of a value ≤ a claim, ≤ the meta shares that claim it         (metaDelta_le_of_claim)

A top-up is worth at most the deployed value of its pool, because the target is at most the total value
(`topUp_mul_le`), and that value is what the pool's meta shares claim.
-/

namespace MetaPool

/-- The shares for a value, at the supply and TVL before the value moved in, are also those for it at
the supply and TVL after. -/
theorem prorate_roundTrip {supply value tvl : Nat} (htvl : 0 < tvl) :
    (supply + supply * value / tvl) * value / (tvl + value) = supply * value / tvl := by
  have hle : supply * value / tvl * tvl ≤ supply * value := Nat.div_mul_le_self _ _
  have hlt : supply * value < (supply * value / tvl + 1) * tvl := by
    rw [Nat.mul_comm (_ + 1)]
    exact Nat.lt_mul_div_succ _ htvl
  generalize supply * value / tvl = delta at hle hlt
  rw [Nat.add_mul] at hlt ⊢
  refine Nat.div_eq_of_lt_le ?_ ?_
  · rw [Nat.mul_add]
    omega
  · rw [Nat.succ_mul, Nat.mul_add]
    omega

variable {amount price decimals tvl supply v : Nat}

/-- A delta at the bootstrap rate or in proportion. -/
theorem metaDelta_eq_ok : metaDelta amount price decimals tvl supply = .ok v ↔
    ∃ value, worth amount price decimals = .ok value ∧
      (if tvl = 0 ∨ supply = 0 then Checked.mul value bootstrapMetaShares
        else Checked.prorate supply value tvl) = .ok v := by
  simp only [metaDelta, except_bind_eq_ok]

theorem Checked.mul_eq_ok {a b c : Nat} : mul a b = .ok c ↔ c = a * b ∧ a * b ≤ maxAmount :=
  fit_eq_ok

/-- Moving a value in and out again takes the same meta shares both ways, if the TVL has grown by
exactly that value in between. From nothing, both are at the bootstrap rate. -/
theorem metaDelta_roundTrip {value : Nat} (h : metaDelta amount price decimals tvl supply = .ok v)
    (hworth : worth amount price decimals = .ok value)
    (hstate : 0 < supply ∧ 0 < tvl ∨ supply = 0 ∧ tvl = 0) :
    metaDelta amount price decimals (tvl + value) (supply + v) = .ok v := by
  obtain ⟨value', hworth', h⟩ := metaDelta_eq_ok.1 h
  obtain rfl : value = value' := ok_unique hworth hworth'
  refine metaDelta_eq_ok.2 ⟨value, hworth, ?_⟩
  rcases hstate with ⟨hsupply, htvl⟩ | ⟨rfl, rfl⟩
  · rw [if_neg (by omega)] at h ⊢
    obtain ⟨-, rfl, hfits⟩ := Checked.prorate_eq_ok.1 h
    rw [Checked.prorate_eq_ok, prorate_roundTrip htvl]
    exact ⟨by omega, rfl, hfits⟩
  · rw [if_pos (.inl rfl)] at h
    obtain ⟨rfl, hfits⟩ := Checked.mul_eq_ok.1 h
    rw [Nat.zero_add, Nat.zero_add]
    by_cases hnone : value = 0
    · rw [if_pos (.inl hnone)]
      exact h
    · have hpos : 0 < value := Nat.pos_of_ne_zero hnone
      rw [if_neg (by unfold bootstrapMetaShares; omega), Checked.prorate_eq_ok,
        Nat.mul_div_cancel _ hpos]
      exact ⟨hnone, rfl, hfits⟩

/-! ## Splitting -/

/-- The meta shares for a value, at the bootstrap rate or in proportion. -/
def metaRate (tvl supply value : Nat) : Nat :=
  if tvl = 0 ∨ supply = 0 then value * bootstrapMetaShares else supply * value / tvl

theorem metaDelta_eq (h : metaDelta amount price decimals tvl supply = .ok v) :
    v = metaRate tvl supply (price * amount / 10 ^ decimals) := by
  obtain ⟨value, hworth, h⟩ := metaDelta_eq_ok.1 h
  obtain ⟨-, rfl, -⟩ := worth_eq_ok.1 hworth
  rw [Nat.mul_comm price]
  unfold metaRate
  split at h
  next hbootstrap => rw [if_pos hbootstrap, (Checked.mul_eq_ok.1 h).1]
  next hrate => rw [if_neg hrate, (Checked.prorate_eq_ok.1 h).2.1]

theorem metaRate_mono {value value' : Nat} (h : value ≤ value') :
    metaRate tvl supply value ≤ metaRate tvl supply value' := by
  unfold metaRate
  split
  · exact Nat.mul_le_mul_right _ h
  · exact Nat.div_le_div_right (Nat.mul_le_mul_left _ h)

theorem sum_metaRate_le (values : List Nat) :
    (values.map (metaRate tvl supply)).sum ≤ metaRate tvl supply values.sum := by
  by_cases hrate : tvl = 0 ∨ supply = 0
  · have hbootstrap : metaRate tvl supply = (· * bootstrapMetaShares) :=
      funext fun _ => if_pos hrate
    rw [hbootstrap, List.sum_map_mul_right, List.map_id']
  · have hproportion : metaRate tvl supply = fun value => supply * value / tvl :=
      funext fun _ => if_neg hrate
    rw [hproportion]
    exact sum_floor_le supply tvl values

/-- Moving an amount in parts takes at most the meta shares of moving it at once: both floors, that of the
worth and that of the rate, lose with every part. -/
theorem metaDelta_split {parts : List Nat} {g : Nat → Nat}
    (hparts : ∀ m ∈ parts, metaDelta m price decimals tvl supply = .ok (g m))
    (h : metaDelta parts.sum price decimals tvl supply = .ok v) : (parts.map g).sum ≤ v := by
  have hg : parts.map g =
      (parts.map fun m => price * m / 10 ^ decimals).map (metaRate tvl supply) := by
    rw [List.map_map]
    exact List.map_congr_left fun m hm => metaDelta_eq (hparts m hm)
  rw [hg, metaDelta_eq h]
  exact Nat.le_trans (sum_metaRate_le _) (metaRate_mono (sum_floor_le price (10 ^ decimals) parts))

/-! ## Top-ups -/

/-- A part of an amount, as signed as the amount. -/
theorem Checked.prorateSigned_eq_ok {a c : Int} {b d : Nat} (h : prorateSigned a b d = .ok c) :
    ∃ magnitude, prorate a.natAbs b d = .ok magnitude ∧
      c = if a < 0 then -(magnitude : Int) else magnitude := by
  obtain ⟨magnitude, hm, h⟩ := except_bind_eq_ok.1 h
  obtain ⟨-, h⟩ := require_eq_ok.1 h
  exact ⟨magnitude, hm, (Except.ok.inj h).symm⟩

/-- The units of a signed value are those of its magnitude, with its sign. -/
theorem signedUnitsWorth_eq_ok {value t : Int} (h : signedUnitsWorth value price decimals = .ok t) :
    ∃ magnitude, Checked.prorate value.natAbs (10 ^ decimals) price = .ok magnitude ∧
      t = if value < 0 then -(magnitude : Int) else magnitude := by
  obtain ⟨-, h⟩ := refuse_eq_ok.1 h
  obtain ⟨power, hpower, h⟩ := except_bind_eq_ok.1 h
  obtain ⟨-, rfl⟩ := Checked.powerOfTen_eq_ok.1 hpower
  exact Checked.prorateSigned_eq_ok h

/-- Positive units of a signed value are worth at most the value. -/
theorem signedUnitsWorth_mul_le {value t : Int} (h : signedUnitsWorth value price decimals = .ok t)
    (ht : 0 < t) : 0 ≤ value ∧ t.natAbs * price ≤ value.natAbs * 10 ^ decimals := by
  obtain ⟨magnitude, hmagnitude, rfl⟩ := signedUnitsWorth_eq_ok h
  have hle := (Checked.prorate_bounds hmagnitude).1
  split at ht
  · omega
  · rw [if_neg ‹_›]
    exact ⟨by omega, by simpa using hle⟩

/-- A top-up is the units of the gap between the target, a percentage of the total value, and the idle
value. A pool that is worth nothing needs none. -/
theorem Snapshot.gap_of_topUp {s : Snapshot} {percentage : Nat} {t : Int}
    (h : s.topUp percentage = .ok t) :
    ∃ total idle, s.totalValue = .ok total ∧ s.idleValue = .ok idle ∧ total = idle + s.deployedValue ∧
      (total = 0 ∧ t = 0 ∨ signedUnitsWorth ((total * percentage / wholePercent : Nat) - (idle : Int))
        s.price s.decimals = .ok t) := by
  obtain ⟨total, htotal, h⟩ := except_bind_eq_ok.1 h
  obtain ⟨idle, hidle, hsum⟩ := except_bind_eq_ok.1 htotal
  obtain ⟨hsplit, -⟩ := Checked.add_eq_ok.1 hsum
  refine ⟨total, idle, htotal, hidle, hsplit, ?_⟩
  split at h
  next hnone => exact .inl ⟨hnone, except_pure_eq_ok.1 h⟩
  obtain ⟨target, htarget, h⟩ := except_bind_eq_ok.1 h
  obtain ⟨signed, hsigned, h⟩ := except_bind_eq_ok.1 h
  obtain ⟨idle', hidle', h⟩ := except_bind_eq_ok.1 h
  obtain ⟨signed', hsigned', h⟩ := except_bind_eq_ok.1 h
  obtain ⟨gap, hgap, h⟩ := except_bind_eq_ok.1 h
  obtain rfl : idle = idle' := ok_unique hidle hidle'
  obtain ⟨-, rfl, -⟩ := Checked.prorate_eq_ok.1 htarget
  obtain ⟨rfl, -⟩ := Checked.toSigned_eq_ok.1 hsigned
  obtain ⟨rfl, -⟩ := Checked.toSigned_eq_ok.1 hsigned'
  obtain rfl := Except.ok.inj (require_eq_ok.1 hgap).2
  exact .inr h

/-- A positive top-up is worth at most what the pool has deployed: the target is at most the total
value, so that the gap is at most the part of it that is not idle. -/
theorem Snapshot.topUp_mul_le {s : Snapshot} {percentage : Nat} {t : Int}
    (h : s.topUp percentage = .ok t) (hwhole : percentage ≤ wholePercent) (ht : 0 < t) :
    t.natAbs * s.price ≤ s.deployedValue * 10 ^ s.decimals := by
  obtain ⟨total, idle, -, -, hsplit, ⟨-, rfl⟩ | hgap⟩ := gap_of_topUp h
  · exact absurd ht (Int.lt_irrefl 0)
  have htarget : total * percentage / wholePercent ≤ total :=
    Nat.div_le_of_le_mul (by rw [Nat.mul_comm]; exact Nat.mul_le_mul_right _ hwhole)
  obtain ⟨hpos, hunits⟩ := signedUnitsWorth_mul_le hgap ht
  exact Nat.le_trans hunits (Nat.mul_le_mul_right _ (by omega))

/-! ## Deltas of top-ups -/

/-- A value of at most what some meta shares claim stands for at most those meta shares. With no
meta shares or a TVL of zero the claim is nothing, and so is the value. -/
theorem metaDelta_le_of_claim {balance value claim : Nat}
    (hclaim : claimedValue tvl balance supply = .ok claim)
    (hworth : worth amount price decimals = .ok value) (hle : value ≤ claim)
    (h : metaDelta amount price decimals tvl supply = .ok v) : v ≤ balance := by
  obtain ⟨value', hworth', h⟩ := metaDelta_eq_ok.1 h
  obtain rfl : value = value' := ok_unique hworth hworth'
  unfold claimedValue at hclaim
  by_cases hzero : tvl = 0 ∨ supply = 0
  · have hnone : claim = 0 := by
      split at hclaim
      next => exact (Except.ok.inj hclaim).symm
      next hsupply =>
        obtain ⟨-, rfl, -⟩ := Checked.prorate_eq_ok.1 hclaim
        simp [hzero.resolve_right hsupply]
    rw [if_pos hzero] at h
    obtain ⟨rfl, -⟩ := Checked.mul_eq_ok.1 h
    simp [Nat.le_zero.1 (hnone ▸ hle)]
  · rw [not_or] at hzero
    rw [if_neg hzero.2] at hclaim
    rw [if_neg (not_or.2 hzero)] at h
    obtain ⟨-, rfl, -⟩ := Checked.prorate_eq_ok.1 h
    have hbound := (Checked.prorate_bounds hclaim).1
    refine Nat.div_le_of_le_mul ?_
    calc supply * value ≤ supply * claim := Nat.mul_le_mul_left _ hle
      _ = claim * supply := Nat.mul_comm _ _
      _ ≤ tvl * balance := hbound

end MetaPool
