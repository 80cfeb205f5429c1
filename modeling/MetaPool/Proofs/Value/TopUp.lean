import MetaPool.Proofs.Value.Surplus

/-!
# Where a top-up leads

A top-up is counted in whole units, rounded towards none, so it stops on the side of the target that it
comes from. It stops within the worth of one unit of the target: the first floor, of the units, loses
less than the worth of one of them, and the second, of the idle value, what the first idle value may
already have lost.

    units * price ≤ gap * 10 ^ d → idle value after ≤ before + gap             (worth_add_le)
    gap * 10 ^ d < (units + 1) * price → before + gap ≤ after + ⌈price⌉        (le_worth_add)

Read with the balance after a move in place of the one before, the same two bounds are those of a
surplus (`reaches_of_surplus`). They meet the target from the right side (`topUp_reaches_target`).
-/

namespace MetaPool

variable {balance units gap price decimals : Nat}

/-- Units that are worth at most a gap raise a floored worth by at most the gap. -/
theorem worth_add_le (balance : Nat) (h : units * price ≤ gap * 10 ^ decimals) :
    (balance + units) * price / 10 ^ decimals ≤ balance * price / 10 ^ decimals + gap := by
  rw [← Nat.add_mul_div_right _ _ (Nat.pow_pos (by decide)), Nat.add_mul]
  exact Nat.div_le_div_right (Nat.add_le_add_left h _)

theorem le_unitCeil_mul (price decimals : Nat) : price ≤ unitCeil price decimals * 10 ^ decimals := by
  have hpos : 0 < 10 ^ decimals := Nat.pow_pos (by decide)
  have hlt := Nat.lt_mul_div_succ (price + 10 ^ decimals - 1) hpos
  rw [Nat.mul_succ, Nat.mul_comm] at hlt
  unfold unitCeil
  omega

/-- If one unit more would be worth more than the gap, the units raise a floored worth by the gap less
the worth of one unit. -/
theorem le_worth_add (balance : Nat) (h : gap * 10 ^ decimals < (units + 1) * price) :
    balance * price / 10 ^ decimals + gap ≤
      (balance + units) * price / 10 ^ decimals + unitCeil price decimals := by
  have hpos : 0 < 10 ^ decimals := Nat.pow_pos (by decide)
  rw [← Nat.add_mul_div_right _ _ hpos, ← Nat.add_mul_div_right _ _ hpos]
  apply Nat.div_le_div_right
  calc balance * price + gap * 10 ^ decimals
      ≤ balance * price + (units + 1) * price := Nat.add_le_add_left (Nat.le_of_lt h) _
    _ = (balance + units) * price + price := by rw [Nat.succ_mul, Nat.add_mul, Nat.add_assoc]
    _ ≤ (balance + units) * price + unitCeil price decimals * 10 ^ decimals :=
        Nat.add_le_add_left (le_unitCeil_mul price decimals) _

/-- A value comes within a step of a target and does not pass it on the way from where it was. -/
structure Reaches (target step before after : Nat) : Prop where
  near : ((after : Int) - target).natAbs ≤ step
  fromBelow : before ≤ target → after ≤ target
  fromAbove : target ≤ before → target ≤ after

section

variable {target before after : Nat} (hbefore : before = balance * price / 10 ^ decimals)
  (hafter : after = (balance + units) * price / 10 ^ decimals)

include hbefore hafter

/-- The units of a shortfall lead to the target from below. -/
theorem reaches_of_shortfall (hle : before ≤ target)
    (hworth : units * price ≤ (target - before) * 10 ^ decimals)
    (hlt : (target - before) * 10 ^ decimals < (units + 1) * price) :
    Reaches target (unitCeil price decimals) before after := by
  have hbelow := worth_add_le balance hworth
  have hnear := le_worth_add balance hlt
  have hgrown : balance * price / 10 ^ decimals ≤ (balance + units) * price / 10 ^ decimals :=
    Nat.div_le_div_right (Nat.mul_le_mul_right _ (Nat.le_add_right _ _))
  rw [← hbefore, ← hafter] at hbelow hnear hgrown
  exact ⟨by omega, fun _ => by omega, fun _ => by omega⟩

/-- The units of a surplus lead to the target from above: they lead back from the balance that is left. -/
theorem reaches_of_surplus (hlt : target < after)
    (hworth : units * price ≤ (after - target) * 10 ^ decimals)
    (hmore : (after - target) * 10 ^ decimals < (units + 1) * price) :
    Reaches target (unitCeil price decimals) after before := by
  have habove := worth_add_le balance hworth
  have hnear := le_worth_add balance hmore
  rw [← hbefore, ← hafter] at habove hnear
  exact ⟨by omega, fun _ => by omega, fun _ => by omega⟩

end

namespace Snapshot

variable {s : Snapshot} {percentage target idle w : Nat} {t : Int}

/-- The idle value after a top-up is that of the balance it leaves. -/
theorem idleValueAfter_eq_ok : s.idleValueAfter t = .ok w ↔
    ∃ balance : Nat, (balance : Int) = s.idleBalance + t ∧ (0 ≤ t → balance ≤ maxAmount) ∧
      worth balance s.price s.decimals = .ok w := by
  unfold idleValueAfter
  by_cases ht : 0 ≤ t
  · simp only [if_pos ht, except_bind_eq_ok, Checked.add_eq_ok]
    constructor
    · rintro ⟨balance, ⟨rfl, hfits⟩, hw⟩
      exact ⟨_, by omega, fun _ => hfits, hw⟩
    · rintro ⟨balance, hbalance, hfits, hw⟩
      obtain rfl : balance = s.idleBalance + t.natAbs := by omega
      exact ⟨_, ⟨rfl, hfits ht⟩, hw⟩
  · simp only [if_neg ht, except_bind_eq_ok, Checked.sub_eq_ok]
    constructor
    · rintro ⟨balance, ⟨hle, rfl⟩, hw⟩
      exact ⟨_, by omega, fun h => absurd h ht, hw⟩
    · rintro ⟨balance, hbalance, -, hw⟩
      obtain rfl : balance = s.idleBalance - t.natAbs := by omega
      exact ⟨_, ⟨by omega, rfl⟩, hw⟩

theorem reaches_of_topUp {total : Nat} (h : s.topUp percentage = .ok t)
    (htotal : s.totalValue = .ok total) (hidle : s.idleValue = .ok idle)
    (hw : s.idleValueAfter t = .ok w) :
    Reaches (total * percentage / wholePercent) (unitCeil s.price s.decimals) idle w := by
  obtain ⟨total', idle', htotal', hidle', hsplit, hgap⟩ := gap_of_topUp h
  obtain rfl : total = total' := ok_unique htotal htotal'
  obtain rfl : idle = idle' := ok_unique hidle hidle'
  obtain ⟨-, hidle, -⟩ := worth_eq_ok.1 hidle
  obtain ⟨balance, hbalance, -, hw⟩ := idleValueAfter_eq_ok.1 hw
  obtain ⟨-, hafter, -⟩ := worth_eq_ok.1 hw
  rcases hgap with ⟨hnone, rfl⟩ | hgap
  · -- a pool that is worth nothing is where it should be, whatever the price
    obtain rfl : balance = s.idleBalance := by omega
    obtain rfl : w = idle := hafter.trans hidle.symm
    obtain rfl : w = 0 := by omega
    simp only [hnone, Nat.zero_mul, Nat.zero_div]
    exact ⟨Nat.zero_le _, id, id⟩
  generalize total * percentage / wholePercent = target at hgap ⊢
  obtain ⟨units, hunits, rfl⟩ := signedUnitsWorth_eq_ok hgap
  obtain ⟨hworth, hmore⟩ := Checked.prorate_bounds hunits
  by_cases hover : (target : Int) - idle < 0
  · have hgap : ((target : Int) - idle).natAbs = idle - target := by omega
    rw [if_pos hover] at hbalance
    rw [hgap] at hworth hmore
    have hleft : s.idleBalance = balance + units := by omega
    rw [hleft] at hidle
    exact reaches_of_surplus hafter hidle (by omega) hworth hmore
  · have hgap : ((target : Int) - idle).natAbs = target - idle := by omega
    rw [if_neg hover] at hbalance
    rw [hgap] at hworth hmore
    obtain rfl : balance = s.idleBalance + units := by omega
    exact reaches_of_shortfall hidle hafter (by omega) hworth hmore

/-- A top-up that takes tokens away, or moves none, takes no more than the pool has. -/
theorem le_idleBalance_of_topUp (h : s.topUp percentage = .ok t) (ht : t ≤ 0) :
    t.natAbs ≤ s.idleBalance := by
  obtain ⟨_, _, -, hsurplus⟩ := isSurplus_of_topUp h
  have hle := hsurplus.le_balance
  unfold surplus at hle
  split at hle <;> omega

/-- So the idle value after it can be read. -/
theorem exists_idleValueAfter (h : s.topUp percentage = .ok t) (ht : t ≤ 0)
    (hfits : s.idleBalance ≤ maxAmount) : ∃ w, s.idleValueAfter t = .ok w := by
  obtain ⟨_, idle, -, hidle, -⟩ := gap_of_topUp h
  have hle := le_idleBalance_of_topUp h ht
  have hw := idleValue_of_le hidle (Nat.sub_le s.idleBalance t.natAbs)
  exact ⟨_, idleValueAfter_eq_ok.2 ⟨s.idleBalance - t.natAbs, by omega, fun _ => by omega, hw⟩⟩

/-- A top-up that is computed and can be moved brings the idle value to within the worth of one unit of
the target, rounded up, from below if it was below and from above if it was above. One that moves nothing
in can always be moved: a surplus is never more than the idle balance. -/
theorem topUp_reaches_target (s : Snapshot) (percentage : Nat) (t : Int)
    (h : s.topUp percentage = .ok t) :
    ∃ total idle, s.totalValue = .ok total ∧ s.idleValue = .ok idle ∧
      (∀ w, s.idleValueAfter t = .ok w →
        Reaches (total * percentage / wholePercent) (unitCeil s.price s.decimals) idle w) ∧
      (t ≤ 0 → t.natAbs ≤ s.idleBalance ∧
        (s.idleBalance ≤ maxAmount → ∃ w, s.idleValueAfter t = .ok w)) := by
  obtain ⟨total, idle, htotal, hidle, -⟩ := gap_of_topUp h
  refine ⟨total, idle, htotal, hidle, fun w hw => reaches_of_topUp h htotal hidle hw, fun ht => ?_⟩
  exact ⟨le_idleBalance_of_topUp h ht, exists_idleValueAfter h ht⟩

/-- A thousand units of three dollars each, and next to nothing deployed. -/
def overstocked : Snapshot :=
  { price := 300000000, decimals := 6, idleBalance := 1000, deployedValue := 100, shareSupply := 1 }

/-- One unit more could not be given: it is worth `300`, and only `290` are left above the target. -/
theorem topUp_reaches_target_overstocked :
    overstocked.topUp 10 = .ok (-899) ∧ overstocked.idleValueAfter (-899) = .ok 30300 ∧
      Reaches 30010 300 300000 30300 := by
  have h : overstocked.topUp 10 = .ok (-899) := by decide +kernel
  have hw : overstocked.idleValueAfter (-899) = .ok 30300 := by decide +kernel
  obtain ⟨total, idle, htotal, hidle, hreaches, -⟩ := topUp_reaches_target overstocked 10 (-899) h
  obtain rfl : total = 300100 := ok_unique htotal (by decide +kernel)
  obtain rfl : idle = 300000 := ok_unique hidle (by decide +kernel)
  exact ⟨h, hw, hreaches 30300 hw⟩

end Snapshot

end MetaPool
