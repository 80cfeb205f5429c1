import Mathlib
import MetaPool.Proofs.Quantity.Clock

/-!
# Mining runs the clock forward

Mining adds the blocks to the height and the seconds that they take to the time. The height is exact or stops
at the largest word. The seconds have to be a signed word themselves: the count enters them as the signed word
of the same bits, and the product stops at the largest. So a time can be wrong in three ways, and for a spacing
that is not negative each has its exact condition.

    c.time ≤ (c.mine b s).time ↔
      b is a signed word, or s = 0, or c is at the earliest time               (time_le_mine_iff)
    (c.mine b s).time is the exact time or stops at the last ↔
      the seconds are a signed word, or b is one and c is not before zero      (time_mine_eq_iff)
    (c.mine b₁ s).mine b₂ s = c.mine (b₁ + b₂) s ↔
      all seconds are a signed word, or b₁ = 0, or b₂ = 0, or b₂ is no signed word
                                                                               (mine_mine_iff)

The last holds where the exact height and time can be told, and then a clock that is not before zero can always
be run in parts (`mine_mine`). A count that is no signed word runs the clock back (`mined_back`).
-/

namespace MetaPool

theorem eq_zero_iff_toInt (t : Int64) : t = 0 ↔ t.toInt = 0 := Int64.toInt_inj.symm

theorem eq_minValue_iff_toInt (t : Int64) : t = Int64.minValue ↔ t.toInt = minSignedWord :=
  Int64.toInt_inj.symm

/-- A count that is no signed word turns negative. -/
theorem toInt_toInt64 (n : UInt64) :
    n.toInt64.toInt = if (n.toNat : Int) ≤ maxSignedWord then (n.toNat : Int) else n.toNat - 2 ^ 64 := by
  have hword : n.toInt64.toInt = n.toBitVec.toInt := by rw [← UInt64.toBitVec_toInt64]; rfl
  have hnat : n.toBitVec.toNat = n.toNat := rfl
  rw [hword, BitVec.toInt_eq_toNat_cond, hnat]
  unfold maxSignedWord
  split <;> split <;> omega

namespace Clock

/-- The seconds that so many blocks take. -/
def duration (blocks : Nat) (spacing : Int64) : Int := blocks * spacing.toInt

/-- The height so many blocks on, be it a word or not. -/
def exactHeight (c : Clock) (blocks : Nat) : Nat := c.height.toNat + blocks

/-- The time so many blocks on, be it a signed word or not. -/
def exactTime (c : Clock) (blocks : Nat) (spacing : Int64) : Int :=
  c.time.toInt + duration blocks spacing

variable {c : Clock} {b b₁ b₂ : UInt64} {s : Int64}

/-! ## Seconds -/

theorem duration_add (m n : Nat) (s : Int64) : duration (m + n) s = duration m s + duration n s := by
  unfold duration
  rw [Int.natCast_add, Int.add_mul]

theorem duration_nonneg (n : Nat) (hs : 0 ≤ s.toInt) : 0 ≤ duration n s :=
  Int.mul_nonneg (Int.natCast_nonneg n) hs

theorem le_duration (n : Nat) (hs : 0 < s.toInt) : n ≤ duration n s := by
  calc (n : Int) = n * 1 := (Int.mul_one _).symm
    _ ≤ duration n s := Int.mul_le_mul_of_nonneg_left hs (Int.natCast_nonneg n)

theorem duration_eq_zero_iff (n : Nat) (hs : 0 < s.toInt) : duration n s = 0 ↔ n = 0 := by
  unfold duration
  rw [Int.mul_eq_zero]
  omega

theorem duration_zero_spacing (n : Nat) (hs : s.toInt = 0) : duration n s = 0 := by
  unfold duration
  rw [hs, Int.mul_zero]

/-! ## The height -/

theorem toNat_height_mine (c : Clock) (b : UInt64) (s : Int64) :
    (c.mine b s).height.toNat = min (c.exactHeight b.toNat) maxWord := toNat_addHeights c.height b

theorem exactHeight_mine {n : Nat} (h : c.exactHeight (b.toNat + n) ≤ maxWord) :
    (c.mine b s).exactHeight n = c.exactHeight (b.toNat + n) := by
  rw [exactHeight, toNat_height_mine]
  unfold exactHeight at h ⊢
  omega

/-! ## The time -/

theorem toInt_time_mine (c : Clock) (b : UInt64) (s : Int64) : (c.mine b s).time.toInt =
    max minSignedWord (min maxSignedWord (c.time.toInt +
      max minSignedWord (min maxSignedWord (b.toInt64.toInt * s.toInt)))) := by
  show (clampTime (c.time.toInt + (clampTime (b.toInt64.toInt * s.toInt)).toInt)).toInt = _
  rw [toInt_clampTime, toInt_clampTime]

/-- Blocks that take no time leave it as it is. -/
theorem toInt_time_of_zero (c : Clock) (b : UInt64) (hs : s.toInt = 0) :
    (c.mine b s).time.toInt = c.time.toInt := by
  have htime := toInt_range c.time
  rw [toInt_time_mine, hs]
  unfold maxSignedWord minSignedWord at *
  omega

/-- As long as the count is a signed word, the seconds and the time stop at the largest and are exact below. -/
theorem toInt_time_of_le (hs : 0 ≤ s.toInt) (hb : (b.toNat : Int) ≤ maxSignedWord) :
    (c.mine b s).time.toInt =
      min maxSignedWord (c.time.toInt + min maxSignedWord (duration b.toNat s)) := by
  have htime := toInt_range c.time
  have hduration : 0 ≤ duration b.toNat s := duration_nonneg b.toNat hs
  rw [toInt_time_mine, toInt_toInt64, if_pos hb]
  show max _ (min _ (_ + max _ (min _ (duration b.toNat s)))) = _
  unfold maxSignedWord minSignedWord at *
  omega

/-- Otherwise the count is taken for the negative number of the same bits. -/
theorem toInt_time_of_lt (hs : 0 ≤ s.toInt) (hb : maxSignedWord < (b.toNat : Int)) :
    (c.mine b s).time.toInt =
      max minSignedWord (c.time.toInt + max minSignedWord (duration b.toNat s - 2 ^ 64 * s.toInt)) := by
  have htime := toInt_range c.time
  have hword : b.toNat < 2 ^ 64 := b.toNat_lt
  have hback : 0 ≤ (2 ^ 64 - (b.toNat : Int)) * s.toInt := Int.mul_nonneg (by omega) hs
  rw [toInt_time_mine, toInt_toInt64, if_neg (by omega)]
  rw [Int.sub_mul] at hback ⊢
  show max _ (min _ (_ + max _ (min _ (duration b.toNat s - _)))) = _
  replace hback : duration b.toNat s ≤ 2 ^ 64 * s.toInt := Int.sub_nonneg.1 hback
  unfold maxSignedWord minSignedWord at *
  omega

/-- Blocks that take time run the clock back if their count is no signed word, unless it is at the earliest
time already. -/
theorem toInt_time_lt (hs : 0 < s.toInt) (hb : maxSignedWord < (b.toNat : Int)) :
    (c.mine b s).time.toInt ≤ max minSignedWord (c.time.toInt - 1) := by
  have hword : b.toNat < 2 ^ 64 := b.toNat_lt
  have hback : 0 < (2 ^ 64 - (b.toNat : Int)) * s.toInt := Int.mul_pos (by omega) hs
  rw [Int.sub_mul] at hback
  replace hback : duration b.toNat s < 2 ^ 64 * s.toInt := Int.sub_pos.1 hback
  rw [toInt_time_of_lt (Int.le_of_lt hs) hb]
  unfold minSignedWord
  omega

/-- No clock runs ahead of the exact time. -/
theorem toInt_time_le (hs : 0 ≤ s.toInt) : (c.mine b s).time.toInt ≤ c.exactTime b.toNat s := by
  have htime := toInt_range c.time
  have hduration : 0 ≤ duration b.toNat s := duration_nonneg b.toNat hs
  unfold exactTime
  by_cases hb : (b.toNat : Int) ≤ maxSignedWord
  · rw [toInt_time_of_le hs hb]
    omega
  · rw [toInt_time_of_lt hs (Int.not_le.1 hb)]
    have hcount : 0 ≤ 2 ^ 64 * s.toInt := Int.mul_nonneg (by decide) hs
    unfold minSignedWord at *
    omega

theorem exactTime_mine_le (hs : 0 ≤ s.toInt) (n : Nat) :
    (c.mine b s).exactTime n s ≤ c.exactTime (b.toNat + n) s := by
  have hfirst : (c.mine b s).time.toInt ≤ c.exactTime b.toNat s := toInt_time_le hs
  unfold exactTime at hfirst ⊢
  rw [duration_add]
  omega

/-- A clock that could tell the exact time goes to the earliest instead if the count is no signed word. -/
theorem toInt_time_of_fits (hs : 0 < s.toInt) (hb : maxSignedWord < (b.toNat : Int))
    (hfits : c.exactTime b.toNat s ≤ maxSignedWord) : (c.mine b s).time.toInt = minSignedWord := by
  have htime := toInt_range c.time
  have hlong : b.toNat ≤ duration b.toNat s := le_duration b.toNat hs
  rw [toInt_time_of_lt (Int.le_of_lt hs) hb]
  unfold exactTime at hfits
  unfold maxSignedWord minSignedWord at *
  omega

/-! ## When the time is right -/

theorem time_le_mine_iff (c : Clock) (b : UInt64) (hs : 0 ≤ s.toInt) :
    c.time ≤ (c.mine b s).time ↔
      (b.toNat : Int) ≤ maxSignedWord ∨ s = 0 ∨ c.time = Int64.minValue := by
  have htime := toInt_range c.time
  have htime' := toInt_range (c.mine b s).time
  rw [Int64.le_iff_toInt_le, eq_zero_iff_toInt, eq_minValue_iff_toInt]
  by_cases hb : (b.toNat : Int) ≤ maxSignedWord
  · have hduration : 0 ≤ duration b.toNat s := duration_nonneg b.toNat hs
    refine iff_of_true ?_ (.inl hb)
    rw [toInt_time_of_le hs hb]
    unfold maxSignedWord at *
    omega
  · by_cases hzero : s.toInt = 0
    · exact iff_of_true (Int.le_of_eq (toInt_time_of_zero c b hzero).symm) (.inr (.inl hzero))
    · have hback : (c.mine b s).time.toInt ≤ max minSignedWord (c.time.toInt - 1) :=
        toInt_time_lt (by omega) (Int.not_le.1 hb)
      omega

theorem time_mine_eq_iff (c : Clock) (b : UInt64) (hs : 0 ≤ s.toInt) :
    (c.mine b s).time.toInt = min (c.exactTime b.toNat s) maxSignedWord ↔
      duration b.toNat s ≤ maxSignedWord ∨ (b.toNat : Int) ≤ maxSignedWord ∧ 0 ≤ c.time := by
  have htime := toInt_range c.time
  rw [Int64.le_iff_toInt_le, Int64.toInt_zero]
  unfold exactTime
  by_cases hb : (b.toNat : Int) ≤ maxSignedWord
  · rw [toInt_time_of_le hs hb]
    omega
  · by_cases hzero : s.toInt = 0
    · rw [toInt_time_of_zero c b hzero, duration_zero_spacing _ hzero]
      unfold maxSignedWord at *
      omega
    · have hlong : b.toNat ≤ duration b.toNat s := le_duration b.toNat (by omega)
      have hback : (c.mine b s).time.toInt ≤ max minSignedWord (c.time.toInt - 1) :=
        toInt_time_lt (by omega) (Int.not_le.1 hb)
      unfold maxSignedWord minSignedWord at *
      omega

/-! ## Mining in parts -/

theorem eq_iff (c c' : Clock) :
    c = c' ↔ c.height.toNat = c'.height.toNat ∧ c.time.toInt = c'.time.toInt := by
  rw [UInt64.toNat_inj, Int64.toInt_inj]
  cases c
  cases c'
  simp

theorem mine_zero (c : Clock) (s : Int64) : c.mine 0 s = c := by
  have hheight : c.height.toNat ≤ maxWord := toNat_le_maxWord c.height
  have htime := toInt_range c.time
  rw [eq_iff, toNat_height_mine, toInt_time_mine]
  show min c.height.toNat maxWord = _ ∧ max _ (min _ (_ + max _ (min _ (0 * _)))) = _
  unfold maxSignedWord minSignedWord at *
  omega

/-- Counts that fit on the height add up. -/
theorem toNat_add_of_fits (hheight : c.exactHeight (b₁.toNat + b₂.toNat) ≤ maxWord) :
    (b₁ + b₂).toNat = b₁.toNat + b₂.toNat := by
  rw [UInt64.toNat_add, Nat.mod_eq_of_lt]
  unfold exactHeight maxWord at hheight
  omega

/-- Heights add up exactly, so that only the times have to be compared. -/
theorem mine_mine_iff_time (hheight : c.exactHeight (b₁.toNat + b₂.toNat) ≤ maxWord) :
    (c.mine b₁ s).mine b₂ s = c.mine (b₁ + b₂) s ↔
      ((c.mine b₁ s).mine b₂ s).time.toInt = (c.mine (b₁ + b₂) s).time.toInt := by
  have hparts : ((c.mine b₁ s).mine b₂ s).height.toNat = (c.mine (b₁ + b₂) s).height.toNat := by
    rw [toNat_height_mine, exactHeight_mine hheight, toNat_height_mine, toNat_add_of_fits hheight]
  rw [eq_iff]
  exact and_iff_right hparts

section

variable (hs : 0 < s.toInt) (hheight : c.exactHeight (b₁.toNat + b₂.toNat) ≤ maxWord)
  (hfits : c.exactTime (b₁.toNat + b₂.toNat) s ≤ maxSignedWord)

include hs hheight hfits

/-- If the whole count is a signed word, the parts lose nothing, and the whole loses the seconds beyond the
signed words. -/
theorem time_mine_mine_of_le (hb : (b₁.toNat + b₂.toNat : Int) ≤ maxSignedWord) :
    ((c.mine b₁ s).mine b₂ s).time.toInt = (c.mine (b₁ + b₂) s).time.toInt ↔
      duration (b₁.toNat + b₂.toNat) s ≤ maxSignedWord ∨ b₁.toNat = 0 ∨ b₂.toNat = 0 := by
  have hle : 0 ≤ s.toInt := Int.le_of_lt hs
  have hsum := toNat_add_of_fits hheight
  have hzero₁ := duration_eq_zero_iff b₁.toNat hs
  have hzero₂ := duration_eq_zero_iff b₂.toNat hs
  have hlong₁ : b₁.toNat ≤ duration b₁.toNat s := le_duration b₁.toNat hs
  have hlong₂ : b₂.toNat ≤ duration b₂.toNat s := le_duration b₂.toNat hs
  rw [toInt_time_of_le hle (by omega), toInt_time_of_le hle (by omega), toInt_time_of_le hle (by omega), hsum]
  unfold exactTime at hfits
  rw [duration_add] at hfits ⊢
  omega

/-- If the whole count is no signed word, the whole goes to the earliest time. So do the parts if the second is
no signed word either. -/
theorem time_mine_mine_of_lt (hb : maxSignedWord < (b₁.toNat + b₂.toNat : Int)) :
    ((c.mine b₁ s).mine b₂ s).time.toInt = (c.mine (b₁ + b₂) s).time.toInt ↔
      b₁.toNat = 0 ∨ b₂.toNat = 0 ∨ maxSignedWord < (b₂.toNat : Int) := by
  have hle : 0 ≤ s.toInt := Int.le_of_lt hs
  have hsum := toNat_add_of_fits hheight
  have htime := toInt_range c.time
  have hlong₁ : b₁.toNat ≤ duration b₁.toNat s := le_duration b₁.toNat hs
  have hlong₂ : b₂.toNat ≤ duration b₂.toNat s := le_duration b₂.toNat hs
  have hwhole : (c.mine (b₁ + b₂) s).time.toInt = minSignedWord :=
    toInt_time_of_fits hs (by omega) (by rwa [hsum])
  rw [hwhole]
  by_cases hb₂ : maxSignedWord < (b₂.toNat : Int)
  · -- the first part is not ahead of the exact time, so that the second could be told
    have hsecond := Int.le_trans (exactTime_mine_le hle b₂.toNat) hfits
    exact iff_of_true (toInt_time_of_fits hs hb₂ hsecond) (.inr (.inr hb₂))
  unfold exactTime at hfits
  rw [duration_add] at hfits
  rw [toInt_time_of_le hle (Int.not_lt.1 hb₂)]
  by_cases hb₁ : maxSignedWord < (b₁.toNat : Int)
  · -- the second part goes on from the earliest time
    have hfirst : (c.mine b₁ s).time.toInt = minSignedWord :=
      toInt_time_of_fits hs hb₁ (by unfold exactTime; omega)
    have hzero₂ := duration_eq_zero_iff b₂.toNat hs
    rw [hfirst]
    unfold maxSignedWord minSignedWord at *
    omega
  · rw [toInt_time_of_le hle (Int.not_lt.1 hb₁)]
    unfold maxSignedWord minSignedWord at *
    omega

end

theorem mine_mine_iff (hs : 0 ≤ s.toInt) (hheight : c.exactHeight (b₁.toNat + b₂.toNat) ≤ maxWord)
    (hfits : c.exactTime (b₁.toNat + b₂.toNat) s ≤ maxSignedWord) :
    (c.mine b₁ s).mine b₂ s = c.mine (b₁ + b₂) s ↔
      duration (b₁.toNat + b₂.toNat) s ≤ maxSignedWord ∨ b₁ = 0 ∨ b₂ = 0 ∨
        maxSignedWord < (b₂.toNat : Int) := by
  have hzero (b : UInt64) : b = 0 ↔ b.toNat = 0 := UInt64.toNat_inj.symm
  rw [mine_mine_iff_time hheight, hzero, hzero]
  by_cases hspacing : s.toInt = 0
  · refine iff_of_true ?_ (.inl ?_)
    · rw [toInt_time_of_zero _ _ hspacing, toInt_time_of_zero _ _ hspacing, toInt_time_of_zero _ _ hspacing]
    · rw [duration_zero_spacing _ hspacing]
      decide
  have hpos : 0 < s.toInt := by omega
  by_cases hb : (b₁.toNat + b₂.toNat : Int) ≤ maxSignedWord
  · rw [time_mine_mine_of_le hpos hheight hfits hb]
    omega
  · have hlong : (b₁.toNat + b₂.toNat : Nat) ≤ duration (b₁.toNat + b₂.toNat) s := le_duration _ hpos
    rw [time_mine_mine_of_lt hpos hheight hfits (Int.not_le.1 hb)]
    omega

/-- A clock that is not before zero can be run in parts. -/
theorem mine_mine (hs : 0 ≤ s.toInt) (htime : 0 ≤ c.time.toInt)
    (hheight : c.exactHeight (b₁.toNat + b₂.toNat) ≤ maxWord)
    (hfits : c.exactTime (b₁.toNat + b₂.toNat) s ≤ maxSignedWord) :
    (c.mine b₁ s).mine b₂ s = c.mine (b₁ + b₂) s := by
  refine (mine_mine_iff hs hheight hfits).2 (.inl ?_)
  unfold exactTime at hfits
  omega

/-- More blocks after the first, as long as all of them fit. -/
theorem mine_ofNat {n : Nat} (hs : 0 ≤ s.toInt) (htime : 0 ≤ c.time.toInt)
    (hheight : c.exactHeight (b.toNat + n) ≤ maxWord) (hfits : c.exactTime (b.toNat + n) s ≤ maxSignedWord) :
    (c.mine b s).mine (.ofNat n) s = c.mine (.ofNat (b.toNat + n)) s := by
  have hword : n < 2 ^ 64 := by
    unfold exactHeight maxWord at hheight
    omega
  have hn : (UInt64.ofNat n).toNat = n := UInt64.toNat_ofNat_of_lt hword
  have hall : UInt64.ofNat (b.toNat + n) = b + UInt64.ofNat n := by
    rw [UInt64.ofNat_add, UInt64.ofNat_toNat]
  rw [hall]
  exact mine_mine hs htime (by rwa [hn]) (by rwa [hn])

/-! ## The clock runs forward -/

/-- Blocks that are not spaced backwards never run the height back: it is exact or stops at the largest. They
do not run the time back exactly if their count is a signed word, if they take no time, or if the clock is at
the earliest time already. The time is exact or stops at the last exactly if the seconds that the blocks take
are a signed word, or if their count is one and the clock is not before zero. And where the exact height and
time can be told, mining in two parts comes to the same as mining at once exactly if the seconds of all blocks
are a signed word, if a part is empty, or if the second count is no signed word, where both come to the earliest
time. -/
theorem runs_forward_iff (c : Clock) (b b₁ b₂ : UInt64) (s : Int64) (hs : 0 ≤ s) :
    c.height ≤ (c.mine b s).height ∧
      (c.mine b s).height.toNat = min (c.exactHeight b.toNat) maxWord ∧
      (c.time ≤ (c.mine b s).time ↔
        (b.toNat : Int) ≤ maxSignedWord ∨ s = 0 ∨ c.time = Int64.minValue) ∧
      ((c.mine b s).time.toInt = min (c.exactTime b.toNat s) maxSignedWord ↔
        duration b.toNat s ≤ maxSignedWord ∨ (b.toNat : Int) ≤ maxSignedWord ∧ 0 ≤ c.time) ∧
      (c.exactHeight (b₁.toNat + b₂.toNat) ≤ maxWord →
        c.exactTime (b₁.toNat + b₂.toNat) s ≤ maxSignedWord →
        ((c.mine b₁ s).mine b₂ s = c.mine (b₁ + b₂) s ↔
          duration (b₁.toNat + b₂.toNat) s ≤ maxSignedWord ∨ b₁ = 0 ∨ b₂ = 0 ∨
            maxSignedWord < (b₂.toNat : Int))) := by
  have hs' : 0 ≤ s.toInt := Int64.le_iff_toInt_le.1 hs
  exact ⟨c.height_le_mine b s, c.toNat_height_mine b s, c.time_le_mine_iff b hs', c.time_mine_eq_iff b hs',
    mine_mine_iff hs'⟩

/-- The largest count that is a signed word, and the blocks of a day in two parts. -/
theorem runs_forward_iff_default :
    (0 : Int64) ≤ 13 ∧ ((default : Clock).mine 9223372036854775807 13).time = Int64.maxValue ∧
      (default : Clock).exactHeight (45 + 6600) ≤ maxWord ∧
      (default : Clock).exactTime (45 + 6600) 13 ≤ maxSignedWord ∧
      ((default : Clock).mine 45 13).mine 6600 13 = (default : Clock).mine 6645 13 := by
  obtain ⟨-, -, -, htime, hparts⟩ :=
    runs_forward_iff default 9223372036854775807 45 6600 13 (by decide)
  have hlast := htime.2 (.inr (by decide))
  refine ⟨by decide, Int64.toInt_inj.1 (hlast.trans (by decide)), by decide, by decide, ?_⟩
  exact (hparts (by decide) (by decide)).2 (.inl (by decide))

/-- A count that is no signed word runs the clock back, so that mining at once does not come to the same as
mining in parts. Neither does it where the count is a signed word and the seconds are not. -/
theorem mined_back :
    ((default : Clock).mine 9223372036854775808 13).time < (default : Clock).time ∧
      (⟨1, -1⟩ : Clock).exactHeight (4611686018427387904 + 4611686018427387904) ≤ maxWord ∧
      (⟨1, -1⟩ : Clock).exactTime (4611686018427387904 + 4611686018427387904) 1 = maxSignedWord ∧
      ((⟨1, -1⟩ : Clock).mine 4611686018427387904 1).mine 4611686018427387904 1 =
        ⟨9223372036854775809, Int64.maxValue⟩ ∧
      (⟨1, -1⟩ : Clock).mine (4611686018427387904 + 4611686018427387904) 1 =
        ⟨9223372036854775809, Int64.minValue⟩ ∧
      ((⟨1, -1⟩ : Clock).mine 2305843009213693952 2).mine 2305843009213693952 2 ≠
        (⟨1, -1⟩ : Clock).mine (2305843009213693952 + 2305843009213693952) 2 := by
  decide

end Clock

end MetaPool
