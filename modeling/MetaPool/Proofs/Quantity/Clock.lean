import MetaPool.Quantity.Clock
import MetaPool.Quantity.Word

/-!
# The clock in numbers

Heights add up exactly as long as the sum is a word, and stop at the largest word. So no clock runs
its height back. Times stop at both ends of the signed words.

    (addHeights a b).toNat = min (a.toNat + b.toNat) maxWord        (toNat_addHeights)
    (clampTime t).toInt = max minSignedWord (min maxSignedWord t)   (toInt_clampTime)
-/

namespace MetaPool

theorem toNat_addHeights (a b : UInt64) :
    (addHeights a b).toNat = min (a.toNat + b.toNat) maxWord := by
  have hsize : UInt64.size = maxWord + 1 := rfl
  unfold addHeights
  split
  next hfits =>
    have hsum : (a + b).toNat = a.toNat + b.toNat := by
      rw [UInt64.toNat_add, Nat.mod_eq_of_lt hfits]
    omega
  next =>
    have hlast : (-1 : UInt64).toNat = maxWord := rfl
    omega

theorem le_addHeights (a b : UInt64) : a ≤ addHeights a b := by
  have hword : a.toNat ≤ maxWord := toNat_le_maxWord a
  rw [UInt64.le_iff_toNat_le, toNat_addHeights]
  omega

theorem toInt_clampTime (t : Int) :
    (clampTime t).toInt = max minSignedWord (min maxSignedWord t) := by
  have hmin : Int64.minValue.toInt = minSignedWord := rfl
  have hmax : Int64.maxValue.toInt = maxSignedWord := rfl
  have hrange : minSignedWord ≤ maxSignedWord := by decide
  unfold clampTime Int64.ofIntClamp
  split
  next hlow =>
    split
    next hhigh =>
      rw [Int64.toInt_ofIntLE]
      omega
    next => omega
  next => omega

namespace Clock

theorem height_le_passBlocks (c : Clock) (blocks : UInt64) :
    c.height ≤ (c.passBlocks blocks).height := le_addHeights c.height blocks

theorem height_le_mine (c : Clock) (blocks : UInt64) (spacing : Int64) :
    c.height ≤ (c.mine blocks spacing).height := le_addHeights c.height blocks

/-- Times are told apart as far as signed words go. -/
theorem toInt_since (c : Clock) (earlier : Int64) : (c.since earlier).toInt =
    max minSignedWord (min maxSignedWord (c.time.toInt - earlier.toInt)) := toInt_clampTime _

end Clock

end MetaPool
