/-!
# Words

The ranges of 64-bit words. A number becomes a word only if it is in range, and a word is the word
of the number that it stands for.
-/

namespace MetaPool

/-- The largest unsigned word, `2 ^ 64 - 1`. -/
def maxWord : Nat := 18446744073709551615

/-- The largest signed word, `2 ^ 63 - 1`. -/
def maxSignedWord : Int := 9223372036854775807

/-- The smallest signed word, `-2 ^ 63`. -/
def minSignedWord : Int := -9223372036854775808

/-- The unsigned word of a number. -/
def word? (n : Nat) : Option UInt64 := if n ≤ maxWord then some n.toUInt64 else none

/-- The signed word of a number. -/
def signedWord? (i : Int) : Option Int64 :=
  if minSignedWord ≤ i ∧ i ≤ maxSignedWord then some (Int64.ofInt i) else none

theorem toNat_le_maxWord (w : UInt64) : w.toNat ≤ maxWord := Nat.le_of_lt_succ w.toNat_lt

theorem toInt_range (w : Int64) : minSignedWord ≤ w.toInt ∧ w.toInt ≤ maxSignedWord :=
  ⟨w.minValue_le_toInt, w.toInt_le⟩

theorem word?_toNat (w : UInt64) : word? w.toNat = some w := by
  rw [word?, if_pos (toNat_le_maxWord w)]
  simp

theorem signedWord?_toInt (w : Int64) : signedWord? w.toInt = some w := by
  rw [signedWord?, if_pos (toInt_range w)]
  simp

end MetaPool
