import Mathlib
import MetaPool.Proofs.Quantity.Checked

/-!
# Exact quotients

An amount is a word of 128 bits, and the product of two of them takes up to 256. So `a * b / d` is the
quotient of a product in a word of twice the width, which never wraps, and it is cut back to 128 bits if it
fits. The quotient of a signed word goes by way of the magnitude, which is a word even where its sign cannot
be put back: one more than the largest signed word is the magnitude of the smallest, and of no other.

    (wideProduct a b).toNat = a.toNat * b.toNat                                     (toNat_wideProduct)
    quotient of words, read as a number = prorate of the numbers                    (prorateWords_eq)
    quotient of a signed word, read as a number = prorateSigned of the numbers      (prorateSignedWords_eq)

Both are the exact quotient, rounded toward zero, wherever that is in range, and fail with an overflow
elsewhere.
-/

namespace MetaPool.Checked

/-! ## Quotients of words -/

/-- The product of two words, in a word of twice their width. -/
def wideProduct (a b : BitVec 128) : BitVec 256 := a.setWidth 256 * b.setWidth 256

/-- A wide word as a word, if it is not above the largest. -/
def narrow (w : BitVec 256) : Except Fault (BitVec 128) :=
  if (BitVec.allOnes 128).setWidth 256 < w then .error .overflow else .ok (w.setWidth 128)

/-- `a * b / d` by way of the wide product. -/
def prorateWords (a b d : BitVec 128) : Except Fault (BitVec 128) :=
  if d = 0 then .error .divisionByZero else narrow (wideProduct a b / d.setWidth 256)

/-- A magnitude as a signed word, if it is not above the largest. -/
def signedWord (m : BitVec 128) : Except Fault (BitVec 128) :=
  if m < BitVec.intMin 128 then .ok m else .error .overflow

/-- The negative of a magnitude as a signed word. The smallest is not the negative of a signed word. -/
def negatedWord (m : BitVec 128) : Except Fault (BitVec 128) :=
  if m = BitVec.intMin 128 then .ok (BitVec.intMin 128) else do return -(← signedWord m)

/-- `a * b / d` of a signed word `a`, by way of its magnitude. -/
def prorateSignedWords (a b d : BitVec 128) : Except Fault (BitVec 128) := do
  let magnitude ← prorateWords a.abs b d
  if a.slt 0 then negatedWord magnitude else signedWord magnitude

/-! ## Words as numbers -/

theorem toNat_wideProduct (a b : BitVec 128) : (wideProduct a b).toNat = a.toNat * b.toNat := by
  have hfits : a.toNat * b.toNat < 2 ^ 256 := by
    calc a.toNat * b.toNat < 2 ^ 128 * 2 ^ 128 := Nat.mul_lt_mul'' a.isLt b.isLt
      _ = 2 ^ 256 := by rw [← Nat.pow_add]
  unfold wideProduct
  rw [BitVec.toNat_mul, BitVec.toNat_setWidth_of_le (by decide),
    BitVec.toNat_setWidth_of_le (by decide), Nat.mod_eq_of_lt hfits]

theorem narrow_eq (w : BitVec 256) : (narrow w).map BitVec.toNat = fit w.toNat := by
  have hlast : ((BitVec.allOnes 128).setWidth 256).toNat = maxAmount := by decide
  unfold narrow fit
  by_cases hfits : w.toNat ≤ maxAmount
  · have hnot : ¬ (BitVec.allOnes 128).setWidth 256 < w := by
      rw [BitVec.lt_def, hlast]
      omega
    rw [if_neg hnot, if_pos hfits]
    show Except.ok (w.setWidth 128).toNat = _
    rw [BitVec.toNat_setWidth, Nat.mod_eq_of_lt (by unfold maxAmount at hfits; omega)]
  · have hover : (BitVec.allOnes 128).setWidth 256 < w := by
      rw [BitVec.lt_def, hlast]
      omega
    rw [if_pos hover, if_neg hfits]
    rfl

theorem prorateWords_eq (a b d : BitVec 128) :
    (prorateWords a b d).map BitVec.toNat = prorate a.toNat b.toNat d.toNat := by
  unfold prorateWords prorate
  by_cases hd : d = 0
  · rw [if_pos hd, if_pos (by rw [hd]; rfl)]
    rfl
  · have hd' : d.toNat ≠ 0 := fun h => hd (BitVec.eq_of_toNat_eq h)
    rw [if_neg hd, if_neg hd', narrow_eq, BitVec.toNat_udiv, toNat_wideProduct,
      BitVec.toNat_setWidth_of_le (by decide)]

theorem toNat_abs_eq_natAbs (a : BitVec 128) : a.abs.toNat = a.toInt.natAbs := by
  have hword := a.isLt
  rw [BitVec.toNat_abs, BitVec.toInt_eq_msb_cond]
  split <;> omega

theorem toNat_intMin : (BitVec.intMin 128).toNat = 2 ^ 127 := by decide

theorem lt_intMin {m : BitVec 128} : m < BitVec.intMin 128 ↔ m.toNat < 2 ^ 127 := by
  rw [BitVec.lt_def, toNat_intMin]

theorem signedWord_eq (m : BitVec 128) :
    (signedWord m).map BitVec.toInt = fitSigned .overflow m.toNat := by
  unfold signedWord fitSigned
  by_cases hfits : m.toNat < 2 ^ 127
  · rw [if_pos (lt_intMin.2 hfits), if_pos (by unfold minSigned maxSigned; omega)]
    show Except.ok m.toInt = _
    rw [BitVec.toInt_eq_toNat_of_lt (by omega)]
  · rw [if_neg (mt lt_intMin.1 hfits), if_neg (by unfold minSigned maxSigned; omega)]
    rfl

theorem negatedWord_eq (m : BitVec 128) :
    (negatedWord m).map BitVec.toInt = fitSigned .overflow (-(m.toNat : Int)) := by
  unfold negatedWord
  by_cases hleast : m = BitVec.intMin 128
  · rw [if_pos hleast, hleast]
    decide
  · have hne : m.toNat ≠ 2 ^ 127 := fun h => hleast (BitVec.eq_of_toNat_eq (h.trans toNat_intMin.symm))
    rw [if_neg hleast]
    unfold signedWord fitSigned
    by_cases hfits : m.toNat < 2 ^ 127
    · rw [if_pos (lt_intMin.2 hfits), if_pos (by unfold minSigned maxSigned; omega)]
      show Except.ok (-m).toInt = _
      rw [BitVec.toInt_neg_of_ne_intMin hleast, BitVec.toInt_eq_toNat_of_lt (by omega)]
    · rw [if_neg (mt lt_intMin.1 hfits), if_neg (by unfold minSigned maxSigned; omega)]
      rfl

theorem prorateSignedWords_eq (a b d : BitVec 128) :
    (prorateSignedWords a b d).map BitVec.toInt = prorateSigned a.toInt b.toNat d.toNat := by
  have hmagnitude := prorateWords_eq a.abs b d
  rw [toNat_abs_eq_natAbs] at hmagnitude
  unfold prorateSignedWords prorateSigned
  rw [← hmagnitude]
  cases prorateWords a.abs b d with
  | error fault => rfl
  | ok m =>
    show Except.map BitVec.toInt (if a.slt 0 then negatedWord m else signedWord m) =
      fitSigned .overflow (if a.toInt < 0 then -(m.toNat : Int) else m.toNat)
    have hneg : a.slt 0 = true ↔ a.toInt < 0 := by simp [BitVec.slt]
    by_cases ha : a.toInt < 0
    · rw [if_pos (hneg.2 ha), if_pos ha, negatedWord_eq]
    · rw [if_neg (mt hneg.1 ha), if_neg ha, signedWord_eq]

/-! ## Quotients of numbers -/

variable {d : Nat}

theorem prorate_cases (a b : Nat) (hd : d ≠ 0) :
    a * b / d ≤ maxAmount ∧ prorate a b d = .ok (a * b / d) ∨
      maxAmount < a * b / d ∧ prorate a b d = .error .overflow := by
  unfold prorate
  rw [if_neg hd]
  by_cases hfits : a * b / d ≤ maxAmount
  · exact .inl ⟨hfits, if_pos hfits⟩
  · exact .inr ⟨Nat.not_le.1 hfits, if_neg hfits⟩

/-- The magnitude of a part with the sign of the whole. A whole that is zero has no sign, and no parts. -/
theorem signed_magnitude (a : Int) (b d : Nat) :
    (if a < 0 then -((a.natAbs * b / d : Nat) : Int) else (a.natAbs * b / d : Nat)) =
      a.sign * (a.natAbs * b / d : Nat) := by
  rcases lt_trichotomy a 0 with hneg | rfl | hpos
  · rw [if_pos hneg, Int.sign_eq_neg_one_of_neg hneg, Int.neg_one_mul]
  · simp
  · rw [if_neg (Int.not_lt.2 (Int.le_of_lt hpos)), Int.sign_eq_one_of_pos hpos, Int.one_mul]

/-- A magnitude that is no word is beyond the signed words as well, so that only their limits count. -/
theorem prorateSigned_eq (a : Int) (b : Nat) (hd : d ≠ 0) :
    prorateSigned a b d = fitSigned .overflow (a.sign * (a.natAbs * b / d : Nat)) := by
  rw [← signed_magnitude]
  unfold prorateSigned
  rcases prorate_cases a.natAbs b hd with ⟨-, hok⟩ | ⟨hover, herror⟩
  · rw [hok]
    rfl
  · rw [herror]
    refine (if_neg ?_).symm
    unfold maxAmount at hover
    unfold minSigned maxSigned
    split <;> omega

/-! ## The exact quotient -/

/-- A number without what it has behind the point. -/
def towardZero (q : ℚ) : Int := if q < 0 then ⌈q⌉ else ⌊q⌋

theorem towardZero_of_nonneg {q : ℚ} (hq : 0 ≤ q) : towardZero q = ⌊q⌋ := if_neg (not_lt.2 hq)

theorem towardZero_neg (q : ℚ) : towardZero (-q) = -towardZero q := by
  unfold towardZero
  rcases lt_trichotomy q 0 with hq | rfl | hq
  · rw [if_neg (by linarith), if_pos hq, Int.floor_neg]
  · simp
  · rw [if_pos (by linarith), if_neg (by linarith), Int.ceil_neg]

theorem floor_quotient (a b d : Nat) : ⌊(a * b : ℚ) / d⌋₊ = a * b / d := by
  rw [← Nat.cast_mul]
  exact Nat.floor_div_eq_div (a * b) d

theorem towardZero_quotient (a : Int) (b d : Nat) :
    towardZero ((a * b : ℚ) / d) = a.sign * (a.natAbs * b / d : Nat) := by
  have hmagnitude : towardZero ((a.natAbs * b : ℚ) / d) = (a.natAbs * b / d : Nat) := by
    rw [towardZero_of_nonneg (by positivity), ← floor_quotient,
      Int.natCast_floor_eq_floor (by positivity)]
  have hcast : ((a.natAbs : Int) : ℚ) = a.natAbs := Int.cast_natCast _
  rw [← signed_magnitude]
  by_cases ha : a < 0
  · have habs : (a : ℚ) = -(a.natAbs : ℚ) := by
      rw [← hcast, Int.ofNat_natAbs_of_nonpos (Int.le_of_lt ha), Int.cast_neg, neg_neg]
    rw [if_pos ha, habs, neg_mul, neg_div, towardZero_neg, hmagnitude]
  · have habs : (a : ℚ) = a.natAbs := by
      rw [← hcast, Int.natAbs_of_nonneg (Int.not_lt.1 ha)]
    rw [if_neg ha, habs, hmagnitude]

/-- For all words, `a * b / d` is the floor of the exact quotient if that is a word, and an overflow
otherwise; and `s * b / d` of a signed word is the exact quotient rounded toward zero if that is a signed
word, the smallest included, and an overflow otherwise. The routines on words, whose product never wraps,
compute just that. -/
theorem quotients_exact (a b d s : BitVec 128) (hd : d ≠ 0) :
    (wideProduct a b).toNat = a.toNat * b.toNat ∧
      (prorateWords a b d).map BitVec.toNat = prorate a.toNat b.toNat d.toNat ∧
      prorate a.toNat b.toNat d.toNat =
        (if ⌊(a.toNat * b.toNat : ℚ) / d.toNat⌋₊ ≤ 2 ^ 128 - 1 then
          .ok ⌊(a.toNat * b.toNat : ℚ) / d.toNat⌋₊ else .error .overflow) ∧
      (prorateSignedWords s b d).map BitVec.toInt = prorateSigned s.toInt b.toNat d.toNat ∧
      prorateSigned s.toInt b.toNat d.toNat =
        (if -2 ^ 127 ≤ towardZero ((s.toInt * b.toNat : ℚ) / d.toNat) ∧
            towardZero ((s.toInt * b.toNat : ℚ) / d.toNat) ≤ 2 ^ 127 - 1 then
          .ok (towardZero ((s.toInt * b.toNat : ℚ) / d.toNat)) else .error .overflow) := by
  have hd' : d.toNat ≠ 0 := fun h => hd (BitVec.eq_of_toNat_eq h)
  refine ⟨toNat_wideProduct a b, prorateWords_eq a b d, ?_, prorateSignedWords_eq s b d, ?_⟩
  · rw [floor_quotient]
    exact if_neg hd'
  · rw [towardZero_quotient]
    exact prorateSigned_eq s.toInt b.toNat hd'

/-- The largest words and the smallest signed one: a product of 256 bits, and the one quotient whose magnitude
is no signed word. -/
theorem quotients_exact_largest :
    BitVec.allOnes 128 ≠ 0 ∧
      (wideProduct (.allOnes 128) (.allOnes 128)).toNat = (2 ^ 128 - 1) * (2 ^ 128 - 1) ∧
      prorate (2 ^ 128 - 1) (2 ^ 128 - 1) (2 ^ 128 - 1) = .ok (2 ^ 128 - 1) ∧
      prorateSigned (-2 ^ 127) (2 ^ 128 - 1) (2 ^ 128 - 1) = .ok (-2 ^ 127) := by
  have hlast : (BitVec.allOnes 128).toNat = 2 ^ 128 - 1 := by decide
  have hleast : (BitVec.intMin 128).toInt = -2 ^ 127 := by decide
  obtain ⟨hproduct, hwords, -, hsigned, -⟩ :=
    quotients_exact (.allOnes 128) (.allOnes 128) (.allOnes 128) (.intMin 128) (by decide)
  rw [hlast] at hproduct hwords hsigned
  rw [hleast] at hsigned
  refine ⟨by decide, hproduct, ?_, ?_⟩
  · rw [← hwords]
    decide
  · rw [← hsigned]
    decide

example : prorateSigned (-2 ^ 126) 2 1 = .ok (-2 ^ 127) ∧
    prorateSigned (2 ^ 126) 2 1 = .error .overflow := by
  decide

end MetaPool.Checked
