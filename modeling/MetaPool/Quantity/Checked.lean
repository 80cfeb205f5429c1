import MetaPool.Fault

/-!
# Checked arithmetic

Amounts, values, shares and prices are natural numbers of at most 128 bits; top-ups and feed answers
are integers of 128 bits. Each operation is exact and fails where its result leaves that range, so
no intermediate product is ever cut: `prorate a b d` is the floor of the exact quotient.
-/

namespace MetaPool

/-- The largest amount, `2 ^ 128 - 1`. -/
def maxAmount : Nat := 340282366920938463463374607431768211455

/-- The largest signed amount, `2 ^ 127 - 1`. -/
def maxSigned : Int := 170141183460469231731687303715884105727

/-- The smallest signed amount, `-2 ^ 127`. -/
def minSigned : Int := -170141183460469231731687303715884105728

/-- The largest number of decimals whose power of ten is an amount. -/
def maxDecimals : Nat := 38

/-- The number of basis points in a whole. -/
def wholeBps : Nat := 10000

/-- The number of percent in a whole. -/
def wholePercent : Nat := 100

namespace Checked

/-- `n`, if it is an amount. -/
def fit (n : Nat) : Except Fault Nat :=
  if n ≤ maxAmount then .ok n else .error .overflow

/-- `i`, if it is a signed amount. -/
def fitSigned (fault : Fault) (i : Int) : Except Fault Int :=
  if minSigned ≤ i ∧ i ≤ maxSigned then .ok i else .error fault

def add (a b : Nat) : Except Fault Nat := fit (a + b)

def sub (a b : Nat) : Except Fault Nat :=
  if b ≤ a then .ok (a - b) else .error .underflow

def mul (a b : Nat) : Except Fault Nat := fit (a * b)

def subSigned (a b : Int) : Except Fault Int := fitSigned .underflow (a - b)

/-- An amount as a signed one. -/
def toSigned (a : Nat) : Except Fault Int := fitSigned .conversion a

/-- A signed amount as an unsigned one. -/
def ofSigned (i : Int) : Except Fault Nat :=
  if 0 ≤ i then .ok i.toNat else .error .negativeValue

def powerOfTen (decimals : Nat) : Except Fault Nat :=
  if decimals ≤ maxDecimals then .ok (Nat.pow 10 decimals) else .error .overflow

/-- The floor of `a * b / d`. -/
def prorate (a b d : Nat) : Except Fault Nat :=
  if d = 0 then .error .divisionByZero else fit (a * b / d)

/-- `a * b / d` rounded toward zero. -/
def prorateSigned (a : Int) (b d : Nat) : Except Fault Int := do
  let magnitude ← prorate a.natAbs b d
  fitSigned .overflow (if a < 0 then -magnitude else magnitude)

/-- The part of an amount that a number of basis points stands for, rounded down. -/
def portion (amount bps : Nat) : Except Fault Nat := prorate amount bps wholeBps

end Checked

end MetaPool
