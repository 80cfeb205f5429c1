/-!
# Digits

Numbers written in a base of at most sixteen. Letters of both cases are digits.
-/

namespace MetaPool.Text

/-- The value of a digit. -/
def digit? (base : Nat) (c : Char) : Option Nat :=
  let value :=
    if '0' ≤ c ∧ c ≤ '9' then c.toNat - '0'.toNat
    else if 'a' ≤ c ∧ c ≤ 'f' then c.toNat - 'a'.toNat + 10
    else if 'A' ≤ c ∧ c ≤ 'F' then c.toNat - 'A'.toNat + 10
    else base
  if value < base then some value else none

/-- The number that continues `n` with the given digits. -/
def continueDigits (base : Nat) : Nat → List Char → Option Nat
  | n, [] => some n
  | n, c :: rest => do continueDigits base (n * base + (← digit? base c)) rest

/-- The number written by one or more digits. -/
def ofDigits? (base : Nat) : List Char → Option Nat
  | [] => none
  | cs => continueDigits base 0 cs

/-- The digit of a value below sixteen, with capital letters. -/
def hexDigit (value : Nat) : Char :=
  if value < 10 then Char.ofNat ('0'.toNat + value) else Char.ofNat ('A'.toNat + value - 10)

/-- The last four hexadecimal digits of a number. -/
def fourHexDigits (n : Nat) : List Char :=
  [n / 4096 % 16, n / 256 % 16, n / 16 % 16, n % 16].map hexDigit

end MetaPool.Text
