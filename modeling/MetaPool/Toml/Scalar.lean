import MetaPool.Text.Digits
import MetaPool.Toml.Value

/-!
# TOML scalars

The tokens that stand for booleans, numbers, dates and times. Integers are signed 64-bit words, in
decimals with an optional sign or in another base behind `0x`, `0o` or `0b`. Underscores may stand
between digits. A float whose nearest double is positive infinity is refused; infinity has a name of
its own.
-/

namespace MetaPool.Toml

open Text (digit? ofDigits?)

/-! ## Digits -/

def isDigitOf (base : Nat) (c : Char) : Bool := (digit? base c).isSome

/-- The digits of a number, without the underscores between them. -/
def ungroup (base : Nat) : List Char → Option (List Char)
  | [] => none
  | [c] => if isDigitOf base c then some [c] else none
  | c :: '_' :: d :: rest =>
    if isDigitOf base c then (ungroup base (d :: rest)).map (c :: ·) else none
  | c :: d :: rest =>
    if isDigitOf base c then (ungroup base (d :: rest)).map (c :: ·) else none

/-- The digits of a decimal whole part: a zero, or digits that do not start with one. -/
def wholeDigits (cs : List Char) : Option (List Char) :=
  match ungroup 10 cs with
  | some ('0' :: _ :: _) => none
  | digits => digits

/-- The sign of a token and what follows it. -/
def splitSign : List Char → Bool × List Char
  | '-' :: rest => (true, rest)
  | '+' :: rest => (false, rest)
  | rest => (false, rest)

/-! ## Integers -/

/-- An integer, if it is a signed 64-bit word. -/
def fitInteger (i : Int) : Option Int :=
  if minSignedWord ≤ i ∧ i ≤ maxSignedWord then some i else none

def integerIn (base : Nat) (cs : List Char) : Option Int := do
  fitInteger (← ofDigits? base (← ungroup base cs))

def integer? : List Char → Option Int
  | '0' :: 'x' :: rest => integerIn 16 rest
  | '0' :: 'o' :: rest => integerIn 8 rest
  | '0' :: 'b' :: rest => integerIn 2 rest
  | cs => do
    let (negative, rest) := splitSign cs
    let magnitude ← ofDigits? 10 (← wholeDigits rest)
    fitInteger (if negative then -magnitude else magnitude)

/-! ## Floats -/

/-- The least number that rounds to infinity, `2 ^ 1024 - 2 ^ 970`: half a step above the largest
double. -/
def doubleLimit : Nat := Nat.pow 2 1024 - Nat.pow 2 970

/-- Whether `mantissa * 10 ^ exponent` rounds to a finite double. The number of digits settles it
for all but the numbers near the limit. -/
def isFiniteDouble (mantissa : Nat) (exponent : Int) : Bool :=
  let magnitude := (toString mantissa).length + exponent
  if mantissa = 0 ∨ magnitude < 300 then true
  else if magnitude > 320 then false
  else if 0 ≤ exponent then mantissa * Nat.pow 10 exponent.toNat < doubleLimit
  else mantissa < doubleLimit * Nat.pow 10 (-exponent).toNat

/-- The value of the exponent of a float behind its mark, and zero for no exponent. -/
def exponent? : List Char → Option Int
  | [] => some 0
  | mark :: cs => do
    if mark ≠ 'e' ∧ mark ≠ 'E' then none
    else
      let (negative, rest) := splitSign cs
      let magnitude ← ofDigits? 10 (← ungroup 10 rest)
      return if negative then -magnitude else magnitude

/-- The digits of a fraction and what follows it. A float needs a fraction or an exponent. -/
def fraction? : List Char → Option (List Char × List Char)
  | '.' :: cs => do
    let (digits, rest) := cs.span fun c => c.isDigit || c == '_'
    return (← ungroup 10 digits, rest)
  | [] => none
  | cs => some ([], cs)

/-- Whether a token is a float. -/
def isFloat (cs : List Char) : Bool :=
  let (negative, unsigned) := splitSign cs
  if unsigned = "inf".toList ∨ unsigned = "nan".toList then true
  else
    let (whole, rest) := unsigned.span fun c => c.isDigit || c == '_'
    let parts : Option (Nat × Int) := do
      let whole ← wholeDigits whole
      let (fraction, rest) ← fraction? rest
      let exponent ← exponent? rest
      return (← ofDigits? 10 (whole ++ fraction), exponent - fraction.length)
    match parts with
    | some (mantissa, exponent) => negative || isFiniteDouble mantissa exponent
    | none => false

/-! ## Dates and times -/

/-- The number of a field of digits, if it lies between two bounds. -/
def fieldBetween (low high : Nat) (cs : List Char) : Bool :=
  match ofDigits? 10 cs with
  | some n => low ≤ n && n ≤ high
  | none => false

def isLeapYear (year : Nat) : Bool := year % 4 == 0 && (year % 100 != 0 || year % 400 == 0)

def daysInMonth (year month : Nat) : Nat :=
  if month = 2 then if isLeapYear year then 29 else 28
  else if month = 4 ∨ month = 6 ∨ month = 9 ∨ month = 11 then 30
  else 31

/-- Whether a token is a date, such as `1979-05-27`. -/
def isDate : List Char → Bool
  | [y₁, y₂, y₃, y₄, '-', m₁, m₂, '-', d₁, d₂] =>
    match ofDigits? 10 [y₁, y₂, y₃, y₄], ofDigits? 10 [m₁, m₂] with
    | some year, some month =>
      1 ≤ month && month ≤ 12 && fieldBetween 1 (daysInMonth year month) [d₁, d₂]
    | _, _ => false
  | _ => false

/-- What follows the fraction of a second, if there is one. -/
def afterSecondFraction : List Char → Option (List Char)
  | '.' :: cs =>
    match cs.span Char.isDigit with
    | ([], _) => none
    | (_, rest) => some rest
  | cs => some cs

/-- What follows a time, such as `07:32:00.5`. -/
def afterTime : List Char → Option (List Char)
  | h₁ :: h₂ :: ':' :: m₁ :: m₂ :: ':' :: s₁ :: s₂ :: rest =>
    if fieldBetween 0 23 [h₁, h₂] && fieldBetween 0 59 [m₁, m₂] && fieldBetween 0 60 [s₁, s₂] then
      afterSecondFraction rest
    else none
  | _ => none

/-- Whether a token is the offset of a time from the prime meridian, or empty. -/
def isOffset : List Char → Bool
  | [] | ['Z'] | ['z'] => true
  | [sign, h₁, h₂, ':', m₁, m₂] =>
    (sign == '+' || sign == '-') && fieldBetween 0 23 [h₁, h₂] && fieldBetween 0 59 [m₁, m₂]
  | _ => false

/-- Whether a token is a date, a time or both. -/
def isDateTime (cs : List Char) : Bool :=
  isDate cs || afterTime cs == some [] ||
    (isDate (cs.take 10) &&
      match cs.drop 10 with
      | delimiter :: rest =>
        (delimiter == 'T' || delimiter == 't' || delimiter == ' ') &&
          (afterTime rest).any isOffset
      | [] => false)

/-! ## Tokens -/

/-- The scalar that a token stands for. -/
def scalar? (cs : List Char) : Option Value :=
  if cs = "true".toList then some (.boolean true)
  else if cs = "false".toList then some (.boolean false)
  else if isDateTime cs then some .dateTime
  else if isFloat cs then some .float
  else (integer? cs).map .integer

end MetaPool.Toml
