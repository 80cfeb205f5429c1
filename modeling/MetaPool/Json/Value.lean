import MetaPool.Quantity.Word

/-!
# JSON values

A JSON value as far as a reader of documents looks at it. Whole numbers keep their sign apart,
because a negative zero is not the whole number zero; of a number with a fraction or an exponent
only the form is kept. A string may escape half of a surrogate pair: such a string is a JSON string
without a text.
-/

namespace MetaPool.Json

inductive Value where
  | null
  | boolean (b : Bool)
  /-- A number without fraction and exponent. -/
  | whole (negative : Bool) (magnitude : Nat)
  /-- A number with a fraction or an exponent. -/
  | fractional
  | string (text : Option String)
  | array (elements : List Value)
  | object (fields : List (Option String × Value))
deriving Inhabited

namespace Value

/-! ## Making values -/

def ofString (s : String) : Value := string (some s)

def ofNat (n : Nat) : Value := whole false n

def ofInt (i : Int) : Value := whole (i < 0) i.natAbs

/-- An object of named fields. -/
def ofFields (fields : List (String × Value)) : Value :=
  object (fields.map fun f => (some f.1, f.2))

/-! ## Looking at values -/

def string? : Value → Option String
  | string text => text
  | _ => none

/-- A whole number up to a limit. -/
def natUpTo? (limit : Nat) : Value → Option Nat
  | whole false n => if n ≤ limit then some n else none
  | _ => none

/-- A whole number that is a signed word. -/
def int64? : Value → Option Int64
  | whole false n => signedWord? n
  | whole true n => if n = 0 then none else signedWord? (-n)
  | _ => none

/-- The elements of an array of a given length. -/
def elements? (length : Nat) : Value → Option (List Value)
  | array elements => if elements.length = length then some elements else none
  | _ => none

/-- The value of a field that occurs once. -/
def field? (fields : List (String × Value)) (name : String) : Option Value :=
  match fields.filter (·.1 = name) with
  | [(_, value)] => some value
  | _ => none

/-- The values of named fields, from an object that has each of them once and perhaps others, or
from an array that lists them. -/
def record? (names : List String) : Value → Option (List Value)
  | object fields => do
    let named ← fields.mapM fun f => do return (← f.1, f.2)
    names.mapM (field? named)
  | v => v.elements? names.length

end Value

end MetaPool.Json
