import MetaPool.Quantity.Word

/-!
# TOML values

A TOML value as far as a reader of documents looks at it: of floats and of dates and times only the
kind is kept. A table lists its entries in the order in which they were written.
-/

namespace MetaPool.Toml

inductive Value where
  | string (text : String)
  | integer (i : Int)
  | boolean (b : Bool)
  | float
  | dateTime
  | array (elements : List Value)
  | table (entries : List (String × Value))
deriving Inhabited

namespace Value

/-! ## Looking at values -/

def string? : Value → Option String
  | string text => some text
  | _ => none

/-- A number up to a limit. -/
def natUpTo? (limit : Nat) : Value → Option Nat
  | integer i => if 0 ≤ i ∧ i ≤ limit then some i.toNat else none
  | _ => none

/-- An unsigned 64-bit word. -/
def uint64? (v : Value) : Option UInt64 := v.natUpTo? maxWord >>= word?

/-- A signed 64-bit word. -/
def int64? : Value → Option Int64
  | integer i => signedWord? i
  | _ => none

/-- The elements of an array, each looked at as an `α`. -/
def list? {α : Type} (element? : Value → Option α) : Value → Option (List α)
  | array elements => elements.mapM element?
  | _ => none

/-- What a value has for each of the named fields. A table is asked for the names; an array lists
the fields in order. Further entries and elements are ignored. -/
def record? (names : List String) : Value → Option (List (Option Value))
  | table entries => some (names.map fun name => entries.lookup name)
  | array elements => some (names.zipIdx.map fun name => elements[name.2]?)
  | _ => none

end Value

end MetaPool.Toml
