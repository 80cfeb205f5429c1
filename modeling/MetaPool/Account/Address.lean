/-!
# Addresses

An address names an account: a user, an operator or a component. Addresses are ordered by their
label, character by character in code point order, and every table keyed by address is listed in
that order. The order is total, and two addresses compare equal only if they are equal.
-/

namespace MetaPool

/-- An account's name. -/
structure Address where
  label : String
deriving DecidableEq, Inhabited

namespace Address

/-- The empty address owns nothing and may receive nothing. -/
def isEmpty (a : Address) : Bool := a.label.isEmpty

instance : Ord Address := ⟨fun a b => compare a.label b.label⟩

instance : Std.TransOrd Address where
  eq_swap := Std.OrientedOrd.eq_swap (α := String)
  isLE_trans := Std.TransOrd.isLE_trans (α := String)

instance : Std.LawfulEqOrd Address where
  eq_of_compare {a b} h := by
    have h' : a.label = b.label := Std.LawfulEqOrd.eq_of_compare h
    cases a
    cases b
    simp_all

end Address

end MetaPool
