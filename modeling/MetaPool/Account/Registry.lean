import MetaPool.Collection.OrderedMap
import MetaPool.Fault

/-!
# The address registry

The registry resolves identifiers such as `daiPool` or `lpAccount` to addresses.
-/

namespace MetaPool

/-- Addresses by identifier. -/
structure Registry where
  entries : OrderedMap String Address
deriving DecidableEq

namespace Registry

def empty : Registry := ⟨.empty⟩

instance : Inhabited Registry := ⟨empty⟩

/-- Points an identifier to an address, in place of the one it had. -/
def register (r : Registry) (id : String) (address : Address) : Except Fault Registry :=
  if address.isEmpty then .error .invalidAddress
  else .ok ⟨r.entries.insert id address⟩

def address (r : Registry) (id : String) : Except Fault Address :=
  match r.entries.get? id with
  | some a => .ok a
  | none => .error (.missingAddress id)

/-- The addresses of all identifiers, or the fault of the first that has none. -/
def addresses (r : Registry) (ids : List String) : Except Fault (List Address) :=
  ids.mapM r.address

end Registry

end MetaPool
