import MetaPool.Account.Roles

/-!
# The allocation registry

The allocation registry lists every token that the LP account may hold. The underlyer of a pool is
listed when capital moves for the first time.
-/

namespace MetaPool

/-- A listed token. -/
structure AllocatedToken where
  token : Address
  symbol : String
  decimals : Nat
deriving DecidableEq

/-- The listed tokens and who may list more. -/
structure Allocation where
  roles : RoleTable
  tokens : OrderedMap Address AllocatedToken
deriving DecidableEq

namespace Allocation

def new (roles : RoleTable) : Allocation := ⟨roles, .empty⟩

def isRegistered (a : Allocation) (token : Address) : Bool := a.tokens.contains token

/-- Lists a token that is not listed yet. -/
def register (a : Allocation) (caller : Address) (data : AllocatedToken) :
    Except Fault Allocation := do
  a.roles.authorize caller .registerToken
  if data.token.isEmpty then .error .invalidAddress
  else if a.isRegistered data.token then .error (.alreadyRegistered data.token)
  else return { a with tokens := a.tokens.insert data.token data }

end Allocation

end MetaPool
