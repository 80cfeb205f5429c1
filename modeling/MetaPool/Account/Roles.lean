import MetaPool.Collection.OrderedMap
import MetaPool.Fault

/-!
# Roles and permissions

A role is a capability that accounts hold, a permission names a gated operation, and the policy
`Permission.role` assigns each permission the one role that may use it. `RoleTable.authorize` is the
only gate: it asks the policy for the role and the table for its holders.
-/

namespace MetaPool

/-- A capability, in the order in which tables list it. -/
inductive Role where
  /-- Changes parameters. -/
  | admin
  /-- Locks, overrides and rebalances by hand. -/
  | emergency
  /-- Rebalances by the oracle. -/
  | lp
  /-- Is a component that calls another. -/
  | contract
deriving DecidableEq, Ord

instance : Std.TransOrd Role where
  eq_swap {a b} := by cases a <;> cases b <;> rfl
  isLE_trans {a b c} := by cases a <;> cases b <;> cases c <;> decide

instance : Std.LawfulEqOrd Role where
  compare_self {a} := by cases a <;> rfl
  eq_of_compare {a b} := by cases a <;> cases b <;> decide

/-- The fault of an account that lacks the role. -/
def Role.lacking : Role → Fault
  | admin => .notAdmin
  | emergency => .notEmergency
  | lp => .notLp
  | contract => .notContract

/-- A gated operation. -/
inductive Permission where
  | lockOracle
  | unlockOracle
  | setTvlOverride
  | unsetTvlOverride
  | setAssetOverride
  | unsetAssetOverride
  | setTvlSource
  | setAssetSource
  | setAssetSources
  | setStalePeriod
  | setDefaultLockPeriod
  | pausePool
  | lockDeposits
  | lockRedemptions
  | setReservePercentage
  | setWithdrawFee
  | setArbitrageFee
  | sendToLpAccount
  | sendSurplus
  | recallShortfall
  | sendByHand
  | recallByHand
  | returnToPool
  | registerToken
deriving DecidableEq

/-- The policy: the role that each permission takes. -/
def Permission.role : Permission → Role
  | lockOracle | sendToLpAccount | returnToPool | registerToken => .contract
  | unlockOracle | setTvlOverride | unsetTvlOverride | setAssetOverride | unsetAssetOverride
  | setTvlSource | setAssetSource | setAssetSources | pausePool | lockDeposits | lockRedemptions
  | sendByHand | recallByHand => .emergency
  | setStalePeriod | setDefaultLockPeriod | setReservePercentage | setWithdrawFee
  | setArbitrageFee => .admin
  | sendSurplus | recallShortfall => .lp

/-- A set of accounts. -/
abbrev AddressSet := OrderedMap Address Unit

/-- Who holds which role. -/
structure RoleTable where
  members : OrderedMap Role AddressSet
deriving DecidableEq

namespace RoleTable

/-- The table in which nobody holds a role. -/
def empty : RoleTable := ⟨.empty⟩

instance : Inhabited RoleTable := ⟨empty⟩

def grant (t : RoleTable) (role : Role) (account : Address) : RoleTable :=
  ⟨t.members.insert role (((t.members.get? role).getD .empty).insert account ())⟩

/-- Takes a role from an account. A role that loses its last holder stays listed. -/
def revoke (t : RoleTable) (role : Role) (account : Address) : RoleTable :=
  match t.members.get? role with
  | some holders => ⟨t.members.insert role (holders.erase account)⟩
  | none => t

def holds (t : RoleTable) (role : Role) (account : Address) : Bool :=
  match t.members.get? role with
  | some holders => holders.contains account
  | none => false

def require (t : RoleTable) (role : Role) (account : Address) : Except Fault Unit :=
  if t.holds role account then .ok () else .error role.lacking

/-- Whether the policy lets `caller` use a permission. -/
def authorize (t : RoleTable) (caller : Address) (permission : Permission) : Except Fault Unit :=
  t.require permission.role caller

/-- The table with the given grants. -/
def ofGrants (grants : List (Role × Address)) : RoleTable :=
  grants.foldl (fun t g => t.grant g.1 g.2) empty

end RoleTable

end MetaPool
