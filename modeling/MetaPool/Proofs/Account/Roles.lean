import MetaPool.Account.Roles
import MetaPool.Proofs.View

/-!
# Who holds a role

A table that is built from grants holds exactly the grants (`holds_ofGrants`), and the policy lets a
caller use a permission if the table holds the permission's role for it (`authorize_eq_ok`). Whoever
is refused is told which role it lacks (`authorize_eq_error`).
-/

namespace MetaPool.RoleTable

variable {t : RoleTable} {role role' : Role} {account a caller : Address} {permission : Permission}
  {fault : Fault}

theorem holds_empty : empty.holds role a = false := rfl

theorem holds_grant : (t.grant role account).holds role' a = true ↔
    role' = role ∧ a = account ∨ t.holds role' a = true := by
  simp only [grant, holds, OrderedMap.get?_insert]
  by_cases hrole : role' = role
  · subst hrole
    cases t.members.get? role' <;>
      simp only [↓reduceIte, Option.getD, OrderedMap.contains, OrderedMap.get?_insert] <;>
      by_cases ha : a = account <;> simp [ha]
  · simp [hrole]

theorem holds_foldl_grant {grants : List (Role × Address)} :
    (grants.foldl (fun t g => t.grant g.1 g.2) t).holds role a = true ↔
      (role, a) ∈ grants ∨ t.holds role a = true := by
  induction grants generalizing t with
  | nil => simp
  | cons g grants ih =>
    rw [List.foldl_cons, ih, holds_grant, List.mem_cons, Prod.ext_iff]
    grind

theorem holds_ofGrants {grants : List (Role × Address)} :
    (ofGrants grants).holds role a = true ↔ (role, a) ∈ grants := by
  unfold ofGrants
  rw [holds_foldl_grant, holds_empty]
  simp

/-! ## The policy -/

theorem authorize_eq_ok :
    t.authorize caller permission = .ok () ↔ t.holds permission.role caller = true := by
  unfold authorize require
  rw [require_eq_ok]
  simp

theorem authorize_eq_error : t.authorize caller permission = .error fault ↔
    ¬ t.holds permission.role caller = true ∧ fault = permission.role.lacking := by
  unfold authorize require
  split
  next h => simp [h]
  next h => simp [h, eq_comm]

end MetaPool.RoleTable
