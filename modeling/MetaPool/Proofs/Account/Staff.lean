import MetaPool.Proofs.Account.Gates
import MetaPool.Proofs.Deployment.Pools
import MetaPool.Proofs.Ledger.Shares

/-!
# The staff of a deployment

A deployment appoints its staff (`Plan.staff`), and no operation changes who holds a role, also not
half-way through a batch (`SameRoles`). So in every reachable state the staff of the plan and nobody
else holds the roles (`Staffed`). Components call one another as the meta shares, which hold the
contract role at every other gate (`Linked`).
-/

namespace MetaPool

theorem Pool.roles_of_change {op : Operation} {a : Address} {s s' : Pool} (h : s.Change op a s') :
    s'.roles = s.roles := by
  cases h with
  | deposit caller amount shares time hop h =>
    obtain ⟨book, -, rfl⟩ := addDeposit_eq_ok.1 h
    rfl
  | redeem caller shares hop h =>
    obtain ⟨book, -, rfl⟩ := takeShares_eq_ok.1 h
    rfl
  | control h => exact h.roles

namespace Protocol

variable {p q r : Protocol} {op : Operation} {out : Outcome} {u : Unit}

/-! ## Roles never change -/

/-- Every gate asks the same table, and the meta shares call from the same address. -/
structure SameRoles (p q : Protocol) : Prop where
  roles : ∀ gate : Gate, gate.roles q = gate.roles p
  metaAddress : q.metaToken.address = p.metaToken.address

theorem SameRoles.refl (p : Protocol) : SameRoles p p := ⟨fun _ => rfl, rfl⟩

theorem SameRoles.trans (h : SameRoles p q) (h' : SameRoles q r) : SameRoles p r where
  roles gate := (h'.roles gate).trans (h.roles gate)
  metaAddress := h'.metaAddress.trans h.metaAddress

/-- A change that leaves the pools and the LP account alone, and of the rest the roles. -/
theorem sameRoles_of_batchPart (hpools : q.pools = p.pools) (hlp : q.lpAccount = p.lpAccount)
    (horacle : q.oracle.roles = p.oracle.roles) (hmeta : q.metaToken.roles = p.metaToken.roles)
    (haddress : q.metaToken.address = p.metaToken.address)
    (hallocation : q.allocation.roles = p.allocation.roles) : SameRoles p q where
  roles
    | .oracle => congrArg _ horacle
    | .pool a => by simp only [Gate.roles, pool_of_eq hpools]
    | .metaToken => congrArg _ hmeta
    | .lpAccount => by simp only [Gate.roles, hlp]
    | .allocation => congrArg _ hallocation
  metaAddress := haddress

theorem sameRoles_registerUnderlyer {a : Address} (h : registerUnderlyer a p = .ok u q) :
    SameRoles p q := by
  obtain ⟨_, -, ⟨-, rfl⟩ | ⟨-, info, allocation, -, hlist, rfl⟩⟩ := registerUnderlyer_eq_ok.1 h
  · exact .refl q
  · obtain ⟨-, -, -, rfl⟩ := Allocation.register_eq_ok.1 hlist
    exact sameRoles_of_batchPart rfl rfl rfl rfl rfl rfl

theorem sameRoles_mintAndSend {a : Address} {shares amount : Nat}
    (h : mintAndSend a shares amount p = .ok u q) : SameRoles p q := by
  obtain ⟨-, rfl⟩ | ⟨-, metaToken, hmint, hsend⟩ := mintAndSend_eq_ok.1 h
  · exact .refl q
  · obtain ⟨book, -, rfl⟩ := MetaToken.mint_eq_ok.1 hmint
    obtain ⟨_, tokens, -, -, -, rfl⟩ := sendToLpAccount_eq_ok.1 hsend
    exact sameRoles_of_batchPart rfl rfl rfl rfl rfl rfl

theorem sameRoles_burnAndReturn {a : Address} {shares amount : Nat}
    (h : burnAndReturn a shares amount p = .ok u q) : SameRoles p q := by
  obtain ⟨-, rfl⟩ | ⟨-, metaToken, hburn, hreturn⟩ := burnAndReturn_eq_ok.1 h
  · exact .refl q
  · obtain ⟨book, -, rfl⟩ := MetaToken.burn_eq_ok.1 hburn
    obtain ⟨-, _, tokens, -, -, rfl⟩ := returnToPool_eq_ok.1 hreturn
    exact sameRoles_of_batchPart rfl rfl rfl rfl rfl rfl

theorem sameRoles_lockAfterMove (h : lockAfterMove p = .ok u q) : SameRoles p q := by
  obtain ⟨o, hlock, rfl⟩ := lockAfterMove_eq_ok.1 h
  obtain ⟨-, -, rfl⟩ := Oracle.lock_eq_ok.1 hlock
  exact sameRoles_of_batchPart rfl rfl rfl rfl rfl rfl

theorem sameRoles_of_rebalance (hop : op.isRebalance = true) (h : op.perform p = .ok out q) :
    SameRoles p q := by
  obtain ⟨pools, amounts, hbatch | hbatch⟩ := Operation.batch_of_ok hop h
  · exact hbatch.walk (fun _ _ _ hI h => hI.trans (sameRoles_registerUnderlyer h))
      (fun _ _ _ _ _ hI h => hI.trans (sameRoles_mintAndSend h))
      (fun _ _ hI h => hI.trans (sameRoles_lockAfterMove h)) (.refl p)
  · exact hbatch.walk (fun _ _ _ hI h => hI.trans (sameRoles_registerUnderlyer h))
      (fun _ _ _ _ _ hI h => hI.trans (sameRoles_burnAndReturn h))
      (fun _ _ hI h => hI.trans (sameRoles_lockAfterMove h)) (.refl p)

/-- All but the rebalances write the oracle as its controls do, and the meta shares and the
allocation not at all. -/
theorem sameRoles_of_ok (h : op.perform p = .ok out q) : SameRoles p q := by
  by_cases hop : op.isRebalance = true
  · exact sameRoles_of_rebalance hop h
  have hframe := Operation.frame_of_ok h
  have hmeta : q.metaToken = p.metaToken := hframe .metaToken (mt Operation.metaToken_mem_writes.1 hop)
  have hlp : q.lpAccount = p.lpAccount :=
    hframe .lpAccount (by cases op <;> simp [Operation.writes, Operation.isRebalance] at hop ⊢)
  have hallocation : q.allocation = p.allocation :=
    hframe .allocation (by cases op <;> simp [Operation.writes, Operation.isRebalance] at hop ⊢)
  have horacle : q.oracle.roles = p.oracle.roles := by
    by_cases hw : .oracle ∈ op.writes
    · obtain ⟨permission, hgate⟩ := Operation.gate_of_oracle hop hw
      obtain ⟨_, -, hpermitted⟩ := Operation.oracle_of_ok hgate h
      exact hpermitted.roles
    · rw [show q.oracle = p.oracle from hframe .oracle hw]
  constructor
  · intro gate
    cases gate with
    | oracle => exact congrArg _ horacle
    | pool a => exact (Operation.pools_of_ok h).map_eq (fun _ _ _ => Pool.roles_of_change) a
    | metaToken => simp only [Gate.roles, hmeta]
    | lpAccount => simp only [Gate.roles, hlp]
    | allocation => simp only [Gate.roles, hallocation]
  · rw [hmeta]

theorem sameRoles_after (p : Protocol) (op : Operation) : SameRoles p (p.after op) := by
  rcases ok_or_unchanged p op with ⟨out, h⟩ | ⟨-, hsame⟩
  · exact sameRoles_of_ok h
  · rw [hsame]
    exact .refl p

theorem sameRoles_run (p : Protocol) (ops : List Operation) : SameRoles p (p.run ops) := by
  induction ops generalizing p with
  | nil => exact .refl p
  | cons op ops ih => exact (sameRoles_after p op).trans (ih (p.after op))

end Protocol

/-! ## The staff -/

namespace Plan

/-- Who holds a role at a gate. The LP safe rebalances, the TVL manager locks the oracle, and the
meta shares call every component but themselves. -/
def staff (plan : Plan) (gate : Gate) : Role → List Address
  | .admin => [⟨plan.adminSafe⟩]
  | .emergency => [⟨plan.emergencySafe⟩]
  | .lp => if gate = .metaToken then [⟨plan.lpSafe⟩] else []
  | .contract =>
    match gate with
    | .oracle => [⟨metaTokenId⟩, ⟨tvlManagerId⟩]
    | .metaToken => []
    | .pool _ | .lpAccount | .allocation => [⟨metaTokenId⟩]

/-- Everybody who holds a role anywhere. -/
def insiders (plan : Plan) : List Address :=
  [⟨plan.adminSafe⟩, ⟨plan.emergencySafe⟩, ⟨plan.lpSafe⟩, ⟨metaTokenId⟩, ⟨tvlManagerId⟩]

variable {plan : Plan} {gate : Gate} {role : Role} {a : Address}

theorem mem_insiders_of_staff (h : a ∈ plan.staff gate role) : a ∈ plan.insiders := by
  unfold staff at h
  split at h
  · simp_all [insiders]
  · simp_all [insiders]
  · split at h <;> simp_all [insiders]
  · split at h <;> simp_all [insiders]

theorem holds_operators {callers : List Address} :
    (plan.operators callers).holds role a = true ↔
      role = .admin ∧ a = ⟨plan.adminSafe⟩ ∨ role = .emergency ∧ a = ⟨plan.emergencySafe⟩ ∨
        role = .contract ∧ a ∈ callers := by
  unfold operators
  rw [RoleTable.holds_ofGrants]
  simp only [List.mem_cons, List.mem_map, Prod.ext_iff]
  grind

theorem roles_of_oracle {feeds : FeedBook} {o : Oracle} (h : plan.oracle feeds = .ok o) :
    o.roles = plan.operators [⟨metaTokenId⟩, ⟨tvlManagerId⟩] := by
  simp only [oracle, except_bind_eq_ok, Oracle.new, refuse_eq_ok, Except.ok.injEq] at h
  obtain ⟨blank, ⟨-, -, rfl⟩, h⟩ := h
  split at h
  next o' hset =>
    obtain rfl := Except.ok.inj h
    obtain ⟨-, -, -, -, rfl⟩ := Oracle.setAssetSources_eq_ok.1 hset
    rfl
  next => cases h

end Plan

namespace Protocol

variable {p q r : Protocol} {op : Operation} {out : Outcome} {plan : Plan} {clock : Clock}

/-- At every gate, the staff of the plan and nobody else holds the roles. -/
def Staffed (plan : Plan) (p : Protocol) : Prop :=
  ∀ gate roles, Gate.roles p gate = .ok roles →
    ∀ role a, roles.holds role a = true ↔ a ∈ plan.staff gate role

theorem Staffed.congr (h : Staffed plan p) (hsame : SameRoles p q) : Staffed plan q := by
  intro gate roles hroles
  rw [hsame.roles] at hroles
  exact h gate roles hroles

theorem staffed_of_deploy (h : Protocol.deploy plan clock = .ok p) :
    Staffed plan p ∧ p.metaToken.address = ⟨metaTokenId⟩ := by
  have hcalled : ∀ a s, p.pool a = .ok s → s.roles = plan.operators [⟨metaTokenId⟩] := by
    intro a s hs
    obtain ⟨pool, -, -, hnew⟩ := pool_of_deploy h hs
    obtain ⟨-, -, -, rfl⟩ := Pool.new_eq_ok.1 hnew
    rfl
  simp only [Protocol.deploy, except_bind_eq_ok, except_pure_eq_ok] at h
  obtain ⟨_, -, base, -, _, -, ⟨tokens, feeds⟩, -, o, horacle, ⟨pools, registry⟩, -, rfl⟩ := h
  refine ⟨?_, rfl⟩
  intro gate roles hroles role a
  cases gate with
  | oracle =>
    obtain rfl := Except.ok.inj hroles
    rw [Plan.roles_of_oracle horacle, Plan.holds_operators]
    cases role <;> simp [Plan.staff]
  | pool b =>
    obtain ⟨s, hs, rfl⟩ := Gate.pool_roles_eq_ok.1 hroles
    rw [hcalled b s hs, Plan.holds_operators]
    cases role <;> simp [Plan.staff]
  | metaToken =>
    obtain rfl := Except.ok.inj hroles
    rw [show (MetaToken.new ⟨metaTokenId⟩ ((plan.operators []).grant .lp ⟨plan.lpSafe⟩)).roles =
      (plan.operators []).grant .lp ⟨plan.lpSafe⟩ from rfl, RoleTable.holds_grant,
      Plan.holds_operators]
    cases role <;> simp [Plan.staff]
  | lpAccount =>
    obtain rfl := Except.ok.inj hroles
    rw [Plan.holds_operators]
    cases role <;> simp [Plan.staff]
  | allocation =>
    obtain rfl := Except.ok.inj hroles
    rw [show (Allocation.new (plan.operators [⟨metaTokenId⟩])).roles =
      plan.operators [⟨metaTokenId⟩] from rfl, Plan.holds_operators]
    cases role <;> simp [Plan.staff]

theorem staffed_run (h : Protocol.deploy plan clock = .ok p) (ops : List Operation) :
    Staffed plan (p.run ops) := (staffed_of_deploy h).1.congr (sameRoles_run p ops)

/-! ## Components that call one another -/

/-- The meta shares hold the contract role at every gate but their own. -/
def Linked (p : Protocol) : Prop :=
  ∀ gate roles, gate ≠ .metaToken → Gate.roles p gate = .ok roles →
    roles.holds .contract p.metaToken.address = true

theorem Linked.congr (h : Linked p) (hsame : SameRoles p q) : Linked q := by
  intro gate roles hgate hroles
  rw [hsame.roles] at hroles
  rw [hsame.metaAddress]
  exact h gate roles hgate hroles

/-- In a linked state the meta shares may call the component behind any other gate. -/
theorem Linked.authorize {roles : RoleTable} (hp : Linked p) (gate : Gate) (permission : Permission)
    (hgate : gate ≠ .metaToken) (hroles : gate.roles p = .ok roles)
    (hpermission : permission.role = .contract) :
    roles.authorize p.metaToken.address permission = .ok () := by
  rw [RoleTable.authorize_eq_ok, hpermission]
  exact hp gate roles hgate hroles

theorem linked_of_deploy (h : Protocol.deploy plan clock = .ok p) : Linked p := by
  obtain ⟨hstaffed, haddress⟩ := staffed_of_deploy h
  intro gate roles hgate hroles
  rw [hstaffed gate roles hroles, haddress]
  cases gate <;> simp [Plan.staff] at hgate ⊢

theorem Reachable.linked (h : Reachable p) : Linked p :=
  h.invariant (fun _ _ _ => linked_of_deploy) fun _ _ _ _ hp hok => hp.congr (sameRoles_of_ok hok)

end Protocol

end MetaPool
