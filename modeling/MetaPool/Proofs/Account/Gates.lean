import MetaPool.Proofs.Account.Roles
import MetaPool.Proofs.Failure
import MetaPool.Proofs.Ledger.Pools
import MetaPool.Proofs.Price.Changes

/-!
# The gates of the operations

A gated operation is let through by one component, which asks a table of its own for one permission
(`Operation.gate?`). If the operation succeeds, the caller has that permission there (`holds_of_ok`).
A control changes at its gate what it says and leaves the roles alone. With the lock that a rebalance
leaves behind, these are all the changes of the oracle:

    op.perform p = .ok out q →
      q.oracle = p.oracle ∨ p.oracle.Change op p.clock p.feeds q.oracle           (oracle_change)
-/

namespace MetaPool

/-- A component that asks who calls. -/
inductive Gate where
  | oracle
  | pool (address : Address)
  | metaToken
  | lpAccount
  | allocation
deriving DecidableEq

/-- The table that the component asks. -/
def Gate.roles (p : Protocol) : Gate → Except Fault RoleTable
  | oracle => .ok p.oracle.roles
  | pool address => (p.pool address).map (·.roles)
  | metaToken => .ok p.metaToken.roles
  | lpAccount => .ok p.lpAccount.roles
  | allocation => .ok p.allocation.roles

theorem Gate.pool_roles_eq_ok {p : Protocol} {a : Address} {roles : RoleTable} :
    Gate.roles p (.pool a) = .ok roles ↔ ∃ s, p.pool a = .ok s ∧ s.roles = roles := by
  simp only [Gate.roles]
  cases p.pool a <;> simp [Except.map]

/-- The gate of an operation and the permission that it asks there. The environment, depositors and
readers of the log are not asked, and nobody lists a token but from within a batch. -/
def Operation.gate? : Operation → Option (Gate × Permission)
  | passBlocks _ | passTime _ | mine _ _ | publish _ _ | publishTvl _ | publishPrice _ _
  | openFeed _ _ | mintTokens _ _ _ | approve _ _ _ _ | takeLog | deposit _ _ _
  | redeem _ _ _ => none
  | sendToLpAccount _ pool _ => some (.pool pool, .sendToLpAccount)
  | returnToPool _ _ _ => some (.lpAccount, .returnToPool)
  | setPoolPaused _ pool _ => some (.pool pool, .pausePool)
  | setDepositLock _ pool _ => some (.pool pool, .lockDeposits)
  | setRedemptionLock _ pool _ => some (.pool pool, .lockRedemptions)
  | setReservePercentage _ pool _ => some (.pool pool, .setReservePercentage)
  | setWithdrawFee _ pool _ => some (.pool pool, .setWithdrawFee)
  | setArbitrageFee _ pool _ _ => some (.pool pool, .setArbitrageFee)
  | sendSurplus _ _ => some (.metaToken, .sendSurplus)
  | recallShortfall _ _ => some (.metaToken, .recallShortfall)
  | sendByHand _ _ _ => some (.metaToken, .sendByHand)
  | recallByHand _ _ _ => some (.metaToken, .recallByHand)
  | lockOracle _ | lockOracleFor _ _ => some (.oracle, .lockOracle)
  | unlockOracle _ => some (.oracle, .unlockOracle)
  | setTvlOverride _ _ _ => some (.oracle, .setTvlOverride)
  | unsetTvlOverride _ => some (.oracle, .unsetTvlOverride)
  | setAssetOverride _ _ _ _ => some (.oracle, .setAssetOverride)
  | unsetAssetOverride _ _ => some (.oracle, .unsetAssetOverride)
  | setTvlSource _ _ => some (.oracle, .setTvlSource)
  | setAssetSource _ _ _ => some (.oracle, .setAssetSource)
  | setAssetSources _ _ _ => some (.oracle, .setAssetSources)
  | setStalePeriod _ _ => some (.oracle, .setStalePeriod)
  | setLockPeriod _ _ => some (.oracle, .setDefaultLockPeriod)

/-- A token is listed for a caller with the permission, if it has an address and is not listed yet. -/
theorem Allocation.register_eq_ok {a a' : Allocation} {caller : Address} {data : AllocatedToken} :
    a.register caller data = .ok a' ↔ a.roles.authorize caller .registerToken = .ok () ∧
      ¬ data.token.isEmpty = true ∧ ¬ a.isRegistered data.token = true ∧
      a' = { a with tokens := a.tokens.insert data.token data } := by
  simp only [register, except_check_eq_ok, refuse_eq_ok, except_pure_eq_ok]

/-- What the listing of a token fails with, for a caller with the permission. -/
theorem Allocation.fault_of_register {a : Allocation} {caller : Address} {data : AllocatedToken}
    {fault : Fault} (hok : a.roles.authorize caller .registerToken = .ok ())
    (h : a.register caller data = .error fault) :
    data.token.isEmpty = true ∧ fault = .invalidAddress ∨
      a.isRegistered data.token = true ∧ fault = .alreadyRegistered data.token := by
  rcases except_bind_eq_error.1 h with hcaller | ⟨⟨⟩, -, h⟩
  · rw [hok] at hcaller
    cases hcaller
  · split at h
    next hempty => exact .inl ⟨hempty, (Except.error.inj h).symm⟩
    next =>
      split at h
      next hlisted => exact .inr ⟨hlisted, (Except.error.inj h).symm⟩
      next => cases h

/-! ## Controls -/

/-- What a control does to the oracle, if the caller has the permission: it leaves the roles alone. -/
structure Oracle.Permitted (caller : Address) (permission : Permission) (o o' : Oracle) :
    Prop where
  holds : o.roles.holds permission.role caller = true
  roles : o'.roles = o.roles

/-- What a control does to a pool, if the caller has the permission: new terms are valid. -/
structure Pool.Permitted (caller : Address) (permission : Permission) (s s' : Pool) : Prop where
  holds : s.roles.holds permission.role caller = true
  controlled : Controlled s s'
  terms : s'.terms = s.terms ∨ s'.terms.validate = .ok ()

theorem Pool.permitted_setTerms {s s' : Pool} {caller : Address} {permission : Permission}
    {terms : PoolTerms} (hok : s.roles.authorize caller permission = .ok ())
    (h : s.setTerms terms = .ok s') : s.Permitted caller permission s' := by
  have hcontrolled := controlled_setTerms h
  obtain ⟨hvalid, rfl⟩ := setTerms_eq_ok.1 h
  exact ⟨RoleTable.authorize_eq_ok.1 hok, hcontrolled, .inr hvalid⟩

namespace Operation

open Protocol RoleTable

variable {op : Operation} {p q : Protocol} {out : Outcome} {permission : Permission} {a : Address}

/-- A control of the oracle changes one part of it. -/
theorem oracleControl_of_ok (hgate : op.gate? = some (.oracle, permission))
    (h : op.perform p = .ok out q) :
    ∃ caller, op.caller? = some caller ∧ p.oracle.roles.holds permission.role caller = true ∧
      p.oracle.Change op p.clock p.feeds q.oracle := by
  cases op with
  | lockOracle caller =>
    obtain ⟨o, hset, rfl⟩ := lock_eq_ok.1 (atomically_eq_ok.1 (complete_eq_ok.1 h).2)
    obtain ⟨hok, hle, rfl⟩ := Oracle.lock_eq_ok.1 hset
    cases hgate
    exact ⟨caller, rfl, authorize_eq_ok.1 hok, .lock _ (UInt64.not_lt.1 hle)⟩
  | lockOracleFor caller blocks =>
    obtain ⟨o, hset, rfl⟩ := lock_eq_ok.1 (atomically_eq_ok.1 (complete_eq_ok.1 h).2)
    obtain ⟨hok, hle, rfl⟩ := Oracle.lockFor_eq_ok.1 hset
    cases hgate
    exact ⟨caller, rfl, authorize_eq_ok.1 hok, .lock _ (UInt64.not_lt.1 hle)⟩
  | unlockOracle caller =>
    obtain ⟨_, o, hset, rfl⟩ := controlOracle_eq_ok.1 (complete_eq_ok.1 h).2
    obtain ⟨hok, rfl⟩ := Oracle.unlock_eq_ok.1 hset
    cases hgate
    exact ⟨caller, rfl, authorize_eq_ok.1 hok, .unlock caller rfl⟩
  | setTvlOverride caller value duration =>
    obtain ⟨_, o, hset, rfl⟩ := controlOracle_eq_ok.1 (complete_eq_ok.1 h).2
    obtain ⟨hok, rfl, rfl⟩ := Oracle.setTvl_eq_ok.1 hset
    cases hgate
    exact ⟨caller, rfl, authorize_eq_ok.1 hok, .setTvl _ rfl⟩
  | unsetTvlOverride caller =>
    obtain ⟨_, o, hset, rfl⟩ := controlOracle_eq_ok.1 (complete_eq_ok.1 h).2
    obtain ⟨hok, -, rfl⟩ := Oracle.unsetTvl_eq_ok.1 hset
    cases hgate
    exact ⟨caller, rfl, authorize_eq_ok.1 hok, .unsetTvl⟩
  | setAssetOverride caller asset value duration =>
    obtain ⟨_, o, hset, rfl⟩ := controlOracle_eq_ok.1 (complete_eq_ok.1 h).2
    obtain ⟨hok, -, rfl, rfl⟩ := Oracle.setAssetValue_eq_ok.1 hset
    cases hgate
    exact ⟨caller, rfl, authorize_eq_ok.1 hok, .setAssetValue _ _ rfl⟩
  | unsetAssetOverride caller asset =>
    obtain ⟨_, o, hset, rfl⟩ := controlOracle_eq_ok.1 (complete_eq_ok.1 h).2
    obtain ⟨hok, -, rfl⟩ := Oracle.unsetAssetValue_eq_ok.1 hset
    cases hgate
    exact ⟨caller, rfl, authorize_eq_ok.1 hok, .unsetAssetValue _⟩
  | setTvlSource caller source =>
    obtain ⟨_, o, hset, rfl⟩ := controlOracle_eq_ok.1 (complete_eq_ok.1 h).2
    obtain ⟨hok, hfeed, rfl⟩ := Oracle.setTvlSource_eq_ok.1 hset
    cases hgate
    exact ⟨caller, rfl, authorize_eq_ok.1 hok, .setTvlSource _ hfeed⟩
  | setAssetSource caller asset source =>
    obtain ⟨_, o, hset, rfl⟩ := controlOracle_eq_ok.1 (complete_eq_ok.1 h).2
    obtain ⟨hok, -, hfeed, rfl⟩ := Oracle.setAssetSource_eq_ok.1 hset
    cases hgate
    -- one source is written as a list of one
    refine ⟨caller, rfl, authorize_eq_ok.1 hok, .setAssetSources [(asset, source)] ?_⟩
    simpa using hfeed
  | setAssetSources caller assets sources =>
    obtain ⟨o, hset, rfl⟩ := setAssetSources_eq_ok.1 (complete_eq_ok.1 h).2
    obtain ⟨hok, -, -, hfeeds, rfl⟩ := Oracle.setAssetSources_eq_ok.1 hset
    cases hgate
    exact ⟨caller, rfl, authorize_eq_ok.1 hok, .setAssetSources _ fun e he => (hfeeds e he).2⟩
  | setStalePeriod caller period =>
    obtain ⟨_, o, hset, rfl⟩ := controlOracle_eq_ok.1 (complete_eq_ok.1 h).2
    obtain ⟨hok, hpositive, rfl⟩ := Oracle.setStalePeriod_eq_ok.1 hset
    cases hgate
    exact ⟨caller, rfl, authorize_eq_ok.1 hok, .setStalePeriod _ (Int64.not_le.1 hpositive)⟩
  | setLockPeriod caller blocks =>
    obtain ⟨_, o, hset, rfl⟩ := controlOracle_eq_ok.1 (complete_eq_ok.1 h).2
    obtain ⟨hok, rfl⟩ := Oracle.setLockPeriod_eq_ok.1 hset
    cases hgate
    exact ⟨caller, rfl, authorize_eq_ok.1 hok, .setLockPeriod _⟩
  | _ => cases hgate

theorem oracle_of_ok (hgate : op.gate? = some (.oracle, permission))
    (h : op.perform p = .ok out q) :
    ∃ caller, op.caller? = some caller ∧ p.oracle.Permitted caller permission q.oracle := by
  obtain ⟨caller, hcaller, hholds, hchange⟩ := oracleControl_of_ok hgate h
  exact ⟨caller, hcaller, hholds, hchange.roles⟩

/-- The oracle is written by its controls and, for the lock, by the rebalances. -/
theorem gate_of_oracle (hop : ¬ op.isRebalance = true) (hw : .oracle ∈ op.writes) :
    ∃ permission, op.gate? = some (.oracle, permission) := by
  cases op <;> simp [writes, gate?, isRebalance] at hw hop ⊢

/-- A successful operation leaves the oracle as it is or changes one part of it. -/
theorem oracle_change (h : op.perform p = .ok out q) :
    q.oracle = p.oracle ∨ p.oracle.Change op p.clock p.feeds q.oracle := by
  by_cases hop : op.isRebalance = true
  · obtain ⟨hle, horacle⟩ := oracle_of_rebalance hop h
    rw [horacle]
    exact .inr (.lock _ hle)
  by_cases hw : .oracle ∈ op.writes
  · obtain ⟨permission, hgate⟩ := gate_of_oracle hop hw
    obtain ⟨caller, -, -, hchange⟩ := oracleControl_of_ok hgate h
    exact .inr hchange
  · exact .inl (frame_of_ok h .oracle hw)

/-- The send to the LP account is gated by the pool too, but is no control of it. -/
theorem poolControl_of_ok (hgate : op.gate? = some (.pool a, permission))
    (hsend : permission ≠ .sendToLpAccount) (h : op.perform p = .ok out q) :
    ∃ caller s s', op.caller? = some caller ∧ p.pool a = .ok s ∧ s.Permitted caller permission s' ∧
      q.pools = p.pools.insert a s' := by
  cases op with
  | setPoolPaused caller pool paused =>
    obtain ⟨s, s', hs, hset, rfl⟩ := controlPool_eq_ok.1 (complete_eq_ok.1 h).2
    obtain ⟨hok, rfl⟩ := Pool.setPaused_eq_ok.1 hset
    cases hgate
    exact ⟨caller, s, _, rfl, hs, ⟨authorize_eq_ok.1 hok, Pool.controlled_setPaused hset, .inl rfl⟩,
      rfl⟩
  | setDepositLock caller pool locked =>
    obtain ⟨s, s', hs, hset, rfl⟩ := controlPool_eq_ok.1 (complete_eq_ok.1 h).2
    obtain ⟨hok, rfl⟩ := Pool.setDepositLock_eq_ok.1 hset
    cases hgate
    exact ⟨caller, s, _, rfl, hs,
      ⟨authorize_eq_ok.1 hok, Pool.controlled_setDepositLock hset, .inl rfl⟩, rfl⟩
  | setRedemptionLock caller pool locked =>
    obtain ⟨s, s', hs, hset, rfl⟩ := controlPool_eq_ok.1 (complete_eq_ok.1 h).2
    obtain ⟨hok, rfl⟩ := Pool.setRedemptionLock_eq_ok.1 hset
    cases hgate
    exact ⟨caller, s, _, rfl, hs,
      ⟨authorize_eq_ok.1 hok, Pool.controlled_setRedemptionLock hset, .inl rfl⟩, rfl⟩
  | setReservePercentage caller pool percentage =>
    obtain ⟨s, s', hs, hset, rfl⟩ := controlPool_eq_ok.1 (complete_eq_ok.1 h).2
    obtain ⟨hok, hset⟩ := Pool.setReservePercentage_eq_ok.1 hset
    cases hgate
    exact ⟨caller, s, s', rfl, hs, Pool.permitted_setTerms hok hset, rfl⟩
  | setWithdrawFee caller pool bps =>
    obtain ⟨s, s', hs, hset, rfl⟩ := controlPool_eq_ok.1 (complete_eq_ok.1 h).2
    obtain ⟨hok, hset⟩ := Pool.setWithdrawFee_eq_ok.1 hset
    cases hgate
    exact ⟨caller, s, s', rfl, hs, Pool.permitted_setTerms hok hset, rfl⟩
  | setArbitrageFee caller pool bps period =>
    obtain ⟨s, s', hs, hset, rfl⟩ := controlPool_eq_ok.1 (complete_eq_ok.1 h).2
    obtain ⟨hok, hset⟩ := Pool.setArbitrageFee_eq_ok.1 hset
    cases hgate
    exact ⟨caller, s, s', rfl, hs, Pool.permitted_setTerms hok hset, rfl⟩
  | sendToLpAccount =>
    cases hgate
    exact absurd rfl hsend
  | _ => cases hgate

/-- The caller of a successful rebalance has its permission at the meta shares. -/
theorem rebalance_of_ok (hgate : op.gate? = some (.metaToken, permission))
    (h : op.perform p = .ok out q) :
    ∃ caller, op.caller? = some caller ∧
      p.metaToken.roles.holds permission.role caller = true := by
  cases op with
  | sendSurplus caller ids =>
    obtain ⟨_, -, h⟩ := reply_eq_ok.1 h
    cases hgate
    exact ⟨caller, rfl, authorize_eq_ok.1 (sendSurplus_eq_ok.1 h).1⟩
  | recallShortfall caller ids =>
    obtain ⟨_, -, h⟩ := reply_eq_ok.1 h
    cases hgate
    exact ⟨caller, rfl, authorize_eq_ok.1 (recallShortfall_eq_ok.1 h).1⟩
  | sendByHand caller pools amounts =>
    cases hgate
    exact ⟨caller, rfl, authorize_eq_ok.1 (sendByHand_eq_ok.1 (complete_eq_ok.1 h).2).1⟩
  | recallByHand caller pools amounts =>
    cases hgate
    exact ⟨caller, rfl, authorize_eq_ok.1 (recallByHand_eq_ok.1 (complete_eq_ok.1 h).2).1⟩
  | _ => cases hgate

/-! ## Every gate -/

/-- Whoever gets a gated operation through holds the role of its permission at its gate. -/
theorem holds_of_ok {gate : Gate} (hgate : op.gate? = some (gate, permission))
    (h : op.perform p = .ok out q) : ∃ caller roles, op.caller? = some caller ∧
      gate.roles p = .ok roles ∧ roles.holds permission.role caller = true := by
  cases gate with
  | oracle =>
    obtain ⟨caller, hcaller, hpermitted⟩ := oracle_of_ok hgate h
    exact ⟨caller, p.oracle.roles, hcaller, rfl, hpermitted.holds⟩
  | pool a =>
    by_cases hsend : permission = .sendToLpAccount
    · subst hsend
      cases op with
      | sendToLpAccount caller pool amount =>
        obtain ⟨s, _, hs, hok, -⟩ := sendToLpAccount_eq_ok.1 (complete_eq_ok.1 h).2
        cases hgate
        refine ⟨caller, s.roles, rfl, congrArg (Except.map _) hs, ?_⟩
        exact authorize_eq_ok.1 (except_check_eq_ok.1 hok).1
      | _ => cases hgate
    · obtain ⟨caller, s, _, hcaller, hs, hpermitted, -⟩ := poolControl_of_ok hgate hsend h
      exact ⟨caller, s.roles, hcaller, congrArg (Except.map _) hs, hpermitted.holds⟩
  | metaToken =>
    obtain ⟨caller, hcaller, hholds⟩ := rebalance_of_ok hgate h
    exact ⟨caller, p.metaToken.roles, hcaller, rfl, hholds⟩
  | lpAccount =>
    cases op with
    | returnToPool caller pool amount =>
      obtain ⟨hok, -⟩ := returnToPool_eq_ok.1 (complete_eq_ok.1 h).2
      cases hgate
      exact ⟨caller, p.lpAccount.roles, rfl, rfl, authorize_eq_ok.1 hok⟩
    | _ => cases hgate
  | allocation => cases op <;> cases hgate

end Operation

/-! ## Settings of pools -/

namespace Protocol

variable {p q : Protocol} {op : Operation} {out : Outcome}

/-- The terms and the locks of a pool. -/
def settings (p : Protocol) (a : Address) : Except Fault (PoolTerms × PoolLocks) :=
  (p.pool a).map fun s => (s.terms, s.locks)

/-- A deposit or a redemption changes neither the terms nor the locks. -/
theorem settings_of_ungated (hgate : op.gate? = none) (h : op.perform p = .ok out q) (b : Address) :
    q.settings b = p.settings b := by
  have hsettings {a : Address} {s s' : Pool} (hs : p.pool a = .ok s)
      (hq : q.pools = p.pools.insert a s') (hsame : (s'.terms, s'.locks) = (s.terms, s.locks)) :
      q.settings b = p.settings b := by
    unfold settings
    rw [pool_of_insert hq]
    by_cases hb : b = a
    · subst hb
      rw [if_pos rfl, hs]
      exact congrArg Except.ok hsame
    · rw [if_neg hb]
  by_cases hw : .pools ∈ op.writes
  · cases op with
    | deposit caller pool amount =>
      obtain ⟨_, -, h⟩ := Operation.reply_eq_ok.1 h
      obtain ⟨s, s', _, _, hs, -, -, -, -, -, hadd, -, rfl⟩ := deposit_eq_ok.1 h
      obtain ⟨book, -, rfl⟩ := Pool.addDeposit_eq_ok.1 hadd
      exact hsettings hs rfl rfl
    | redeem caller pool shares =>
      obtain ⟨_, -, h⟩ := Operation.reply_eq_ok.1 h
      obtain ⟨s, s', _, _, _, _, hs, -, -, -, -, -, -, -, htake, -, -, rfl⟩ := redeem_eq_ok.1 h
      obtain ⟨book, -, rfl⟩ := Pool.takeShares_eq_ok.1 htake
      exact hsettings hs rfl rfl
    | _ => simp [Operation.writes, Operation.gate?, batchWrites] at hw hgate
  · unfold settings
    rw [pool_of_eq (Operation.frame_of_ok h .pools hw)]

end Protocol

end MetaPool
