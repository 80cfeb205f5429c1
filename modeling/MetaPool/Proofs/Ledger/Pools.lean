import MetaPool.Proofs.Collection.Totals
import MetaPool.Proofs.Step.Success

/-!
# What an operation does to the pools

No operation deploys or removes a pool, and none changes more than one. What it changes there is a
deposit's shares, a redemption's shares or, for a control, locks and terms alone.

    q.pools = p.pools ∨ q.pools = p.pools.insert a state'           (pools_of_ok)
-/

namespace MetaPool

namespace Pool

/-- What a control leaves alone: all but locks and terms. -/
structure Controlled (s s' : Pool) : Prop where
  address : s'.address = s.address
  underlyer : s'.underlyer = s.underlyer
  roles : s'.roles = s.roles
  shares : s'.shares = s.shares
  lastDeposit : s'.lastDeposit = s.lastDeposit

/-- What one operation does to one pool. Only a deposit and a redemption of the caller change the
shares, and they change those of the caller; only a pause or its end changes whether the pool is paused. -/
inductive Change (op : Operation) (a : Address) (s s' : Pool) : Prop where
  | deposit (caller : Address) (amount shares : Nat) (time : Int64)
      (hop : op = .deposit caller a amount) (h : s.addDeposit caller shares time = .ok s')
  | redeem (caller : Address) (shares : Nat) (hop : op = .redeem caller a shares)
      (h : s.takeShares caller shares = .ok s')
  | control (h : Controlled s s') (hpaused : s'.locks.paused = s.locks.paused ∨
      ∃ caller, op = .setPoolPaused caller a s'.locks.paused)

variable {s s' : Pool} {caller : Address}

theorem addDeposit_eq_ok {holder : Address} {shares : Nat} {time : Int64} :
    s.addDeposit holder shares time = .ok s' ↔
      ∃ book, s.shares.mint holder shares = .ok book ∧
        s' = { s with shares := book, lastDeposit := s.lastDeposit.insert holder time } := by
  simp only [addDeposit, except_bind_eq_ok, except_pure_eq_ok]

theorem takeShares_eq_ok {holder : Address} {shares : Nat} :
    s.takeShares holder shares = .ok s' ↔
      ∃ book, s.shares.burn holder shares = .ok book ∧ s' = { s with shares := book } := by
  simp only [takeShares, except_bind_eq_ok, except_pure_eq_ok]

/-! ## Guards -/

theorem requireRunning_eq_ok : s.requireRunning = .ok () ↔ s.locks.paused = false := by
  unfold requireRunning
  rw [refuse_eq_ok]
  simp

theorem running_of_depositsOpen (h : s.requireDepositsOpen = .ok ()) : s.locks.paused = false :=
  requireRunning_eq_ok.1 (except_check_eq_ok.1 h).1

theorem requireRedemptionsOpen_eq_ok :
    s.requireRedemptionsOpen = .ok () ↔ s.locks.paused = false ∧ s.locks.redemptions = false := by
  unfold requireRedemptionsOpen
  rw [except_check_eq_ok, requireRunning_eq_ok, refuse_eq_ok]
  simp [except_pure_eq_ok]

theorem running_of_redemptionsOpen (h : s.requireRedemptionsOpen = .ok ()) : s.locks.paused = false :=
  (requireRedemptionsOpen_eq_ok.1 h).1

theorem running_of_authorizeSend (h : s.authorizeSend caller = .ok ()) : s.locks.paused = false :=
  requireRunning_eq_ok.1 (except_check_eq_ok.1 h).2

/-! ## Controls -/

theorem setPaused_eq_ok {paused : Bool} : s.setPaused caller paused = .ok s' ↔
    s.roles.authorize caller .pausePool = .ok () ∧ s' = { s with locks.paused := paused } := by
  simp only [setPaused, except_check_eq_ok, except_pure_eq_ok]

theorem setDepositLock_eq_ok {locked : Bool} : s.setDepositLock caller locked = .ok s' ↔
    s.roles.authorize caller .lockDeposits = .ok () ∧ s' = { s with locks.deposits := locked } := by
  simp only [setDepositLock, except_check_eq_ok, except_pure_eq_ok]

theorem setRedemptionLock_eq_ok {locked : Bool} : s.setRedemptionLock caller locked = .ok s' ↔
    s.roles.authorize caller .lockRedemptions = .ok () ∧
      s' = { s with locks.redemptions := locked } := by
  simp only [setRedemptionLock, except_check_eq_ok, except_pure_eq_ok]

theorem setTerms_eq_ok {terms : PoolTerms} :
    s.setTerms terms = .ok s' ↔ terms.validate = .ok () ∧ s' = { s with terms } := by
  simp only [setTerms, except_check_eq_ok, except_pure_eq_ok]

theorem setReservePercentage_eq_ok {percentage : Nat} :
    s.setReservePercentage caller percentage = .ok s' ↔
      s.roles.authorize caller .setReservePercentage = .ok () ∧
        s.setTerms { s.terms with reservePercentage := percentage } = .ok s' := by
  simp only [setReservePercentage, except_check_eq_ok]

theorem setWithdrawFee_eq_ok {bps : Nat} : s.setWithdrawFee caller bps = .ok s' ↔
    s.roles.authorize caller .setWithdrawFee = .ok () ∧
      s.setTerms { s.terms with withdrawFeeBps := bps } = .ok s' := by
  simp only [setWithdrawFee, except_check_eq_ok]

theorem setArbitrageFee_eq_ok {bps : Nat} {period : Int64} :
    s.setArbitrageFee caller bps period = .ok s' ↔
      s.roles.authorize caller .setArbitrageFee = .ok () ∧
        s.setTerms { s.terms with arbitrageFeeBps := bps, arbitragePeriod := period } = .ok s' := by
  simp only [setArbitrageFee, except_check_eq_ok]

theorem controlled_setPaused {paused : Bool} (h : s.setPaused caller paused = .ok s') :
    Controlled s s' := by
  obtain ⟨-, rfl⟩ := setPaused_eq_ok.1 h
  exact ⟨rfl, rfl, rfl, rfl, rfl⟩

theorem controlled_setDepositLock {locked : Bool} (h : s.setDepositLock caller locked = .ok s') :
    Controlled s s' := by
  obtain ⟨-, rfl⟩ := setDepositLock_eq_ok.1 h
  exact ⟨rfl, rfl, rfl, rfl, rfl⟩

theorem controlled_setRedemptionLock {locked : Bool}
    (h : s.setRedemptionLock caller locked = .ok s') :
    Controlled s s' := by
  obtain ⟨-, rfl⟩ := setRedemptionLock_eq_ok.1 h
  exact ⟨rfl, rfl, rfl, rfl, rfl⟩

theorem controlled_setTerms {terms : PoolTerms} (h : s.setTerms terms = .ok s') :
    Controlled s s' := by
  obtain ⟨-, rfl⟩ := setTerms_eq_ok.1 h
  exact ⟨rfl, rfl, rfl, rfl, rfl⟩

end Pool

namespace Protocol

variable {p q : Protocol}

theorem pool_eq_ok {a : Address} {s : Pool} : p.pool a = .ok s ↔ p.pools.get? a = some s := by
  unfold pool
  cases p.pools.get? a <;> simp

theorem pool_of_eq (h : q.pools = p.pools) (b : Address) : q.pool b = p.pool b := by
  simp only [pool, h]

theorem pool_of_insert {a : Address} {s : Pool} (h : q.pools = p.pools.insert a s) (b : Address) :
    q.pool b = if b = a then .ok s else p.pool b := by
  simp only [pool, h, OrderedMap.get?_insert]
  by_cases hb : b = a <;> simp [hb]

/-- The pool is deployed and not paused. -/
def Running (p : Protocol) (a : Address) : Prop := ∃ s, p.pool a = .ok s ∧ s.locks.paused = false

theorem Running.congr {a : Address} (h : q.pools = p.pools) (hrunning : q.Running a) : p.Running a := by
  obtain ⟨s, hs, hpaused⟩ := hrunning
  exact ⟨s, by rwa [← pool_of_eq h], hpaused⟩

/-- At most one pool changes, and it changes as one of the three kinds says. -/
def PoolStep (op : Operation) (p q : Protocol) : Prop :=
  q.pools = p.pools ∨
    ∃ a s s', p.pool a = .ok s ∧ s.Change op a s' ∧ q.pools = p.pools.insert a s'

theorem poolStep_of_control {op : Operation} {pool : Address} {change : Pool → Except Fault Pool}
    {event : Event} (hchange : ∀ s s', change s = .ok s' → Pool.Controlled s s')
    (hpaused : ∀ s s', change s = .ok s' → s'.locks.paused = s.locks.paused ∨
      ∃ caller, op = .setPoolPaused caller pool s'.locks.paused)
    (h : (atomically do onPool pool change; logEvent event) p = .ok () q) : PoolStep op p q := by
  obtain ⟨s, s', hs, hs', rfl⟩ := controlPool_eq_ok.1 h
  exact .inr ⟨pool, s, s', hs, .control (hchange s s' hs') (hpaused s s' hs'), rfl⟩

theorem poolStep_of_terms {op : Operation} {pool : Address} {change : Pool → Except Fault Pool}
    {event : Event} (hchange : ∀ s s', change s = .ok s' → ∃ terms, s.setTerms terms = .ok s')
    (h : (atomically do onPool pool change; logEvent event) p = .ok () q) : PoolStep op p q := by
  refine poolStep_of_control (fun s s' hs => ?_) (fun s s' hs => ?_) h
  · obtain ⟨terms, hset⟩ := hchange s s' hs
    exact Pool.controlled_setTerms hset
  · obtain ⟨terms, hset⟩ := hchange s s' hs
    obtain ⟨-, rfl⟩ := Pool.setTerms_eq_ok.1 hset
    exact .inl rfl

end Protocol

namespace Operation

open Protocol

theorem pools_of_ok {op : Operation} {p q : Protocol} {out : Outcome}
    (h : op.perform p = .ok out q) : PoolStep op p q := by
  by_cases hw : .pools ∈ op.writes
  · cases op with
    | deposit caller pool amount =>
      obtain ⟨_, -, h⟩ := reply_eq_ok.1 h
      obtain ⟨s, s', _, _, hs, -, -, -, -, -, hadd, -, rfl⟩ := deposit_eq_ok.1 h
      exact .inr ⟨pool, s, s', hs, .deposit _ _ _ _ rfl hadd, rfl⟩
    | redeem caller pool shares =>
      obtain ⟨_, -, h⟩ := reply_eq_ok.1 h
      obtain ⟨s, s', _, _, _, _, hs, -, -, -, -, -, -, -, htake, -, -, rfl⟩ := redeem_eq_ok.1 h
      exact .inr ⟨pool, s, s', hs, .redeem _ _ rfl htake, rfl⟩
    | setPoolPaused caller pool paused =>
      refine poolStep_of_control (fun _ _ => Pool.controlled_setPaused) (fun s s' hs => ?_)
        (complete_eq_ok.1 h).2
      obtain ⟨-, rfl⟩ := Pool.setPaused_eq_ok.1 hs
      exact .inr ⟨caller, rfl⟩
    | setDepositLock =>
      refine poolStep_of_control (fun _ _ => Pool.controlled_setDepositLock) (fun s s' hs => ?_)
        (complete_eq_ok.1 h).2
      obtain ⟨-, rfl⟩ := Pool.setDepositLock_eq_ok.1 hs
      exact .inl rfl
    | setRedemptionLock =>
      refine poolStep_of_control (fun _ _ => Pool.controlled_setRedemptionLock) (fun s s' hs => ?_)
        (complete_eq_ok.1 h).2
      obtain ⟨-, rfl⟩ := Pool.setRedemptionLock_eq_ok.1 hs
      exact .inl rfl
    | setReservePercentage =>
      exact poolStep_of_terms (fun _ _ hs => ⟨_, (Pool.setReservePercentage_eq_ok.1 hs).2⟩)
        (complete_eq_ok.1 h).2
    | setWithdrawFee =>
      exact poolStep_of_terms (fun _ _ hs => ⟨_, (Pool.setWithdrawFee_eq_ok.1 hs).2⟩)
        (complete_eq_ok.1 h).2
    | setArbitrageFee =>
      exact poolStep_of_terms (fun _ _ hs => ⟨_, (Pool.setArbitrageFee_eq_ok.1 hs).2⟩)
        (complete_eq_ok.1 h).2
    | _ => simp [writes, batchWrites] at hw
  · exact .inl (frame_of_ok h .pools hw)

end Operation

namespace Protocol

variable {p q : Protocol}

theorem mem_keys_of_poolStep {op : Operation} (h : PoolStep op p q) (b : Address) :
    b ∈ q.pools.keys ↔ b ∈ p.pools.keys := by
  rcases h with hpools | ⟨a, s, s', hs, -, hpools⟩
  · rw [hpools]
  · simp only [hpools, OrderedMap.mem_keys, OrderedMap.get?_insert]
    by_cases hb : b = a
    · simp [hb, pool_eq_ok.1 hs]
    · simp [hb]

/-- What no change of a pool bears on is the same at every pool. -/
theorem PoolStep.map_eq {β : Type} {f : Pool → β} {op : Operation} (h : PoolStep op p q)
    (hf : ∀ a s s', s.Change op a s' → f s' = f s) (b : Address) :
    (q.pool b).map f = (p.pool b).map f := by
  rcases h with hpools | ⟨a, s, s', hs, hchange, hpools⟩
  · rw [pool_of_eq hpools]
  · rw [pool_of_insert hpools]
    by_cases hb : b = a
    · subst hb
      rw [if_pos rfl, hs]
      exact congrArg Except.ok (hf b s s' hchange)
    · rw [if_neg hb]

/-- No operation deploys or removes a pool. -/
theorem mem_keys_after (p : Protocol) (op : Operation) (b : Address) :
    b ∈ (p.after op).pools.keys ↔ b ∈ p.pools.keys := by
  rcases ok_or_unchanged p op with ⟨out, hop⟩ | ⟨-, hsame⟩
  · exact mem_keys_of_poolStep (Operation.pools_of_ok hop) b
  · rw [hsame]

end Protocol

end MetaPool
