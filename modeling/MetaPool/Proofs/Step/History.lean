import MetaPool.Proofs.View
import MetaPool.Protocol.Deploy
import MetaPool.Protocol.Operation

/-!
# Histories

A history is a list of operations. Each runs on whatever state the one before it left, also if that
one failed. `Reachable` holds of every state that some history leads to from some deployment.

    Reachable p → Reachable (p.run ops)                             (Reachable.run)
-/

namespace MetaPool

namespace Operation

/-- Whether an operation fails. -/
def fails (op : Operation) (p : Protocol) : Bool :=
  match op.perform p with
  | .ok _ _ => false
  | .error _ _ => true

theorem fails_iff {op : Operation} {p : Protocol} :
    op.fails p = true ↔ ∃ fault q, op.perform p = .error fault q := by
  unfold fails
  cases op.perform p <;> simp

/-- The account on whose behalf an operation runs. Nobody is asked to pass the time, to publish or to
credit tokens, and the owner of an allowance is no caller. -/
def caller? : Operation → Option Address
  | passBlocks _ | passTime _ | mine _ _ | publish _ _ | publishTvl _ | publishPrice _ _
  | openFeed _ _ | mintTokens _ _ _ | approve _ _ _ _ | takeLog => none
  | deposit caller _ _ | redeem caller _ _ | sendToLpAccount caller _ _ | returnToPool caller _ _
  | setPoolPaused caller _ _ | setDepositLock caller _ _ | setRedemptionLock caller _ _
  | setReservePercentage caller _ _ | setWithdrawFee caller _ _ | setArbitrageFee caller _ _ _
  | sendSurplus caller _ | recallShortfall caller _ | sendByHand caller _ _
  | recallByHand caller _ _ | lockOracle caller | lockOracleFor caller _ | unlockOracle caller
  | setTvlOverride caller _ _ | unsetTvlOverride caller | setAssetOverride caller _ _ _
  | unsetAssetOverride caller _ | setTvlSource caller _ | setAssetSource caller _ _
  | setAssetSources caller _ _ | setStalePeriod caller _ | setLockPeriod caller _ => some caller

/-- Whether an operation moves capital in a batch. -/
def isRebalance : Operation → Bool
  | sendSurplus _ _ | recallShortfall _ _ | sendByHand _ _ _ | recallByHand _ _ _ => true
  | _ => false

/-- Whether an operation is an unlock of the oracle that succeeds. -/
def liftsLock (op : Operation) (p : Protocol) : Bool :=
  match op with
  | unlockOracle _ => !op.fails p
  | _ => false

end Operation

namespace Protocol

/-- The state after a history. -/
def run (p : Protocol) (ops : List Operation) : Protocol := ops.foldl after p

theorem after_of_ok {p q : Protocol} {op : Operation} {outcome : Outcome}
    (h : op.perform p = .ok outcome q) : p.after op = q := by
  simp only [after, h]

theorem perform_of_not_fails {p : Protocol} {op : Operation} (h : op.fails p = false) :
    ∃ outcome, op.perform p = .ok outcome (p.after op) := by
  unfold Operation.fails at h
  unfold after
  cases hop : op.perform p with
  | ok outcome q => exact ⟨outcome, rfl⟩
  | error fault q => simp [hop] at h

/-- A state that some history leads to from some deployment. -/
inductive Reachable : Protocol → Prop where
  | deploy {plan : Plan} {clock : Clock} {p : Protocol} (h : Protocol.deploy plan clock = .ok p) :
      Reachable p
  | step {p : Protocol} (op : Operation) (h : Reachable p) : Reachable (p.after op)

theorem Reachable.run {p : Protocol} (h : Reachable p) (ops : List Operation) :
    Reachable (p.run ops) := by
  induction ops generalizing p with
  | nil => exact h
  | cons op ops ih => exact ih (h.step op)

/-! ## The default deployment -/

theorem deploy_default_isSome : (Protocol.deploy default default).toOption.isSome := by
  decide +kernel

/-- The default plan, deployed at the default clock. -/
def initial : Protocol := (Protocol.deploy default default).toOption.get deploy_default_isSome

theorem deploy_default : Protocol.deploy default default = .ok initial :=
  eq_ok_of_toOption (Option.some_get _).symm

theorem reachable_initial : Reachable initial := .deploy deploy_default

/-- Two pools with idle capital. -/
def twoIdle : Protocol :=
  initial.run [.mintTokens ⟨"USDC"⟩ ⟨"usdcPool"⟩ 600, .mintTokens ⟨"DAI"⟩ ⟨"daiPool"⟩ 7000000000000]

end Protocol

end MetaPool
