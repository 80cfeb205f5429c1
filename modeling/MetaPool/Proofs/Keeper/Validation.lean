import MetaPool.Keeper.Fault
import MetaPool.Proofs.Deployment.Validation

/-!
# What a keeper accepts

A configuration is walked for its first defect. What is accepted can be said without the walk: a well-formed
plan with pools, blocks that take time, cycles with blocks, a threshold of at most the whole, and deposits that
name a depositor and a planned pool and put something in.

    c.validate = .ok () ↔ c.WellFormed                              (Config.validate_eq_ok)

Nothing is said of how many blocks a cycle has.
-/

namespace MetaPool.Keeper

/-- A deposit of somebody's into one of the given pools. -/
structure Deposit.WellFormed (pools : List String) (d : Deposit) : Prop where
  depositor : ¬ d.depositor.isEmpty = true
  pool : d.pool ∈ pools
  amount : d.amount ≠ 0

namespace Config

/-- What validation asks of a configuration. -/
structure WellFormed (c : Config) : Prop where
  plan : c.plan.WellFormed
  pools : c.plan.pools ≠ []
  blockTime : 0 < c.blockTime
  blocksPerCycle : c.blocksPerCycle ≠ 0
  threshold : c.thresholdBps ≤ wholeBps
  deposits : ∀ d ∈ c.deposits, d.WellFormed c.poolIds

variable {c : Config}

theorem depositDefect_eq_none {pools : List String} {d : Deposit} :
    depositDefect pools d = none ↔ d.WellFormed pools := by
  have hfields : d.WellFormed pools ↔
      ¬ d.depositor.isEmpty = true ∧ d.pool ∈ pools ∧ d.amount ≠ 0 :=
    ⟨fun h => ⟨h.depositor, h.pool, h.amount⟩, fun h => ⟨h.1, h.2.1, h.2.2⟩⟩
  rw [hfields]
  unfold depositDefect
  split_ifs <;> simp_all

theorem defect?_eq_none : c.defect? = none ↔ c.WellFormed := by
  have hfields : c.WellFormed ↔ c.plan.validate = .ok () ∧ ¬ c.plan.pools.isEmpty = true ∧
      ¬ c.blockTime ≤ 0 ∧ ¬ c.blocksPerCycle = 0 ∧ ¬ c.thresholdBps > wholeBps ∧
      c.deposits.findSome? (depositDefect c.poolIds) = none := by
    rw [Plan.validate_eq_ok, List.isEmpty_iff, Int64.not_le, Nat.not_lt, List.findSome?_eq_none_iff]
    simp only [depositDefect_eq_none]
    exact ⟨fun h => ⟨h.plan, h.pools, h.blockTime, h.blocksPerCycle, h.threshold, h.deposits⟩,
      fun ⟨hplan, hpools, htime, hblocks, hthreshold, hdeposits⟩ =>
        ⟨hplan, hpools, htime, hblocks, hthreshold, hdeposits⟩⟩
  rw [hfields]
  unfold defect?
  split
  next fault hfault => simp [hfault]
  next hok =>
    rw [hok]
    split_ifs <;> simp_all

theorem validate_eq_ok : c.validate = .ok () ↔ c.WellFormed := by
  rw [← defect?_eq_none]
  unfold validate
  cases c.defect? <;> simp

/-- A cycle may have any number of blocks but none. -/
theorem WellFormed.repaced (h : c.WellFormed) {blocks : UInt64} (hblocks : blocks ≠ 0) :
    ({ c with blocksPerCycle := blocks } : Config).WellFormed :=
  ⟨h.plan, h.pools, h.blockTime, hblocks, h.threshold, h.deposits⟩

end Config

end MetaPool.Keeper
