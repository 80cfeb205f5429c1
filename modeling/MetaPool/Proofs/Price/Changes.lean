import MetaPool.Proofs.Price.Setters
import MetaPool.Proofs.Step.Success

/-!
# What an operation does to the oracle

An operation that writes the oracle changes one part of it, and what it writes there has passed a check
of its own (`Oracle.Change`). Whatever holds of the oracle throughout a history is one case analysis over
these changes. A rebalance changes the lock alone (`oracle_of_rebalance`).
-/

namespace MetaPool

/-- The parts of the oracle that an operation may change. -/
inductive Oracle.Change (op : Operation) (clock : Clock) (feeds : FeedBook) (o : Oracle) :
    Oracle → Prop where
  | lock (lockEnd : UInt64) (h : o.lockEnd ≤ lockEnd) : Change op clock feeds o { o with lockEnd }
  | unlock (caller : Address) (hop : op = .unlockOracle caller) :
      Change op clock feeds o { o with lockEnd := clock.height }
  | setTvl (manual : Override) (h : manual.setAt = clock.height) :
      Change op clock feeds o { o with tvlOverride := some manual }
  | unsetTvl : Change op clock feeds o { o with tvlOverride := none }
  | setAssetValue (asset : Address) (manual : Override) (h : manual.setAt = clock.height) :
      Change op clock feeds o { o with assetOverrides := o.assetOverrides.insert asset manual }
  | unsetAssetValue (asset : Address) :
      Change op clock feeds o { o with assetOverrides := o.assetOverrides.erase asset }
  | setTvlSource (source : Address) (h : feeds.contains source = true) :
      Change op clock feeds o { o with tvlSource := source }
  | setAssetSources (l : List (Address × Address)) (h : ∀ e ∈ l, feeds.contains e.2 = true) :
      Change op clock feeds o { o with assetSources := pointed o.assetSources l }
  | setStalePeriod (period : Int64) (h : 0 < period) :
      Change op clock feeds o { o with stalePeriod := period }
  | setLockPeriod (blocks : UInt64) : Change op clock feeds o { o with lockPeriod := blocks }

/-- No operation hands out a role of the oracle. -/
theorem Oracle.Change.roles {op : Operation} {clock : Clock} {feeds : FeedBook} {o o' : Oracle}
    (h : o.Change op clock feeds o') : o'.roles = o.roles := by
  cases h <;> rfl

namespace Operation

open Protocol

variable {p q : Protocol} {op : Operation} {out : Outcome}

/-- A rebalance locks the oracle for its lock period, which is no earlier than the lock before. -/
theorem oracle_of_rebalance (hop : op.isRebalance = true) (h : op.perform p = .ok out q) :
    p.oracle.lockEnd ≤ addHeights p.clock.height p.oracle.lockPeriod ∧
      q.oracle = { p.oracle with lockEnd := addHeights p.clock.height p.oracle.lockPeriod } := by
  obtain ⟨r, hr, hlock⟩ : ∃ r, Frame [.tokens, .metaToken, .allocation] p r ∧
      lockAfterMove r = .ok () q := by
    obtain ⟨pools, amounts, hbatch | hbatch⟩ := batch_of_ok hop h
    · exact hbatch.lock (within_mintAndSend (by decide) (by decide))
    · exact hbatch.lock (within_burnAndReturn (by decide) (by decide))
  obtain ⟨oracle, hok, rfl⟩ := lockAfterMove_eq_ok.1 hlock
  obtain ⟨-, hle, rfl⟩ := Oracle.lock_eq_ok.1 hok
  have hclock : r.clock = p.clock := hr .clock (by decide)
  have horacle : r.oracle = p.oracle := hr .oracle (by decide)
  rw [hclock, horacle] at hle ⊢
  exact ⟨UInt64.not_lt.1 hle, rfl⟩

end Operation

end MetaPool
