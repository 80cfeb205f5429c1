import Mathlib
import MetaPool.Deployment.Plan
import MetaPool.Proofs.View

/-!
# What validation accepts

`Plan.validate` walks a plan and reports its first defect. What it accepts can be said without the
walk: positive periods, named operators, well-formed tokens and pools, and no name given twice.

    plan.validate = .ok () ↔ plan.WellFormed                        (Plan.validate_eq_ok)
-/

namespace MetaPool

/-- A token with a name, of few enough decimals and with a price. -/
structure TokenPlan.WellFormed (t : TokenPlan) : Prop where
  symbol : ¬ t.symbol.isEmpty = true
  decimals : t.decimals ≤ maxDecimals
  price : 0 < t.price

/-- A pool with a name of its own, for one of the given tokens and on valid terms. -/
structure PoolPlan.WellFormed (symbols : List String) (pool : PoolPlan) : Prop where
  id : ¬ pool.id.isEmpty = true
  notReserved : pool.id ∉ reservedIds
  underlyer : pool.underlyer ∈ symbols
  terms : pool.terms.validate = .ok ()

namespace Plan

/-- What validation asks of a plan. -/
structure WellFormed (plan : Plan) : Prop where
  stalePeriod : 0 < plan.stalePeriod
  adminSafe : ¬ plan.adminSafe.isEmpty = true
  emergencySafe : ¬ plan.emergencySafe.isEmpty = true
  lpSafe : ¬ plan.lpSafe.isEmpty = true
  tokens : ∀ t ∈ plan.tokens, t.WellFormed
  symbols : (plan.tokens.map (·.symbol)).Nodup
  pools : ∀ pool ∈ plan.pools, pool.WellFormed (plan.tokens.map (·.symbol))
  ids : (plan.pools.map (·.id)).Nodup

variable {symbols earlier : List String}

theorem tokenDefect_eq_none {t : TokenPlan} :
    tokenDefect earlier t = none ↔ t.WellFormed ∧ t.symbol ∉ earlier := by
  have hfields : t.WellFormed ↔
      ¬ t.symbol.isEmpty = true ∧ ¬ t.decimals > maxDecimals ∧ ¬ t.price ≤ 0 := by
    rw [Int64.not_le, Nat.not_lt]
    exact ⟨fun h => ⟨h.symbol, h.decimals, h.price⟩, fun h => ⟨h.1, h.2.1, h.2.2⟩⟩
  rw [hfields]
  unfold tokenDefect
  split_ifs <;> simp_all

theorem validateTokens_eq_ok {tokens : List TokenPlan} :
    validateTokens earlier tokens = .ok () ↔ (∀ t ∈ tokens, t.WellFormed) ∧
      (tokens.map (·.symbol)).Nodup ∧ ∀ t ∈ tokens, t.symbol ∉ earlier := by
  induction tokens generalizing earlier with
  | nil => simp [validateTokens]
  | cons t tokens ih =>
    have hstep : validateTokens earlier (t :: tokens) = .ok () ↔
        (t.WellFormed ∧ t.symbol ∉ earlier) ∧ validateTokens (t.symbol :: earlier) tokens = .ok () := by
      rw [← tokenDefect_eq_none, validateTokens]
      split <;> simp_all
    rw [hstep, ih]
    simp only [List.map_cons, List.nodup_cons, List.mem_map, List.mem_cons]
    grind

theorem poolDefect_eq_none {pool : PoolPlan} : poolDefect symbols earlier pool = none ↔
    ¬ pool.id.isEmpty = true ∧ pool.id ∉ reservedIds ∧ pool.id ∉ earlier ∧
      pool.underlyer ∈ symbols := by
  unfold poolDefect
  split_ifs <;> simp_all

theorem validatePools_eq_ok {pools : List PoolPlan} :
    validatePools symbols earlier pools = .ok () ↔ (∀ pool ∈ pools, pool.WellFormed symbols) ∧
      (pools.map (·.id)).Nodup ∧ ∀ pool ∈ pools, pool.id ∉ earlier := by
  induction pools generalizing earlier with
  | nil => simp [validatePools]
  | cons pool pools ih =>
    have hstep : validatePools symbols earlier (pool :: pools) = .ok () ↔
        (pool.WellFormed symbols ∧ pool.id ∉ earlier) ∧
          validatePools symbols (pool.id :: earlier) pools = .ok () := by
      have hfields : pool.WellFormed symbols ∧ pool.id ∉ earlier ↔
          poolDefect symbols earlier pool = none ∧ pool.terms.validate = .ok () := by
        rw [poolDefect_eq_none]
        exact ⟨fun ⟨h, hnew⟩ => ⟨⟨h.id, h.notReserved, hnew, h.underlyer⟩, h.terms⟩,
          fun ⟨⟨hid, hfree, hnew, hunderlyer⟩, hterms⟩ => ⟨⟨hid, hfree, hunderlyer, hterms⟩, hnew⟩⟩
      rw [hfields, validatePools]
      split
      next defect hdefect => simp [hdefect]
      next hnone => rw [except_check_eq_ok]; simp [hnone]
    rw [hstep, ih]
    simp only [List.map_cons, List.nodup_cons, List.mem_map, List.mem_cons]
    grind

theorem validate_eq_ok {plan : Plan} : plan.validate = .ok () ↔ plan.WellFormed := by
  rw [validate, refuse_eq_ok, refuse_eq_ok, except_check_eq_ok, validateTokens_eq_ok,
    validatePools_eq_ok, Int64.not_le]
  constructor
  · rintro ⟨hstale, hsafes, ⟨htokens, hsymbols, -⟩, hpools, hids, -⟩
    simp only [not_or] at hsafes
    exact ⟨hstale, hsafes.1, hsafes.2.1, hsafes.2.2, htokens, hsymbols, hpools, hids⟩
  · intro h
    refine ⟨h.stalePeriod, ?_, ⟨h.tokens, h.symbols, by simp⟩, h.pools, h.ids, by simp⟩
    simp only [not_or]
    exact ⟨h.adminSafe, h.emergencySafe, h.lpSafe⟩

end Plan

end MetaPool
