import MetaPool.Proofs.Ledger.Pools
import MetaPool.Protocol.Deploy

/-!
# The pools of a deployment

A deployment opens a new pool for each pool of its plan, so that whatever is true of a new pool on
the terms of the plan is true of every pool that is there when the history begins.

    Protocol.deploy plan clock = .ok p → p.pool a = .ok s →
      s is the new pool of one of plan.pools, at its identifier     (Protocol.pool_of_deploy)
-/

namespace MetaPool

theorem Registry.register_eq_ok {r r' : Registry} {id : String} {address : Address} :
    r.register id address = .ok r' ↔
      ¬ address.isEmpty = true ∧ r' = ⟨r.entries.insert id address⟩ := by
  simp only [register, refuse_eq_ok, Except.ok.injEq, eq_comm (a := r')]

theorem Pool.new_eq_ok {address underlyer : Address} {roles : RoleTable} {terms : PoolTerms}
    {s : Pool} : Pool.new address underlyer roles terms = .ok s ↔
      ¬ address.isEmpty = true ∧ ¬ underlyer.isEmpty = true ∧ terms.validate = .ok () ∧
        s = ⟨address, underlyer, roles, .empty, terms, default, .empty⟩ := by
  simp only [Pool.new, refuse_eq_ok, not_or, except_check_eq_ok, except_pure_eq_ok, and_assoc]

namespace Plan

variable {roles : RoleTable} {pools : List PoolPlan} {a : Address} {s : Pool}

theorem addPool_eq_ok {state state' : OrderedMap Address Pool × Registry} {pool : PoolPlan} :
    addPool roles state pool = .ok state' ↔ ∃ s registry,
      Pool.new ⟨pool.id⟩ ⟨pool.underlyer⟩ roles pool.terms = .ok s ∧
        state.2.register pool.id ⟨pool.id⟩ = .ok registry ∧
        state' = (state.1.insert ⟨pool.id⟩ s, registry) := by
  simp only [addPool, except_bind_eq_ok, except_pure_eq_ok]
  grind

theorem pool_of_addPools {registry : Registry} {state : OrderedMap Address Pool × Registry}
    (h : pools.foldlM (addPool roles) (.empty, registry) = .ok state)
    (hs : state.1.get? a = some s) : ∃ pool ∈ pools, a = ⟨pool.id⟩ ∧
      Pool.new a ⟨pool.underlyer⟩ roles pool.terms = .ok s := by
  refine foldlM_preserves_of_mem (I := fun state : OrderedMap Address Pool × Registry =>
    ∀ a s, state.1.get? a = some s → ∃ pool ∈ pools, a = ⟨pool.id⟩ ∧
      Pool.new a ⟨pool.underlyer⟩ roles pool.terms = .ok s) ?_ (fun _ _ ha => by cases ha) h a s hs
  intro pool hpool state state' hstate hadd b t ht
  obtain ⟨s, registry, hnew, -, rfl⟩ := addPool_eq_ok.1 hadd
  rw [OrderedMap.get?_insert] at ht
  split at ht
  next hb =>
    obtain rfl := Option.some.inj ht
    exact ⟨pool, hpool, hb, hb ▸ hnew⟩
  next => exact hstate b t ht

end Plan

theorem Protocol.pool_of_deploy {plan : Plan} {clock : Clock} {p : Protocol} {a : Address}
    {s : Pool} (h : Protocol.deploy plan clock = .ok p) (hs : p.pool a = .ok s) :
    ∃ pool ∈ plan.pools, a = ⟨pool.id⟩ ∧
      Pool.new a ⟨pool.underlyer⟩ (plan.operators [⟨metaTokenId⟩]) pool.terms = .ok s := by
  simp only [Protocol.deploy, except_bind_eq_ok, except_pure_eq_ok] at h
  obtain ⟨_, -, base, -, _, -, _, -, _, -, ⟨pools, registry⟩, hpools, rfl⟩ := h
  exact Plan.pool_of_addPools hpools (pool_eq_ok.1 hs)

end MetaPool
