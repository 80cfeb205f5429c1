import MetaPool.Proofs.Account.Gates
import MetaPool.Proofs.Deployment.Pools
import MetaPool.Proofs.Deployment.Validation

/-!
# What validation guarantees for ever

A deployment accepts only pools that are well formed: their terms are valid, their underlyer and they
themselves have an address, and that is not the LP account's. Controls put only valid terms in force,
and nothing else bears on these facts, so they hold of every pool in every reachable state.

    Reachable p → p.pool a = .ok s → Deployed p a s                 (Reachable.deployed)
-/

namespace MetaPool

namespace Protocol

variable {p q : Protocol} {op : Operation} {out : Outcome} {a : Address} {s : Pool}

/-- A well-formed pool at an address of its own. -/
structure Deployed (p : Protocol) (a : Address) (s : Pool) : Prop where
  terms : s.terms.validate = .ok ()
  underlyer : ¬ s.underlyer.isEmpty = true
  address : ¬ a.isEmpty = true
  apart : a ≠ p.lpAccount.address

theorem deployed_of_deploy {plan : Plan} {clock : Clock} (h : Protocol.deploy plan clock = .ok p) :
    ∀ a s, p.pool a = .ok s → Deployed p a s := by
  intro a s hs
  obtain ⟨pool, hpool, ha, hnew⟩ := pool_of_deploy h hs
  obtain ⟨haddress, hunderlyer, hterms, rfl⟩ := Pool.new_eq_ok.1 hnew
  refine ⟨hterms, hunderlyer, haddress, ?_⟩
  simp only [Protocol.deploy, except_bind_eq_ok, except_pure_eq_ok] at h
  obtain ⟨⟨⟩, hvalid, base, -, _, -, _, -, _, -, _, -, rfl⟩ := h
  rintro rfl
  have hid : lpAccountId = pool.id := congrArg Address.label ha
  exact ((Plan.validate_eq_ok.1 hvalid).pools pool hpool).notReserved (hid ▸ by decide)

/-- Terms that an operation has put in force are valid. -/
theorem terms_of_ok (hp : ∀ a s, p.pool a = .ok s → s.terms.validate = .ok ())
    (h : op.perform p = .ok out q) : ∀ a s, q.pool a = .ok s → s.terms.validate = .ok () := by
  intro b t ht
  by_cases hcontrol : ∃ a permission, op.gate? = some (.pool a, permission) ∧
      permission ≠ .sendToLpAccount
  · obtain ⟨a, permission, hgate, hsend⟩ := hcontrol
    obtain ⟨_, s, s', -, hs, hpermitted, hpools⟩ := Operation.poolControl_of_ok hgate hsend h
    rw [pool_of_insert hpools] at ht
    split at ht
    · obtain rfl := Except.ok.inj ht
      rcases hpermitted.terms with hsame | hvalid
      · rw [hsame]
        exact hp a s hs
      · exact hvalid
    · exact hp b t ht
  · have hsettings : q.settings b = p.settings b := by
      by_cases hgate : op.gate? = none
      · exact settings_of_ungated hgate h b
      · have hw : .pools ∉ op.writes := by
          cases op <;> simp [Operation.gate?, Operation.writes, batchWrites] at hgate hcontrol ⊢
        unfold settings
        rw [pool_of_eq (Operation.frame_of_ok h .pools hw)]
    unfold settings at hsettings
    rw [ht] at hsettings
    cases hs : p.pool b with
    | error fault => simp [hs, Except.map] at hsettings
    | ok s =>
      simp only [hs, Except.map, Except.ok.injEq, Prod.mk.injEq] at hsettings
      rw [hsettings.1]
      exact hp b s hs

/-- The underlyer of a pool is the same for ever. -/
theorem underlyer_of_ok (h : op.perform p = .ok out q) (a : Address) :
    (q.pool a).map (·.underlyer) = (p.pool a).map (·.underlyer) := by
  refine (Operation.pools_of_ok h).map_eq (fun a s s' hchange => ?_) a
  cases hchange with
  | deposit caller amount shares time hop h =>
    obtain ⟨book, -, rfl⟩ := Pool.addDeposit_eq_ok.1 h
    rfl
  | redeem caller shares hop h =>
    obtain ⟨book, -, rfl⟩ := Pool.takeShares_eq_ok.1 h
    rfl
  | control h => exact h.underlyer

theorem underlyer_run (p : Protocol) (ops : List Operation) (a : Address) :
    ((p.run ops).pool a).map (·.underlyer) = (p.pool a).map (·.underlyer) :=
  run_eq_of_ok (f := fun p => (p.pool a).map (·.underlyer)) (fun _ _ _ _ h => underlyer_of_ok h a) p ops

theorem deployed_of_ok (hp : ∀ a s, p.pool a = .ok s → Deployed p a s)
    (h : op.perform p = .ok out q) : ∀ a s, q.pool a = .ok s → Deployed q a s := by
  intro a t ht
  have hsame := underlyer_of_ok h a
  rw [ht] at hsame
  cases hs : p.pool a with
  | error fault => simp [hs, Except.map] at hsame
  | ok s =>
    simp only [hs, Except.map, Except.ok.injEq] at hsame
    have hlp : q.lpAccount = p.lpAccount := (after_of_ok h) ▸ Operation.lpAccount_after p op
    have hdeployed := hp a s hs
    refine ⟨terms_of_ok (fun a s hs => (hp a s hs).terms) h a t ht, ?_, hdeployed.address, ?_⟩
    · rw [hsame]
      exact hdeployed.underlyer
    · rw [hlp]
      exact hdeployed.apart

theorem Reachable.deployed (h : Reachable p) (hs : p.pool a = .ok s) : Deployed p a s :=
  h.invariant (I := fun p => ∀ a s, p.pool a = .ok s → Deployed p a s)
    (fun _ _ _ => deployed_of_deploy) (fun _ _ _ _ => deployed_of_ok) a s hs

/-- No pool is at the address of the LP account. -/
def PoolsApart (p : Protocol) : Prop := ∀ a s, p.pool a = .ok s → a ≠ p.lpAccount.address

theorem Reachable.poolsApart (h : Reachable p) : PoolsApart p := fun _ _ hs => (h.deployed hs).apart

theorem PoolsApart.congr (hp : PoolsApart p) (hpools : q.pools = p.pools)
    (hlp : q.lpAccount = p.lpAccount) : PoolsApart q := by
  intro a s hs
  rw [pool_of_eq hpools] at hs
  rw [hlp]
  exact hp a s hs

end Protocol

end MetaPool
