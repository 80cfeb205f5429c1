import MetaPool.Proofs.Account.Staff
import MetaPool.Proofs.Step.Failure

/-!
# The policy over whole histories

In every reachable state a gated operation succeeds for the staff of its gate alone. So what only
gated operations govern stays as it is while outsiders call (`settled_run`). And a rebalance that its
own gate has let through is not refused by the components that it calls, since it calls them as the
meta shares (`rebalance_not_refused`).
-/

namespace MetaPool

/-! ## Batches are never refused half-way -/

theorem TokenBook.transfer_ne_notContract (b : TokenBook) (token source target : Address)
    (amount : Nat) : FailsIn (· ≠ .notContract) (b.transfer token source target amount) := by
  refine (b.faults_of_transfer token source target amount).mono ?_
  rintro _ (rfl | hreading | ⟨rfl, -⟩) hrefused
  · cases hrefused
  · subst hrefused
    exact hreading
  · cases hrefused

theorem ShareBook.mint_ne_notContract (b : ShareBook) (holder : Address) (amount : Nat) :
    FailsIn (· ≠ .notContract) (b.mint holder amount) := by
  refine (b.faults_of_mint holder amount).mono ?_
  rintro _ (rfl | hreading) hrefused
  · cases hrefused
  · subst hrefused
    exact hreading

theorem ShareBook.burn_ne_notContract (b : ShareBook) (holder : Address) (amount : Nat) :
    FailsIn (· ≠ .notContract) (b.burn holder amount) := by
  refine failsIn_ite (failsIn_error nofun) (failsIn_bind ?_ fun _ _ => failsIn_ok _)
  exact failsIn_ite (failsIn_ok _) (failsIn_error nofun)

namespace Protocol

open RoleTable

variable {p q r : Protocol} {op : Operation} {out : Outcome} {pool : Address} {shares amount : Nat}

/-- No reading blames a caller. -/
theorem reads_ne_notContract {α : Type} {x : Except Fault α} (h : FailsIn Fault.OfReading x) :
    x ≠ .error .notContract := fun hx => h .notContract hx

theorem registerUnderlyer_not_refused (hp : Linked p) :
    ¬ Stops (registerUnderlyer pool) p .notContract := by
  intro h
  rcases registerUnderlyer_stops.1 h with h | ⟨s, hs, -, h | ⟨info, -, h⟩⟩
  · exact reads_ne_notContract (p.readable.pool pool) h
  · exact reads_ne_notContract (p.readable.traits hs) h
  · have hok := hp.authorize .allocation .registerToken nofun rfl rfl
    rcases Allocation.fault_of_register hok h with ⟨-, h⟩ | ⟨-, h⟩ <;> cases h

theorem mintAndSend_not_refused (hp : Linked p) :
    ¬ Stops (mintAndSend pool shares amount) p .notContract := by
  intro h
  obtain ⟨-, h | ⟨book, -, h⟩⟩ := mintAndSend_stops.1 h
  · exact p.metaToken.shares.mint_ne_notContract _ _ _ h rfl
  rcases sendToLpAccount_stops.1 h with h | ⟨s, hs, h | ⟨-, h⟩⟩
  · exact reads_ne_notContract (p.readable.pool pool) h
  · have hok := hp.authorize (.pool pool) .sendToLpAccount nofun
      (congrArg (Except.map _) hs) rfl
    rcases except_bind_eq_error.1 h with h | ⟨⟨⟩, -, h⟩
    · exact absurd (hok.symm.trans h) nofun
    · have hrunning : FailsIn (· ≠ .notContract) s.requireRunning :=
        failsIn_ite (failsIn_error nofun) (failsIn_ok ())
      exact hrunning _ h rfl
  · exact p.tokens.transfer_ne_notContract _ _ _ _ _ h rfl

theorem burnAndReturn_not_refused (hp : Linked p) :
    ¬ Stops (burnAndReturn pool shares amount) p .notContract := by
  intro h
  obtain ⟨-, h | ⟨book, -, h⟩⟩ := burnAndReturn_stops.1 h
  · exact p.metaToken.shares.burn_ne_notContract _ _ _ h rfl
  rcases returnToPool_stops.1 h with h | ⟨-, h | ⟨s, -, h⟩⟩
  · have hok := hp.authorize .lpAccount .returnToPool nofun rfl rfl
    exact absurd (hok.symm.trans h) nofun
  · exact reads_ne_notContract (p.readable.pool pool) h
  · exact p.tokens.transfer_ne_notContract _ _ _ _ _ h rfl

theorem lockAfterMove_not_refused (hp : Linked p) : ¬ Stops lockAfterMove p .notContract := by
  intro h
  have hok := hp.authorize .oracle .lockOracle nofun rfl rfl
  rcases Oracle.lock_stops.1 (lockAfterMove_stops.1 h) with h | ⟨-, -, h⟩
  · exact absurd (hok.symm.trans h) nofun
  · cases h

/-- The legs of a batch run in linked states, since its parts leave the roles alone. -/
theorem batch_not_refused {leg : Address → Nat → Nat → Action Unit} {pools : List Address}
    {amounts : List Nat} (hp : Linked p)
    (hleg : ∀ pool delta amount p, Linked p → ¬ Stops (leg pool delta amount) p .notContract)
    (hsame : ∀ pool delta amount p q, leg pool delta amount p = .ok () q → SameRoles p q) :
    ¬ BatchStops leg pools amounts p .notContract := by
  refine fun h => h.faults (I := Linked) (S := (· ≠ .notContract)) ?_ ?_ ?_ ?_ ?_ ?_ hp rfl
  · rintro pool p hp _ h rfl
    exact registerUnderlyer_not_refused hp h
  · exact fun _ _ _ hp h => hp.congr (sameRoles_registerUnderlyer h)
  · rintro p - _ h rfl
    exact reads_ne_notContract (p.readable.metaDeltas pools amounts) h
  · rintro pool delta amount - - p - - - hp _ h rfl
    exact hleg pool delta amount p hp h
  · exact fun _ _ _ _ _ hp h => hp.congr (hsame _ _ _ _ _ h)
  · rintro p hp _ h rfl
    exact lockAfterMove_not_refused hp h

/-- A rebalance asks for another role than that of a component, and once its own gate has let it
through, the others do as well. -/
theorem rebalance_not_refused (hp : Linked p) (hop : op.isRebalance = true) :
    ¬ Stops op.perform p .notContract := by
  intro h
  rcases Operation.batchStops_of_rebalance hop h with
    ⟨caller, permission, hrole, h⟩ | h | ⟨pools, amounts, h | h⟩
  · obtain ⟨-, h⟩ := authorize_eq_error.1 h
    revert h
    cases hr : permission.role <;> simp [Role.lacking, hr] at hrole ⊢
  · exact h
  · exact batch_not_refused hp (fun _ _ _ _ => mintAndSend_not_refused)
      (fun _ _ _ _ _ => sameRoles_mintAndSend) h
  · exact batch_not_refused hp (fun _ _ _ _ => burnAndReturn_not_refused)
      (fun _ _ _ _ _ => sameRoles_burnAndReturn) h

/-! ## Outsiders change nothing that is gated -/

/-- What only gated operations change is the same. -/
structure Settled (p q : Protocol) : Prop where
  oracle : q.oracle = p.oracle
  settings : ∀ a, q.settings a = p.settings a
  metaToken : q.metaToken = p.metaToken
  allocation : q.allocation = p.allocation

theorem Settled.refl (p : Protocol) : Settled p p := ⟨rfl, fun _ => rfl, rfl, rfl⟩

theorem Settled.trans (h : Settled p q) (h' : Settled q r) : Settled p r where
  oracle := h'.oracle.trans h.oracle
  settings a := (h'.settings a).trans (h.settings a)
  metaToken := h'.metaToken.trans h.metaToken
  allocation := h'.allocation.trans h.allocation

theorem settled_of_ungated (hgate : op.gate? = none) (h : op.perform p = .ok out q) :
    Settled p q := by
  have hframe := Operation.frame_of_ok h
  refine ⟨hframe .oracle ?_, settings_of_ungated hgate h, hframe .metaToken ?_,
    hframe .allocation ?_⟩ <;>
  cases op <;> simp [Operation.writes, Operation.gate?] at hgate ⊢

variable {plan : Plan}

/-- No gate lets an outsider through. -/
theorem settled_after (hp : Staffed plan p)
    (hcaller : ∀ caller, op.caller? = some caller → caller ∉ plan.insiders) :
    Settled p (p.after op) := by
  rcases ok_or_unchanged p op with ⟨out, h⟩ | ⟨-, hsame⟩
  · cases hgate : op.gate? with
    | none => exact settled_of_ungated hgate h
    | some asked =>
      obtain ⟨caller, roles, hsome, hroles, hholds⟩ := Operation.holds_of_ok hgate h
      have hstaff := (hp _ roles hroles _ _).1 hholds
      exact absurd (Plan.mem_insiders_of_staff hstaff) (hcaller caller hsome)
  · rw [hsame]
    exact .refl p

theorem settled_run {ops : List Operation} (hp : Staffed plan p)
    (hcaller : ∀ op ∈ ops, ∀ caller, op.caller? = some caller → caller ∉ plan.insiders) :
    Settled p (p.run ops) := by
  induction ops generalizing p with
  | nil => exact .refl p
  | cons op ops ih =>
    rw [List.forall_mem_cons] at hcaller
    exact (settled_after hp hcaller.1).trans (ih (hp.congr (sameRoles_after p op)) hcaller.2)

/-- After any history of a deployment the roles are held by the staff of the plan and by nobody else, a
gated operation succeeds only for a caller with the role of its permission, no rebalance fails for want
of the contract role, and outsiders change neither the oracle nor the settings of a pool nor the meta
shares nor the allocation. -/
theorem policy_enforced (plan : Plan) (clock : Clock) (p : Protocol)
    (h : Protocol.deploy plan clock = .ok p) (ops : List Operation) :
    (∀ (gate : Gate) (roles : RoleTable), gate.roles (p.run ops) = .ok roles →
      ∀ role a, roles.holds role a = true ↔ a ∈ plan.staff gate role) ∧
    (∀ (op : Operation) (gate : Gate) (permission : Permission) (out : Outcome) (q : Protocol),
      op.gate? = some (gate, permission) → op.perform (p.run ops) = .ok out q →
        ∃ caller roles, op.caller? = some caller ∧ gate.roles (p.run ops) = .ok roles ∧
          roles.holds permission.role caller = true ∧ caller ∈ plan.staff gate permission.role) ∧
    (∀ (op : Operation) (q : Protocol), op.isRebalance = true →
      op.perform (p.run ops) ≠ .error .notContract q) ∧
    ∀ later : List Operation,
      (∀ op ∈ later, ∀ caller, op.caller? = some caller → caller ∉ plan.insiders) →
        Settled (p.run ops) ((p.run ops).run later) := by
  have hstaffed : Staffed plan (p.run ops) := staffed_run h ops
  have hlinked : Linked (p.run ops) := (linked_of_deploy h).congr (sameRoles_run p ops)
  refine ⟨hstaffed, ?_, ?_, fun later => settled_run hstaffed⟩
  · intro op gate permission out q hgate hok
    obtain ⟨caller, roles, hcaller, hroles, hholds⟩ := Operation.holds_of_ok hgate hok
    exact ⟨caller, roles, hcaller, hroles, hholds, (hstaffed gate roles hroles _ _).1 hholds⟩
  · intro op q hop herror
    exact rebalance_not_refused hlinked hop ⟨q, herror⟩

/-- New terms of a pool and a send by hand, which leaves the oracle locked. -/
def operated : List Operation :=
  [.mintTokens ⟨"USDC"⟩ ⟨"usdcPool"⟩ 500, .setReservePercentage ⟨"adminSafe"⟩ ⟨"usdcPool"⟩ 20,
    .sendByHand ⟨"emergencySafe"⟩ [⟨"usdcPool"⟩] [400]]

/-- An outsider tries controls of each kind, a recall among them, when the lock is over. -/
def byOutsiders : List Operation :=
  [.setPoolPaused ⟨"alice"⟩ ⟨"usdcPool"⟩ true, .unlockOracle ⟨"alice"⟩, .passBlocks 135,
    .publishTvl 40000, .setTvlOverride ⟨"alice"⟩ 0 10, .mintTokens ⟨"USDC"⟩ ⟨"alice"⟩ 300,
    .approve ⟨"USDC"⟩ ⟨"alice"⟩ ⟨"usdcPool"⟩ 300, .deposit ⟨"alice"⟩ ⟨"usdcPool"⟩ 300,
    .recallByHand ⟨"alice"⟩ [⟨"usdcPool"⟩] [400]]

theorem policy_enforced_operated :
    0 < (initial.run operated).metaToken.supply ∧
      (∀ a, (initial.run operated).metaToken.roles.holds .lp a = true ↔ a = ⟨lpSafeId⟩) ∧
      (∃ caller ∈ (default : Plan).staff .oracle .emergency,
        (Operation.unlockOracle ⟨"emergencySafe"⟩).caller? = some caller) ∧
      (∀ q, (Operation.recallByHand ⟨"alice"⟩ [⟨"usdcPool"⟩] [400]).perform (initial.run operated) ≠
        .error .notContract q) ∧
      Settled (initial.run operated) ((initial.run operated).run byOutsiders) := by
  obtain ⟨hstaff, hgated, hrebalance, hsettled⟩ :=
    policy_enforced default default initial deploy_default operated
  refine ⟨by decide +kernel, fun a => ?_, ?_, fun q => ?_, hsettled byOutsiders (by decide)⟩
  · rw [hstaff .metaToken _ rfl]
    exact List.mem_singleton
  · have hfails : (Operation.unlockOracle ⟨"emergencySafe"⟩).fails (initial.run operated) = false := by
      decide +kernel
    obtain ⟨out, hok⟩ := perform_of_not_fails hfails
    obtain ⟨caller, _, hcaller, -, -, hmem⟩ := hgated _ .oracle .unlockOracle out _ rfl hok
    exact ⟨caller, hmem, hcaller⟩
  · exact hrebalance _ q rfl

end Protocol

end MetaPool
