import MetaPool.Proofs.Deployment.Resolution
import MetaPool.Proofs.Keeper.Cycle
import MetaPool.Proofs.Keeper.Validation
import MetaPool.Proofs.Step.Transaction

/-!
# Histories of a keeper

A keeper starts from a configuration. Then it runs cycles and reports to the oracle, and in between its
clients have the protocol do whatever they like, in routines that may fail half-way and in transactions
(`Reachable`). All of this is operations of the protocol, apart from what a transaction that fails does to
the log (`Protocol.Evolves`), and nothing changes the configuration or makes a dry run of a live keeper. So
the plan stays well-formed and the protocol stays wired for ever.

    Reachable k → Founded k                                         (Reachable.founded)
-/

namespace MetaPool

namespace Protocol

variable {α : Type} {p q r : Protocol} {allowed : Operation → Prop} {x : Action α}

/-! ## What routines do -/

/-- Operations and changes of the log lead from one state to the other. -/
inductive Evolves (p : Protocol) : Protocol → Prop where
  | refl : Evolves p p
  | after {q : Protocol} (h : Evolves p q) (op : Operation) : Evolves p (q.after op)
  | relog {q : Protocol} (h : Evolves p q) (log : List LogEntry) : Evolves p { q with log }

theorem Evolves.trans (h : Evolves p q) (h' : Evolves q r) : Evolves p r := by
  induction h' with
  | refl => exact h
  | after _ op ih => exact ih.after op
  | relog _ log ih => exact ih.relog log

theorem left_bind_pure {β : Type} (x : Action α) (g : α → β) (p : Protocol) :
    left ((x >>= fun a => pure (g a)) p) = left (x p) := by
  show left (EStateM.bind x _ p) = _
  unfold EStateM.bind
  cases x p <;> rfl

/-- The action behind an operation does what the operation does. -/
theorem left_eq_after {op : Operation} {reply : α → Outcome}
    (h : op.perform = x >>= fun a => pure (reply a)) (p : Protocol) : left (x p) = p.after op := by
  rw [← left_bind_pure x reply, ← h, left_perform]

instance : Std.Refl Evolves := ⟨fun _ => .refl⟩

instance : IsTrans Protocol Evolves := ⟨fun _ _ _ => .trans⟩

theorem Routine.evolves (hx : Routine allowed x) (p : Protocol) : Evolves p (left (x p)) :=
  hx.leaves (fun op _ _ => .after .refl op) (fun _ _ _ => .relog .refl _) p

theorem wired_relog (h : Wired p) (log : List LogEntry) : Wired { p with log } :=
  h.congr (fun _ s hs => ⟨s, hs, rfl, rfl⟩) rfl rfl rfl (fun _ => rfl) h.listed

theorem wired_after (h : Wired p) (op : Operation) : Wired (p.after op) := by
  rcases ok_or_unchanged p op with ⟨out, hok⟩ | ⟨-, hsame⟩
  · exact wired_of_ok h hok
  · rwa [hsame]

theorem Evolves.wired (h : Evolves p q) (hp : Wired p) : Wired q := by
  induction h with
  | refl => exact hp
  | after _ op ih => exact wired_after ih op
  | relog _ log ih => exact wired_relog ih log

end Protocol

namespace Keeper

variable {α : Type} {k k' : Keeper} {config : Config} {dryRun : Bool}

/-! ## What tasks do -/

/-- The same keeper after operations of its protocol. -/
structure Evolved (k k' : Keeper) : Prop where
  config : k'.config = k.config
  dryRun : k'.dryRun = k.dryRun
  protocol : k.protocol.Evolves k'.protocol

instance : Std.Refl Evolved := ⟨fun _ => ⟨rfl, rfl, .refl⟩⟩

instance : IsTrans Keeper Evolved := ⟨fun _ _ _ h h' =>
  ⟨h'.config.trans h.config, h'.dryRun.trans h.dryRun, h.protocol.trans h'.protocol⟩⟩

theorem evolved_act {action : Protocol.Action α} (op : Operation) (reply : α → Outcome)
    (h : op.perform = action >>= fun a => pure (reply a)) : Leaves Evolved (act action) :=
  leaves_act fun k => ⟨rfl, rfl, Protocol.left_eq_after h k.protocol ▸ .after .refl op⟩

theorem evolved_seed (d : Deposit) : Leaves Evolved (seed d) := by
  refine leaves_bind (leaves_ask _) fun pool => leaves_bind (leaves_ask _) fun state => ?_
  refine leaves_bind (leaves_ask _) fun decimals => leaves_bind (leaves_demand _) fun unit => ?_
  refine leaves_bind (leaves_demand _) fun amount => ?_
  refine leaves_bind (evolved_act (.mintTokens _ _ _) (fun _ => .done) rfl) fun _ => ?_
  refine leaves_bind (evolved_act (.approve _ _ _ _) (fun _ => .done) rfl) fun _ => ?_
  exact leaves_bind (evolved_act (.deposit _ _ _) .amount rfl) fun _ => leaves_pure _

theorem evolved_publish (source : Address) (answer : Int) :
    Leaves Evolved (act (Protocol.publish source answer)) :=
  evolved_act (.publish source answer) (fun _ => .done) rfl

theorem evolved_reportToOracle : Leaves Evolved reportToOracle := leaves_reportToOracle evolved_publish

theorem evolved_observe : Leaves Evolved observe := by
  refine leaves_bind (fun k => ⟨rfl, rfl, .refl⟩) fun _ => leaves_get_bind fun k => ?_
  have hmine : Leaves Evolved (act (Protocol.mine k.config.blocksPerCycle k.config.blockTime)) :=
    evolved_act (.mine _ _) (fun _ => .done) rfl
  exact leaves_bind hmine (fun _ => evolved_reportToOracle) k

theorem evolved_settle : Leaves Evolved settle :=
  leaves_settle (fun _ _ => evolved_act (.recallShortfall _ _) .amounts rfl)
    fun _ _ => evolved_act (.sendSurplus _ _) .amounts rfl

theorem evolved_cycle : Leaves Evolved cycle := by
  rw [cycle_eq]
  refine leaves_bind evolved_observe fun tvl => leaves_bind evolved_settle fun verdict => ?_
  refine leaves_bind (evolved_act .takeLog .records rfl) fun events => ?_
  exact leaves_get_bind fun k => leaves_pure _ k

theorem start_eq_ok : start config dryRun = .ok k ↔ config.validate = .ok () ∧
    ∃ p, Protocol.deploy config.plan default = .ok p ∧
      config.deposits.forM seed ⟨config, p, dryRun, 0⟩ = .ok () k := by
  unfold start
  cases config.validate with
  | error fault => simp [bind, Except.bind]
  | ok u =>
    cases Protocol.deploy config.plan default with
    | error fault => simp [bind, Except.bind]
    | ok p =>
      -- `simp` writes a walk over a list in another way
      cases hseeds : config.deposits.forM seed ⟨config, p, dryRun, 0⟩ <;>
        simp [bind, Except.bind, pure, Except.pure, hseeds, -List.forM_eq_forM]

/-! ## Histories -/

/-- A keeper that a start, cycles, reports and what clients do in between lead to. -/
inductive Reachable : Keeper → Prop where
  | start {config : Config} {dryRun : Bool} {k : Keeper} (h : start config dryRun = .ok k) :
      Reachable k
  | cycle {k : Keeper} (h : Reachable k) : Reachable (left k.cycle)
  | report {k : Keeper} (h : Reachable k) : Reachable (left k.reportToOracle)
  | access {α : Type} {k : Keeper} {x : Protocol.Action α} (h : Reachable k)
      (hx : Protocol.Routine (fun _ => True) x) :
      Reachable { k with protocol := Protocol.left (x k.protocol) }

/-- The plan is well-formed and the protocol is wired. -/
structure Founded (k : Keeper) : Prop where
  plan : k.config.plan.WellFormed
  wired : Protocol.Wired k.protocol

theorem Founded.evolve (hk : Founded k) (h : Evolved k k') : Founded k' :=
  ⟨h.config ▸ hk.plan, h.protocol.wired hk.wired⟩

theorem Reachable.founded (h : Reachable k) : Founded k := by
  induction h with
  | @start config dryRun k h =>
    obtain ⟨hvalid, p, hdeploy, hseeds⟩ := start_eq_ok.1 h
    have hstart : Founded ⟨config, p, dryRun, 0⟩ :=
      ⟨(Config.validate_eq_ok.1 hvalid).plan, Protocol.wired_of_deploy hdeploy⟩
    exact hstart.evolve ((leaves_forM evolved_seed _).of_ok hseeds)
  | @cycle k _ ih => exact ih.evolve (evolved_cycle k)
  | @report k _ ih => exact ih.evolve (evolved_reportToOracle k)
  | @access _ k x _ hx ih => exact ih.evolve ⟨rfl, rfl, hx.evolves k.protocol⟩

/-- The keeper after operations that clients had the protocol carry out in the meantime. -/
def meanwhile (k : Keeper) (ops : List Operation) : Keeper := { k with protocol := k.protocol.run ops }

theorem Reachable.meanwhile (h : Reachable k) (ops : List Operation) : Reachable (k.meanwhile ops) := by
  induction ops generalizing k with
  | nil => exact h
  | cons op ops ih =>
    have hop : Reachable { k with protocol := k.protocol.after op } := by
      rw [← Protocol.left_perform]
      exact h.access (.perform trivial)
    exact ih hop

/-! ## Two keepers to start from -/

theorem start_sample_isSome : (start .sample false).toOption.isSome := by decide +kernel

/-- The keeper of the sample configuration before its first cycle. Only the kernel unfolds it. -/
@[irreducible] def sampleKeeper : Keeper := (start .sample false).toOption.get start_sample_isSome

theorem start_default_isSome : (start default false).toOption.isSome := by decide +kernel

/-- The keeper of the default configuration before its first cycle, with no deposits. -/
@[irreducible] def plainKeeper : Keeper := (start default false).toOption.get start_default_isSome

theorem reachable_sampleKeeper : Reachable sampleKeeper := by
  unfold sampleKeeper
  exact .start (eq_ok_of_toOption (Option.some_get _).symm)

theorem reachable_plainKeeper : Reachable plainKeeper := by
  unfold plainKeeper
  exact .start (eq_ok_of_toOption (Option.some_get _).symm)

end Keeper

end MetaPool
