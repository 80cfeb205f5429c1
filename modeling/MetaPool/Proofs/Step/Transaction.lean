import Mathlib.Order.Defs.Unbundled
import MetaPool.Proofs.Step.Success
import MetaPool.Protocol.Script

/-!
# Transactions

A client runs a routine of its own as one step: operations and views in any order, chosen by what came
before, faults passed on or swallowed, transactions inside transactions (`Routine`). If the routine fails,
the state is that of before but for the log, of which there is as much as before of what the routine left.
So everything is as it was exactly if the log of before still stands in front of the one that the routine
left (`rollback_restores_iff`). A routine that does not take the log only adds to it. One that does loses
it, and what it logs afterwards stays in its place (`taken_log_not_restored`).

    Routine (· ≠ .takeLog) x → Atomic (atomically x)                (Routine.atomic)
    step.routine p = ending (step.run p).2                          (Step.routine_eq)
-/

namespace MetaPool

namespace Protocol

variable {α : Type} {allowed : Operation → Prop} {ws : List Component} {x : Action α}

/-! ## Routines -/

/-- Runs an action and gives its fault back instead of failing with it. What the action has written by
then stays written. -/
def attempt (x : Action α) : Action (Except Fault α) := fun p =>
  match x p with
  | .ok a q => .ok (.ok a) q
  | .error fault q => .ok (.error fault) q

/-- What clients can build of views and the allowed operations. What comes next may depend on all that
was seen before. -/
inductive Routine (allowed : Operation → Prop) : {α : Type} → Action α → Prop where
  | done {α : Type} (a : α) : Routine allowed (pure a)
  | fail {α : Type} (fault : Fault) : Routine allowed (throw fault : Action α)
  | perform {op : Operation} (h : allowed op) : Routine allowed op.perform
  | ask {α : Type} (view : Protocol → Except Fault α) : Routine allowed (ask view)
  | andThen {α β : Type} {x : Action α} {f : α → Action β} (hx : Routine allowed x)
      (hf : ∀ a, Routine allowed (f a)) : Routine allowed (x >>= f)
  | attempt {α : Type} {x : Action α} (hx : Routine allowed x) : Routine allowed (attempt x)
  | transaction {α : Type} {x : Action α} (hx : Routine allowed x) : Routine allowed (atomically x)

theorem left_perform (op : Operation) (p : Protocol) : left (op.perform p) = p.after op := by
  unfold after
  cases op.perform p <;> rfl

/-- What holds from each state to itself, to the one after an allowed operation and to a rollback holds from
each state to the one that a routine leaves. -/
theorem Routine.leaves {R : Protocol → Protocol → Prop} [Std.Refl R] [IsTrans Protocol R]
    (hops : ∀ op p, allowed op → R p (p.after op)) (hback : ∀ p q, R p q → R p (p.rollback q))
    (hx : Routine allowed x) (p : Protocol) : R p (left (x p)) := by
  induction hx generalizing p with
  | done a => exact Std.Refl.refl p
  | fail fault => exact Std.Refl.refl p
  | @perform op h =>
    rw [left_perform]
    exact hops op p h
  | ask view =>
    unfold Protocol.ask demand
    cases view p <;> exact Std.Refl.refl p
  | @andThen _ _ x f _ _ ihx ihf =>
    have hfirst := ihx p
    show R p (left (EStateM.bind x f p))
    unfold EStateM.bind
    cases hxp : x p with
    | ok a q =>
      rw [hxp] at hfirst
      exact IsTrans.trans _ _ _ hfirst (ihf a q)
    | error fault q =>
      rw [hxp] at hfirst
      exact hfirst
  | @attempt _ x _ ih =>
    have hsame := ih p
    unfold Protocol.attempt
    cases hxp : x p <;> (rw [hxp] at hsame; exact hsame)
  | @transaction _ x _ ih =>
    have hsame := ih p
    unfold atomically
    cases hxp : x p with
    | ok a q =>
      rw [hxp] at hsame
      exact hsame
    | error fault q =>
      rw [hxp] at hsame
      exact hback p q hsame

instance : Std.Refl (Frame ws) := ⟨.refl⟩

instance : IsTrans Protocol (Frame ws) := ⟨fun _ _ _ => .trans⟩

/-- A routine writes nothing that its operations do not write. -/
theorem Routine.within (hx : Routine allowed x) (hops : ∀ op, allowed op → op.writes ⊆ ws) :
    Within ws x := by
  refine hx.leaves (fun op p hop c hc => ?_) fun _ _ => Frame.rollback
  rw [← left_perform]
  exact op.within_perform p c fun hmem => hc (hops op hop hmem)

/-- All components but the log. -/
def logless : List Component :=
  [.clock, .feeds, .tokens, .registry, .oracle, .pools, .metaToken, .lpAccount, .allocation]

/-- Nothing but `takeLog` takes from the log. -/
theorem writes_logless {op : Operation} (h : op ≠ .takeLog) : op.writes ⊆ logless := by
  cases op with
  | takeLog => exact absurd rfl h
  | _ => simp [Operation.writes, batchWrites, logless]

/-- A failed transaction that does not take the log leaves the whole state as it was, whatever it did on
the way. -/
theorem Routine.atomic (hx : Routine (· ≠ .takeLog) x) : Atomic (atomically x) := by
  have hwithin : Within logless (atomically x) :=
    within_atomically (hx.within fun _ hop => writes_logless hop)
  exact atomic_atomically fun p => hwithin p .log (by decide)

end Protocol

/-! ## Scripts -/

namespace Step

open Protocol

variable {ρ : Type}

mutual

/-- What a step does, without its answer. -/
def routine : Step ρ → Action Unit
  | perform operation => do let _ ← operation.perform
  | observe view => do let _ ← ask view
  | transaction steps keepsGoing reverts => do
    let _ ← attempt (atomically do
      routineAll keepsGoing steps
      if reverts then throw .amountInsufficient)

def routineAll (keepsGoing : Bool) : List (Step ρ) → Action Unit
  | [] => pure ()
  | step :: rest => do
    if keepsGoing then let _ ← attempt (routine step) else routine step
    routineAll keepsGoing rest

end

mutual

/-- The operations that a step may perform. -/
def operations : Step ρ → List Operation
  | perform operation => [operation]
  | observe _ => []
  | transaction steps _ _ => operationsAll steps

def operationsAll : List (Step ρ) → List Operation
  | [] => []
  | step :: rest => operations step ++ operationsAll rest

end

/-- How an action ends that ends with this fault, if any, in this state. -/
def ending : Option Fault × Protocol → EStateM.Result Fault Protocol Unit
  | (none, q) => .ok () q
  | (some fault, q) => .error fault q

mutual

/-- Scripts run as their routines do. -/
theorem routine_eq (step : Step ρ) (p : Protocol) : step.routine p = ending (step.run p).2 := by
  match step with
  | perform operation =>
    change EStateM.bind operation.perform _ p = _
    unfold EStateM.bind run
    cases operation.perform p <;> rfl
  | observe view =>
    change EStateM.bind (ask view) _ p = _
    unfold EStateM.bind ask demand run
    cases view p <;> rfl
  | transaction steps keepsGoing reverts =>
    have ih := routineAll_eq keepsGoing steps p
    rcases hrun : runAll keepsGoing steps p with ⟨replies, cause, q⟩
    rw [hrun] at ih
    simp only [routine, run, hrun, bind, EStateM.bind, attempt, atomically, ih]
    cases cause <;> cases reverts <;> rfl

theorem routineAll_eq (keepsGoing : Bool) (steps : List (Step ρ)) (p : Protocol) :
    routineAll keepsGoing steps p = ending (runAll keepsGoing steps p).2 := by
  match steps with
  | [] => rfl
  | step :: rest =>
    have ihstep := routine_eq step p
    rcases hrun : step.run p with ⟨reply, fault, q⟩
    have ihrest := routineAll_eq keepsGoing rest q
    rw [hrun] at ihstep
    simp only [runAll, hrun]
    cases keepsGoing <;> cases fault <;>
      simp [routineAll, bind, EStateM.bind, attempt, ihstep, ending, ihrest]

end

variable {allowed : Operation → Prop}

mutual

/-- The routine of a step is built of what the step performs. -/
theorem routine_routine (step : Step ρ) (h : ∀ op ∈ step.operations, allowed op) :
    Routine allowed step.routine := by
  match step with
  | perform operation => exact .andThen (.perform (h _ List.mem_cons_self)) fun _ => .done _
  | observe view => exact .andThen (.ask view) fun _ => .done _
  | transaction steps keepsGoing reverts =>
    have hsteps := routine_routineAll keepsGoing steps h
    refine .andThen (.attempt (.transaction (.andThen hsteps fun _ => ?_))) fun _ => .done _
    split
    · exact .fail _
    · exact .done _

theorem routine_routineAll (keepsGoing : Bool) (steps : List (Step ρ))
    (h : ∀ op ∈ operationsAll steps, allowed op) : Routine allowed (routineAll keepsGoing steps) := by
  match steps with
  | [] => exact .done _
  | step :: rest =>
    have hstep := routine_routine step fun op hop => h op (List.mem_append_left _ hop)
    have hrest := routine_routineAll keepsGoing rest fun op hop => h op (List.mem_append_right _ hop)
    unfold routineAll
    split
    · exact .andThen (.attempt hstep) fun _ => hrest
    · exact .andThen hstep fun _ => hrest

end

/-- A transaction of a script that is rolled back and does not take the log leaves the whole state as it
was. -/
theorem run_transaction_of_cause {steps : List (Step ρ)} {keepsGoing reverts : Bool} {p : Protocol}
    {cause : Fault} {replies : List (Reply ρ)} {mark : Mark}
    (h : ((transaction steps keepsGoing reverts).run p).1 = .transaction (some cause) replies mark)
    (hlog : .takeLog ∉ operationsAll steps) :
    ((transaction steps keepsGoing reverts).run p).2.2 = p := by
  have hroutine : Routine (· ≠ .takeLog) (routineAll keepsGoing steps) :=
    routine_routineAll keepsGoing steps fun op hop hop' => hlog (hop' ▸ hop)
  have hwithin := hroutine.within (fun _ hop => writes_logless hop) p .log (by decide)
  rw [routineAll_eq] at hwithin
  rcases hrun : runAll keepsGoing steps p with ⟨replies', fault, q⟩
  rw [hrun] at hwithin
  have hprefix : p.log <+: q.log := by cases fault <;> exact hwithin
  simp only [run, hrun] at h ⊢
  obtain ⟨hcause, -, -⟩ := Reply.transaction.inj h
  rw [hcause]
  exact rollback_eq_iff.2 hprefix

end Step

namespace Protocol

/-! ## What a rollback restores -/

/-- A transaction fails exactly if its body does. All that the body did is undone but for the log, which is
cut back to its length before. So the state of before is back exactly if its log still stands in front of
the one that the body left, and always if nothing has taken the log. -/
theorem rollback_restores_iff (x : Action α) (p q : Protocol) (fault : Fault)
    (h : atomically x p = .error fault q) :
    ∃ r, x p = .error fault r ∧ q = { p with log := r.log.take p.log.length } ∧
      (q = p ↔ p.log <+: r.log) ∧ (Routine (· ≠ .takeLog) x → q = p) := by
  obtain ⟨r, hr, hq⟩ := atomically_eq_error.1 h
  refine ⟨r, hr, hq, ?_, fun hx => hx.atomic p q fault h⟩
  rw [hq]
  exact rollback_eq_iff

/-- One pool is paused, which is all that the log says. -/
def onePaused : Protocol := initial.after (.setPoolPaused ⟨"emergencySafe"⟩ ⟨"daiPool"⟩ true)

/-- Pauses another pool, swallows the failure of a transaction inside, and fails. -/
def pauseAndFail : Action Unit := do
  let _ ← (Operation.setPoolPaused ⟨"emergencySafe"⟩ ⟨"usdcPool"⟩ true).perform
  let _ ← attempt (atomically do
    let _ ← (Operation.passBlocks 1).perform
    throw .amountInsufficient : Action Unit)
  throw .amountInsufficient

theorem routine_pauseAndFail : Routine (· ≠ .takeLog) pauseAndFail := by
  refine .andThen (.perform (by decide)) fun _ => .andThen (.attempt (.transaction ?_)) fun _ => .fail _
  exact .andThen (.perform (by decide)) fun _ => .fail _

theorem rollback_restores_iff_pauseAndFail :
    ∃ q r, atomically pauseAndFail onePaused = .error .amountInsufficient q ∧
      pauseAndFail onePaused = .error .amountInsufficient r ∧ r.log.length = 2 ∧ q = onePaused := by
  have h : atomically pauseAndFail onePaused = .error .amountInsufficient onePaused := by rfl
  obtain ⟨r, hr, -, -, hsame⟩ := rollback_restores_iff pauseAndFail onePaused onePaused _ h
  have hlength : (left (pauseAndFail onePaused)).log.length = 2 := by decide +kernel
  rw [hr] at hlength
  exact ⟨onePaused, r, h, hr, hlength, hsame routine_pauseAndFail⟩

/-- Takes the log, pauses another pool and fails. -/
def takeAndFail : Action Unit := do
  let _ ← Operation.takeLog.perform
  let _ ← (Operation.setPoolPaused ⟨"emergencySafe"⟩ ⟨"usdcPool"⟩ true).perform
  throw .amountInsufficient

/-- A failed transaction that takes the log does not restore it: the record of before is lost, and in its
place is that of a pause which has been undone. -/
theorem taken_log_not_restored :
    Routine (fun _ => True) takeAndFail ∧
      ∃ q, atomically takeAndFail onePaused = .error .amountInsufficient q ∧ q ≠ onePaused ∧
        onePaused.log.map (·.event) = [.poolPaused ⟨"daiPool"⟩ true] ∧
        q.log.map (·.event) = [.poolPaused ⟨"usdcPool"⟩ true] ∧
        (q.pools.get? ⟨"usdcPool"⟩).map (·.locks.paused) = some false := by
  refine ⟨.andThen (.perform trivial) fun _ => .andThen (.perform trivial) fun _ => .fail _, ?_⟩
  refine ⟨left (atomically takeAndFail onePaused), by rfl, ?_⟩
  decide +kernel

end Protocol

end MetaPool
