import MetaPool.Proofs.Failure
import MetaPool.Proofs.Ledger.InPlace
import MetaPool.Proofs.Price.InPlace
import MetaPool.Proofs.Step.Frame

/-!
# Operations are atomic

A failed step returns to a checkpoint that leaves the log out, and cuts the log back to its earlier
length. That undoes everything if the step has only added to the log (`atomic_atomically`), also
where it fails half-way and also where steps are nested, since a nested rollback cuts no deeper. Where
nothing is rolled back, a component is written in place by a routine that makes all its checks before
(`onTokens_apply`, `onFeeds_apply`).

    Atomic op.perform                                               (atomic_perform)

So a history moves by its successful operations alone (`Reachable.invariant`).
-/

namespace MetaPool

namespace Protocol

variable {α β : Type} {ws : List Component}

/-- A failed action leaves the whole state as it was. -/
def Atomic (x : Action α) : Prop :=
  ∀ (p q : Protocol) (fault : Fault), x p = .error fault q → q = p

/-- A rollback restores the state exactly if the log before still stands in front of what the step left. -/
theorem rollback_eq_iff {p q : Protocol} : p.rollback q = p ↔ p.log <+: q.log := by
  rw [List.prefix_iff_eq_take]
  constructor
  · exact fun h => (congrArg Protocol.log h).symm
  · intro h
    unfold rollback
    rw [← h]

/-- A transaction that fails does so with the fault of its body, and returns from where that ended. -/
theorem atomically_eq_error {x : Action α} {p q : Protocol} {fault : Fault} :
    atomically x p = .error fault q ↔ ∃ r, x p = .error fault r ∧ q = p.rollback r := by
  unfold atomically
  cases x p with
  | ok a r => simp
  | error e r =>
    constructor
    · intro h
      obtain ⟨rfl, rfl⟩ := EStateM.Result.error.inj h
      exact ⟨r, rfl, rfl⟩
    · rintro ⟨_, h, rfl⟩
      obtain ⟨rfl, rfl⟩ := EStateM.Result.error.inj h
      rfl

/-- A step that takes nothing from the log is undone by its rollback. -/
theorem atomic_atomically {x : Action α} (h : ∀ p, p.log <+: (left (atomically x p)).log) :
    Atomic (atomically x) := by
  intro p q fault hf
  have hlog := h p
  rw [hf] at hlog
  obtain ⟨r, -, rfl⟩ := atomically_eq_error.1 hf
  exact rollback_eq_iff.2 (List.prefix_take_iff.1 hlog).1

theorem atomic_modify (f : Protocol → Protocol) : Atomic (modify f) := by
  intro p q fault h
  cases h

/-- What follows cannot fail. -/
theorem atomic_bind {x : Action α} {f : α → Action β} (hx : Atomic x)
    (hf : ∀ a p q fault, f a p ≠ .error fault q) : Atomic (x >>= f) := by
  intro p q fault h
  rcases bind_eq_error.1 h with hx' | ⟨a, r, -, hfr⟩
  · exact hx p q fault hx'
  · exact absurd hfr (hf a r q fault)

/-- A look at the state changes nothing. -/
theorem atomic_get_bind {f : Protocol → Action β} (h : ∀ p, Atomic (f p)) :
    Atomic (get >>= f) := fun p => h p p

theorem atomic_ask (view : Protocol → Except Fault α) : Atomic (ask view) := by
  intro p q fault h
  change demand (view p) p = _ at h
  unfold demand at h
  cases hv : view p with
  | ok a => rw [hv] at h; cases h
  | error e => rw [hv] at h; exact (EStateM.Result.error.inj h).2.symm

/-! ## Components that are written in place -/

/-- Runs a routine on a component, which keeps what the routine has written, also if it fails. -/
def onComponent {σ : Type} (part : Protocol → σ) (put : σ → Protocol → Protocol)
    (x : InPlace.Routine σ Unit) : Action Unit := fun p =>
  match x (part p) with
  | .ok () b => .ok () (put b p)
  | .error fault b => .error fault (put b p)

/-- A routine that leaves its component as it was when it fails leaves the protocol so. -/
theorem atomic_onComponent {σ : Type} {part : Protocol → σ} {put : σ → Protocol → Protocol}
    {x : InPlace.Routine σ Unit} {change : σ → Except Fault σ} (hput : ∀ p, put (part p) p = p)
    (hx : ∀ b, x b = InPlace.allOrNothing change b) : Atomic (onComponent part put x) := by
  intro p q fault h
  unfold onComponent at h
  rw [hx] at h
  cases hb : InPlace.allOrNothing change (part p) with
  | ok _ b => rw [hb] at h; cases h
  | error fault' b =>
    rw [hb] at h
    obtain ⟨rfl, rfl⟩ := EStateM.Result.error.inj h
    rw [InPlace.eq_of_allOrNothing_error hb, hput]

/-- A component that is changed as a whole is written all or nothing. -/
theorem ask_then_put {σ : Type} {part : Protocol → σ} {put : σ → Protocol → Protocol}
    (hput : ∀ p, put (part p) p = p) (change : σ → Except Fault σ) :
    (do modify (put (← ask fun p => change (part p)))) =
      onComponent part put (InPlace.allOrNothing change) := by
  funext p
  show EStateM.bind (ask _) _ p = _
  unfold EStateM.bind ask demand onComponent InPlace.allOrNothing
  cases hchange : change (part p) with
  | ok b =>
    simp only [hchange]
    rfl
  | error fault => simp only [hchange, hput]

/-- Changing the token book as a whole is carrying out an instruction in it. -/
theorem onTokens_apply (i : TokenBook.Instruction) :
    onTokens i.apply = onComponent (·.tokens) (fun tokens p => { p with tokens }) i.carryOut := by
  rw [funext (TokenBook.carryOut_eq i)]
  exact ask_then_put (fun _ => rfl) i.apply

/-- Changing the feeds as a whole is carrying out an instruction in them. -/
theorem onFeeds_apply (i : FeedBook.Instruction) :
    onFeeds i.apply = onComponent (·.feeds) (fun feeds p => { p with feeds }) i.carryOut := by
  rw [funext (FeedBook.carryOut_eq i)]
  exact ask_then_put (fun _ => rfl) i.apply

theorem atomic_onTokens (i : TokenBook.Instruction) : Atomic (onTokens i.apply) := by
  rw [onTokens_apply]
  exact atomic_onComponent (fun _ => rfl) (TokenBook.carryOut_eq i)

theorem atomic_onFeeds (i : FeedBook.Instruction) : Atomic (onFeeds i.apply) := by
  rw [onFeeds_apply]
  exact atomic_onComponent (fun _ => rfl) (FeedBook.carryOut_eq i)

theorem atomic_publish (source : Address) (answer : Int) : Atomic (publish source answer) :=
  atomic_get_bind fun p => atomic_onFeeds (.publish source ⟨answer, p.clock.time⟩)

theorem atomic_publishPrice (asset : Address) (answer : Int) :
    Atomic (publishPrice asset answer) := by
  refine atomic_get_bind fun p => ?_
  cases p.oracle.assetSource asset with
  | some source => exact atomic_publish source answer
  | none =>
    intro q r fault h
    exact (EStateM.Result.error.inj h).2.symm

end Protocol

namespace Operation

open Protocol

theorem atomic_reply {α : Type} {x : Action α} (reply : α → Outcome) (h : Atomic x) :
    Atomic (do return reply (← x)) := atomic_bind h fun _ _ _ _ h => by cases h

theorem atomic_complete {x : Action Unit} (h : Atomic x) : Atomic (complete x) :=
  atomic_reply (fun _ => .done) h

/-- The shape of every operation that may be rolled back. -/
theorem atomic_gated {α : Type} {ws : List Component} {x : Action α} (reply : α → Outcome)
    (h : Within ws (do return reply (← atomically x))) (hws : .log ∉ ws) :
    Atomic (do return reply (← atomically x)) := by
  refine atomic_reply reply (atomic_atomically (fun p => ?_))
  have hlog := h p .log hws
  change p.log <+: (left (EStateM.bind (atomically x) _ p)).log at hlog
  unfold EStateM.bind at hlog
  cases hx : atomically x p <;> (rw [hx] at hlog; exact hlog)

/-- No operation leaves anything behind when it fails. The gated ones are undone by their rollback; of
the others, those that can fail carry out an instruction of one book, which checks before it writes. -/
theorem atomic_perform (op : Operation) : Atomic op.perform := by
  have h := within_perform op
  cases op with
  | takeLog => exact fun _ _ _ h => by cases h
  | passBlocks | passTime | mine => exact atomic_complete (atomic_modify _)
  | publish | publishTvl => exact atomic_complete (atomic_publish _ _)
  | publishPrice => exact atomic_complete (atomic_publishPrice _ _)
  | openFeed source answer =>
    exact atomic_complete (atomic_get_bind fun p => atomic_onFeeds (.add source ⟨answer, p.clock.time⟩))
  | mintTokens token holder amount =>
    exact atomic_complete (atomic_onTokens (.mint token holder amount))
  | approve token owner spender amount =>
    exact atomic_complete (atomic_onTokens (.approve token owner spender amount))
  | deposit | redeem | sendSurplus | recallShortfall =>
    exact atomic_gated _ h (by simp [writes, batchWrites])
  | _ => exact atomic_gated (fun _ => .done) h (by simp [writes, batchWrites])

/-- A failed operation leaves the clock, every component and the log exactly as they were. -/
theorem eq_of_perform_error (op : Operation) (p q : Protocol) (fault : Fault)
    (h : op.perform p = .error fault q) : q = p :=
  atomic_perform op p q fault h

/-- Two pools with idle underlyer, the second of which is paused. -/
def pausedSecond : Protocol :=
  initial.run [.mintTokens ⟨"USDC"⟩ ⟨"usdcPool"⟩ 5, .mintTokens ⟨"USDT"⟩ ⟨"usdtPool"⟩ 5,
    .setPoolPaused ⟨"emergencySafe"⟩ ⟨"usdtPool"⟩ true]

/-- Sends from both pools. It has listed, minted, sent and logged for the first pool when it fails
at the second. -/
def sendFromBoth : Operation :=
  .sendByHand ⟨"emergencySafe"⟩ [⟨"usdcPool"⟩, ⟨"usdtPool"⟩] [5, 5]

theorem eq_of_sendFromBoth_error :
    ∃ fault q, sendFromBoth.perform pausedSecond = .error fault q ∧ q = pausedSecond := by
  have hfails : sendFromBoth.fails pausedSecond = true := by decide +kernel
  obtain ⟨fault, q, h⟩ := fails_iff.1 hfails
  exact ⟨fault, q, h, eq_of_perform_error _ _ _ _ h⟩

end Operation

namespace Protocol

/-! ## Histories -/

theorem after_of_error {p q : Protocol} {op : Operation} {fault : Fault}
    (h : op.perform p = .error fault q) : p.after op = p := by
  simp only [after, h, Operation.atomic_perform op p q fault h]

/-- An operation succeeds, or it fails and nothing changes. -/
theorem ok_or_unchanged (p : Protocol) (op : Operation) :
    (∃ out, op.perform p = .ok out (p.after op)) ∨ op.fails p = true ∧ p.after op = p := by
  cases hfails : op.fails p with
  | false => exact .inl (perform_of_not_fails hfails)
  | true =>
    obtain ⟨fault, q, h⟩ := Operation.fails_iff.1 hfails
    exact .inr ⟨rfl, after_of_error h⟩

/-- What successful operations leave as it is, every history leaves as it is. -/
theorem run_eq_of_ok {β : Type} {f : Protocol → β}
    (hf : ∀ p (op : Operation) out q, op.perform p = .ok out q → f q = f p) (p : Protocol)
    (ops : List Operation) : f (p.run ops) = f p := by
  induction ops generalizing p with
  | nil => rfl
  | cons op ops ih =>
    have hfirst : f (p.after op) = f p := by
      rcases ok_or_unchanged p op with ⟨out, h⟩ | ⟨-, hsame⟩
      · exact hf p op out _ h
      · rw [hsame]
    exact (ih (p.after op)).trans hfirst

/-- What deployments establish and successful operations preserve holds in every reachable state. -/
theorem Reachable.invariant {I : Protocol → Prop}
    (deployed : ∀ plan clock p, Protocol.deploy plan clock = .ok p → I p)
    (preserved : ∀ (op : Operation) out p q, I p → op.perform p = .ok out q → I q) {p : Protocol}
    (h : Reachable p) : I p := by
  induction h with
  | deploy h => exact deployed _ _ _ h
  | @step p op _ ih =>
    rcases ok_or_unchanged p op with ⟨out, hop⟩ | ⟨-, hsame⟩
    · exact preserved op out p _ ih hop
    · rwa [hsame]

end Protocol

end MetaPool
