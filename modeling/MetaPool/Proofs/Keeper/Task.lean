import Mathlib.Order.Defs.Unbundled
import MetaPool.Keeper.Basic
import MetaPool.Proofs.Step.Success

/-!
# Tasks of the keeper

A task runs actions of the protocol on the protocol of the keeper. It leaves the rest of the keeper as it
is, except that a cycle counts itself. Two sets of rules follow the constructors of a task: a task that is
`Blind` does the same in a dry run, and `Leaves R` says how the keeper that a task leaves is related to the
one before, also where the task fails half-way. A task that is `Harmless` moves no capital in a dry run.
-/

namespace MetaPool.Keeper

variable {α β γ : Type} {k k' : Keeper} {a : α}

theorem act_eq_ok {action : Protocol.Action α} : act action k = .ok a k' ↔
    ∃ p, action k.protocol = .ok a p ∧ k' = { k with protocol := p } := by
  unfold act
  cases action k.protocol <;> grind

theorem act_eq_error {action : Protocol.Action α} {fault : Fault} : act action k = .error fault k' ↔
    ∃ cause p, action k.protocol = .error cause p ∧ fault = .protocol cause ∧
      k' = { k with protocol := p } := by
  unfold act
  cases action k.protocol <;> grind

theorem demand_eq_ok {x : Except MetaPool.Fault α} :
    act (Protocol.demand x) k = .ok a k' ↔ x = .ok a ∧ k' = k := by
  simp only [act_eq_ok, Protocol.demand_eq_ok]
  constructor
  · rintro ⟨_, ⟨h, rfl⟩, rfl⟩
    exact ⟨h, rfl⟩
  · rintro ⟨h, rfl⟩
    exact ⟨k'.protocol, ⟨h, rfl⟩, rfl⟩

theorem ask_eq_ok {view : Protocol → Except MetaPool.Fault α} :
    ask view k = .ok a k' ↔ view k.protocol = .ok a ∧ k' = k := demand_eq_ok

/-- The keeper that plans its moves only. -/
def planning (k : Keeper) : Keeper := { k with dryRun := true }

/-! ## Tasks that do not look whether moves are planned only -/

/-- A task that succeeds, succeeds in a dry run with the same result and the same effect. -/
def Blind (x : Task α) : Prop :=
  ∀ k a k', x k = .ok a k' → x k.planning = .ok a k'.planning ∧ k'.dryRun = k.dryRun

theorem blind_pure (a : α) : Blind (pure a) := by
  intro k a' k' h
  obtain ⟨rfl, rfl⟩ := pure_eq_ok.1 h
  exact ⟨rfl, rfl⟩

theorem blind_throw (fault : Fault) : Blind (throw fault : Task α) := nofun

theorem blind_act (action : Protocol.Action α) : Blind (act action) := by
  intro k a k' h
  obtain ⟨p, hp, rfl⟩ := act_eq_ok.1 h
  exact ⟨act_eq_ok.2 ⟨p, hp, rfl⟩, rfl⟩

theorem blind_bind {x : Task α} {f : α → Task β} (hx : Blind x) (hf : ∀ a, Blind (f a)) :
    Blind (x >>= f) := by
  intro k b k' h
  obtain ⟨a, r, hr, hk'⟩ := bind_eq_ok.1 h
  obtain ⟨hplan, hdry⟩ := hx k a r hr
  obtain ⟨hplan', hdry'⟩ := hf a r b k' hk'
  exact ⟨bind_eq_ok.2 ⟨a, _, hplan, hplan'⟩, hdry'.trans hdry⟩

/-- What follows a look at the keeper may not depend on whether moves are planned only. -/
theorem blind_get_bind {f : Keeper → Task α} (hf : ∀ k, Blind (f k))
    (hsame : ∀ k, f k.planning = f k) : Blind (get >>= f) := by
  intro k a k' h
  refine ⟨get_bind_eq_ok.2 ?_, ((hf k) k a k' h).2⟩
  rw [hsame]
  exact ((hf k) k a k' h).1

theorem blind_foldlM {f : β → γ → Task β} (hf : ∀ b c, Blind (f b c)) (l : List γ) (b : β) :
    Blind (l.foldlM f b) := by
  induction l generalizing b with
  | nil => exact blind_pure b
  | cons c l ih => exact blind_bind (hf b c) fun b => ih b

/-! ## What tasks leave -/

/-- The state that a task leaves, whether it succeeds or fails. -/
def left : EStateM.Result Fault Keeper α → Keeper
  | .ok _ k => k
  | .error _ k => k

/-- What a task gives back, or the fault that it fails with. -/
def answer : EStateM.Result Fault Keeper α → Except Fault α
  | .ok a _ => .ok a
  | .error fault _ => .error fault

theorem eq_ok_of_answer {r : EStateM.Result Fault Keeper α} {f : α → β} {b : β}
    (h : (answer r).map f = .ok b) : ∃ a, r = .ok a (left r) ∧ f a = b := by
  cases r with
  | ok a k => exact ⟨a, rfl, Except.ok.inj h⟩
  | error fault k => cases h

/-- Whatever the task does, and also where it fails half-way, the keeper it leaves is related so to the one
before. -/
def Leaves (R : Keeper → Keeper → Prop) (x : Task α) : Prop := ∀ k, R k (left (x k))

theorem left_bind (x : Task α) (f : α → Task β) (k : Keeper) :
    left ((x >>= f) k) = match x k with
      | .ok a r => left (f a r)
      | .error _ r => r := by
  show left (EStateM.bind x f k) = _
  unfold EStateM.bind
  cases x k <;> rfl

theorem left_act (action : Protocol.Action α) (k : Keeper) :
    left (act action k) = { k with protocol := Protocol.left (action k.protocol) } := by
  unfold act
  cases action k.protocol <;> rfl

section

variable {R : Keeper → Keeper → Prop}

theorem Leaves.of_ok {x : Task α} (h : Leaves R x) (hx : x k = .ok a k') : R k k' := by
  have hk := h k
  rwa [hx] at hk

theorem leaves_act {action : Protocol.Action α}
    (h : ∀ k : Keeper, R k { k with protocol := Protocol.left (action k.protocol) }) :
    Leaves R (act action) := fun k => (left_act action k).symm ▸ h k

/-- What follows a look at the keeper runs on that keeper. -/
theorem leaves_get_bind {f : Keeper → Task α} (hf : ∀ k, R k (left (f k k))) :
    Leaves R (get >>= f) := hf

theorem leaves_bind [IsTrans Keeper R] {x : Task α} {f : α → Task β} (hx : Leaves R x)
    (hf : ∀ a, Leaves R (f a)) : Leaves R (x >>= f) := by
  intro k
  have h := hx k
  rw [left_bind]
  cases hxk : x k with
  | ok a r =>
    rw [hxk] at h
    exact IsTrans.trans _ _ _ h (hf a r)
  | error fault r =>
    rw [hxk] at h
    exact h

variable [Std.Refl R]

theorem leaves_pure (a : α) : Leaves R (pure a) := fun k => Std.Refl.refl k

theorem leaves_throw (fault : Fault) : Leaves R (throw fault : Task α) := fun k => Std.Refl.refl k

theorem leaves_demand (x : Except MetaPool.Fault α) : Leaves R (act (Protocol.demand x)) := by
  refine leaves_act fun k => ?_
  cases x <;> exact Std.Refl.refl k

theorem leaves_ask (view : Protocol → Except MetaPool.Fault α) : Leaves R (ask view) :=
  fun k => leaves_demand (view k.protocol) k

variable [IsTrans Keeper R]

theorem leaves_foldlM {f : β → γ → Task β} (hf : ∀ b c, Leaves R (f b c)) (l : List γ) (b : β) :
    Leaves R (l.foldlM f b) := by
  induction l generalizing b with
  | nil => exact leaves_pure b
  | cons c l ih => exact leaves_bind (hf b c) fun b => ih b

theorem leaves_forM {f : γ → Task Unit} (hf : ∀ c, Leaves R (f c)) (l : List γ) : Leaves R (l.forM f) := by
  induction l with
  | nil => exact leaves_pure ()
  | cons c l ih => exact leaves_bind (hf c) fun _ => ih

end

/-! ## Tasks that fail without a trace -/

/-- If the task fails, it leaves the keeper as it was. -/
def Atomic (x : Task α) : Prop := ∀ k fault k', x k = .error fault k' → k' = k

theorem atomic_pure (a : α) : Atomic (pure a) := by
  intro k fault k' h
  cases h

theorem atomic_act {action : Protocol.Action α} (h : Protocol.Atomic action) : Atomic (act action) := by
  intro k fault k' hk
  obtain ⟨cause, p, hp, -, rfl⟩ := act_eq_error.1 hk
  rw [h k.protocol p cause hp]

theorem atomic_demand (x : Except MetaPool.Fault α) : Atomic (act (Protocol.demand x)) :=
  atomic_act (Protocol.atomic_ask fun _ => x)

/-- What follows cannot fail. -/
theorem atomic_bind_pure {x : Task α} (hx : Atomic x) (g : α → β) :
    Atomic (x >>= fun a => pure (g a)) := by
  intro k fault k' h
  rcases bind_eq_error.1 h with h | ⟨a, r, -, h⟩
  · exact hx k fault k' h
  · cases h

/-- What comes before only looks. -/
theorem atomic_ask_bind {view : Protocol → Except MetaPool.Fault α} {f : α → Task β}
    (hf : ∀ a, Atomic (f a)) : Atomic (ask view >>= f) := by
  intro k fault k' h
  rcases bind_eq_error.1 h with hview | ⟨a, r, hview, hrest⟩
  · exact atomic_act (Protocol.atomic_ask view) k fault k' hview
  · obtain ⟨-, rfl⟩ := ask_eq_ok.1 hview
    exact hf a r fault k' hrest

theorem atomic_get_bind {f : Keeper → Task α} (hf : ∀ k, Atomic (f k)) : Atomic (get >>= f) :=
  fun k => hf k k

/-! ## Tasks that move no capital in a dry run -/

/-- What a dry run may write: the time, the feeds and the log. -/
def dryWrites : List Component := [.clock, .feeds, .log]

/-- If the keeper is in a dry run, it still is, and nothing but the time, the feeds and the log has been
written. -/
def Spares (k k' : Keeper) : Prop :=
  k.dryRun = true → Protocol.Frame dryWrites k.protocol k'.protocol ∧ k'.dryRun = true

instance : Std.Refl Spares := ⟨fun _ hdry => ⟨.refl _, hdry⟩⟩

instance : IsTrans Keeper Spares := by
  refine ⟨fun k r k' h h' hdry => ?_⟩
  obtain ⟨hframe, hdry⟩ := h hdry
  obtain ⟨hframe', hdry⟩ := h' hdry
  exact ⟨hframe.trans hframe', hdry⟩

/-- In a dry run the task writes only the time, the feeds and the log, also where it fails half-way. -/
def Harmless (x : Task α) : Prop := Leaves Spares x

theorem harmless_act {action : Protocol.Action α} (h : Protocol.Within dryWrites action) :
    Harmless (act action) := leaves_act fun k hdry => ⟨h k.protocol, hdry⟩

/-- What follows a look at a keeper in a dry run. -/
theorem harmless_get_bind {f : Keeper → Task α} (hf : ∀ k, k.dryRun = true → Harmless (f k)) :
    Harmless (get >>= f) := leaves_get_bind fun k hdry => hf k hdry k hdry

end MetaPool.Keeper
