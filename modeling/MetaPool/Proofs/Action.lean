import MetaPool.Proofs.View

/-!
# Actions that succeed

An action reads and writes a state and may fail. It succeeds if each of its parts does, one after the
other. The lemmas that end in `eq_ok` read that off the constructors of an action, whatever its state
is, as those of `View` do for views.
-/

namespace MetaPool

variable {ε σ α β : Type} {x : EStateM ε σ α} {f : α → EStateM ε σ β} {p q : σ} {a : α} {b : β}
  {u : Unit}

theorem bind_eq_ok : (x >>= f) p = .ok b q ↔ ∃ a r, x p = .ok a r ∧ f a r = .ok b q := by
  show EStateM.bind x f p = _ ↔ _
  unfold EStateM.bind
  cases x p <;> simp [and_assoc]

theorem pure_eq_ok {a' : α} : (pure a : EStateM ε σ α) p = .ok a' q ↔ a' = a ∧ q = p := by
  show EStateM.Result.ok _ _ = _ ↔ _
  simp [eq_comm]

theorem throw_eq_ok {fault : ε} :
    (throw fault : EStateM ε σ α) p = .ok a q ↔ False := by
  constructor <;> intro h <;> cases h

theorem get_eq_ok {s : σ} : (get : EStateM ε σ σ) p = .ok s q ↔ s = p ∧ q = p := by
  show EStateM.Result.ok _ _ = _ ↔ _
  simp [eq_comm]

/-- What follows a look at the state runs on that state. -/
theorem get_bind_eq_ok {f : σ → EStateM ε σ β} :
    (get >>= f) p = .ok b q ↔ f p p = .ok b q := Iff.rfl

theorem modify_eq_ok {g : σ → σ} :
    (modify g : EStateM ε σ Unit) p = .ok u q ↔ q = g p := by
  show EStateM.Result.ok _ _ = _ ↔ _
  simp [eq_comm]

/-! ## Guards that throw -/

theorem refuse_then_eq_ok {c : Prop} [Decidable c] {fault : ε} {y : EStateM ε σ β} :
    (if c then throw fault >>= f else y) p = .ok b q ↔ ¬ c ∧ y p = .ok b q := by
  split
  · simp only [bind_eq_ok, throw_eq_ok]
    simp_all
  · simp_all

theorem require_then_eq_ok {c : Prop} [Decidable c] {fault : ε} {y : EStateM ε σ β} :
    (if c then y else throw fault >>= f) p = .ok b q ↔ c ∧ y p = .ok b q := by
  split
  · simp_all
  · simp only [bind_eq_ok, throw_eq_ok]
    simp_all

/-! ## Walks over a list -/

/-- What every successful action for the elements of a list preserves, the whole walk preserves. -/
theorem forM_preserves {γ : Type} {I : σ → Prop} {l : List γ} {f : γ → EStateM ε σ Unit}
    (hf : ∀ c ∈ l, ∀ p q, I p → f c p = .ok () q → I q) (hp : I p) (h : l.forM f p = .ok u q) :
    I q := by
  induction l generalizing p with
  | nil =>
    obtain ⟨-, rfl⟩ := pure_eq_ok.1 h
    exact hp
  | cons c l ih =>
    obtain ⟨⟨⟩, r, hc, hl⟩ := bind_eq_ok.1 h
    rw [List.forall_mem_cons] at hf
    exact ih hf.2 (hf.1 p r hp hc) hl

end MetaPool
