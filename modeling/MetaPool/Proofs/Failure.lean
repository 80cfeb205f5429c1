import MetaPool.Proofs.Action

/-!
# Views and actions that fail

A view or an action fails with the fault of its first part that fails. The lemmas that end in
`eq_error` read that off the constructors of a view, those that end in `stops` off those of an
action, so that a failed run is retraced to the check that stopped it. `FailsIn` bounds the faults of
a view and `StopsIn` those of an action without saying when they occur.

    (x >>= f) = .error e ↔ x = .error e ∨ x = .ok a and f a = .error e     (except_bind_eq_error)
    Stops (l.forM f) p e ↔ a first part of l succeeds and the next element stops    (stops_forM)
-/

namespace MetaPool

/-! ## Views -/

section

variable {α β γ : Type} {x : Except Fault α} {f : α → Except Fault β} {fault : Fault}

theorem except_bind_eq_error :
    x >>= f = .error fault ↔ x = .error fault ∨ ∃ a, x = .ok a ∧ f a = .error fault := by
  cases x <;> simp [bind, Except.bind]

/-- The view fails with no fault but these. -/
def FailsIn (S : Fault → Prop) (x : Except Fault α) : Prop := ∀ fault, x = .error fault → S fault

variable {S T : Fault → Prop} {c : Prop} [Decidable c]

theorem FailsIn.mono (h : FailsIn S x) (hST : ∀ fault, S fault → T fault) : FailsIn T x :=
  fun fault hx => hST fault (h fault hx)

theorem failsIn_ok (a : α) : FailsIn S (.ok a) := nofun

theorem failsIn_of_ok {a : α} (h : x = .ok a) : FailsIn S x := h ▸ failsIn_ok a

theorem failsIn_error (h : S fault) : FailsIn S (.error fault : Except Fault α) := by
  rintro _ ⟨⟩
  exact h

theorem failsIn_bind (hx : FailsIn S x) (hf : ∀ a, x = .ok a → FailsIn S (f a)) :
    FailsIn S (x >>= f) := by
  intro fault h
  rcases except_bind_eq_error.1 h with h | ⟨a, ha, h⟩
  · exact hx fault h
  · exact hf a ha fault h

theorem failsIn_ite {y : Except Fault α} (hx : FailsIn S x) (hy : FailsIn S y) :
    FailsIn S (if c then x else y) := by
  split
  · exact hx
  · exact hy

theorem failsIn_mapM {l : List γ} {g : γ → Except Fault β} (h : ∀ c ∈ l, FailsIn S (g c)) :
    FailsIn S (l.mapM g) := by
  induction l with
  | nil => exact failsIn_ok []
  | cons c l ih =>
    rw [List.forall_mem_cons] at h
    rw [List.mapM_cons]
    refine failsIn_bind h.1 fun b _ => failsIn_bind (ih h.2) fun bs _ => ?_
    exact failsIn_ok (b :: bs)

theorem failsIn_forM {l : List γ} {g : γ → Except Fault Unit} (h : ∀ c ∈ l, FailsIn S (g c)) :
    FailsIn S (l.forM g) := by
  induction l with
  | nil => exact failsIn_ok ()
  | cons c l ih =>
    rw [List.forall_mem_cons] at h
    exact failsIn_bind h.1 fun _ _ => ih h.2

end

/-! ## Actions -/

section

variable {ε σ α β : Type} {x : EStateM ε σ α} {f : α → EStateM ε σ β} {p q : σ} {fault : ε}

theorem bind_eq_error : (x >>= f) p = .error fault q ↔
    x p = .error fault q ∨ ∃ a r, x p = .ok a r ∧ f a r = .error fault q := by
  show EStateM.bind x f p = _ ↔ _
  unfold EStateM.bind
  cases x p <;> simp [and_assoc]

theorem refuse_then_eq_error {c : Prop} [Decidable c] {fault' : ε} {y : EStateM ε σ β} :
    (if c then throw fault' >>= f else y) p = .error fault q ↔
      c ∧ fault = fault' ∧ q = p ∨ ¬ c ∧ y p = .error fault q := by
  have hthrow : (throw fault' >>= f) p = .error fault q ↔ fault = fault' ∧ q = p := by
    show EStateM.Result.error fault' p = _ ↔ _
    simp [eq_comm]
  split
  next hc => simp [hc, hthrow]
  next hc => simp [hc]

end

section

variable {σ α β : Type} {x : EStateM Fault σ α} {f : α → EStateM Fault σ β} {p : σ} {fault : Fault}

/-- The action fails with the fault. -/
def Stops (x : EStateM Fault σ α) (p : σ) (fault : Fault) : Prop := ∃ q, x p = .error fault q

theorem exists_ok_of_not_stops (h : ∀ fault, ¬ Stops x p fault) : ∃ a q, x p = .ok a q := by
  cases hx : x p with
  | ok a q => exact ⟨a, q, rfl⟩
  | error fault q => exact absurd ⟨q, hx⟩ (h fault)

theorem stops_bind :
    Stops (x >>= f) p fault ↔ Stops x p fault ∨ ∃ a q, x p = .ok a q ∧ Stops (f a) q fault := by
  simp only [Stops, bind_eq_error, exists_or]
  grind

theorem stops_pure {a : α} : ¬ Stops (pure a : EStateM Fault σ α) p fault := nofun

theorem stops_modify {g : σ → σ} : ¬ Stops (modify g : EStateM Fault σ Unit) p fault := nofun

theorem stops_get : ¬ Stops (get : EStateM Fault σ σ) p fault := nofun

/-- What follows a look at the state runs on that state. -/
theorem stops_get_bind {f : σ → EStateM Fault σ β} :
    Stops (get >>= f) p fault ↔ Stops (f p) p fault := Iff.rfl

theorem stops_refuse_then {c : Prop} [Decidable c] {fault' : Fault} {y : EStateM Fault σ β} :
    Stops (if c then throw fault' >>= f else y) p fault ↔
      c ∧ fault = fault' ∨ ¬ c ∧ Stops y p fault := by
  simp only [Stops, refuse_then_eq_error, exists_or]
  simp

/-- A walk stops at the first element whose action does. -/
theorem stops_forM {γ : Type} {l : List γ} {f : γ → EStateM Fault σ Unit} :
    Stops (l.forM f) p fault ↔ ∃ before c after q, l = before ++ c :: after ∧
      before.forM f p = .ok () q ∧ Stops (f c) q fault := by
  induction l generalizing p with
  | nil =>
    refine ⟨fun h => absurd h stops_pure, ?_⟩
    rintro ⟨before, c, after, q, h, -⟩
    simp at h
  | cons d l ih =>
    refine stops_bind.trans ?_
    simp only [ih]
    constructor
    · rintro (h | ⟨⟨⟩, r, hd, before, c, after, q, rfl, hbefore, h⟩)
      · exact ⟨[], d, l, p, rfl, rfl, h⟩
      · exact ⟨d :: before, c, after, q, rfl, bind_eq_ok.2 ⟨(), r, hd, hbefore⟩, h⟩
    · rintro ⟨_ | ⟨e, before⟩, c, after, q, hl, hbefore, h⟩
      · obtain ⟨-, rfl⟩ := pure_eq_ok.1 hbefore
        obtain ⟨rfl, rfl⟩ := List.cons.inj hl
        exact .inl h
      · obtain ⟨rfl, rfl⟩ := List.cons.inj hl
        obtain ⟨⟨⟩, r, hd, hbefore⟩ := bind_eq_ok.1 hbefore
        exact .inr ⟨(), r, hd, before, c, after, q, rfl, hbefore, h⟩

/-! ## Bounds for the faults of an action -/

variable {S : Fault → Prop}

/-- The action fails with no fault but these. -/
def StopsIn (S : Fault → Prop) (x : EStateM Fault σ α) (p : σ) : Prop :=
  ∀ fault, Stops x p fault → S fault

theorem stopsIn_bind (hx : StopsIn S x p) (hf : ∀ a q, x p = .ok a q → StopsIn S (f a) q) :
    StopsIn S (x >>= f) p := by
  intro fault h
  rcases stops_bind.1 h with h | ⟨a, q, ha, h⟩
  · exact hx fault h
  · exact hf a q ha fault h

theorem stopsIn_pure {a : α} : StopsIn S (pure a : EStateM Fault σ α) p :=
  fun _ h => absurd h stops_pure

/-- What follows a look at the state runs on that state. -/
theorem stopsIn_get_bind {f : σ → EStateM Fault σ β} (h : StopsIn S (f p) p) :
    StopsIn S (get >>= f) p := h

theorem stopsIn_refuse_then {c : Prop} [Decidable c] {fault : Fault} {y : EStateM Fault σ β}
    (hfault : S fault) (hy : StopsIn S y p) :
    StopsIn S (if c then throw fault >>= f else y) p := by
  intro fault' h
  rcases stops_refuse_then.1 h with ⟨-, rfl⟩ | ⟨-, h⟩
  · exact hfault
  · exact hy fault' h

end

end MetaPool
