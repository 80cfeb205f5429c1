import MetaPool.Proofs.Failure

/-!
# Writing in place

A routine that reads and writes a value keeps what it has written if it fails later on. One that makes all its
checks before it writes happens or leaves the value as it was, and so comes to a change of the value as a whole
(`allOrNothing`).

    (look view >>= f) b = allOrNothing (fun b => view b >>= fun a => change a b) b      (look_bind_eq)
-/

namespace MetaPool.InPlace

variable {σ α β : Type} {b b' : σ} {fault : Fault} {change : σ → Except Fault σ}

/-- A routine that reads and writes a value. -/
abbrev Routine (σ : Type) := EStateM Fault σ

/-- What a view shows of the present value. -/
def look (view : σ → Except Fault α) : Routine σ α := fun b =>
  match view b with
  | .ok a => .ok a b
  | .error fault => .error fault b

/-- Puts a new value in the place of the present one, or fails and leaves it. -/
def allOrNothing (change : σ → Except Fault σ) : Routine σ Unit := fun b =>
  match change b with
  | .ok b' => .ok () b'
  | .error fault => .error fault b

theorem look_bind (view : σ → Except Fault α) (f : α → Routine σ β) (b : σ) :
    (look view >>= f) b = match view b with
      | .ok a => f a b
      | .error fault => .error fault b := by
  show EStateM.bind _ _ _ = _
  unfold EStateM.bind look
  cases view b <;> rfl

theorem allOrNothing_of_ok (h : change b = .ok b') : allOrNothing change b = .ok () b' := by
  simp only [allOrNothing, h]

theorem allOrNothing_of_error (h : change b = .error fault) :
    allOrNothing change b = .error fault b := by
  simp only [allOrNothing, h]

theorem eq_of_allOrNothing_error (h : allOrNothing change b = .error fault b') : b' = b := by
  cases hchange : change b with
  | ok b'' =>
    rw [allOrNothing_of_ok hchange] at h
    cases h
  | error fault' =>
    rw [allOrNothing_of_error hchange] at h
    exact (EStateM.Result.error.inj h).2.symm

/-- A routine that looks first fails without a trace if the look does. -/
theorem look_bind_eq {view : σ → Except Fault α} {f : α → Routine σ Unit}
    {change : α → σ → Except Fault σ} (h : ∀ a, view b = .ok a → f a b = allOrNothing (change a) b) :
    (look view >>= f) b = allOrNothing (fun b => view b >>= fun a => change a b) b := by
  rw [look_bind]
  cases hview : view b with
  | error fault => exact (allOrNothing_of_error (except_bind_eq_error.2 (.inl hview))).symm
  | ok a =>
    dsimp only
    rw [h a hview]
    simp only [allOrNothing, hview, bind, Except.bind]

end MetaPool.InPlace
