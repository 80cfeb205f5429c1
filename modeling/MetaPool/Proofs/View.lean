import MetaPool.Fault

/-!
# Views that succeed

A view succeeds if each of its parts does. The lemmas that end in `eq_ok` read that off the
constructors of a view, so that for a body of them they give all that was checked and all that was
computed on the way.
-/

namespace MetaPool

variable {α β γ : Type}

theorem except_bind_eq_ok {x : Except Fault α} {f : α → Except Fault β} {b : β} :
    x >>= f = .ok b ↔ ∃ a, x = .ok a ∧ f a = .ok b := by
  cases x <;> simp [bind, Except.bind]

theorem except_check_eq_ok {x : Except Fault Unit} {f : Unit → Except Fault β} {b : β} :
    x >>= f = .ok b ↔ x = .ok () ∧ f () = .ok b :=
  except_bind_eq_ok.trans ⟨fun ⟨_, h⟩ => h, fun h => ⟨(), h⟩⟩

theorem except_pure_eq_ok {a b : α} : (pure a : Except Fault α) = .ok b ↔ b = a := by
  simp [pure, Except.pure, eq_comm]

theorem refuse_eq_ok {c : Prop} [Decidable c] {fault : Fault} {x : Except Fault α} {a : α} :
    (if c then .error fault else x) = .ok a ↔ ¬ c ∧ x = .ok a := by
  split <;> simp_all

theorem require_eq_ok {c : Prop} [Decidable c] {fault : Fault} {x : Except Fault α} {a : α} :
    (if c then x else .error fault) = .ok a ↔ c ∧ x = .ok a := by
  split <;> simp_all

theorem ok_unique {x : Except Fault α} {a b : α} (h : x = .ok a) (h' : x = .ok b) : a = b :=
  Except.ok.inj (h.symm.trans h')

theorem eq_ok_of_toOption {ε : Type} {x : Except ε α} {a : α} (h : x.toOption = some a) : x = .ok a := by
  cases x with
  | ok b => exact congrArg _ (Option.some.inj h)
  | error fault => cases h

theorem exists_ok_of_isSome {x : Except Fault α} (h : x.toOption.isSome) : ∃ a, x = .ok a := by
  cases x with
  | ok a => exact ⟨a, rfl⟩
  | error fault => cases h

theorem exists_error_of_isNone {x : Except Fault α} (h : x.toOption.isNone) :
    ∃ fault, x = .error fault := by
  cases x with
  | ok a => cases h
  | error fault => exact ⟨fault, rfl⟩

/-! ## Walks over a list -/

theorem except_forM_eq_ok {l : List γ} {f : γ → Except Fault Unit} :
    l.forM f = .ok () ↔ ∀ c ∈ l, f c = .ok () := by
  induction l with
  | nil => simp [List.forM, pure, Except.pure]
  | cons c l ih =>
    rw [List.forall_mem_cons, ← ih]
    exact except_bind_eq_ok.trans ⟨fun ⟨_, hc, hl⟩ => ⟨hc, hl⟩, fun ⟨hc, hl⟩ => ⟨(), hc, hl⟩⟩

/-- What every successful step for an element of the list preserves, the whole fold preserves. -/
theorem foldlM_preserves_of_mem {I : β → Prop} {l : List γ} {f : β → γ → Except Fault β} {b b' : β}
    (hf : ∀ c ∈ l, ∀ b b', I b → f b c = .ok b' → I b') (hb : I b) (h : l.foldlM f b = .ok b') :
    I b' := by
  induction l generalizing b with
  | nil =>
    obtain rfl := except_pure_eq_ok.1 h
    exact hb
  | cons c l ih =>
    obtain ⟨r, hc, hl⟩ := except_bind_eq_ok.1 h
    rw [List.forall_mem_cons] at hf
    exact ih hf.2 (hf.1 b r hb hc) hl

theorem foldlM_preserves {I : β → Prop} {l : List γ} {f : β → γ → Except Fault β} {b b' : β}
    (hf : ∀ b c b', I b → f b c = .ok b' → I b') (hb : I b) (h : l.foldlM f b = .ok b') : I b' :=
  foldlM_preserves_of_mem (fun c _ b b' => hf b c b') hb h

/-- A fold whose every step succeeds, whatever came before, succeeds. -/
theorem foldlM_succeeds {l : List γ} {f : β → γ → Except Fault β}
    (hf : ∀ c ∈ l, ∀ b, ∃ b', f b c = .ok b') (b : β) : ∃ b', l.foldlM f b = .ok b' := by
  induction l generalizing b with
  | nil => exact ⟨b, rfl⟩
  | cons c l ih =>
    rw [List.forall_mem_cons] at hf
    obtain ⟨r, hc⟩ := hf.1 b
    obtain ⟨b', hl⟩ := ih hf.2 r
    exact ⟨b', except_bind_eq_ok.2 ⟨r, hc, hl⟩⟩

/-- A view that succeeds at every element succeeds for the list. -/
theorem mapM_eq_ok {l : List γ} {f : γ → Except Fault β} {g : γ → β}
    (h : ∀ c ∈ l, f c = .ok (g c)) : l.mapM f = .ok (l.map g) := by
  induction l with
  | nil => rfl
  | cons c l ih =>
    rw [List.forall_mem_cons] at h
    rw [List.mapM_cons]
    exact except_bind_eq_ok.2 ⟨g c, h.1, except_bind_eq_ok.2 ⟨l.map g, ih h.2, rfl⟩⟩

/-- A filter puts what it keeps in front of what it has kept before. -/
theorem filterAuxM_eq_ok {l kept r : List γ} {f : γ → Except Fault Bool}
    (h : l.filterAuxM f kept = .ok r) :
    (∀ c ∈ l, ∃ keep, f c = .ok keep) ∧ ∀ c, c ∈ r ↔ c ∈ kept ∨ c ∈ l ∧ f c = .ok true := by
  induction l generalizing kept with
  | nil =>
    obtain rfl := except_pure_eq_ok.1 h
    simp
  | cons b l ih =>
    obtain ⟨keep, hb, h⟩ := except_bind_eq_ok.1 h
    obtain ⟨hl, hmem⟩ := ih h
    refine ⟨List.forall_mem_cons.2 ⟨⟨keep, hb⟩, hl⟩, fun c => (hmem c).trans ?_⟩
    cases keep <;> grind

/-- A filter by a view that succeeds has looked at every element. -/
theorem filterM_eq_ok {l r : List γ} {f : γ → Except Fault Bool} (h : l.filterM f = .ok r) :
    (∀ c ∈ l, ∃ keep, f c = .ok keep) ∧ ∀ c, c ∈ r ↔ c ∈ l ∧ f c = .ok true := by
  obtain ⟨reversed, hreversed, h⟩ := except_bind_eq_ok.1 h
  obtain rfl := except_pure_eq_ok.1 h
  obtain ⟨hl, hmem⟩ := filterAuxM_eq_ok hreversed
  exact ⟨hl, fun c => by simp [hmem]⟩

end MetaPool
