import MetaPool.Book.Tokens
import MetaPool.Proofs.Quantity.Checked

/-!
# Moves of tokens

The lemmas that end in `eq_ok` say what a successful write of the token book has checked and what it
leaves. `Moved` says what a move of tokens does to what everybody holds, as one equation for every
token and every account. It covers a move to oneself and a move of nothing, and leaves the allowances
open.

    b.transfer token source target amount = .ok b' → Moved …        (moved_of_transfer)
    b.transferFrom token spender source target amount = .ok b' → Moved … (moved_of_transferFrom)
-/

namespace MetaPool

namespace TokenRecord

/-- The record after new tokens are credited. -/
def credited (r : TokenRecord) (holder : Address) (amount : Nat) : TokenRecord :=
  { r with
    supply := r.supply + amount
    balances := r.balances.insert holder (r.balanceOf holder + amount) }

/-- The record after a move from one account to another. -/
def moved (r : TokenRecord) (source target : Address) (amount : Nat) : TokenRecord :=
  { r with
    balances := (r.balances.insert source (r.balanceOf source - amount)).insert target
      (r.balanceOf target + amount) }

variable {r : TokenRecord} {source target holder a : Address} {amount : Nat}

theorem balanceOf_credited : (r.credited holder amount).balanceOf a =
    if a = holder then r.balanceOf holder + amount else r.balanceOf a := by
  simp only [balanceOf, credited, OrderedMap.get?_insert]
  split <;> simp

theorem balanceOf_moved : (r.moved source target amount).balanceOf a =
    if a = target then r.balanceOf target + amount
    else if a = source then r.balanceOf source - amount else r.balanceOf a := by
  simp only [balanceOf, moved, OrderedMap.get?_insert]
  split
  · simp
  · split <;> simp

end TokenRecord

namespace TokenBook

variable {b b' : TokenBook} {token source target spender holder : Address} {amount v : Nat}

/-- What an account holds; nothing, of a token without a record. -/
def held (b : TokenBook) (token holder : Address) : Nat :=
  match b.records.get? token with
  | some r => r.balanceOf holder
  | none => 0

theorem record_eq_ok {r : TokenRecord} :
    b.record token = .ok r ↔ b.records.get? token = some r := by
  unfold record
  cases b.records.get? token <;> simp

/-- A balance is read off the record of its token. -/
theorem balance_eq_ok : b.balanceOf token holder = .ok v ↔
    ∃ r, b.records.get? token = some r ∧ v = r.balanceOf holder := by
  simp only [balanceOf, except_bind_eq_ok, except_pure_eq_ok, record_eq_ok]

theorem traits_eq_ok {x : TokenTraits} :
    b.traits token = .ok x ↔ ∃ r, b.records.get? token = some r ∧ x = r.traits := by
  simp only [traits, except_bind_eq_ok, except_pure_eq_ok, record_eq_ok]

theorem held_of_record {r : TokenRecord} (h : b.records.get? token = some r) (a : Address) :
    b.held token a = r.balanceOf a := by
  simp only [held, h]

/-- A balance can be read for every token that has traits. -/
theorem balanceOf_eq_ok : b.balanceOf token holder = .ok v ↔
    (∃ x, b.traits token = .ok x) ∧ v = b.held token holder := by
  simp only [balance_eq_ok, traits_eq_ok]
  constructor
  · rintro ⟨r, hr, rfl⟩
    exact ⟨⟨_, r, hr, rfl⟩, (held_of_record hr holder).symm⟩
  · rintro ⟨⟨_, r, hr, -⟩, rfl⟩
    exact ⟨r, hr, held_of_record hr holder⟩

/-! ## Successful writes -/

theorem mint_eq_ok : b.mint token holder amount = .ok b' ↔
    ∃ r, b.records.get? token = some r ∧ r.supply + amount ≤ maxAmount ∧
      r.balanceOf holder + amount ≤ maxAmount ∧
      b' = ⟨b.records.insert token (r.credited holder amount)⟩ := by
  simp only [mint, except_bind_eq_ok, except_pure_eq_ok, record_eq_ok, Checked.add_eq_ok,
    TokenRecord.credited]
  grind

theorem approve_eq_ok {owner : Address} : b.approve token owner spender amount = .ok b' ↔
    ∃ r, b.records.get? token = some r ∧
      b' = ⟨b.records.insert token (r.approve owner spender amount)⟩ := by
  simp only [approve, except_bind_eq_ok, except_pure_eq_ok, record_eq_ok]

/-- A successful transfer changes nothing if nothing moves or it moves to where it is. -/
theorem transfer_eq_ok : b.transfer token source target amount = .ok b' ↔
    ¬ target.isEmpty = true ∧ ∃ r, b.records.get? token = some r ∧ amount ≤ r.balanceOf source ∧
      ((source = target ∨ amount = 0) ∧ b' = b ∨
        ¬ (source = target ∨ amount = 0) ∧ r.balanceOf target + amount ≤ maxAmount ∧
          b' = ⟨b.records.insert token (r.moved source target amount)⟩) := by
  simp only [transfer, refuse_eq_ok, except_bind_eq_ok, record_eq_ok, Nat.not_lt]
  refine and_congr_right fun _ => exists_congr fun r => and_congr_right fun _ =>
    and_congr_right fun _ => ?_
  split
  next hidle => simp [except_pure_eq_ok, hidle]
  next hmoves =>
    simp only [except_bind_eq_ok, except_pure_eq_ok, Checked.add_eq_ok, hmoves, TokenRecord.moved]
    grind

theorem transferFrom_eq_ok : b.transferFrom token spender source target amount = .ok b' ↔
    ∃ allowed moved, b.allowance token source spender = .ok allowed ∧ amount ≤ allowed ∧
      b.transfer token source target amount = .ok moved ∧
      moved.approve token source spender (allowed - amount) = .ok b' := by
  simp only [transferFrom, except_bind_eq_ok, refuse_eq_ok, Checked.sub_eq_ok, Nat.not_lt]
  grind

/-! ## One record -/

/-- Replaces the record of a token by one with the same traits. -/
theorem traits_insert {r r' : TokenRecord} (hr : b.records.get? token = some r)
    (htraits : r'.traits = r.traits) (t : Address) :
    traits ⟨b.records.insert token r'⟩ t = b.traits t := by
  simp only [traits, record, OrderedMap.get?_insert]
  by_cases ht : t = token
  · subst ht
    simp [hr, htraits, Functor.map, Except.map]
  · simp [ht]

theorem held_insert (r' : TokenRecord) (t a : Address) :
    held ⟨b.records.insert token r'⟩ t a = if t = token then r'.balanceOf a else b.held t a := by
  unfold held
  rw [OrderedMap.get?_insert]
  by_cases ht : t = token <;> simp [ht]

/-- A transfer leaves all but the balances of its token alone. -/
theorem record_of_transfer (h : b.transfer token source target amount = .ok b') :
    ∃ r m, b.records.get? token = some r ∧ b'.records.get? token = some m ∧
      m.traits = r.traits ∧ m.supply = r.supply ∧ m.allowances = r.allowances ∧
      ∀ t, t ≠ token → b'.records.get? t = b.records.get? t := by
  obtain ⟨-, r, hr, -, ⟨-, rfl⟩ | ⟨-, -, rfl⟩⟩ := transfer_eq_ok.1 h
  · exact ⟨r, r, hr, hr, rfl, rfl, rfl, fun _ _ => rfl⟩
  · refine ⟨r, r.moved source target amount, hr, ?_, rfl, rfl, rfl, fun t ht => ?_⟩
    · rw [OrderedMap.get?_insert, if_pos rfl]
    · rw [OrderedMap.get?_insert, if_neg ht]

/-! ## Moves -/

/-- Nothing but `amount` of one token goes from `source` to `target`. -/
structure Moved (b b' : TokenBook) (token source target : Address) (amount : Nat) : Prop where
  traits : ∀ t, b'.traits t = b.traits t
  enough : amount ≤ b.held token source
  held : ∀ t a, b'.held t a + (if t = token ∧ a = source then amount else 0) =
    b.held t a + (if t = token ∧ a = target then amount else 0)

theorem moved_of_transfer (h : b.transfer token source target amount = .ok b') :
    Moved b b' token source target amount := by
  obtain ⟨-, r, hr, hle, ⟨hidle, rfl⟩ | ⟨hmoves, -, rfl⟩⟩ := transfer_eq_ok.1 h
  · refine ⟨fun _ => rfl, by rwa [held_of_record hr], ?_⟩
    intro t a
    rcases hidle with rfl | rfl
    · rfl
    · simp
  · have hne : source ≠ target := fun e => hmoves (.inl e)
    refine ⟨traits_insert hr rfl, by rwa [held_of_record hr], ?_⟩
    intro t a
    rw [held_insert]
    by_cases ht : t = token
    · subst ht
      rw [if_pos rfl, TokenRecord.balanceOf_moved, held_of_record hr]
      by_cases ha : a = target
      · subst ha
        simp [Ne.symm hne]
      · by_cases hs : a = source
        · subst hs
          simp only [ha, and_true, and_false, ↓reduceIte]
          omega
        · simp [ha, hs]
    · simp [ht]

/-- What an owner lets others move is nothing that anybody holds. -/
theorem moved_of_approve {owner : Address} {b'' : TokenBook}
    (hmoved : Moved b b' token source target amount)
    (h : b'.approve token owner spender v = .ok b'') : Moved b b'' token source target amount := by
  obtain ⟨r, hr, rfl⟩ := approve_eq_ok.1 h
  have hheld : ∀ t a, held ⟨b'.records.insert token (r.approve owner spender v)⟩ t a =
      b'.held t a := by
    intro t a
    rw [held_insert]
    split
    next ht => rw [ht, held_of_record hr]; rfl
    next => rfl
  refine ⟨?_, hmoved.enough, ?_⟩
  · intro t
    have htraits : (r.approve owner spender v).traits = r.traits := rfl
    rw [traits_insert hr htraits, hmoved.traits]
  · intro t a
    rw [hheld, hmoved.held]

theorem moved_of_transferFrom (h : b.transferFrom token spender source target amount = .ok b') :
    Moved b b' token source target amount := by
  obtain ⟨allowed, moved, -, -, hmoved, happrove⟩ := transferFrom_eq_ok.1 h
  exact moved_of_approve (moved_of_transfer hmoved) happrove

variable {t a : Address}

theorem Moved.held_source (h : Moved b b' token source target amount) (hne : source ≠ target) :
    b'.held token source = b.held token source - amount := by
  have := h.held token source
  simp only [true_and, ↓reduceIte, hne] at this
  omega

theorem Moved.held_target (h : Moved b b' token source target amount) (hne : source ≠ target) :
    b'.held token target = b.held token target + amount := by
  have := h.held token target
  simp only [true_and, ↓reduceIte, Ne.symm hne] at this
  omega

/-- Whoever has no part in the move keeps what it holds. -/
theorem Moved.held_other (h : Moved b b' token source target amount) (hs : a ≠ source)
    (ht : a ≠ target) : b'.held t a = b.held t a := by
  have := h.held t a
  simpa [hs, ht] using this

end TokenBook

end MetaPool
