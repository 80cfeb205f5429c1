import MetaPool.Proofs.Failure
import MetaPool.Proofs.Ledger.Shares

/-!
# Movements of shares

A share book is written by mints and burns alone. Each of them writes the supply first and then the balance
of its holder, in place, after all the checks that could stop it (`carryOut_eq`). So a movement happens as a
whole or leaves the book as it was, whatever book it meets: also one whose balances do not sum to its
supply, where a burn may be stopped by the supply alone.

    m.carryOut b = the book that m.apply makes, or its fault and b as it was     (carryOut_eq)
    m.apply succeeds on b ↔ b.Admits m                                           (exists_apply_iff)
    m.apply b = .ok b' → Carried m b b', its supply and its total as far apart as before
                                                                                 (carried_of_apply)
-/

namespace MetaPool.ShareBook

/-! ## Movements -/

/-- Shares that come to a holder or go from it. -/
inductive Movement where
  | mint (holder : Address) (amount : Nat)
  | burn (holder : Address) (amount : Nat)
deriving DecidableEq

namespace Movement

def holder : Movement → Address
  | mint holder _ => holder
  | burn holder _ => holder

/-- What a movement adds to a balance and to the supply. -/
def change : Movement → Int
  | mint _ amount => amount
  | burn _ amount => -amount

/-- The book that a movement makes out of a book. -/
def apply : Movement → ShareBook → Except Fault ShareBook
  | mint holder amount, b => b.mint holder amount
  | burn holder amount, b => b.burn holder amount

end Movement

/-- Whether nothing stops a movement. -/
def Admits (b : ShareBook) : Movement → Prop
  | .mint holder amount => ¬ holder.isEmpty ∧ b.supply + amount ≤ maxAmount ∧
      b.balanceOf holder + amount ≤ maxAmount
  | .burn holder amount => amount ≤ b.balanceOf holder ∧ amount ≤ b.supply

instance (b : ShareBook) (m : Movement) : Decidable (b.Admits m) :=
  match m with
  | .mint _ _ => inferInstanceAs (Decidable (_ ∧ _ ∧ _))
  | .burn _ _ => inferInstanceAs (Decidable (_ ∧ _))

/-! ## In place -/

/-- A routine that reads and writes the book. What it has written stays written if it fails later on. -/
abbrev Routine := EStateM Fault ShareBook

def mintInPlace (holder : Address) (amount : Nat) : Routine Unit :=
  if holder.isEmpty then throw .invalidAddress
  else do
    let b ← get
    let supply ← MonadExcept.ofExcept (Checked.add b.supply amount)
    let balance ← MonadExcept.ofExcept (Checked.add (b.balanceOf holder) amount)
    modify ({ · with supply })
    modify fun b => { b with balances := b.balances.insert holder balance }

def burnInPlace (holder : Address) (amount : Nat) : Routine Unit := do
  let b ← get
  let balance := b.balanceOf holder
  if balance < amount then throw .balanceInsufficient
  else
    let supply ← MonadExcept.ofExcept (Checked.sub b.supply amount)
    modify ({ · with supply })
    if balance = amount then modify fun b => { b with balances := b.balances.erase holder }
    else modify fun b => { b with balances := b.balances.insert holder (balance - amount) }

/-- Carries out a movement step by step. -/
def Movement.carryOut : Movement → Routine Unit
  | mint holder amount => mintInPlace holder amount
  | burn holder amount => burnInPlace holder amount

/-- The book that a movement leaves, whether it succeeds or fails. -/
def after (b : ShareBook) (m : Movement) : ShareBook :=
  match m.carryOut b with
  | .ok _ b' => b'
  | .error _ b' => b'

variable {b b' : ShareBook} {m : Movement} {fault : Fault}

theorem get_bind {β : Type} (f : ShareBook → Routine β) (b : ShareBook) : (get >>= f) b = f b b := rfl

theorem ofExcept_bind {α β : Type} (x : Except Fault α) (f : α → Routine β) (b : ShareBook) :
    (MonadExcept.ofExcept x >>= f) b = match x with
      | .ok a => f a b
      | .error fault => .error fault b := by
  cases x <;> rfl

theorem mintInPlace_eq (holder : Address) (amount : Nat) (b : ShareBook) :
    mintInPlace holder amount b = match b.mint holder amount with
      | .ok b' => .ok () b'
      | .error fault => .error fault b := by
  unfold mintInPlace mint
  split
  · rfl
  · rw [get_bind, ofExcept_bind]
    cases Checked.add b.supply amount with
    | error fault => rfl
    | ok supply =>
      dsimp only
      rw [ofExcept_bind]
      cases Checked.add (b.balanceOf holder) amount with
      | error fault => rfl
      | ok balance => rfl

theorem burnInPlace_eq (holder : Address) (amount : Nat) (b : ShareBook) :
    burnInPlace holder amount b = match b.burn holder amount with
      | .ok b' => .ok () b'
      | .error fault => .error fault b := by
  unfold burnInPlace burn
  rw [get_bind]
  dsimp only
  split
  · rfl
  · rw [ofExcept_bind]
    cases Checked.sub b.supply amount with
    | error fault => rfl
    | ok supply =>
      by_cases hall : b.balanceOf holder = amount
      · simp only [hall, ↓reduceIte]
        rfl
      · simp only [hall, ↓reduceIte]
        rfl

/-- Nothing is written before the last check. -/
theorem carryOut_eq (m : Movement) (b : ShareBook) : m.carryOut b = match m.apply b with
    | .ok b' => .ok () b'
    | .error fault => .error fault b := by
  cases m with
  | mint holder amount => exact mintInPlace_eq holder amount b
  | burn holder amount => exact burnInPlace_eq holder amount b

theorem carryOut_eq_ok : m.carryOut b = .ok () b' ↔ m.apply b = .ok b' := by
  rw [carryOut_eq]
  cases m.apply b <;> simp

theorem carryOut_eq_error : m.carryOut b = .error fault b' ↔ m.apply b = .error fault ∧ b' = b := by
  rw [carryOut_eq]
  cases m.apply b <;> simp [eq_comm]

theorem after_of_ok (h : m.apply b = .ok b') : b.after m = b' := by
  simp only [after, carryOut_eq, h]

theorem after_of_error (h : m.apply b = .error fault) : b.after m = b := by
  simp only [after, carryOut_eq, h]

/-! ## What stops a movement -/

theorem exists_apply_iff : (∃ b', m.apply b = .ok b') ↔ b.Admits m := by
  cases m with
  | mint holder amount =>
    simp only [Movement.apply, mint_eq_ok, Admits, exists_and_left, exists_eq, and_true]
  | burn holder amount =>
    simp only [Movement.apply, burn_eq_ok, Admits, exists_and_left, exists_eq, and_true]

/-- A burn is stopped by the balance, or else by the supply. -/
theorem burn_eq_error {holder : Address} {amount : Nat} : b.burn holder amount = .error fault ↔
    b.balanceOf holder < amount ∧ fault = .balanceInsufficient ∨
      amount ≤ b.balanceOf holder ∧ b.supply < amount ∧ fault = .underflow := by
  unfold burn
  dsimp only
  by_cases hless : b.balanceOf holder < amount
  · rw [if_pos hless, Except.error.injEq]
    constructor
    · intro h
      exact .inl ⟨hless, h.symm⟩
    · rintro (⟨-, rfl⟩ | ⟨hle, -⟩)
      · rfl
      · exact absurd hless (Nat.not_lt.2 hle)
  · rw [if_neg hless]
    by_cases hsupply : b.supply < amount
    · have hsub : Checked.sub b.supply amount = .error .underflow := if_neg (Nat.not_le.2 hsupply)
      rw [hsub]
      show Except.error Fault.underflow = _ ↔ _
      rw [Except.error.injEq]
      constructor
      · intro h
        exact .inr ⟨Nat.not_lt.1 hless, hsupply, h.symm⟩
      · rintro (⟨hless', -⟩ | ⟨-, -, rfl⟩)
        · exact absurd hless' hless
        · rfl
    · have hsub : Checked.sub b.supply amount = .ok (b.supply - amount) := if_pos (Nat.not_lt.1 hsupply)
      rw [hsub]
      constructor
      · intro h
        cases h
      · rintro (⟨hless', -⟩ | ⟨-, hsupply', -⟩)
        · exact absurd hless' hless
        · exact absurd hsupply' hsupply

/-- In a balanced book nobody holds more than the supply. -/
theorem Balanced.fault_of_burn {holder : Address} {amount : Nat} (hb : b.Balanced)
    (h : b.burn holder amount = .error fault) :
    fault = .balanceInsufficient ∧ b.balanceOf holder < amount := by
  have hle := hb.balanceOf_le_supply holder
  rcases burn_eq_error.1 h with ⟨hless, rfl⟩ | ⟨hbalance, hsupply, -⟩
  · exact ⟨rfl, hless⟩
  · omega

/-! ## What a movement does -/

/-- A movement changes its holder's balance and the supply by its amount, and nothing else. -/
structure Carried (m : Movement) (b b' : ShareBook) : Prop where
  supply : (b'.supply : Int) = b.supply + m.change
  balance : (b'.balanceOf m.holder : Int) = b.balanceOf m.holder + m.change
  others : ∀ a, a ≠ m.holder → b'.balanceOf a = b.balanceOf a
  gap : (b'.supply : Int) - b'.balances.total = b.supply - b.balances.total

theorem carried_of_apply (h : m.apply b = .ok b') : Carried m b b' := by
  cases m with
  | mint holder amount =>
    have hsupply := supply_of_mint h
    have htotal := total_of_mint h
    have hbalance := balanceOf_of_mint h
    refine ⟨?_, ?_, ?_, ?_⟩
    · show (b'.supply : Int) = b.supply + amount
      omega
    · show (b'.balanceOf holder : Int) = b.balanceOf holder + amount
      rw [hbalance, if_pos rfl, Nat.cast_add]
    · intro a ha
      have hne : a ≠ holder := ha
      rw [hbalance, if_neg hne, Nat.add_zero]
    · omega
  | burn holder amount =>
    have hsupply := supply_of_burn h
    have htotal := total_of_burn h
    have hbalance := balanceOf_of_burn h
    refine ⟨?_, ?_, ?_, ?_⟩
    · show (b'.supply : Int) = b.supply + -amount
      omega
    · have hholder := hbalance holder
      rw [if_pos rfl] at hholder
      show (b'.balanceOf holder : Int) = b.balanceOf holder + -amount
      omega
    · intro a ha
      have hne : a ≠ holder := ha
      rw [← hbalance a, if_neg hne, Nat.add_zero]
    · omega

theorem balanced_of_apply (hb : b.Balanced) (h : m.apply b = .ok b') : b'.Balanced := by
  cases m with
  | mint holder amount => exact balanced_mint hb h
  | burn holder amount => exact balanced_burn hb h

/-- Every movement of every book, balanced or not: it succeeds exactly if the book admits it, has then done
what it says, and the gap between the supply and the sum of the balances is what it was. If it fails, the
book is as it was. So consistent books stay consistent, and burning from one fails for want of a balance
alone. -/
theorem movements_exact (b : ShareBook) (m : Movement) :
    ((∃ b', m.carryOut b = .ok () b') ↔ b.Admits m) ∧
      (∀ b', m.carryOut b = .ok () b' → m.apply b = .ok b' ∧ Carried m b b') ∧
      (∀ fault b', m.carryOut b = .error fault b' → m.apply b = .error fault ∧ b' = b) ∧
      (b.isConsistent = true → (b.after m).isConsistent = true) ∧
      (b.isConsistent = true → ∀ holder amount fault b', m = .burn holder amount →
        m.carryOut b = .error fault b' → fault = .balanceInsufficient) := by
  refine ⟨?_, ?_, ?_, ?_, ?_⟩
  · simp only [carryOut_eq_ok]
    exact exists_apply_iff
  · intro b' h
    have happly := carryOut_eq_ok.1 h
    exact ⟨happly, carried_of_apply happly⟩
  · intro fault b' h
    exact carryOut_eq_error.1 h
  · intro hconsistent
    cases happly : m.apply b with
    | ok b' =>
      rw [after_of_ok happly, isConsistent_iff]
      exact balanced_of_apply (isConsistent_iff.1 hconsistent) happly
    | error fault =>
      rw [after_of_error happly]
      exact hconsistent
  · rintro hconsistent holder amount fault b' rfl h
    obtain ⟨hburn, -⟩ := carryOut_eq_error.1 h
    exact ((isConsistent_iff.1 hconsistent).fault_of_burn hburn).1

/-- A book as it is found: two holders have more than the supply. -/
def lopsided : ShareBook := ⟨5, (OrderedMap.empty.insert ⟨"alice"⟩ 10).insert ⟨"bob"⟩ 3⟩

/-- Bob's shares are burned, and the gap stays. The supply stops a burn of what alice has. -/
theorem movements_exact_lopsided :
    lopsided.isConsistent = false ∧
      (∃ b', (Movement.burn ⟨"bob"⟩ 3).carryOut lopsided = .ok () b' ∧ b'.supply = 2 ∧
        b'.balances.total = 10) ∧
      (Movement.burn ⟨"alice"⟩ 7).carryOut lopsided = .error .underflow lopsided ∧
      (empty.after (.mint ⟨"alice"⟩ 5)).isConsistent = true := by
  obtain ⟨hsucceeds, hok, -⟩ := movements_exact lopsided (.burn ⟨"bob"⟩ 3)
  obtain ⟨-, -, -, hconsistent, -⟩ := movements_exact empty (.mint ⟨"alice"⟩ 5)
  refine ⟨by decide, ?_, by rfl, hconsistent (by decide)⟩
  obtain ⟨b', h⟩ := hsucceeds.2 (by decide)
  have hcarried := (hok b' h).2
  have hsupply : (b'.supply : Int) = 5 + -3 := hcarried.supply
  have hgap : (b'.supply : Int) - b'.balances.total = 5 - 13 := hcarried.gap
  exact ⟨b', h, by omega, by omega⟩

end MetaPool.ShareBook
