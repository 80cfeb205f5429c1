import MetaPool.Capital.MetaShares
import MetaPool.Proofs.Collection.Totals
import MetaPool.Proofs.Quantity.Checked

/-!
# Share books stay balanced

A share book is balanced if its balances sum to its supply and the supply is an amount. That is what
`isConsistent` checks (`isConsistent_iff`), and minting and burning preserve it. Meta shares are a
share book with an address and roles, which no mint and no burn changes.
-/

namespace MetaPool

namespace ShareBook

variable {b b' : ShareBook} {holder : Address} {amount : Nat}

/-- The balances sum to the supply, and the supply is an amount. -/
structure Balanced (b : ShareBook) : Prop where
  total_eq : b.balances.total = b.supply
  supply_le : b.supply ≤ maxAmount

theorem isConsistent_iff : b.isConsistent = true ↔ b.Balanced := by
  simp only [isConsistent, Bool.and_eq_true, decide_eq_true_eq, beq_iff_eq]
  constructor
  · rintro ⟨hle, heq⟩
    exact ⟨heq, heq ▸ hle⟩
  · rintro ⟨heq, hle⟩
    exact ⟨heq ▸ hle, heq⟩

theorem balanced_empty : empty.Balanced := ⟨rfl, Nat.zero_le _⟩

/-- Nobody holds more than there is. -/
theorem Balanced.balanceOf_le_supply (hb : b.Balanced) (a : Address) : b.balanceOf a ≤ b.supply := by
  have herased : (b.balances.erase a).total + b.balanceOf a = b.balances.total :=
    OrderedMap.total_erase b.balances a
  have heq := hb.total_eq
  omega

/-! ## Successful writes -/

theorem mint_eq_ok : b.mint holder amount = .ok b' ↔
    ¬ holder.isEmpty ∧ b.supply + amount ≤ maxAmount ∧ b.balanceOf holder + amount ≤ maxAmount ∧
      b' = ⟨b.supply + amount, b.balances.insert holder (b.balanceOf holder + amount)⟩ := by
  simp only [mint, refuse_eq_ok, except_bind_eq_ok, except_pure_eq_ok, Checked.add_eq_ok]
  grind

theorem burn_eq_ok : b.burn holder amount = .ok b' ↔
    amount ≤ b.balanceOf holder ∧ amount ≤ b.supply ∧
      b' = ⟨b.supply - amount,
        if b.balanceOf holder = amount then b.balances.erase holder
        else b.balances.insert holder (b.balanceOf holder - amount)⟩ := by
  simp only [burn, refuse_eq_ok, except_bind_eq_ok, except_pure_eq_ok, Checked.sub_eq_ok]
  grind

theorem supply_of_mint (h : b.mint holder amount = .ok b') : b'.supply = b.supply + amount := by
  obtain ⟨-, -, -, rfl⟩ := mint_eq_ok.1 h
  rfl

theorem supply_of_burn (h : b.burn holder amount = .ok b') :
    amount ≤ b.supply ∧ b'.supply = b.supply - amount := by
  obtain ⟨-, hle, rfl⟩ := burn_eq_ok.1 h
  exact ⟨hle, rfl⟩

/-- What a holder gets and what it had account for the change of the total. -/
theorem total_insert (b : ShareBook) (holder : Address) (v : Nat) :
    (b.balances.insert holder v).total + b.balanceOf holder = b.balances.total + v :=
  OrderedMap.total_insert b.balances holder v

theorem total_of_mint (h : b.mint holder amount = .ok b') :
    b'.balances.total = b.balances.total + amount := by
  obtain ⟨-, -, -, rfl⟩ := mint_eq_ok.1 h
  have htotal := b.total_insert holder (b.balanceOf holder + amount)
  show (b.balances.insert holder _).total = _
  omega

theorem total_of_burn (h : b.burn holder amount = .ok b') :
    b'.balances.total + amount = b.balances.total := by
  obtain ⟨hbal, -, rfl⟩ := burn_eq_ok.1 h
  dsimp only
  split
  next hall =>
    have htotal : (b.balances.erase holder).total + b.balanceOf holder = b.balances.total :=
      OrderedMap.total_erase b.balances holder
    omega
  next =>
    have htotal := b.total_insert holder (b.balanceOf holder - amount)
    omega

/-! ## Preservation -/

theorem balanced_mint (hb : b.Balanced) (h : b.mint holder amount = .ok b') : b'.Balanced where
  total_eq := by rw [total_of_mint h, supply_of_mint h, hb.total_eq]
  supply_le := by
    obtain ⟨-, hle, -, -⟩ := mint_eq_ok.1 h
    rwa [supply_of_mint h]

theorem balanced_burn (hb : b.Balanced) (h : b.burn holder amount = .ok b') : b'.Balanced where
  total_eq := by
    have htotal := total_of_burn h
    have hsupply := supply_of_burn h
    have heq := hb.total_eq
    omega
  supply_le := by
    have hsupply := supply_of_burn h
    have hle := hb.supply_le
    omega

/-! ## Entries -/

theorem get?_of_mint (h : b.mint holder amount = .ok b') (a : Address) : b'.balances.get? a =
    if a = holder then some (b.balanceOf holder + amount) else b.balances.get? a := by
  obtain ⟨-, -, -, rfl⟩ := mint_eq_ok.1 h
  exact OrderedMap.get?_insert _ _ _ _

theorem get?_of_burn (h : b.burn holder amount = .ok b') (a : Address) : b'.balances.get? a =
    if a = holder then (if b.balanceOf holder = amount then none else some (b.balanceOf holder - amount))
    else b.balances.get? a := by
  obtain ⟨-, -, rfl⟩ := burn_eq_ok.1 h
  dsimp only
  split
  · rw [OrderedMap.get?_erase]
  · rw [OrderedMap.get?_insert]

/-- Only the account that is minted to can become a holder. -/
theorem holder_of_mint {a : Address} {v : Nat} (h : b.mint holder amount = .ok b')
    (ha : b'.balances.get? a = some v) : a = holder ∨ ∃ w, b.balances.get? a = some w := by
  rw [get?_of_mint h] at ha
  split at ha
  · exact .inl ‹_›
  · exact .inr ⟨v, ha⟩

/-- A burn makes nobody a holder. -/
theorem holder_of_burn {a : Address} {v : Nat} (h : b.burn holder amount = .ok b')
    (ha : b'.balances.get? a = some v) : a = holder ∨ ∃ w, b.balances.get? a = some w := by
  rw [get?_of_burn h] at ha
  split at ha
  · exact .inl ‹_›
  · exact .inr ⟨v, ha⟩

/-! ## Balances -/

theorem balanceOf_of_mint (h : b.mint holder amount = .ok b') (a : Address) :
    b'.balanceOf a = b.balanceOf a + if a = holder then amount else 0 := by
  rw [balanceOf, get?_of_mint h]
  by_cases ha : a = holder
  · simp [ha]
  · simp [ha, balanceOf]

theorem balanceOf_of_burn (h : b.burn holder amount = .ok b') (a : Address) :
    b'.balanceOf a + (if a = holder then amount else 0) = b.balanceOf a := by
  obtain ⟨hle, -, -⟩ := burn_eq_ok.1 h
  rw [balanceOf, get?_of_burn h]
  by_cases ha : a = holder
  · subst ha
    rw [if_pos rfl, if_pos rfl]
    by_cases hall : b.balanceOf a = amount
    · rw [if_pos hall, Option.getD_none, Nat.zero_add, hall]
    · rw [if_neg hall, Option.getD_some, Nat.sub_add_cancel hle]
  · rw [if_neg ha, if_neg ha]
    rfl

end ShareBook

namespace MetaToken

variable {t t' : MetaToken} {pool : Address} {amount : Nat}

theorem mint_eq_ok : t.mint pool amount = .ok t' ↔
    ∃ book, t.shares.mint pool amount = .ok book ∧ t' = { t with shares := book } := by
  simp only [mint, except_bind_eq_ok, except_pure_eq_ok]

theorem burn_eq_ok : t.burn pool amount = .ok t' ↔
    ∃ book, t.shares.burn pool amount = .ok book ∧ t' = { t with shares := book } := by
  simp only [burn, except_bind_eq_ok, except_pure_eq_ok]

end MetaToken

end MetaPool
