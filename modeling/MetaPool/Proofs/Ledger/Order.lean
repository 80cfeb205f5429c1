import MetaPool.Proofs.Account.Gates
import MetaPool.Proofs.Collection.Lookup
import MetaPool.Proofs.Ledger.Shares
import MetaPool.Proofs.Ledger.Tokens

/-!
# Writes in either order

Two mints, two burns or two registrations that succeed one after the other also succeed the other way
round, and leave the same book. So do two transfers, as long as neither spends what the other brings: the
checks on balances and sums are of what both take and give together.

    b.mint h x = .ok b₁ → b₁.mint k y = .ok b₂ → b.mint k y, then mint h x leaves b₂      (mint_comm)
-/

namespace MetaPool

namespace ShareBook

variable {b b' b₁ b₂ : ShareBook} {h k : Address} {x y : Nat}

theorem ext_get? (hsupply : b.supply = b'.supply)
    (hbalances : ∀ a, b.balances.get? a = b'.balances.get? a) : b = b' := by
  obtain ⟨supply, balances⟩ := b
  obtain rfl : supply = b'.supply := hsupply
  obtain rfl : balances = b'.balances := OrderedMap.ext_get? hbalances
  rfl

theorem mint_comm (hfirst : b.mint h x = .ok b₁) (hsecond : b₁.mint k y = .ok b₂) :
    ∃ b', b.mint k y = .ok b' ∧ b'.mint h x = .ok b₂ := by
  have hk := balanceOf_of_mint hfirst k
  have hsupply := supply_of_mint hfirst
  obtain ⟨hh, -, hfits, -⟩ := mint_eq_ok.1 hfirst
  obtain ⟨hnamed, hsum, hfits', -⟩ := mint_eq_ok.1 hsecond
  obtain ⟨b', hmint⟩ : ∃ b', b.mint k y = .ok b' :=
    ⟨_, mint_eq_ok.2 ⟨hnamed, by omega, by omega, rfl⟩⟩
  have hh' := balanceOf_of_mint hmint h
  have hsupply' := supply_of_mint hmint
  have hsums : b'.balanceOf h + x ≤ maxAmount := by
    by_cases hkh : k = h
    · subst hkh
      rw [if_pos rfl] at hk hh'
      omega
    · rw [if_neg (Ne.symm hkh)] at hh'
      omega
  obtain ⟨b₂', hmint'⟩ : ∃ b₂', b'.mint h x = .ok b₂' :=
    ⟨_, mint_eq_ok.2 ⟨hh, by omega, hsums, rfl⟩⟩
  refine ⟨b', hmint, ?_⟩
  rw [hmint', Except.ok.injEq]
  refine ext_get? ?_ fun a => ?_
  · rw [supply_of_mint hmint', supply_of_mint hsecond]
    omega
  · rw [get?_of_mint hmint', get?_of_mint hmint, get?_of_mint hsecond, get?_of_mint hfirst, hk, hh']
    by_cases hkh : k = h
    · subst hkh
      by_cases hak : a = k
      · simp [hak, Nat.add_right_comm]
      · simp [hak]
    · by_cases hak : a = k
      · subst hak
        simp [hkh]
      · simp [hak, Ne.symm hkh]

theorem burn_comm (hfirst : b.burn h x = .ok b₁) (hsecond : b₁.burn k y = .ok b₂) :
    ∃ b', b.burn k y = .ok b' ∧ b'.burn h x = .ok b₂ := by
  have hk := balanceOf_of_burn hfirst k
  have hsupply := supply_of_burn hfirst
  obtain ⟨hle, -, -⟩ := burn_eq_ok.1 hfirst
  obtain ⟨hle', hleft, -⟩ := burn_eq_ok.1 hsecond
  obtain ⟨b', hburn⟩ : ∃ b', b.burn k y = .ok b' := ⟨_, burn_eq_ok.2 ⟨by omega, by omega, rfl⟩⟩
  have hh := balanceOf_of_burn hburn h
  have hsupply' := supply_of_burn hburn
  have henough : x ≤ b'.balanceOf h := by
    by_cases hkh : k = h
    · subst hkh
      rw [if_pos rfl] at hk hh
      omega
    · rw [if_neg (Ne.symm hkh)] at hh
      omega
  obtain ⟨b₂', hburn'⟩ : ∃ b₂', b'.burn h x = .ok b₂' :=
    ⟨_, burn_eq_ok.2 ⟨henough, by omega, rfl⟩⟩
  refine ⟨b', hburn, ?_⟩
  rw [hburn', Except.ok.injEq]
  refine ext_get? ?_ fun a => ?_
  · have hlast := supply_of_burn hburn'
    have hlast' := supply_of_burn hsecond
    omega
  · rw [get?_of_burn hburn', get?_of_burn hburn, get?_of_burn hsecond, get?_of_burn hfirst]
    by_cases hkh : k = h
    · subst hkh
      rw [if_pos rfl] at hk hh
      by_cases hak : a = k
      · -- both leave the holder with what neither burns, and strike it off if that is nothing
        subst hak
        have hstruck : b'.balanceOf a = x ↔ b₁.balanceOf a = y := by omega
        simp only [↓reduceIte, hstruck]
        congr 2
        omega
      · simp [hak]
    · rw [if_neg hkh] at hk
      rw [if_neg (Ne.symm hkh)] at hh
      by_cases hak : a = k
      · subst hak
        simp [hkh, ← hk]
      · simp [hak, ← hh]

end ShareBook

namespace MetaToken

variable {t t₁ t₂ : MetaToken} {h k : Address} {x y : Nat}

theorem mint_comm (hfirst : t.mint h x = .ok t₁) (hsecond : t₁.mint k y = .ok t₂) :
    ∃ t', t.mint k y = .ok t' ∧ t'.mint h x = .ok t₂ := by
  obtain ⟨b₁, hb₁, rfl⟩ := mint_eq_ok.1 hfirst
  obtain ⟨b₂, hb₂, rfl⟩ := mint_eq_ok.1 hsecond
  obtain ⟨b', hb', hlast⟩ := ShareBook.mint_comm hb₁ hb₂
  exact ⟨_, mint_eq_ok.2 ⟨b', hb', rfl⟩, mint_eq_ok.2 ⟨b₂, hlast, rfl⟩⟩

theorem burn_comm (hfirst : t.burn h x = .ok t₁) (hsecond : t₁.burn k y = .ok t₂) :
    ∃ t', t.burn k y = .ok t' ∧ t'.burn h x = .ok t₂ := by
  obtain ⟨b₁, hb₁, rfl⟩ := burn_eq_ok.1 hfirst
  obtain ⟨b₂, hb₂, rfl⟩ := burn_eq_ok.1 hsecond
  obtain ⟨b', hb', hlast⟩ := ShareBook.burn_comm hb₁ hb₂
  exact ⟨_, burn_eq_ok.2 ⟨b', hb', rfl⟩, burn_eq_ok.2 ⟨b₂, hlast, rfl⟩⟩

end MetaToken

namespace TokenRecord

variable {r : TokenRecord} {s₁ s₂ d₁ d₂ : Address}

/-- Moves commute, if no account both gives and gets. -/
theorem moved_comm (h₁ : s₁ ≠ d₁) (h₂ : s₂ ≠ d₂) (h₁₂ : s₁ ≠ d₂) (h₂₁ : s₂ ≠ d₁) (x y : Nat) :
    (r.moved s₁ d₁ x).moved s₂ d₂ y = (r.moved s₂ d₂ y).moved s₁ d₁ x := by
  have hbalances : ((r.moved s₁ d₁ x).moved s₂ d₂ y).balances =
      ((r.moved s₂ d₂ y).moved s₁ d₁ x).balances := by
    apply OrderedMap.ext_get?
    intro a
    have hget (r : TokenRecord) (s d : Address) (z : Nat) : (r.moved s d z).balances.get? a =
        if a = d then some (r.balanceOf d + z) else if a = s then some (r.balanceOf s - z)
        else r.balances.get? a := by
      simp only [moved, OrderedMap.get?_insert]
    simp only [hget, balanceOf_moved]
    by_cases hgets : a = d₁ ∨ a = d₂
    · have hgives : a ≠ s₁ ∧ a ≠ s₂ := by
        constructor <;> rintro rfl <;> simp_all
      simp only [hgives, ↓reduceIte]
      by_cases hd : d₁ = d₂
      · subst hd
        by_cases ha : a = d₁ <;> simp [ha, Nat.add_right_comm]
      · by_cases ha : a = d₁ <;> simp_all
    · rw [not_or] at hgets
      simp only [hgets, h₂₁, h₁₂, ↓reduceIte]
      by_cases hs : s₁ = s₂
      · subst hs
        by_cases ha : a = s₁ <;> simp [ha, Nat.sub_right_comm]
      · by_cases ha : a = s₁ <;> by_cases ha' : a = s₂ <;> simp_all
  exact congrArg (fun balances => { r with balances }) hbalances

/-- What two accounts give together does not depend on who gives first. -/
theorem gives_comm {x y : Nat} (h₁₂ : s₁ ≠ d₂) (h₂₁ : s₂ ≠ d₁) (hfirst : x ≤ r.balanceOf s₁)
    (hsecond : y ≤ (r.moved s₁ d₁ x).balanceOf s₂) :
    y ≤ r.balanceOf s₂ ∧ x ≤ (r.moved s₂ d₂ y).balanceOf s₁ := by
  rw [balanceOf_moved, if_neg h₂₁] at hsecond
  rw [balanceOf_moved, if_neg h₁₂]
  by_cases hs : s₂ = s₁
  · subst hs
    rw [if_pos rfl] at hsecond ⊢
    omega
  · rw [if_neg hs] at hsecond
    rw [if_neg (Ne.symm hs)]
    exact ⟨hsecond, hfirst⟩

/-- What two accounts get together does not depend on who gets first. -/
theorem gets_comm {x y n : Nat} (h₁₂ : s₁ ≠ d₂) (h₂₁ : s₂ ≠ d₁) (hfirst : r.balanceOf d₁ + x ≤ n)
    (hsecond : (r.moved s₁ d₁ x).balanceOf d₂ + y ≤ n) :
    r.balanceOf d₂ + y ≤ n ∧ (r.moved s₂ d₂ y).balanceOf d₁ + x ≤ n := by
  rw [balanceOf_moved, if_neg (Ne.symm h₁₂)] at hsecond
  rw [balanceOf_moved, if_neg (Ne.symm h₂₁)]
  by_cases hd : d₂ = d₁
  · subst hd
    rw [if_pos rfl] at hsecond ⊢
    omega
  · rw [if_neg hd] at hsecond
    rw [if_neg (Ne.symm hd)]
    exact ⟨hsecond, hfirst⟩

end TokenRecord

namespace TokenBook

variable {b b₁ b₂ : TokenBook} {t t₁ t₂ s s₁ s₂ d d₁ d₂ : Address} {x y : Nat}

theorem transfer_zero : b.transfer t s d 0 = .ok b₁ ↔
    ¬ d.isEmpty = true ∧ (∃ r, b.records.get? t = some r) ∧ b₁ = b := by
  simp [transfer_eq_ok]

theorem transfer_moves (hne : s ≠ d) (hx : x ≠ 0) : b.transfer t s d x = .ok b₁ ↔
    ¬ d.isEmpty = true ∧ ∃ r, b.records.get? t = some r ∧ x ≤ r.balanceOf s ∧
      r.balanceOf d + x ≤ maxAmount ∧ b₁ = ⟨b.records.insert t (r.moved s d x)⟩ := by
  simp [transfer_eq_ok, hne, hx]

/-- A transfer keeps the tokens that are known. -/
theorem known_of_transfer (h : b.transfer t s d x = .ok b₁) (token : Address) :
    (∃ r, b₁.records.get? token = some r) ↔ ∃ r, b.records.get? token = some r := by
  have htraits := (moved_of_transfer h).traits token
  have hknown (b : TokenBook) :
      (∃ r, b.records.get? token = some r) ↔ ∃ x, b.traits token = .ok x := by
    simp only [traits_eq_ok]
    exact ⟨fun ⟨r, hr⟩ => ⟨_, r, hr, rfl⟩, fun ⟨_, r, hr, _⟩ => ⟨r, hr⟩⟩
  rw [hknown, hknown, htraits]

theorem transfer_comm (h₁ : s₁ ≠ d₁) (h₂ : s₂ ≠ d₂) (h₁₂ : s₁ ≠ d₂) (h₂₁ : s₂ ≠ d₁)
    (hfirst : b.transfer t₁ s₁ d₁ x = .ok b₁) (hsecond : b₁.transfer t₂ s₂ d₂ y = .ok b₂) :
    ∃ b', b.transfer t₂ s₂ d₂ y = .ok b' ∧ b'.transfer t₁ s₁ d₁ x = .ok b₂ := by
  by_cases hx : x = 0
  · subst hx
    obtain ⟨hnamed, hknown, rfl⟩ := transfer_zero.1 hfirst
    exact ⟨b₂, hsecond, transfer_zero.2 ⟨hnamed, (known_of_transfer hsecond t₁).2 hknown, rfl⟩⟩
  by_cases hy : y = 0
  · subst hy
    obtain ⟨hnamed, hknown, rfl⟩ := transfer_zero.1 hsecond
    exact ⟨b, transfer_zero.2 ⟨hnamed, (known_of_transfer hfirst t₂).1 hknown, rfl⟩, hfirst⟩
  obtain ⟨hnamed₁, r, hr, hle, hfits, rfl⟩ := (transfer_moves h₁ hx).1 hfirst
  obtain ⟨hnamed₂, r', hr', hle', hfits', rfl⟩ := (transfer_moves h₂ hy).1 hsecond
  rw [OrderedMap.get?_insert] at hr'
  by_cases ht : t₂ = t₁
  · subst ht
    obtain rfl := Option.some.inj ((if_pos rfl).symm.trans hr')
    have hgives := TokenRecord.gives_comm h₁₂ h₂₁ hle hle'
    have hgets := TokenRecord.gets_comm h₁₂ h₂₁ hfits hfits'
    refine ⟨_, (transfer_moves h₂ hy).2 ⟨hnamed₂, r, hr, hgives.1, hgets.1, rfl⟩, ?_⟩
    refine (transfer_moves h₁ hx).2 ⟨hnamed₁, r.moved s₂ d₂ y, ?_, hgives.2, hgets.2, ?_⟩
    · rw [OrderedMap.get?_insert, if_pos rfl]
    · rw [OrderedMap.insert_insert, OrderedMap.insert_insert,
        TokenRecord.moved_comm h₁ h₂ h₁₂ h₂₁]
  · rw [if_neg ht] at hr'
    refine ⟨_, (transfer_moves h₂ hy).2 ⟨hnamed₂, r', hr', hle', hfits', rfl⟩, ?_⟩
    refine (transfer_moves h₁ hx).2 ⟨hnamed₁, r, ?_, hle, hfits, ?_⟩
    · rw [OrderedMap.get?_insert, if_neg (Ne.symm ht), hr]
    · rw [OrderedMap.insert_comm _ ht]

end TokenBook

namespace Allocation

variable {a a₁ a₂ : Allocation} {caller : Address} {data data₁ data₂ : AllocatedToken}

theorem isRegistered_of_register (h : a.register caller data = .ok a₁) (t : Address) :
    a₁.isRegistered t = true ↔ t = data.token ∨ a.isRegistered t = true := by
  obtain ⟨-, -, -, rfl⟩ := register_eq_ok.1 h
  simp only [isRegistered, OrderedMap.contains, OrderedMap.get?_insert]
  by_cases ht : t = data.token <;> simp [ht]

theorem register_comm (hfirst : a.register caller data₁ = .ok a₁)
    (hsecond : a₁.register caller data₂ = .ok a₂) :
    ∃ a', a.register caller data₂ = .ok a' ∧ a'.register caller data₁ = .ok a₂ := by
  have hlisted := isRegistered_of_register hfirst data₂.token
  obtain ⟨hok, hnamed₁, hnew₁, rfl⟩ := register_eq_ok.1 hfirst
  obtain ⟨-, hnamed₂, hnew₂, rfl⟩ := register_eq_ok.1 hsecond
  rw [hlisted, not_or] at hnew₂
  have hregister : a.register caller data₂ = .ok _ :=
    register_eq_ok.2 ⟨hok, hnamed₂, hnew₂.2, rfl⟩
  refine ⟨_, hregister, register_eq_ok.2 ⟨hok, hnamed₁, ?_, ?_⟩⟩
  · rw [isRegistered_of_register hregister, not_or]
    exact ⟨Ne.symm hnew₂.1, hnew₁⟩
  · dsimp only
    rw [OrderedMap.insert_comm _ hnew₂.1]

end Allocation

end MetaPool
