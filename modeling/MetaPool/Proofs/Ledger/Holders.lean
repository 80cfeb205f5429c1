import MetaPool.Proofs.Ledger.Movements

/-!
# The holders that are listed

A share book lists its entries. A burn strikes off an entry that it empties, but a mint of nothing to an
address without shares enters it with none. So every holder is listed once, with its balance, and beside the
holders every address without shares whose latest movement was to mint nothing to it.

    the entry of a = what the latest movement of a has left there                  (entry_run)
    the entry of a is zero ↔ a has nothing, and its latest movement minted nothing (zero_entry_iff)
-/

namespace MetaPool.ShareBook

variable {b b' : ShareBook} {m : Movement} {a : Address}

/-- The book that movements leave, one after the other. -/
def run (b : ShareBook) (movements : List Movement) : ShareBook := movements.foldl after b

/-- The latest movement of a holder that succeeds. -/
def latest (holder : Address) : List Movement → ShareBook → Option Movement
  | [], _ => none
  | m :: rest, b =>
    (latest holder rest (b.after m)).or (if m.holder = holder ∧ b.Admits m then some m else none)

/-- What a movement leaves in the entry of its holder: a mint has an entry with what was minted in it, and a
burn has none that is zero. -/
def Movement.Leaves (entry : Option Nat) : Movement → Prop
  | mint _ amount => ∃ v, entry = some v ∧ amount ≤ v
  | burn _ _ => entry ≠ some 0

theorem leaves_of_apply (h : m.apply b = .ok b') : m.Leaves (b'.balances.get? m.holder) := by
  cases m with
  | mint holder amount =>
    have hentry := get?_of_mint h holder
    rw [if_pos rfl] at hentry
    exact ⟨_, hentry, Nat.le_add_left _ _⟩
  | burn holder amount =>
    have hentry := get?_of_burn h holder
    have hbalance := balanceOf_of_burn h holder
    rw [if_pos rfl] at hentry hbalance
    show b'.balances.get? holder ≠ some 0
    rw [hentry]
    split
    · simp
    · intro hzero
      have := Option.some.inj hzero
      omega

theorem get?_of_apply (h : m.apply b = .ok b') (ha : a ≠ m.holder) :
    b'.balances.get? a = b.balances.get? a := by
  cases m with
  | mint holder amount => exact (get?_of_mint h a).trans (if_neg ha)
  | burn holder amount => exact (get?_of_burn h a).trans (if_neg ha)

/-- One movement: it leaves its mark on the entry of its holder if it succeeds, and on no other. -/
theorem entry_after (a : Address) (m : Movement) (b : ShareBook) :
    if m.holder = a ∧ b.Admits m then m.Leaves ((b.after m).balances.get? a)
    else (b.after m).balances.get? a = b.balances.get? a := by
  cases happly : m.apply b with
  | ok b' =>
    have hadmits : b.Admits m := exists_apply_iff.1 ⟨b', happly⟩
    rw [after_of_ok happly]
    by_cases ha : m.holder = a
    · rw [if_pos ⟨ha, hadmits⟩, ← ha]
      exact leaves_of_apply happly
    · rw [if_neg fun h => ha h.1]
      exact get?_of_apply happly (Ne.symm ha)
  | error fault =>
    have hno : ¬ b.Admits m := by
      intro hadmits
      obtain ⟨b', hok⟩ := exists_apply_iff.2 hadmits
      rw [hok] at happly
      cases happly
    rw [if_neg fun h => hno h.2, after_of_error happly]

/-- A run: the entry of an address is what its latest movement has left there. -/
theorem entry_run (a : Address) (movements : List Movement) (b : ShareBook) :
    match latest a movements b with
    | some m => m.holder = a ∧ m.Leaves ((b.run movements).balances.get? a)
    | none => (b.run movements).balances.get? a = b.balances.get? a := by
  induction movements generalizing b with
  | nil => rfl
  | cons m rest ih =>
    have hrest := ih (b.after m)
    have hfirst := entry_after a m b
    have hrun : b.run (m :: rest) = (b.after m).run rest := rfl
    rw [latest, hrun]
    cases hlatest : latest a rest (b.after m) with
    | some m' =>
      rw [hlatest] at hrest
      exact hrest
    | none =>
      rw [hlatest] at hrest
      -- none of the rest succeeds for `a`, so that its entry is as this movement has left it
      change ((b.after m).run rest).balances.get? a = (b.after m).balances.get? a at hrest
      rw [Option.none_or, hrest]
      by_cases hm : m.holder = a ∧ b.Admits m
      · rw [if_pos hm] at hfirst ⊢
        exact ⟨hm.1, hfirst⟩
      · rw [if_neg hm] at hfirst ⊢
        exact hfirst

/-! ## The list -/

theorem mem_holders {v : Nat} : (a, v) ∈ b.holders ↔ b.balances.get? a = some v :=
  OrderedMap.get?_eq_some_iff.symm

theorem balanceOf_of_get? {v : Nat} (h : b.balances.get? a = some v) : b.balanceOf a = v := by
  rw [balanceOf, h]
  rfl

/-- After a run from the empty book, an entry that is zero is what minting nothing has left. -/
theorem zero_entry_iff (a : Address) (movements : List Movement) :
    (empty.run movements).balances.get? a = some 0 ↔
      (empty.run movements).balanceOf a = 0 ∧ latest a movements empty = some (.mint a 0) := by
  have hentry := entry_run a movements empty
  constructor
  · intro hzero
    refine ⟨balanceOf_of_get? hzero, ?_⟩
    cases hlatest : latest a movements empty with
    | none =>
      rw [hlatest, hzero] at hentry
      cases hentry
    | some m =>
      rw [hlatest, hzero] at hentry
      obtain ⟨hholder, hleaves⟩ := hentry
      cases m with
      | mint holder amount =>
        obtain rfl : holder = a := hholder
        obtain ⟨v, hv, hle⟩ := hleaves
        obtain rfl := Option.some.inj hv
        rw [Nat.le_zero.1 hle]
      | burn holder amount => exact absurd rfl hleaves
  · rintro ⟨hbalance, hlatest⟩
    rw [hlatest] at hentry
    obtain ⟨-, v, hv, -⟩ := hentry
    rw [hv, ← balanceOf_of_get? hv, hbalance]

/-- After any movements from the empty book, failed ones included: no address is listed twice, each that has
shares is listed, and each that is listed is listed with its balance. One without shares is listed exactly if
its latest movement minted nothing to it, so that holders alone are listed exactly if no address is left so. -/
theorem holders_exact_iff (movements : List Movement) :
    ((empty.run movements).holders.map (·.1)).Nodup ∧
      (∀ a, (empty.run movements).balanceOf a ≠ 0 →
        (a, (empty.run movements).balanceOf a) ∈ (empty.run movements).holders) ∧
      (∀ a v, (a, v) ∈ (empty.run movements).holders → v = (empty.run movements).balanceOf a) ∧
      (∀ a, (a, 0) ∈ (empty.run movements).holders ↔
        (empty.run movements).balanceOf a = 0 ∧ latest a movements empty = some (.mint a 0)) ∧
      ((∀ a v, (a, v) ∈ (empty.run movements).holders → v ≠ 0) ↔
        ∀ a, latest a movements empty = some (.mint a 0) → (empty.run movements).balanceOf a ≠ 0) := by
  refine ⟨(empty.run movements).balances.keys_nodup, ?_, ?_, ?_, ?_⟩
  · intro a hbalance
    rw [mem_holders]
    cases hentry : (empty.run movements).balances.get? a with
    | none => exact absurd (by rw [balanceOf, hentry]; rfl) hbalance
    | some v => rw [balanceOf_of_get? hentry]
  · intro a v hmem
    exact (balanceOf_of_get? (mem_holders.1 hmem)).symm
  · intro a
    rw [mem_holders]
    exact zero_entry_iff a movements
  · constructor
    · intro hlisted a hlatest hzero
      exact hlisted a 0 (mem_holders.2 ((zero_entry_iff a movements).2 ⟨hzero, hlatest⟩)) rfl
    · rintro hlatest a v hmem rfl
      obtain ⟨hzero, hmint⟩ := (zero_entry_iff a movements).1 (mem_holders.1 hmem)
      exact hlatest a hmint hzero

/-- A single mint of nothing: alice has no shares and is listed. -/
theorem minted_nothing_listed :
    (empty.run [.mint ⟨"alice"⟩ 0]).balanceOf ⟨"alice"⟩ = 0 ∧
      (empty.run [.mint ⟨"alice"⟩ 0]).holders = [(⟨"alice"⟩, 0)] := by
  decide

end MetaPool.ShareBook
