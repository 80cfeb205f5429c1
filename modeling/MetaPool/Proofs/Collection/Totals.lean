import Mathlib
import MetaPool.Collection.OrderedMap

/-!
# Entries and totals of ordered maps

A map lists each key once, so a lookup finds the one entry of its key. The total of a map of numbers
moves by what a write puts in and takes out, and is the sum of the lookups over any keys that cover
the map.

    (m.insert k v).total + m.get? k = m.total + v                   (total_insert)
    (m.erase k).total + m.get? k = m.total                          (total_erase)
    keys of m ⊆ ks → sum of m.get? over ks = m.total                (sum_lookup)
-/

namespace MetaPool.OrderedMap

variable {κ α : Type} [Ord κ] [Std.LawfulEqOrd κ] [DecidableEq κ]

/-! ## Entries -/

theorem find_eq_none {k : κ} {l : List (κ × α)} (h : ∀ e ∈ l, k ≠ e.1) : find k l = none := by
  induction l with
  | nil => rfl
  | cons e l ih =>
    rw [find_cons, if_neg (h e List.mem_cons_self)]
    exact ih fun e he => h e (List.mem_cons_of_mem _ he)

omit [DecidableEq κ] in
/-- The first entry of a sorted list has a key of its own. -/
theorem ne_of_sorted {e : κ × α} {l : List (κ × α)}
    (hl : (e :: l).Pairwise fun a b => compare a.1 b.1 = .lt) : ∀ e' ∈ l, e.1 ≠ e'.1 := by
  intro e' he' heq
  have hlt := (List.pairwise_cons.1 hl).1 e' he'
  rw [heq, Std.LawfulEqOrd.compare_eq_iff_eq.2 rfl] at hlt
  cases hlt

theorem find_eq_some_iff {k : κ} {v : α} {l : List (κ × α)}
    (hl : l.Pairwise fun a b => compare a.1 b.1 = .lt) : find k l = some v ↔ (k, v) ∈ l := by
  induction l with
  | nil => simp [find]
  | cons e l ih =>
    have hne := ne_of_sorted hl
    obtain ⟨j, w⟩ := e
    rw [find_cons, List.mem_cons]
    by_cases hkj : k = j
    · subst hkj
      have hout : (k, v) ∉ l := fun hm => hne (k, v) hm rfl
      simp [hout, eq_comm]
    · simp [hkj, ih (List.pairwise_cons.1 hl).2]

theorem get?_eq_some_iff {m : OrderedMap κ α} {k : κ} {v : α} :
    m.get? k = some v ↔ (k, v) ∈ m.entries := find_eq_some_iff m.sorted

theorem mem_values {m : OrderedMap κ α} {v : α} : v ∈ m.values ↔ ∃ k, m.get? k = some v := by
  simp [values, get?_eq_some_iff]

theorem mem_keys {m : OrderedMap κ α} {k : κ} : k ∈ m.keys ↔ ∃ v, m.get? k = some v := by
  simp [keys, get?_eq_some_iff]

omit [DecidableEq κ] in
theorem keys_nodup (m : OrderedMap κ α) : m.keys.Nodup := by
  have h : m.entries.Pairwise fun a b => a.1 ≠ b.1 := by
    apply m.sorted.imp
    intro a b hlt heq
    rw [heq, Std.LawfulEqOrd.compare_eq_iff_eq.2 rfl] at hlt
    cases hlt
  exact List.pairwise_map.2 h

/-! ## Totals -/

/-- The sum of the values of an entry list. -/
def sumOf (l : List (κ × Nat)) : Nat := (l.map (·.2)).sum

omit [Std.LawfulEqOrd κ] [DecidableEq κ] in
theorem total_eq_sumOf (m : OrderedMap κ Nat) : m.total = sumOf m.entries := rfl

variable [Std.TransOrd κ]

theorem sumOf_put (k : κ) (v : Nat) {l : List (κ × Nat)}
    (hl : l.Pairwise fun a b => compare a.1 b.1 = .lt) :
    sumOf (put k v l) + (find k l).getD 0 = sumOf l + v := by
  induction l with
  | nil => simp [sumOf, put, find]
  | cons e l ih =>
    obtain ⟨j, w⟩ := e
    have hl' := List.pairwise_cons.1 hl
    simp only [put]
    split
    next h =>
      -- every later key is greater still
      have hnone : find k ((j, w) :: l) = none := by
        apply find_eq_none
        intro e he heq
        rcases List.mem_cons.1 he with rfl | he
        · simp [heq] at h
        · have := Std.TransCmp.lt_trans h (hl'.1 e he)
          simp [heq] at this
      simp [hnone, sumOf]
      omega
    next h =>
      obtain rfl := Std.LawfulEqOrd.compare_eq_iff_eq.1 h
      simp [find_cons, sumOf]
      omega
    next h =>
      have hne : k ≠ j := fun e => by simp [e] at h
      have := ih hl'.2
      simp only [sumOf, List.map_cons, List.sum_cons, find_cons, if_neg hne] at this ⊢
      omega

theorem total_insert (m : OrderedMap κ Nat) (k : κ) (v : Nat) :
    (m.insert k v).total + (m.get? k).getD 0 = m.total + v := sumOf_put k v m.sorted

omit [Std.TransOrd κ] in
theorem total_erase (m : OrderedMap κ Nat) (k : κ) :
    (m.erase k).total + (m.get? k).getD 0 = m.total := by
  obtain ⟨l, hl⟩ := m
  simp only [total_eq_sumOf, erase, get?]
  induction l with
  | nil => rfl
  | cons e l ih =>
    have hne := ne_of_sorted hl
    obtain ⟨j, w⟩ := e
    have hrest := ih (List.pairwise_cons.1 hl).2
    by_cases hkj : k = j
    · subst hkj
      rw [find_eq_none hne] at hrest
      rw [List.filter_cons_of_neg (by simp)]
      simp only [sumOf, find_cons, ↓reduceIte, Option.getD, List.map_cons, List.sum_cons] at hrest ⊢
      omega
    · rw [List.filter_cons_of_pos (by simp [hkj])]
      simp only [sumOf, find_cons, if_neg hkj, List.map_cons, List.sum_cons] at hrest ⊢
      omega

omit [Std.TransOrd κ] in
/-- Two values are part of the total. -/
theorem add_le_total (m : OrderedMap κ Nat) {j k : κ} (hne : j ≠ k) :
    (m.get? j).getD 0 + (m.get? k).getD 0 ≤ m.total := by
  have hj := total_erase m j
  have hk := total_erase (m.erase j) k
  rw [get?_erase, if_neg (Ne.symm hne)] at hk
  omega

omit [Std.TransOrd κ] in
/-- Over keys that cover a map of numbers, the lookups sum to the total. -/
theorem sum_lookup {m : OrderedMap κ Nat} {ks : List κ} (hks : ks.Nodup)
    (hcover : ∀ k v, m.get? k = some v → k ∈ ks) :
    (ks.map fun k => (m.get? k).getD 0).sum = m.total := by
  simp only [get?_eq_some_iff] at hcover
  obtain ⟨l, hl⟩ := m
  simp only [total_eq_sumOf, get?] at hcover ⊢
  induction l with
  | nil => exact List.sum_map_zero
  | cons e l ih =>
    have hne := ne_of_sorted hl
    obtain ⟨j, w⟩ := e
    have hsplit : ∀ k, (find k ((j, w) :: l)).getD 0 =
        (if k = j then w else 0) + (find k l).getD 0 := by
      intro k
      rw [find_cons]
      by_cases hkj : k = j
      · subst hkj
        simp [find_eq_none hne]
      · simp [hkj]
    have hrest := ih (List.pairwise_cons.1 hl).2 fun k v h => hcover k v (List.mem_cons_of_mem _ h)
    have hj : j ∈ ks := hcover j w List.mem_cons_self
    have hcount : (ks.map fun k => if k = j then w else 0).sum = w := by
      rw [List.sum_map_eq_nsmul_single j _ fun i hij _ => if_neg hij,
        hks.count, if_pos hj, if_pos rfl, one_nsmul]
    calc (ks.map fun k => (find k ((j, w) :: l)).getD 0).sum
        = (ks.map fun k => (if k = j then w else 0) + (find k l).getD 0).sum := by
          simp only [hsplit]
      _ = (ks.map fun k => if k = j then w else 0).sum + (ks.map fun k => (find k l).getD 0).sum :=
          List.sum_map_add
      _ = w + sumOf l := by rw [hcount, hrest]

end MetaPool.OrderedMap
