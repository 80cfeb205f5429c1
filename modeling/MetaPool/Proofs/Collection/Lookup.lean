import MetaPool.Proofs.Collection.Totals

/-!
# Maps that answer alike

A map lists each key once and in order, so that its lookups determine it (`ext_get?`). Writes of
different keys can therefore be exchanged, and of two writes of one key only the later counts.
-/

namespace MetaPool.OrderedMap

variable {κ α : Type} [Ord κ] [Std.TransOrd κ] [Std.LawfulEqOrd κ] [DecidableEq κ]

omit [Std.TransOrd κ] [DecidableEq κ] in
theorem entries_nodup (m : OrderedMap κ α) : m.entries.Nodup := m.keys_nodup.of_map

theorem ext_get? {m n : OrderedMap κ α} (h : ∀ k, m.get? k = n.get? k) : m = n := by
  have hmem : ∀ e, e ∈ m.entries ↔ e ∈ n.entries := by
    rintro ⟨k, v⟩
    rw [← get?_eq_some_iff, ← get?_eq_some_iff, h]
  have hperm : m.entries.Perm n.entries :=
    (List.perm_ext_iff_of_nodup m.entries_nodup n.entries_nodup).2 hmem
  refine ext_entries (hperm.eq_of_pairwise (fun a b _ _ hab hba => ?_) m.sorted n.sorted)
  -- two entries cannot each come before the other
  rw [Std.OrientedCmp.gt_of_lt hab] at hba
  cases hba

theorem contains_insert (m : OrderedMap κ α) (j k : κ) (v : α) :
    (m.insert k v).contains j = true ↔ j = k ∨ m.contains j = true := by
  unfold contains
  rw [get?_insert]
  split <;> simp_all

theorem insert_insert (m : OrderedMap κ α) (k : κ) (v w : α) :
    (m.insert k v).insert k w = m.insert k w := by
  apply ext_get?
  intro j
  simp only [get?_insert]
  split <;> rfl

theorem insert_comm (m : OrderedMap κ α) {j k : κ} (hne : j ≠ k) (v w : α) :
    (m.insert j v).insert k w = (m.insert k w).insert j v := by
  apply ext_get?
  intro i
  simp only [get?_insert]
  by_cases hk : i = k
  · subst hk
    simp [hne.symm]
  · simp [hk]

end MetaPool.OrderedMap
