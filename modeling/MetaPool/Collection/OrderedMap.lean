/-!
# Ordered maps

A finite map kept as the list of its entries in strictly increasing order of key. The order is part
of the type, so a map is determined by its entries and listing it needs no sorting. `get?_insert`
and `get?_erase` say what a reader sees after a write.
-/

namespace MetaPool

/-- A finite map from `κ` to `α`, listed by key. -/
structure OrderedMap (κ α : Type) [Ord κ] where
  entries : List (κ × α)
  sorted : entries.Pairwise fun a b => compare a.1 b.1 = .lt

namespace OrderedMap

variable {κ α β : Type} [Ord κ]

/-! ## Entry lists -/

/-- The value beside the first occurrence of a key. -/
def find (k : κ) : List (κ × α) → Option α
  | [] => none
  | (j, w) :: rest => if compare k j = .eq then some w else find k rest

/-- Writes an entry at its place, over an entry of the same key. -/
def put (k : κ) (v : α) : List (κ × α) → List (κ × α)
  | [] => [(k, v)]
  | (j, w) :: rest =>
    match compare k j with
    | .lt => (k, v) :: (j, w) :: rest
    | .eq => (k, v) :: rest
    | .gt => (j, w) :: put k v rest

theorem mem_put {k : κ} {v : α} {l : List (κ × α)} {e : κ × α} (h : e ∈ put k v l) :
    e = (k, v) ∨ e ∈ l := by
  induction l with
  | nil => simp_all [put]
  | cons a l ih =>
    simp only [put] at h
    split at h <;> simp only [List.mem_cons] at h ⊢ <;> grind

variable [Std.TransOrd κ]

theorem put_sorted (k : κ) (v : α) {l : List (κ × α)}
    (hl : l.Pairwise fun a b => compare a.1 b.1 = .lt) :
    (put k v l).Pairwise fun a b => compare a.1 b.1 = .lt := by
  induction l with
  | nil => simp [put]
  | cons a l ih =>
    obtain ⟨j, w⟩ := a
    rw [List.pairwise_cons] at hl
    simp only [put]
    split
    next h =>
      refine List.pairwise_cons.2 ⟨fun e he => ?_, List.pairwise_cons.2 hl⟩
      rcases List.mem_cons.1 he with rfl | he
      · exact h
      · exact Std.TransCmp.lt_trans h (hl.1 e he)
    next h =>
      refine List.pairwise_cons.2 ⟨fun e he => ?_, hl.2⟩
      exact Std.TransCmp.lt_of_eq_of_lt h (hl.1 e he)
    next h =>
      refine List.pairwise_cons.2 ⟨fun e he => ?_, ih hl.2⟩
      rcases mem_put he with rfl | he
      · exact Std.OrientedCmp.lt_of_gt h
      · exact hl.1 e he

/-! ## The map -/

omit [Std.TransOrd κ] in
theorem ext_entries {m n : OrderedMap κ α} (h : m.entries = n.entries) : m = n := by
  cases m; cases n; simp_all

instance [DecidableEq κ] [DecidableEq α] : DecidableEq (OrderedMap κ α) := fun m n =>
  if h : m.entries = n.entries then isTrue (ext_entries h) else isFalse fun e => h (e ▸ rfl)

/-- The map without entries. -/
def empty : OrderedMap κ α := ⟨[], .nil⟩

instance : Inhabited (OrderedMap κ α) := ⟨empty⟩

/-- The value of a key. -/
def get? (m : OrderedMap κ α) (k : κ) : Option α := find k m.entries

/-- Gives a key a value, in place of the one it has. -/
def insert (m : OrderedMap κ α) (k : κ) (v : α) : OrderedMap κ α :=
  ⟨put k v m.entries, put_sorted k v m.sorted⟩

/-- Takes a key out. -/
def erase (m : OrderedMap κ α) (k : κ) : OrderedMap κ α :=
  ⟨m.entries.filter fun e => compare k e.1 != .eq, m.sorted.filter _⟩

/-- Whether a key has a value. -/
def contains (m : OrderedMap κ α) (k : κ) : Bool := (m.get? k).isSome

/-- The entries, by key. -/
def toList (m : OrderedMap κ α) : List (κ × α) := m.entries

/-- The keys, in order. -/
def keys (m : OrderedMap κ α) : List κ := m.entries.map (·.1)

/-- The values, in the order of their keys. -/
def values (m : OrderedMap κ α) : List α := m.entries.map (·.2)

/-- The map with the entries of a list; of two entries of one key the later stays. -/
def ofList (l : List (κ × α)) : OrderedMap κ α := l.foldl (fun m e => m.insert e.1 e.2) empty

/-- The sum of the values. -/
def total (m : OrderedMap κ Nat) : Nat := m.values.foldr (· + ·) 0

/-! ## Reading after a write -/

omit [Std.TransOrd κ] in
@[simp] theorem get?_empty (k : κ) : (empty : OrderedMap κ α).get? k = none := rfl

variable [Std.LawfulEqOrd κ] [DecidableEq κ]

omit [Std.TransOrd κ] in
theorem find_cons (k j : κ) (w : α) (l : List (κ × α)) :
    find k ((j, w) :: l) = if k = j then some w else find k l := by
  simp [find]

omit [Std.TransOrd κ] in
theorem find_put (k j : κ) (v : α) (l : List (κ × α)) :
    find j (put k v l) = if j = k then some v else find j l := by
  induction l with
  | nil => simp [put, find_cons]
  | cons a l ih =>
    obtain ⟨i, w⟩ := a
    simp only [put]
    split
    next => rw [find_cons]
    next h =>
      obtain rfl := Std.LawfulEqOrd.compare_eq_iff_eq.1 h
      simp only [find_cons]
      split <;> rfl
    next h =>
      have hne : k ≠ i := fun e => by simp [e] at h
      simp only [find_cons, ih]
      split <;> split <;> simp_all

theorem get?_insert (m : OrderedMap κ α) (k j : κ) (v : α) :
    (m.insert k v).get? j = if j = k then some v else m.get? j :=
  find_put k j v m.entries

omit [Std.TransOrd κ] in
theorem get?_erase (m : OrderedMap κ α) (k j : κ) :
    (m.erase k).get? j = if j = k then none else m.get? j := by
  simp only [get?, erase]
  induction m.entries with
  | nil => simp [find]
  | cons a l ih =>
    obtain ⟨i, w⟩ := a
    by_cases h : compare k i = .eq
    · obtain rfl := Std.LawfulEqOrd.compare_eq_iff_eq.1 h
      simp only [List.filter_cons, h, bne_self_eq_false, Bool.false_eq_true, ↓reduceIte, ih,
        find_cons]
      split <;> rfl
    · have hne : k ≠ i := fun e => h (by simp [e])
      simp only [List.filter_cons, bne_iff_ne, ne_eq, h, not_false_eq_true, ↓reduceIte, find_cons,
        ih]
      split <;> split <;> simp_all

end OrderedMap

end MetaPool
