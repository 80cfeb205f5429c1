import MetaPool.Collection.OrderedMap

/-!
# Changing values in place

`map` puts a function over all values of a map and `adjust` over the value of one key. Neither adds a
key or takes one away, and `map` commutes with the writes of single entries.
-/

namespace MetaPool.OrderedMap

variable {κ α β : Type} [Ord κ]

/-- The map with a function put over its values. -/
def map (f : α → β) (m : OrderedMap κ α) : OrderedMap κ β :=
  ⟨m.entries.map fun e => (e.1, f e.2), List.pairwise_map.2 m.sorted⟩

theorem map_erase (f : α → β) (m : OrderedMap κ α) (k : κ) :
    (m.erase k).map f = (m.map f).erase k := by
  apply ext_entries
  simp only [map, erase, List.filter_map]
  rfl

theorem map_put (f : α → β) (k : κ) (v : α) (l : List (κ × α)) :
    (put k v l).map (fun e => (e.1, f e.2)) = put k (f v) (l.map fun e => (e.1, f e.2)) := by
  induction l with
  | nil => rfl
  | cons e l ih =>
    obtain ⟨j, w⟩ := e
    simp only [put, List.map_cons]
    split
    · rfl
    · rfl
    · rw [List.map_cons, ih]

variable [Std.TransOrd κ]

theorem map_insert (f : α → β) (m : OrderedMap κ α) (k : κ) (v : α) :
    (m.insert k v).map f = (m.map f).insert k (f v) :=
  ext_entries (map_put f k v m.entries)

/-- Changes the value of a key, if it has one. -/
def adjust (m : OrderedMap κ α) (k : κ) (f : α → α) : OrderedMap κ α :=
  match m.get? k with
  | some v => m.insert k (f v)
  | none => m

theorem adjust_eq_insert {m : OrderedMap κ α} {k : κ} {v : α} (h : m.get? k = some v)
    (f : α → α) : m.adjust k f = m.insert k (f v) := by
  simp only [adjust, h]

end MetaPool.OrderedMap
