import MetaPool.Proofs.Toml.Codecs

/-!
# Reading records

A reader of records sees of a value only what it has for each name (`Value.field?`): the entry of a table, or
the element of an array in the place of the name. So it makes no difference in which order the entries of a
table stand: of a value that is alike to a table, a record has alike values for the names of the table. Words,
and lists of what can be read, read as they were written.

    v.record? names = some fields → fields = names.map (v.field? names)       (record?_eq_some)
    (Value.table entries).Alike v → v.record? (entries.map Prod.fst) = some (values.map some)  (Alike.record?)
-/

namespace MetaPool.Toml

variable {α β : Type} {name : String} {names : List String} {v : Value} {entries : List (String × Value)}

/-! ## What a record has for a name -/

/-- What a record has for one of its names. -/
def Value.field? (names : List String) (name : String) : Value → Option Value
  | table entries => entries.lookup name
  | array elements => elements[names.idxOf name]?
  | _ => none

theorem record?_eq_some {fields : List (Option Value)} (hdistinct : names.Nodup)
    (h : v.record? names = some fields) : fields = names.map fun name => v.field? names name := by
  cases v with
  | table entries => exact (Option.some.inj h).symm
  | array elements =>
    rw [← Option.some.inj h]
    refine List.ext_getElem (by simp) fun i hi hi' => ?_
    simp [Value.field?, hdistinct.idxOf_getElem]
  | _ => cases h

theorem exists_alike_of_mem {entries' : List (String × Value)} (hdistinct : (entries.map Prod.fst).Nodup)
    (hlookup : ∀ name, Option.Rel Value.Alike (entries.lookup name) (entries'.lookup name)) :
    ∀ e ∈ entries, ∃ v, entries'.lookup e.1 = some v ∧ e.2.Alike v := by
  intro e he
  have hrel := hlookup e.1
  rw [(lookup_eq_some_iff hdistinct).2 he] at hrel
  cases hfound : entries'.lookup e.1 with
  | none =>
    rw [hfound] at hrel
    cases hrel
  | some v =>
    rw [hfound] at hrel
    cases hrel with
    | some halike => exact ⟨v, rfl, halike⟩

/-- What is alike to a table has alike values for its names. -/
theorem Value.Alike.record? (h : (Value.table entries).Alike v) (hdistinct : (entries.map Prod.fst).Nodup) :
    ∃ values, v.record? (entries.map Prod.fst) = some (values.map some) ∧
      List.Forall₂ Value.Alike (entries.map Prod.snd) values := by
  cases h with
  | @table _ entries' hlookup =>
    have hvalue := exists_alike_of_mem hdistinct hlookup
    clear hlookup hdistinct
    induction entries with
    | nil => exact ⟨[], rfl, .nil⟩
    | cons e entries ih =>
      rw [List.forall_mem_cons] at hvalue
      obtain ⟨⟨v, hv, halike⟩, hrest⟩ := hvalue
      obtain ⟨values, hvalues, hall⟩ := ih hrest
      have htail := Option.some.inj hvalues
      refine ⟨v :: values, ?_, .cons halike hall⟩
      rw [Value.record?, List.map_cons, List.map_cons, hv, htail, List.map_cons]

/-- What is alike to a flat table has the same values for its names. -/
theorem Flat.record? (hflat : Flat entries) (h : (Value.table entries).Alike v) :
    v.record? (entries.map Prod.fst) = some (entries.map fun e => some e.2) := by
  obtain ⟨values, hrecord, hvalues⟩ := h.record? hflat.distinct
  have hsame : values = entries.map Prod.snd := by
    rw [List.forall₂_map_left_iff] at hvalues
    have hscalars := hflat.scalars
    clear hrecord h hflat
    induction hvalues with
    | nil => rfl
    | cons hfirst _ ih =>
      rw [List.forall_mem_cons] at hscalars
      rw [List.map_cons, hscalars.1.eq_of_alike hfirst, ih hscalars.2]
  rw [hrecord, hsame, List.map_map]
  rfl

/-! ## Entries that are left out -/

/-- Entries, and those of the given defaults that they leave out. -/
def withDefaults (defaults entries : List (String × Value)) : List (String × Value) :=
  entries ++ defaults.filter fun e => (entries.lookup e.1).isNone

/-- Entries, with the value of one key changed. -/
def changeEntry (key : String) (change : Value → Value) (entries : List (String × Value)) :
    List (String × Value) :=
  entries.map fun e => if e.1 = key then (e.1, change e.2) else e

theorem lookup_filter {l : List (String × α)} {p : String → Bool} (hp : p name = true) :
    (l.filter fun e => p e.1).lookup name = l.lookup name := by
  induction l with
  | nil => rfl
  | cons e l ih =>
    rw [List.filter_cons, List.lookup_cons]
    by_cases hname : name = e.1
    · subst hname
      rw [if_pos hp, List.lookup_cons]
      simp
    · have hne : (name == e.1) = false := by simpa using hname
      split
      · rw [List.lookup_cons, hne, ih]
      · rw [hne, ih]

theorem lookup_withDefaults (defaults entries : List (String × Value)) :
    (withDefaults defaults entries).lookup name = (entries.lookup name).or (defaults.lookup name) := by
  rw [withDefaults, List.lookup_append]
  cases hlookup : entries.lookup name with
  | some v => rfl
  | none => rw [lookup_filter (p := fun key => (entries.lookup key).isNone) (by rw [hlookup]; rfl)]

theorem lookup_changeEntry (key : String) (change : Value → Value) (entries : List (String × Value)) :
    (changeEntry key change entries).lookup name =
      (entries.lookup name).map (if name = key then change else id) := by
  induction entries with
  | nil => rfl
  | cons e entries ih =>
    have hkey : (if e.1 = key then (e.1, change e.2) else e) =
        (e.1, (if e.1 = key then change else id) e.2) := by
      split <;> rfl
    rw [changeEntry, List.map_cons, hkey, List.lookup_cons, List.lookup_cons]
    by_cases hname : name = e.1
    · subst hname
      simp
    · have hne : (name == e.1) = false := by simpa using hname
      rw [hne]
      exact ih

/-! ## Words -/

theorem natUpTo?_integer {limit n : Nat} (h : n ≤ limit) : (Value.integer n).natUpTo? limit = some n := by
  have hrange : 0 ≤ (n : Int) ∧ (n : Int) ≤ limit := by omega
  simp [Value.natUpTo?, hrange]

theorem uint64?_integer (w : UInt64) : (Value.integer w.toNat).uint64? = some w := by
  rw [Value.uint64?, natUpTo?_integer (toNat_le_maxWord w)]
  exact word?_toNat w

theorem int64?_integer (w : Int64) : (Value.integer w.toInt).int64? = some w := signedWord?_toInt w

/-! ## Lists -/

theorem mapM_eq_some_iff {f : α → Option β} {l : List α} {l' : List β} :
    l.mapM f = some l' ↔ List.Forall₂ (fun a b => f a = some b) l l' := by
  induction l generalizing l' with
  | nil => simp [eq_comm]
  | cons a l ih =>
    simp only [List.mapM_cons, Option.bind_eq_bind, Option.bind_eq_some_iff, Option.pure_def, Option.some.injEq,
      ih, List.forall₂_cons_left_iff]
    exact ⟨fun ⟨b, hb, rest, hrest, h⟩ => ⟨b, rest, hb, hrest, h.symm⟩,
      fun ⟨b, rest, hb, hrest, h⟩ => ⟨b, hb, rest, hrest, h.symm⟩⟩

/-- What is alike to an array of tables is read as what the tables stand for, if they are. -/
theorem list?_alike {l : List α} {element? : Value → Option α} {fields : α → List (String × Value)}
    (h : ∀ a ∈ l, ∀ v, (Value.table (fields a)).Alike v → element? v = some a)
    (hv : (Value.array ((l.map fields).map .table)).Alike v) : v.list? element? = some l := by
  cases hv with
  | array helements =>
    rw [List.map_map, List.forall₂_map_left_iff] at helements
    refine mapM_eq_some_iff.2 (List.Forall₂.flip ?_)
    induction helements with
    | nil => exact .nil
    | cons hfirst _ ih =>
      rw [List.forall_mem_cons] at h
      exact .cons (h.1 _ hfirst) (ih h.2)

theorem list?_eq_some {element? : Value → Option α} {l : List α} (h : v.list? element? = some l) :
    ∃ elements, v = .array elements ∧ List.Forall₂ (fun e a => element? e = some a) elements l := by
  cases v with
  | array elements => exact ⟨elements, rfl, mapM_eq_some_iff.1 h⟩
  | _ => cases h

end MetaPool.Toml
