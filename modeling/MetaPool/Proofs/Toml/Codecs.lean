import Mathlib.Data.List.Forall2
import MetaPool.Toml.Codec

/-!
# Faithful codecs

What may be relied on in a codec, whatever its texts look like: it prints a document of tables, arrays of
tables, strings and integers exactly if the integers are signed words, and reads its own text as that document
again. The tables may list their entries in another order then, which makes no difference to one that looks
entries up by their names (`Alike`).

    codec.Faithful depth → Document depth entries → codec.print? (.table entries) = some text →
      ∃ v, codec.read? text = some v ∧ (Value.table entries).Alike v
-/

namespace MetaPool.Toml

variable {α : Type} {name : String} {v v' : Value} {depth : Nat} {entries entries' rest : List (String × Value)}
  {inners : List (List (String × Value))}

/-! ## Documents -/

/-- A value without further values in it. -/
inductive Scalar : Value → Prop where
  | string (s : String) : Scalar (.string s)
  | integer (i : Int) : Scalar (.integer i)

/-- A table of scalars, tables and arrays of tables, which lie in one another to a depth at most. The names of a
table are distinct. -/
inductive Document : Nat → List (String × Value) → Prop where
  | nil (depth : Nat) : Document depth []
  | scalar {depth : Nat} {name : String} {v : Value} {rest : List (String × Value)} :
      name ∉ rest.map Prod.fst → Scalar v → Document depth rest → Document depth ((name, v) :: rest)
  | table {depth : Nat} {name : String} {inner rest : List (String × Value)} :
      name ∉ rest.map Prod.fst → Document depth inner → Document (depth + 1) rest →
      Document (depth + 1) ((name, .table inner) :: rest)
  | tables {depth : Nat} {name : String} {inners : List (List (String × Value))}
      {rest : List (String × Value)} :
      name ∉ rest.map Prod.fst → (∀ inner ∈ inners, Document depth inner) → Document (depth + 1) rest →
      Document (depth + 1) ((name, .array (inners.map .table)) :: rest)

/-- A table of scalars under distinct names. -/
structure Flat (entries : List (String × Value)) : Prop where
  scalars : ∀ e ∈ entries, Scalar e.2
  distinct : (entries.map Prod.fst).Nodup

theorem Flat.document (h : Flat entries) (depth : Nat) : Document depth entries := by
  obtain ⟨hscalars, hdistinct⟩ := h
  induction entries with
  | nil => exact .nil depth
  | cons e entries ih =>
    rw [List.forall_mem_cons] at hscalars
    rw [List.map_cons, List.nodup_cons] at hdistinct
    exact .scalar hdistinct.1 hscalars.1 (ih hscalars.2 hdistinct.2)

/-! ## Integers -/

mutual

/-- The integers in a value. -/
def Value.integers : Value → List Int
  | .integer i => [i]
  | .array elements => integersOf elements
  | .table entries => integersIn entries
  | _ => []
termination_by structural v => v

/-- The integers in the elements of an array. -/
def integersOf : List Value → List Int
  | [] => []
  | v :: rest => v.integers ++ integersOf rest
termination_by structural elements => elements

/-- The integers in the entries of a table. -/
def integersIn : List (String × Value) → List Int
  | [] => []
  | (_, v) :: rest => v.integers ++ integersIn rest
termination_by structural entries => entries

end

/-- All integers in a value are signed words. -/
def Value.Signed (v : Value) : Prop := ∀ i ∈ v.integers, minSignedWord ≤ i ∧ i ≤ maxSignedWord

theorem signed_string (s : String) : (Value.string s).Signed := nofun

theorem signed_integer {i : Int} : (Value.integer i).Signed ↔ minSignedWord ≤ i ∧ i ≤ maxSignedWord := by
  simp [Value.Signed, Value.integers]

theorem signed_table_nil : (Value.table []).Signed := nofun

theorem signed_table_cons :
    (Value.table ((name, v) :: rest)).Signed ↔ v.Signed ∧ (Value.table rest).Signed := by
  simp only [Value.Signed, Value.integers, integersIn, List.forall_mem_append]

theorem signed_tables :
    (Value.array (inners.map .table)).Signed ↔ ∀ inner ∈ inners, (Value.table inner).Signed := by
  induction inners with
  | nil => simp [Value.Signed, Value.integers, integersOf]
  | cons inner inners ih =>
    simp only [Value.Signed, Value.integers, integersOf, List.map_cons, List.forall_mem_append,
      List.forall_mem_cons] at ih ⊢
    rw [ih]

/-! ## Values but for the order of entries -/

/-- Two values are the same, but that their tables may list the entries in different orders. -/
inductive Value.Alike : Value → Value → Prop where
  | string (s : String) : Alike (.string s) (.string s)
  | integer (i : Int) : Alike (.integer i) (.integer i)
  | boolean (b : Bool) : Alike (.boolean b) (.boolean b)
  | array {elements elements' : List Value} :
      List.Forall₂ Alike elements elements' → Alike (.array elements) (.array elements')
  | table {entries entries' : List (String × Value)} :
      (∀ name, Option.Rel Alike (entries.lookup name) (entries'.lookup name)) →
      Alike (.table entries) (.table entries')

theorem alike_string {s : String} : (Value.string s).Alike v ↔ v = .string s :=
  ⟨fun h => by cases h; rfl, fun h => h ▸ .string s⟩

theorem alike_integer {i : Int} : (Value.integer i).Alike v ↔ v = .integer i :=
  ⟨fun h => by cases h; rfl, fun h => h ▸ .integer i⟩

theorem Scalar.eq_of_alike (h : Scalar v) (halike : v.Alike v') : v' = v := by
  cases h with
  | string s => exact alike_string.1 halike
  | integer i => exact alike_integer.1 halike

/-- Two entries of one name and alike values. -/
def SameEntry (e e' : String × Value) : Prop := e.1 = e'.1 ∧ e.2.Alike e'.2

theorem lookup_eq_some_iff {l : List (String × α)} {a : α} (hdistinct : (l.map Prod.fst).Nodup) :
    l.lookup name = some a ↔ (name, a) ∈ l := by
  induction l with
  | nil => simp
  | cons e l ih =>
    rw [List.map_cons, List.nodup_cons] at hdistinct
    obtain ⟨key, b⟩ := e
    rw [List.lookup_cons, List.mem_cons]
    by_cases hname : name = key
    · subst hname
      have hnew : (name, a) ∉ l := fun hmem => hdistinct.1 (List.mem_map.2 ⟨_, hmem, rfl⟩)
      simp [hnew, eq_comm]
    · have hne : (name == key) = false := by simpa using hname
      rw [hne]
      simp [hname, ih hdistinct.2]

/-- Where no name comes twice, the order of entries makes no difference to a lookup. -/
theorem lookup_perm {l l' : List (String × α)} (hperm : l'.Perm l) (hdistinct : (l.map Prod.fst).Nodup) :
    l'.lookup name = l.lookup name := by
  have hdistinct' := (hperm.map Prod.fst).nodup_iff.2 hdistinct
  ext a
  rw [lookup_eq_some_iff hdistinct', lookup_eq_some_iff hdistinct, hperm.mem_iff]

theorem lookup_same (h : List.Forall₂ SameEntry entries entries') (name : String) :
    Option.Rel Value.Alike (entries.lookup name) (entries'.lookup name) := by
  induction h with
  | nil => exact .none
  | @cons e e' entries entries' he _ ih =>
    obtain ⟨key, v⟩ := e
    obtain ⟨key', v'⟩ := e'
    obtain ⟨rfl, hv⟩ : key = key' ∧ v.Alike v' := he
    rw [List.lookup_cons, List.lookup_cons]
    cases name == key with
    | true => exact .some hv
    | false => exact ih

/-- A table is alike to one that has the same entries in another order. -/
theorem alike_of_perm {arranged : List (String × Value)} (hdistinct : (entries.map Prod.fst).Nodup)
    (hperm : arranged.Perm entries) (h : List.Forall₂ SameEntry arranged entries') :
    (Value.table entries).Alike (.table entries') :=
  .table fun name => lookup_perm hperm hdistinct ▸ lookup_same h name

/-! ## Codecs -/

/-- A codec prints a document of a depth exactly if all integers in it are signed words, and reads back what it
prints. -/
structure Codec.Faithful (codec : Codec) (depth : Nat) : Prop where
  isSome_print? : ∀ entries, Document depth entries →
    ((codec.print? (.table entries)).isSome = true ↔ (Value.table entries).Signed)
  read?_print? : ∀ entries text, Document depth entries → codec.print? (.table entries) = some text →
    ∃ v, codec.read? text = some v ∧ (Value.table entries).Alike v

end MetaPool.Toml
