import MetaPool.Toml.Statement

/-!
# TOML documents

What the statements of a document say together. A header opens a table for the assignments up to the
next one; a dotted key leads through tables of its own. Every table is opened once and every entry
is assigned once: a header may come back to a table only if none but longer headers have implied it,
and a dotted key may lead only through tables that no header has opened.
-/

namespace MetaPool.Toml

/-- How a table came to be. -/
inductive Origin where
  /-- By its header. -/
  | opened
  /-- By a longer header. -/
  | implied
  /-- By a dotted key. -/
  | dotted
deriving DecidableEq

/-- What is known of an entry while the document is read. -/
inductive Item where
  | value (value : Value)
  | table (origin : Origin) (entries : List (String × Item))
  /-- The tables of an array, of which the last is being written. -/
  | tables (earlier : List (List (String × Item))) (last : List (String × Item))

/-- The entries of a table, in the order in which they came to be. -/
abbrev Entries := List (String × Item)

/-- Gives a key an item, in place of the one it has. -/
def Entries.set (name : String) (item : Item) : Entries → Entries
  | [] => [(name, item)]
  | (k, i) :: rest => if k = name then (k, item) :: rest else (k, i) :: Entries.set name item rest

/-! ## Values -/

mutual

/-- The value of an item. -/
def Item.toValue : Item → Value
  | .value v => v
  | .table _ entries => .table (valuesOf entries)
  | .tables earlier last => .array (tablesOf earlier ++ [.table (valuesOf last)])

def valuesOf : List (String × Item) → List (String × Value)
  | [] => []
  | (name, item) :: rest => (name, item.toValue) :: valuesOf rest

def tablesOf : List (List (String × Item)) → List Value
  | [] => []
  | entries :: rest => .table (valuesOf entries) :: tablesOf rest

end

/-! ## Assignments -/

/-- Assigns a value to a dotted key. The tables that the key leads through are made if they are not
there; the last of them may be no other than a table of dotted keys. -/
def assign (value : Value) (name : String) : List String → Entries → Option Entries
  | [], entries =>
    match entries.lookup name with
    | none => some (entries ++ [(name, .value value)])
    | some _ => none
  | key :: path, entries =>
    match entries.lookup key with
    | none => do
      let inner ← assign value name path []
      return entries ++ [(key, .table .dotted inner)]
    | some (.table origin inner) =>
      if origin = .opened ∨ (path.isEmpty ∧ origin ≠ .dotted) then none
      else do
        let inner ← assign value name path inner
        return entries.set key (.table origin inner)
    | some (.tables earlier last) =>
      if path.isEmpty then none
      else do
        let last ← assign value name path last
        return entries.set key (.tables earlier last)
    | some (.value _) => none

mutual

/-- The value that a term stands for, if its inline tables assign every entry once. -/
def Term.value? : Term → Option Value
  | .scalar v => some v
  | .array elements => do return .array (← termValues elements)
  | .inlineTable entries => do return .table (valuesOf (← inlineEntries [] entries))

def termValues : List Term → Option (List Value)
  | [] => some []
  | term :: rest => do return (← term.value?) :: (← termValues rest)

/-- The entries of an inline table that goes on with the given ones. -/
def inlineEntries (entries : Entries) : List (KeyPath × Term) → Option Entries
  | [] => some entries
  | (key, term) :: rest => do
    let value ← term.value?
    inlineEntries (← assign value key.name key.parents entries) rest

end

/-! ## Sections -/

/-- A header and the assignments behind it. -/
structure Section where
  inArray : Bool
  key : KeyPath
  body : List (KeyPath × Term)

/-- The assignments before the first header, and the sections. -/
def sectionsOf : List Statement → List (KeyPath × Term) × List Section
  | [] => ([], [])
  | .assign key term :: rest =>
    let (body, sections) := sectionsOf rest
    ((key, term) :: body, sections)
  | .header inArray key :: rest =>
    let (body, sections) := sectionsOf rest
    ([], ⟨inArray, key, body⟩ :: sections)

/-- Changes the table behind a path of headers. Tables that are not there are implied; an array
leads to its last table. -/
def within (change : Entries → Option Entries) : List String → Entries → Option Entries
  | [], entries => change entries
  | key :: path, entries =>
    match entries.lookup key with
    | none => do
      let inner ← within change path []
      return entries ++ [(key, .table .implied inner)]
    | some (.table origin inner) => do
      let inner ← within change path inner
      return entries.set key (.table origin inner)
    | some (.tables earlier last) => do
      let last ← within change path last
      return entries.set key (.tables earlier last)
    | some (.value _) => none

/-- Adds the table of a section to the table that holds it. -/
def Section.addTo (s : Section) (entries : Entries) : Option Entries :=
  match s.inArray, entries.lookup s.key.name with
  | false, none => do
    return entries ++ [(s.key.name, .table .opened (← inlineEntries [] s.body))]
  | false, some (.table .implied inner) => do
    return entries.set s.key.name (.table .opened (← inlineEntries inner s.body))
  | true, none => do
    return entries ++ [(s.key.name, .tables [] (← inlineEntries [] s.body))]
  | true, some (.tables earlier last) => do
    return entries.set s.key.name (.tables (earlier ++ [last]) (← inlineEntries [] s.body))
  | _, _ => none

/-- The table that statements describe. -/
def document? (statements : List Statement) : Option Value := do
  let (body, sections) := sectionsOf statements
  let top ← inlineEntries [] body
  let entries ← sections.foldlM (fun entries s => within s.addTo s.key.parents entries) top
  return .table (valuesOf entries)

/-- The table that a text holds. -/
def Value.read? (text : String) : Option Value := do document? (← statements? text)

end MetaPool.Toml
