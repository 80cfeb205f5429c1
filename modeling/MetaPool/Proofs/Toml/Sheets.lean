import Mathlib.Data.List.Nodup
import MetaPool.Proofs.Toml.Codecs
import MetaPool.Proofs.Toml.Lines

/-!
# Sheets of a document

A document is printed sheet by sheet: the assignments of a table and then, for each table in it and for each
table of an array in it, a header and what belongs to that table in turn (`Sheet`, `sheetsOf`). A table that
omits its header has only the sheets of its tables. Where the sheets of a tidy table are added one after the
other to its assignments, each opens a table of its own under a name that is still free, or the next one of its
array, or goes on with a table that an earlier header implied, and all tables together are those of the document.

    build (sheetsOf entries) base = some (base ++ sectionItems entries)     (Tidy.build_sheetsOf)
    (Value.table entries).Alike (.table (valuesOf (Value.table entries).items))   (Tidy.alike)
-/

namespace MetaPool.Toml

variable {α β : Type} {name : String} {v : Value} {n : Nat} {entries inner rest : List (String × Value)}
  {inners : List (List (String × Value))} {base inside : Entries} {hole : Entries → Item}

/-- Where every element has an answer, all together have theirs. -/
theorem mapM_eq_some {l : List α} {f : α → Option β} {g : α → β} (h : ∀ a ∈ l, f a = some (g a)) :
    l.mapM f = some (l.map g) := by
  induction l with
  | nil => rfl
  | cons a l ih =>
    rw [List.forall_mem_cons] at h
    rw [List.mapM_cons, h.1, ih h.2]
    rfl

/-! ## Tidy documents -/

/-- The entries that are printed as assignments. -/
def leavesOf (entries : List (String × Value)) : List (String × Value) :=
  entries.filter fun e => !e.2.isSection

/-- The entries that are printed behind headers. -/
def sectionsIn (entries : List (String × Value)) : List (String × Value) :=
  entries.filter fun e => e.2.isSection

/-- A table as it is printed: of values in lines, tables, and arrays that hold tables, with headers of `n` keys
at most. Names are distinct. -/
inductive Tidy : Nat → List (String × Value) → Prop where
  | nil (n : Nat) : Tidy n []
  | leaf {n : Nat} {name : String} {v : Value} {rest : List (String × Value)} :
      name ∉ rest.map Prod.fst → Leaf v → Tidy n rest → Tidy n ((name, v) :: rest)
  | table {n : Nat} {name : String} {inner rest : List (String × Value)} :
      name ∉ rest.map Prod.fst → Tidy n inner → Tidy (n + 1) rest →
      Tidy (n + 1) ((name, .table inner) :: rest)
  | tables {n : Nat} {name : String} {inners : List (List (String × Value))} {rest : List (String × Value)} :
      name ∉ rest.map Prod.fst → inners ≠ [] → (∀ inner ∈ inners, Tidy n inner) → Tidy (n + 1) rest →
      Tidy (n + 1) ((name, .array (inners.map .table)) :: rest)

theorem Leaf.isSection (h : Leaf v) : v.isSection = false := by
  cases h <;> rfl

theorem tablesIn?_map (h : inners ≠ []) : tablesIn? (inners.map .table) = some inners := by
  obtain ⟨first, inners, rfl⟩ := List.exists_cons_of_ne_nil h
  have hall := mapM_eq_some (l := first :: inners) (f := some) (g := id) fun _ _ => rfl
  rw [List.map_cons, tablesIn?, ← List.map_cons, List.mapM_map]
  · exact hall.trans (by rw [List.map_id])
  · exact nofun

theorem isSection_tables (h : inners ≠ []) : (Value.array (inners.map .table)).isSection = true := by
  rw [Value.isSection, tablesIn?_map h]
  rfl

theorem Tidy.distinct (h : Tidy n entries) : (entries.map Prod.fst).Nodup := by
  induction h with
  | nil => exact .nil
  | leaf hnew _ _ ih => exact List.nodup_cons.2 ⟨hnew, ih⟩
  | table hnew _ _ _ ih => exact List.nodup_cons.2 ⟨hnew, ih⟩
  | tables hnew _ _ _ _ ih => exact List.nodup_cons.2 ⟨hnew, ih⟩

theorem Tidy.leaf_of_mem (h : Tidy n entries) : ∀ e ∈ leavesOf entries, Leaf e.2 := by
  induction h with
  | nil => exact nofun
  | leaf _ hv _ ih => simpa [leavesOf, hv.isSection, hv] using ih
  | table _ _ _ _ ih => simpa [leavesOf, Value.isSection] using ih
  | tables _ hne _ _ _ ih => simpa [leavesOf, isSection_tables hne] using ih

/-- A table that omits its header has no assignments. -/
theorem leavesOf_of_omitsHeader (h : omitsHeader entries = true) : leavesOf entries = [] := by
  simp only [omitsHeader, Bool.and_eq_true, List.all_eq_true] at h
  refine List.filter_eq_nil_iff.2 fun e he => ?_
  rw [h.2 e he]
  exact Bool.false_ne_true

/-- A table that omits its header has a section instead. -/
theorem exists_section (h : omitsHeader entries = true) : ∃ e ∈ entries, e.2.isSection = true := by
  simp only [omitsHeader, Bool.and_eq_true, Bool.not_eq_true', List.isEmpty_eq_false_iff, List.all_eq_true] at h
  obtain ⟨e, he⟩ := List.exists_mem_of_ne_nil entries h.1
  exact ⟨e, he, h.2 e he⟩

/-! ## Sheets -/

/-- A table as it is printed: a header and assignments. The path starts at the table that the sheet is read
in. -/
structure Sheet where
  inArray : Bool
  parents : List String
  name : String
  body : List (String × Value)

namespace Sheet

/-- The sheet, read in a table further out. -/
def under (path : List String) (s : Sheet) : Sheet := { s with parents := path ++ s.parents }

/-- Assignments as they are read. -/
def terms (body : List (String × Value)) : List (KeyPath × Term) := body.map fun e => (⟨[], e.1⟩, e.2.term)

def toSection (s : Sheet) : Section := ⟨s.inArray, ⟨s.parents, s.name⟩, terms s.body⟩

theorem under_under (path path' : List String) (s : Sheet) :
    (s.under path').under path = s.under (path ++ path') := by
  simp [under]

end Sheet

mutual

/-- The sheets of a table, of which the first is its own, unless it omits its header. -/
def Value.sheets (inArray : Bool) (name : String) : Value → List Sheet
  | .table entries =>
    (if !inArray && omitsHeader entries then [] else [⟨inArray, [], name, leavesOf entries⟩]) ++
      (sheetsOf entries).map (.under [name])
  | _ => []
termination_by structural v => v

/-- The sheets of the tables and arrays of tables among entries. -/
def sheetsOf : List (String × Value) → List Sheet
  | [] => []
  | (name, v) :: rest =>
    (match v with
      | .table inner => Value.sheets false name (.table inner)
      | .array elements => sheetsIn name elements
      | _ => []) ++ sheetsOf rest
termination_by structural entries => entries

/-- The sheets of the tables of an array. -/
def sheetsIn (name : String) : List Value → List Sheet
  | [] => []
  | v :: rest => v.sheets true name ++ sheetsIn name rest
termination_by structural elements => elements

end

theorem sheetsOf_leaf (h : Leaf v) : sheetsOf ((name, v) :: rest) = sheetsOf rest := by
  cases h <;> rfl

theorem sheets_headed {inArray : Bool} (h : inArray = true ∨ omitsHeader inner = false) (name : String) :
    Value.sheets inArray name (.table inner) =
      ⟨inArray, [], name, leavesOf inner⟩ :: (sheetsOf inner).map (.under [name]) := by
  have hheader : ¬(!inArray && omitsHeader inner) = true := by
    rcases h with rfl | h
    · exact Bool.false_ne_true
    · rw [h, Bool.and_false]
      exact Bool.false_ne_true
  rw [Value.sheets, if_neg hheader]
  rfl

theorem sheets_headless (h : omitsHeader inner = true) (name : String) :
    Value.sheets false name (.table inner) = (sheetsOf inner).map (.under [name]) := by
  rw [Value.sheets, if_pos (by rw [h]; rfl), List.nil_append]

/-- A section has a sheet, of its own or of a table in it. -/
theorem Tidy.sheetsOf_ne_nil (h : Tidy n entries) (hsection : ∃ e ∈ entries, e.2.isSection = true) :
    sheetsOf entries ≠ [] := by
  induction h with
  | nil =>
    obtain ⟨e, he, -⟩ := hsection
    cases he
  | @leaf _ name v rest _ hv _ ih =>
    have hrest : ∃ e ∈ rest, e.2.isSection = true := by simpa [hv.isSection] using hsection
    rw [sheetsOf_leaf hv]
    exact ih hrest
  | @table _ name inner rest _ _ _ ihinner _ =>
    show Value.sheets false name (.table inner) ++ sheetsOf rest ≠ []
    cases homits : omitsHeader inner with
    | false =>
      rw [sheets_headed (.inr homits)]
      exact List.cons_ne_nil _ _
    | true =>
      have hinner : sheetsOf inner ≠ [] := ihinner (exists_section homits)
      rw [sheets_headless homits]
      simp [hinner]
  | @tables _ name inners rest _ hne _ _ _ _ =>
    obtain ⟨first, more, rfl⟩ := List.exists_cons_of_ne_nil hne
    show Value.sheets true name (.table first) ++ sheetsIn name (more.map .table) ++ sheetsOf rest ≠ []
    rw [sheets_headed (.inl rfl)]
    exact List.cons_ne_nil _ _

/-! ## Items -/

/-- What assignments leave. -/
def leafItems (entries : List (String × Value)) : Entries := (leavesOf entries).map fun e => (e.1, .value e.2)

/-- An array that got further tables behind the last. -/
def gather (earlier : List Entries) (last : Entries) : List Entries → Item
  | [] => .tables earlier last
  | next :: more => gather (earlier ++ [last]) next more

/-- How a table comes to be: by its header, or by the headers of the tables in it. -/
def originOf (entries : List (String × Value)) : Origin :=
  if omitsHeader entries then .implied else .opened

mutual

/-- What a table leaves. -/
def Value.items : Value → Entries
  | .table entries => leafItems entries ++ sectionItems entries
  | _ => []
termination_by structural v => v

/-- What the tables and arrays of tables among entries leave. -/
def sectionItems : List (String × Value) → Entries
  | [] => []
  | (name, v) :: rest =>
    (match v with
      | .table inner => [(name, .table (originOf inner) (Value.items (.table inner)))]
      | .array elements =>
        match tableItems elements with
        | [] => []
        | first :: more => [(name, gather [] first more)]
      | _ => []) ++ sectionItems rest
termination_by structural entries => entries

def tableItems : List Value → List Entries
  | [] => []
  | v :: rest => v.items :: tableItems rest
termination_by structural elements => elements

end

theorem tableItems_map (inners : List (List (String × Value))) :
    tableItems (inners.map .table) = inners.map fun inner => (Value.table inner).items := by
  induction inners with
  | nil => rfl
  | cons inner inners ih => rw [List.map_cons, tableItems, ih, List.map_cons]

theorem sectionItems_leaf (h : Leaf v) : sectionItems ((name, v) :: rest) = sectionItems rest := by
  cases h <;> rfl

theorem sectionItems_tables (first : List (String × Value)) (more : List (List (String × Value))) :
    sectionItems ((name, .array ((first :: more).map .table)) :: rest) =
      (name, gather [] (Value.table first).items (more.map fun inner => (Value.table inner).items)) ::
        sectionItems rest := by
  rw [sectionItems, tableItems_map, List.map_cons]
  rfl

/-! ## Values -/

theorem valuesOf_append (a b : Entries) : valuesOf (a ++ b) = valuesOf a ++ valuesOf b := by
  induction a with
  | nil => rfl
  | cons e a ih => rw [List.cons_append, valuesOf, ih, valuesOf, List.cons_append]

theorem tablesOf_append (a b : List Entries) : tablesOf (a ++ b) = tablesOf a ++ tablesOf b := by
  induction a with
  | nil => rfl
  | cons e a ih => rw [List.cons_append, tablesOf, ih, tablesOf, List.cons_append]

theorem tablesOf_map (f : List (String × Value) → Entries) :
    tablesOf (inners.map f) = inners.map fun inner => .table (valuesOf (f inner)) := by
  induction inners with
  | nil => rfl
  | cons inner inners ih => rw [List.map_cons, tablesOf, ih, List.map_cons]

theorem valuesOf_leafItems (entries : List (String × Value)) :
    valuesOf (leafItems entries) = leavesOf entries := by
  unfold leafItems
  induction leavesOf entries with
  | nil => rfl
  | cons e leaves ih =>
    rw [List.map_cons, valuesOf, ih]
    rfl

theorem toValue_gather (earlier : List Entries) (last : Entries) (more : List Entries) :
    (gather earlier last more).toValue =
      .array (tablesOf earlier ++ .table (valuesOf last) :: tablesOf more) := by
  induction more generalizing earlier last with
  | nil => rfl
  | cons next more ih =>
    rw [gather, ih, tablesOf_append]
    simp [tablesOf]

theorem Leaf.alike (h : Leaf v) : v.Alike v := by
  cases h with
  | string s => exact .string s
  | integer i => exact .integer i
  | boolean b => exact .boolean b
  | noElements => exact .array .nil

/-- What a table leaves is the table, with its assignments before its sections. -/
theorem Tidy.alike_items (h : Tidy n inner)
    (hsections : List.Forall₂ SameEntry (sectionsIn inner) (valuesOf (sectionItems inner))) :
    (Value.table inner).Alike (.table (valuesOf (Value.table inner).items)) := by
  have hleaves : List.Forall₂ SameEntry (leavesOf inner) (leavesOf inner) :=
    List.forall₂_same.2 fun e he => ⟨rfl, (h.leaf_of_mem e he).alike⟩
  have hperm : (leavesOf inner ++ sectionsIn inner).Perm inner := by
    have hsplit := List.filter_append_perm (fun e : String × Value => !e.2.isSection) inner
    simpa [leavesOf, sectionsIn] using hsplit
  rw [Value.items, valuesOf_append, valuesOf_leafItems]
  exact alike_of_perm h.distinct hperm (List.rel_append hleaves hsections)

/-- Sections leave the values that they are the sections of. -/
theorem Tidy.same_sectionItems (h : Tidy n entries) :
    List.Forall₂ SameEntry (sectionsIn entries) (valuesOf (sectionItems entries)) := by
  induction h with
  | nil => exact .nil
  | leaf _ hv _ ih => simpa [sectionItems_leaf hv, sectionsIn, hv.isSection] using ih
  | table _ hinner _ ihinner ih => exact .cons ⟨rfl, hinner.alike_items ihinner⟩ ih
  | @tables _ name inners rest _ hne hinners _ ihinners ih =>
    have hsections : sectionsIn ((name, .array (inners.map .table)) :: rest) =
        (name, .array (inners.map .table)) :: sectionsIn rest :=
      List.filter_cons_of_pos (isSection_tables hne)
    have hvalues : List.Forall₂ Value.Alike (inners.map .table)
        (inners.map fun inner => .table (valuesOf (Value.table inner).items)) := by
      rw [List.forall₂_map_left_iff, List.forall₂_map_right_iff, List.forall₂_same]
      exact fun inner hmem => (hinners inner hmem).alike_items (ihinners inner hmem)
    obtain ⟨first, more, rfl⟩ := List.exists_cons_of_ne_nil hne
    rw [hsections, sectionItems_tables, valuesOf, toValue_gather, tablesOf_map]
    exact .cons ⟨rfl, .array hvalues⟩ ih

/-- A tidy table is what its assignments and sections leave, but for the order of entries. -/
theorem Tidy.alike (h : Tidy n entries) :
    (Value.table entries).Alike (.table (valuesOf (Value.table entries).items)) :=
  h.alike_items h.same_sectionItems

/-! ## Building -/

/-- Adds the tables of sheets to a table. -/
def build (sheets : List Sheet) (base : Entries) : Option Entries :=
  sheets.foldlM (fun entries s => within s.toSection.addTo s.parents entries) base

theorem build_append (sheets more : List Sheet) (base : Entries) :
    build (sheets ++ more) base = build sheets base >>= build more :=
  List.foldlM_append

theorem lookup_eq_none {l : List (String × α)} (h : name ∉ l.map Prod.fst) : l.lookup name = none := by
  rw [List.lookup_eq_none_iff]
  intro e he
  have hne : name ≠ e.1 := fun heq => h (heq ▸ List.mem_map_of_mem he)
  simpa using hne

theorem lookup_append_self {item : Item} (h : base.lookup name = none) :
    (base ++ [(name, item)]).lookup name = some item := by
  rw [List.lookup_append, h]
  simp

theorem set_append_self {item item' : Item} (h : base.lookup name = none) :
    Entries.set name item' (base ++ [(name, item)]) = base ++ [(name, item')] := by
  induction base with
  | nil => simp [Entries.set]
  | cons e base ih =>
    obtain ⟨k, i⟩ := e
    by_cases hk : k = name
    · simp [hk] at h
    · have hne : (name == k) = false := by simpa using Ne.symm hk
      rw [List.lookup_cons, hne] at h
      rw [List.cons_append, Entries.set, if_neg hk, ih h, List.cons_append]

/-- An item that headers add entries to. -/
inductive Growing : (Entries → Item) → Prop where
  | table (origin : Origin) : Growing (.table origin)
  | tables (earlier : List Entries) : Growing (.tables earlier)

theorem within_last (hhole : Growing hole) (h : base.lookup name = none) (change : Entries → Option Entries)
    (path : List String) : within change (name :: path) (base ++ [(name, hole inside)]) =
      (within change path inside).map fun inside' => base ++ [(name, hole inside')] := by
  have hlookup : (base ++ [(name, hole inside)]).lookup name = some (hole inside) := lookup_append_self h
  cases hhole <;>
  · simp only [within, hlookup]
    cases within change path inside with
    | none => rfl
    | some inside' => exact congrArg some (set_append_self h)

/-- Sheets under a name change what stands there. -/
theorem build_under (hhole : Growing hole) (h : base.lookup name = none) (sheets : List Sheet)
    (inside : Entries) : build (sheets.map (.under [name])) (base ++ [(name, hole inside)]) =
      (build sheets inside).map fun inside' => base ++ [(name, hole inside')] := by
  induction sheets generalizing inside with
  | nil => rfl
  | cons s sheets ih =>
    have hfirst : within (s.under [name]).toSection.addTo (s.under [name]).parents
        (base ++ [(name, hole inside)]) =
        (within s.toSection.addTo s.parents inside).map fun inside' => base ++ [(name, hole inside')] :=
      within_last hhole h _ _
    rw [List.map_cons, build, List.foldlM_cons, hfirst, build, List.foldlM_cons]
    cases within s.toSection.addTo s.parents inside with
    | none => rfl
    | some inside' => exact ih inside'

/-- Sheets under a name that is still free imply a table there. -/
theorem build_under_new (h : base.lookup name = none) {sheets : List Sheet} (hne : sheets ≠ []) :
    build (sheets.map (.under [name])) base =
      (build sheets []).map fun inside => base ++ [(name, .table .implied inside)] := by
  obtain ⟨s, sheets, rfl⟩ := List.exists_cons_of_ne_nil hne
  have hfirst : within (s.under [name]).toSection.addTo (s.under [name]).parents base =
      (within s.toSection.addTo s.parents []).map fun inside => base ++ [(name, .table .implied inside)] := by
    show within s.toSection.addTo (name :: s.parents) base = _
    simp only [within, h]
    cases within s.toSection.addTo s.parents [] <;> rfl
  rw [List.map_cons, build, List.foldlM_cons, hfirst, build, List.foldlM_cons]
  cases within s.toSection.addTo s.parents [] with
  | none => rfl
  | some inside => exact build_under (.table .implied) h sheets inside

/-- Assignments to distinct names all take place. -/
theorem inlineEntries_terms (done : Entries) (body : List (String × Value))
    (hdistinct : (done.map Prod.fst ++ body.map Prod.fst).Nodup) (hleaf : ∀ e ∈ body, Leaf e.2) :
    inlineEntries done (Sheet.terms body) = some (done ++ body.map fun e => (e.1, .value e.2)) := by
  induction body generalizing done with
  | nil => simp [Sheet.terms, inlineEntries]
  | cons e body ih =>
    rw [List.forall_mem_cons] at hleaf
    have hnew : e.1 ∉ done.map Prod.fst := fun hmem =>
      (List.nodup_append.1 hdistinct).2.2 _ hmem _ List.mem_cons_self rfl
    have hassign : assign e.2 e.1 [] done = some (done ++ [(e.1, .value e.2)]) := by
      rw [assign, lookup_eq_none hnew]
    have hrest := ih (done ++ [(e.1, .value e.2)]) (by simpa using hdistinct) hleaf.2
    rw [Sheet.terms, List.map_cons, inlineEntries, hleaf.1.value?]
    show (assign e.2 e.1 [] done).bind (fun entries => inlineEntries entries (Sheet.terms body)) = _
    rw [hassign, Option.bind_some, hrest, List.append_assoc]
    rfl

theorem Tidy.inlineEntries_leaves (h : Tidy n entries) :
    inlineEntries [] (Sheet.terms (leavesOf entries)) = some (leafItems entries) := by
  have hdistinct : ((leavesOf entries).map Prod.fst).Nodup := h.distinct.sublist (List.filter_sublist.map _)
  exact inlineEntries_terms [] (leavesOf entries) (by simpa using hdistinct) h.leaf_of_mem

/-- The names of the sections are free among the assignments. -/
theorem Tidy.lookup_leafItems (h : Tidy n entries) :
    ∀ e ∈ entries, e.2.isSection = true → (leafItems entries).lookup e.1 = none := by
  intro e he hsection
  refine lookup_eq_none fun hmem => ?_
  simp only [leafItems, List.map_map, List.mem_map] at hmem
  obtain ⟨e', he', heq⟩ := hmem
  obtain ⟨hmem, hleaf⟩ := List.mem_filter.1 he'
  obtain rfl := List.inj_on_of_nodup_map h.distinct hmem he heq
  rw [hsection] at hleaf
  cases hleaf

/-- The sheets of a table with a header fill what the first of them opens. -/
theorem build_sheets (hhole : Growing hole) (h : base.lookup name = none) {inArray : Bool} {before : Entries}
    (hheaded : inArray = true ∨ omitsHeader inner = false)
    (hadd : (Section.mk inArray ⟨[], name⟩ (Sheet.terms (leavesOf inner))).addTo before =
      some (base ++ [(name, hole (leafItems inner))]))
    (hinner : build (sheetsOf inner) (leafItems inner) = some (leafItems inner ++ sectionItems inner)) :
    build (Value.sheets inArray name (.table inner)) before =
      some (base ++ [(name, hole (Value.table inner).items)]) := by
  have hunder := build_under hhole h (sheetsOf inner) (leafItems inner)
  rw [hinner] at hunder
  rw [sheets_headed hheaded, build, List.foldlM_cons]
  show (Section.addTo (Section.mk inArray ⟨[], name⟩ (Sheet.terms (leavesOf inner))) before).bind (build _) = _
  rw [hadd]
  exact hunder

/-- The sheets of a table under a name that is still free make the table, be it by its header or not. -/
theorem Tidy.build_sheets_table (h : Tidy n inner) (hname : base.lookup name = none)
    (hbuilt : build (sheetsOf inner) (leafItems inner) = some (leafItems inner ++ sectionItems inner)) :
    build (Value.sheets false name (.table inner)) base =
      some (base ++ [(name, .table (originOf inner) (Value.table inner).items)]) := by
  cases homits : omitsHeader inner with
  | false =>
    have hadd : (Section.mk false ⟨[], name⟩ (Sheet.terms (leavesOf inner))).addTo base =
        some (base ++ [(name, .table .opened (leafItems inner))]) := by
      simp only [Section.addTo, hname, h.inlineEntries_leaves]
      rfl
    rw [build_sheets (.table .opened) hname (.inr homits) hadd hbuilt, originOf, homits]
    rfl
  | true =>
    have hleaves : leafItems inner = [] := by
      rw [leafItems, leavesOf_of_omitsHeader homits]
      rfl
    have hsheets : sheetsOf inner ≠ [] := h.sheetsOf_ne_nil (exists_section homits)
    rw [hleaves] at hbuilt
    rw [sheets_headless homits, build_under_new hname hsheets, hbuilt, originOf, if_pos homits, Value.items,
      hleaves]
    rfl

/-- The sheets of further tables of an array. -/
theorem build_sheetsIn (h : base.lookup name = none)
    (hbody : ∀ inner ∈ inners, inlineEntries [] (Sheet.terms (leavesOf inner)) = some (leafItems inner))
    (hinners : ∀ inner ∈ inners,
      build (sheetsOf inner) (leafItems inner) = some (leafItems inner ++ sectionItems inner))
    (earlier : List Entries) (last : Entries) :
    build (sheetsIn name (inners.map .table)) (base ++ [(name, .tables earlier last)]) =
      some (base ++ [(name, gather earlier last (inners.map fun inner => (Value.table inner).items))]) := by
  induction inners generalizing earlier last with
  | nil => rfl
  | cons inner inners ih =>
    rw [List.forall_mem_cons] at hbody hinners
    have hadd : (Section.mk true ⟨[], name⟩ (Sheet.terms (leavesOf inner))).addTo
        (base ++ [(name, .tables earlier last)]) =
          some (base ++ [(name, .tables (earlier ++ [last]) (leafItems inner))]) := by
      simp only [Section.addTo, lookup_append_self h, hbody.1]
      exact congrArg some (set_append_self h)
    rw [List.map_cons, sheetsIn, build_append, build_sheets (.tables (earlier ++ [last])) h (.inl rfl) hadd hinners.1]
    exact ih hbody.2 hinners.2 (earlier ++ [last]) _

/-- An entry more leaves the other names free. -/
theorem free_append (hnew : name ∉ rest.map Prod.fst) (item : Item)
    (hfree : ∀ e ∈ rest, e.2.isSection = true → base.lookup e.1 = none) :
    ∀ e ∈ rest, e.2.isSection = true → (base ++ [(name, item)]).lookup e.1 = none := by
  intro e he hsection
  have hne : e.1 ≠ name := fun heq => hnew (heq ▸ List.mem_map_of_mem he)
  rw [List.lookup_append, hfree e he hsection]
  simp [hne]

/-- The sheets of a tidy table add its sections to a table where their names are free. -/
theorem Tidy.build_sheetsOf (h : Tidy n entries) (base : Entries)
    (hfree : ∀ e ∈ entries, e.2.isSection = true → base.lookup e.1 = none) :
    build (sheetsOf entries) base = some (base ++ sectionItems entries) := by
  induction h generalizing base with
  | nil => exact congrArg some (List.append_nil base).symm
  | leaf _ hv _ ih =>
    rw [sheetsOf_leaf hv, sectionItems_leaf hv]
    exact ih base (List.forall_mem_cons.1 hfree).2
  | @table _ name inner rest hnew hinner _ ihinner ih =>
    rw [List.forall_mem_cons] at hfree
    have hname : base.lookup name = none := hfree.1 rfl
    have hbuilt := ihinner (leafItems inner) hinner.lookup_leafItems
    have hsheets : build (Value.sheets false name (.table inner)) base =
        some (base ++ [(name, .table (originOf inner) (Value.table inner).items)]) :=
      hinner.build_sheets_table hname hbuilt
    show build (Value.sheets false name (.table inner) ++ sheetsOf rest) base = _
    rw [build_append, hsheets]
    show build (sheetsOf rest) _ = _
    rw [ih _ (free_append hnew _ hfree.2), List.append_assoc]
    rfl
  | @tables _ name inners rest hnew hne hinners _ ihinners ih =>
    rw [List.forall_mem_cons] at hfree
    have hname : base.lookup name = none := hfree.1 (isSection_tables hne)
    have hbody : ∀ inner ∈ inners, inlineEntries [] (Sheet.terms (leavesOf inner)) = some (leafItems inner) :=
      fun inner hmem => (hinners inner hmem).inlineEntries_leaves
    have hbuilt : ∀ inner ∈ inners, build (sheetsOf inner) (leafItems inner) =
        some (leafItems inner ++ sectionItems inner) :=
      fun inner hmem => ihinners inner hmem (leafItems inner) (hinners inner hmem).lookup_leafItems
    -- the first table opens the array, the others go on with it
    obtain ⟨first, more, rfl⟩ := List.exists_cons_of_ne_nil hne
    rw [List.forall_mem_cons] at hbody hbuilt
    have hadd : (Section.mk true ⟨[], name⟩ (Sheet.terms (leavesOf first))).addTo base =
        some (base ++ [(name, .tables [] (leafItems first))]) := by
      simp only [Section.addTo, hname, hbody.1]
      rfl
    rw [sectionItems_tables]
    show build (Value.sheets true name (.table first) ++ sheetsIn name (more.map .table) ++ sheetsOf rest) base = _
    rw [build_append, build_append, build_sheets (.tables []) hname (.inl rfl) hadd hbuilt.1]
    show (build (sheetsIn name (more.map .table)) _).bind (build (sheetsOf rest)) = _
    rw [build_sheetsIn hname hbody.2 hbuilt.2, Option.bind_some, ih _ (free_append hnew _ hfree.2),
      List.append_assoc]
    rfl

end MetaPool.Toml
