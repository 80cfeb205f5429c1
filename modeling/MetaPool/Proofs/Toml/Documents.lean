import MetaPool.Proofs.Toml.Sheets

/-!
# Documents read as they were printed

A tidy document is printed as its assignments and the text of its sheets. The text reads as the statements of
the document, which describe it, but that its assignments come first, as they do in the text. A document whose
integers are signed words is tidy, and no other is printed.

    (Value.table entries).print? = some text ∧ Value.read? text = some v ∧
      (Value.table entries).Alike v                                 (Tidy.read?_print?)
    Codec.pretty.Faithful depth                                     (pretty_faithful)
-/

namespace MetaPool.Toml

variable {name : String} {v : Value} {n : Nat} {path : List String}
  {entries inner rest : List (String × Value)}
  {inners : List (List (String × Value))} {sheets : List Sheet} {cs cs' : List Char}
  {sts : List Statement}

/-! ## Printing -/

/-- What is printed is the given text. -/
def Prints (printed : Option String) (cs : List Char) : Prop := ∃ text, printed = some text ∧ text.toList = cs

theorem prints_append {printed printed' : Option String} (h : Prints printed cs) (h' : Prints printed' cs') :
    Prints (do return (← printed) ++ (← printed')) (cs ++ cs') := by
  obtain ⟨text, rfl, rfl⟩ := h
  obtain ⟨text', rfl, rfl⟩ := h'
  exact ⟨text ++ text', rfl, String.toList_append⟩

theorem prints_assignments (h : ∀ e ∈ leavesOf entries, Leaf e.2) :
    Prints (printAssignments entries) ((leavesOf entries).flatMap assignmentChars) := by
  have hlines := mapM_eq_some (l := leavesOf entries)
    (f := fun e : String × Value => do return printKey e.1 ++ " = " ++ (← e.2.inline?) ++ "\n")
    (g := fun e => printKey e.1 ++ " = " ++ e.2.inline ++ "\n") fun e he => by rw [(h e he).inline?]; rfl
  refine ⟨String.join ((leavesOf entries).map fun e => printKey e.1 ++ " = " ++ e.2.inline ++ "\n"), ?_, ?_⟩
  · unfold leavesOf at hlines
    rw [printAssignments, hlines]
    rfl
  · rw [String.toList_join, List.flatMap_map]
    rfl

theorem toList_printHeader {inArray : Bool} (h : inArray = true ∨ omitsHeader inner = false) :
    (printHeader inArray (path ++ [name]) inner).toList = headerChars inArray (path ++ [name]) := by
  cases inArray with
  | true => rfl
  | false =>
    have homits : omitsHeader inner = false := by simpa using h
    have hprinted : ¬((path ++ [name]).isEmpty || omitsHeader inner) = true := by simp [homits]
    rw [printHeader, if_neg Bool.false_ne_true, if_neg hprinted]
    rfl

def Sheet.chars (s : Sheet) : List Char :=
  headerChars s.inArray (s.parents ++ [s.name]) ++ s.body.flatMap assignmentChars

/-- The text of sheets that are read in the table at a path. -/
def textOf (path : List String) (sheets : List Sheet) : List Char :=
  sheets.flatMap fun s => (s.under path).chars

theorem textOf_append (path : List String) (sheets more : List Sheet) :
    textOf path (sheets ++ more) = textOf path sheets ++ textOf path more :=
  List.flatMap_append

theorem textOf_map_under (path : List String) (name : String) (sheets : List Sheet) :
    textOf path (sheets.map (.under [name])) = textOf (path ++ [name]) sheets := by
  simp [textOf, List.flatMap_map, Sheet.under_under]

theorem prints_table {inArray : Bool} (hleaf : ∀ e ∈ leavesOf inner, Leaf e.2)
    (hinner : Prints (printSections (path ++ [name]) inner) (textOf (path ++ [name]) (sheetsOf inner))) :
    Prints (printTable (path ++ [name]) inArray (.table inner))
      (textOf path (Value.sheets inArray name (.table inner))) := by
  obtain ⟨body, hbody, hbodyChars⟩ := prints_assignments hleaf
  obtain ⟨sections, hsections, hsectionsChars⟩ := hinner
  refine ⟨printHeader inArray (path ++ [name]) inner ++ body ++ sections, ?_, ?_⟩
  · rw [printTable, hbody, hsections]
    rfl
  by_cases hheaded : inArray = true ∨ omitsHeader inner = false
  · have hsheets : textOf path (Value.sheets inArray name (.table inner)) =
        (Sheet.under path ⟨inArray, [], name, leavesOf inner⟩).chars ++
          textOf (path ++ [name]) (sheetsOf inner) := by
      rw [sheets_headed hheaded, ← textOf_map_under]
      rfl
    rw [hsheets, ← hsectionsChars]
    simp [toList_printHeader hheaded, hbodyChars, Sheet.chars, Sheet.under]
  · -- without a header there are no assignments either
    obtain ⟨rfl, homits⟩ : inArray = false ∧ omitsHeader inner = true := by simpa using hheaded
    rw [leavesOf_of_omitsHeader homits] at hbodyChars
    have hheader : printHeader false (path ++ [name]) inner = "" := by simp [printHeader, homits]
    rw [sheets_headless homits, textOf_map_under, ← hsectionsChars, hheader]
    simp [hbodyChars]

theorem prints_tables (hleaf : ∀ inner ∈ inners, ∀ e ∈ leavesOf inner, Leaf e.2)
    (hinners : ∀ inner ∈ inners,
      Prints (printSections (path ++ [name]) inner) (textOf (path ++ [name]) (sheetsOf inner))) :
    Prints (printTables (path ++ [name]) (inners.map .table))
      (textOf path (sheetsIn name (inners.map .table))) := by
  induction inners with
  | nil => exact ⟨"", rfl, rfl⟩
  | cons inner inners ih =>
    rw [List.forall_mem_cons] at hleaf hinners
    rw [List.map_cons, sheetsIn, textOf_append]
    exact prints_append (prints_table hleaf.1 hinners.1) (ih hleaf.2 hinners.2)

/-- The sections of a tidy table are printed as its sheets. -/
theorem Tidy.prints_sections (h : Tidy n entries) (path : List String) :
    Prints (printSections path entries) (textOf path (sheetsOf entries)) := by
  induction h generalizing path with
  | nil => exact ⟨"", rfl, rfl⟩
  | @leaf _ name v rest _ hv _ ih =>
    have hempty : Prints (printSections path ((name, v) :: rest)) ([] ++ textOf path (sheetsOf rest)) := by
      cases hv <;> exact prints_append ⟨"", rfl, rfl⟩ (ih path)
    rw [sheetsOf_leaf hv]
    exact hempty
  | @table _ name inner rest _ hinner _ ihinner ih =>
    show Prints _ (textOf path (Value.sheets false name (.table inner) ++ sheetsOf rest))
    rw [textOf_append]
    exact prints_append (prints_table hinner.leaf_of_mem (ihinner _)) (ih path)
  | @tables _ name inners rest _ hne hinners _ ihinners ih =>
    have hsome : (tablesIn? (inners.map .table)).isSome = true := isSection_tables hne
    have hfirst : Prints (printTables (path ++ [name]) (inners.map .table)) _ :=
      prints_tables (fun inner hmem => (hinners inner hmem).leaf_of_mem)
        fun inner hmem => ihinners inner hmem (path ++ [name])
    show Prints _ (textOf path (sheetsIn name (inners.map .table) ++ sheetsOf rest))
    rw [textOf_append, printSections]
    simp only [if_pos hsome]
    exact prints_append hfirst (ih path)

/-! ## Reading -/

/-- The statements of a sheet. -/
def Sheet.statements (s : Sheet) : List Statement :=
  .header s.inArray ⟨s.parents, s.name⟩ :: (terms s.body).map fun e => .assign e.1 e.2

/-- The statements of a document. -/
def statementsOf (entries : List (String × Value)) : List Statement :=
  (Sheet.terms (leavesOf entries)).map (fun e => .assign e.1 e.2) ++ (sheetsOf entries).flatMap Sheet.statements

/-- A sheet that can be read, of a header of at most `n` keys. -/
structure Sheet.Readable (n : Nat) (s : Sheet) : Prop where
  short : s.parents.length < n
  body : ∀ e ∈ s.body, Leaf e.2

theorem Sheet.Readable.under {s : Sheet} (h : s.Readable n) (name : String) :
    (s.under [name]).Readable (n + 1) where
  short := by simpa [Sheet.under] using h.short
  body := h.body

theorem readable_sheets (name : String) (inArray : Bool) (hinner : Tidy n inner)
    (h : ∀ s ∈ sheetsOf inner, s.Readable n) :
    ∀ s ∈ Value.sheets inArray name (.table inner), s.Readable (n + 1) := by
  have hunder : ∀ s ∈ (sheetsOf inner).map (Sheet.under [name]), s.Readable (n + 1) :=
    List.forall_mem_map.2 fun s hs => (h s hs).under name
  rw [Value.sheets, List.forall_mem_append]
  refine ⟨fun s hs => ?_, hunder⟩
  split at hs
  · cases hs
  · obtain rfl := List.mem_singleton.1 hs
    exact ⟨Nat.succ_pos n, hinner.leaf_of_mem⟩

theorem readable_sheetsIn (name : String) (hinners : ∀ inner ∈ inners, Tidy n inner)
    (h : ∀ inner ∈ inners, ∀ s ∈ sheetsOf inner, s.Readable n) :
    ∀ s ∈ sheetsIn name (inners.map .table), s.Readable (n + 1) := by
  induction inners with
  | nil => exact nofun
  | cons inner inners ih =>
    rw [List.forall_mem_cons] at hinners h
    rw [List.map_cons, sheetsIn, List.forall_mem_append]
    exact ⟨readable_sheets name true hinners.1 h.1, ih hinners.2 h.2⟩

theorem Tidy.readable (h : Tidy n entries) : ∀ s ∈ sheetsOf entries, s.Readable n := by
  induction h with
  | nil => exact nofun
  | leaf _ hv _ ih =>
    rw [sheetsOf_leaf hv]
    exact ih
  | @table _ name inner rest _ hinner _ ihinner ih =>
    show ∀ s ∈ Value.sheets false name (.table inner) ++ sheetsOf rest, s.Readable _
    rw [List.forall_mem_append]
    exact ⟨readable_sheets name false hinner ihinner, ih⟩
  | @tables n name inners rest _ _ hinners _ ihinners ih =>
    show ∀ s ∈ sheetsIn name (inners.map .table) ++ sheetsOf rest, s.Readable _
    rw [List.forall_mem_append]
    exact ⟨readable_sheetsIn name hinners ihinners, ih⟩

theorem reads_assignments {body : List (String × Value)} (hbody : ∀ e ∈ body, Leaf e.2)
    (h : Reads cs sts) : Reads (body.flatMap assignmentChars ++ cs)
      ((Sheet.terms body).map (fun e => .assign e.1 e.2) ++ sts) := by
  induction body with
  | nil => exact h
  | cons e body ih =>
    rw [List.forall_mem_cons] at hbody
    rw [List.flatMap_cons, List.append_assoc]
    exact Reads.assign e.1 hbody.1 (ih hbody.2)

theorem reads_sheets (hn : n < depthLimit) (h : ∀ s ∈ sheets, s.Readable n) :
    Reads (textOf [] sheets) (sheets.flatMap Sheet.statements) := by
  induction sheets with
  | nil => exact reads_nil
  | cons s sheets ih =>
    rw [List.forall_mem_cons] at h
    have hshort : s.parents.length < depthLimit - 1 := Nat.lt_of_lt_of_le h.1.short (by omega)
    have hread := Reads.header s.inArray s.name hshort (reads_assignments h.1.body (ih h.2))
    simpa [textOf, Sheet.chars, Sheet.under, Sheet.statements] using hread

theorem sectionsOf_assignments (body : List (KeyPath × Term)) (more : List Statement) :
    sectionsOf (body.map (fun e => .assign e.1 e.2) ++ more) =
      (body ++ (sectionsOf more).1, (sectionsOf more).2) := by
  induction body with
  | nil => rfl
  | cons e body ih => rw [List.map_cons, List.cons_append, sectionsOf, ih, List.cons_append]

theorem sectionsOf_sheets (sheets : List Sheet) :
    sectionsOf (sheets.flatMap Sheet.statements) = ([], sheets.map Sheet.toSection) := by
  induction sheets with
  | nil => rfl
  | cons s sheets ih =>
    have hbody := sectionsOf_assignments (Sheet.terms s.body) (sheets.flatMap Sheet.statements)
    rw [List.flatMap_cons, Sheet.statements, List.cons_append, sectionsOf, hbody, ih]
    simp [Sheet.toSection]

/-- The statements of a tidy document leave its assignments and its sections. -/
theorem Tidy.document?_statementsOf (h : Tidy n entries) :
    document? (statementsOf entries) = some (.table (valuesOf (Value.table entries).items)) := by
  have hbuild := h.build_sheetsOf (leafItems entries) h.lookup_leafItems
  unfold document? statementsOf
  rw [sectionsOf_assignments, sectionsOf_sheets]
  simp only [List.append_nil, h.inlineEntries_leaves, List.foldlM_map]
  show (build (sheetsOf entries) (leafItems entries)).bind
    (fun items => some (Value.table (valuesOf items))) = _
  rw [hbuild, Option.bind_some, Value.items]

theorem read?_of_reads {text : String} (h : Reads text.toList sts) : Value.read? text = document? sts := by
  have hread : statements? text = some sts := by
    unfold statements?
    split
    next rest heq => exact absurd heq (h.ne_mark rest)
    next => exact h _ (Nat.lt_succ_self _)
  rw [Value.read?, hread]
  rfl

/-- A tidy document has a text, which reads as the document. -/
theorem Tidy.read?_print? (h : Tidy n entries) (hn : n < depthLimit) : ∃ text v,
    (Value.table entries).print? = some text ∧ Value.read? text = some v ∧
      (Value.table entries).Alike v := by
  obtain ⟨body, hbody, hbodyChars⟩ := prints_assignments h.leaf_of_mem
  obtain ⟨sections, hsections, hsectionsChars⟩ := h.prints_sections []
  have hreads : Reads (body ++ sections).toList (statementsOf entries) := by
    rw [String.toList_append, hbodyChars, hsectionsChars]
    exact reads_assignments h.leaf_of_mem (reads_sheets hn h.readable)
  have hprint : printTable [] false (.table entries) = some (body ++ sections) := by
    rw [printTable, hbody, hsections]
    simp [printHeader]
  generalize body ++ sections = text at hreads hprint
  have htext : (Value.table entries).print? =
      some (if text.startsWith "\n" then (text.drop 1).toString else text) := by
    rw [Value.print?, hprint]
    rfl
  refine ⟨_, _, htext, ?_, h.alike⟩
  rw [← h.document?_statementsOf]
  refine read?_of_reads ?_
  split
  next hline =>
    obtain ⟨behind, hbehind⟩ := String.startsWith_string_iff.1 hline
    have hchars : text.toList = '\n' :: behind := hbehind.symm
    have hdrop : (text.drop 1).toString.toList = behind := by
      show (text.drop 1).copy.toList = behind
      rw [String.toList_copy_drop, hchars]
      rfl
    rw [hchars] at hreads
    rw [hdrop]
    exact hreads.of_newline
  next => exact hreads

/-! ## The codec is faithful -/

/-- A document whose integers are signed words is tidy. -/
theorem Document.tidy (h : Document n entries) (hsigned : (Value.table entries).Signed) : Tidy n entries := by
  induction h with
  | nil => exact .nil _
  | scalar hnew hv _ ih =>
    rw [signed_table_cons] at hsigned
    refine .leaf hnew ?_ (ih hsigned.2)
    cases hv with
    | string s => exact .string s
    | integer i =>
      have hrange := signed_integer.1 hsigned.1
      exact .integer i hrange.1 hrange.2
  | table hnew _ _ ihinner ih =>
    rw [signed_table_cons] at hsigned
    exact .table hnew (ihinner hsigned.1) (ih hsigned.2)
  | @tables _ _ inners _ hnew _ _ ihinners ih =>
    rw [signed_table_cons, signed_tables] at hsigned
    by_cases hne : inners = []
    · subst hne
      exact .leaf hnew .noElements (ih hsigned.2)
    · exact .tables hnew hne (fun inner hmem => ihinners inner hmem (hsigned.1 inner hmem)) (ih hsigned.2)

theorem printAssignments_section (h : v.isSection = true) :
    printAssignments ((name, v) :: rest) = printAssignments rest := by
  have hfilter : ((name, v) :: rest).filter (fun e => !e.2.isSection) = rest.filter fun e => !e.2.isSection :=
    List.filter_cons_of_neg (by simp [h])
  rw [printAssignments, printAssignments, hfilter]

/-- Assignments are printed only if the value of each is. -/
theorem printAssignments_leaf (h : v.isSection = false)
    (hbody : ∃ body, printAssignments ((name, v) :: rest) = some body) :
    (∃ text, v.inline? = some text) ∧ ∃ body, printAssignments rest = some body := by
  have hfilter : ((name, v) :: rest).filter (fun e => !e.2.isSection) =
      (name, v) :: rest.filter fun e => !e.2.isSection := List.filter_cons_of_pos (by simp [h])
  obtain ⟨body, hbody⟩ := hbody
  simp only [printAssignments, hfilter, List.mapM_cons, Option.bind_eq_bind, Option.bind_eq_some_iff,
    Option.pure_def] at hbody
  obtain ⟨_, ⟨_, ⟨text, htext, -⟩, lines, hlines, -⟩, -⟩ := hbody
  refine ⟨⟨text, htext⟩, String.join lines, ?_⟩
  simp only [printAssignments, Option.bind_eq_bind, Option.bind_eq_some_iff, Option.pure_def]
  exact ⟨lines, hlines, rfl⟩

/-- A table is printed only if its assignments and its sections are. -/
theorem printTable_eq_some {inArray : Bool} {text : String}
    (h : printTable path inArray (.table entries) = some text) :
    (∃ body, printAssignments entries = some body) ∧ ∃ sections, printSections path entries = some sections := by
  simp only [printTable, Option.bind_eq_bind, Option.bind_eq_some_iff] at h
  obtain ⟨body, hbody, sections, hsections, -⟩ := h
  exact ⟨⟨body, hbody⟩, sections, hsections⟩

theorem printTables_eq_some {text : String} (h : printTables path (inners.map .table) = some text) :
    ∀ inner ∈ inners, ∃ text, printTable path true (.table inner) = some text := by
  induction inners generalizing text with
  | nil => exact nofun
  | cons inner inners ih =>
    simp only [List.map_cons, printTables, Option.bind_eq_bind, Option.bind_eq_some_iff] at h
    obtain ⟨first, hfirst, more, hmore, -⟩ := h
    exact List.forall_mem_cons.2 ⟨⟨first, hfirst⟩, ih hmore⟩

/-- No document is printed that has an integer which is no signed word. -/
theorem Document.signed_of_print (h : Document n entries) (path : List String)
    (hbody : ∃ body, printAssignments entries = some body)
    (hsections : ∃ sections, printSections path entries = some sections) :
    (Value.table entries).Signed := by
  induction h generalizing path with
  | nil => simp [Value.Signed, Value.integers, integersIn]
  | @scalar _ name v rest _ hv _ ih =>
    rw [signed_table_cons]
    have hleaf : v.isSection = false := by cases hv <;> rfl
    obtain ⟨⟨text, htext⟩, hrest⟩ := printAssignments_leaf hleaf hbody
    have hmore : ∃ more, printSections path rest = some more := by
      obtain ⟨sections, hsections⟩ := hsections
      cases hv <;>
      · simp only [printSections, Option.bind_eq_bind, Option.bind_eq_some_iff] at hsections
        obtain ⟨-, -, more, hmore, -⟩ := hsections
        exact ⟨more, hmore⟩
    refine ⟨?_, ih path hrest hmore⟩
    cases hv with
    | string s => simp [Value.Signed, Value.integers]
    | integer i =>
      refine signed_integer.2 (Decidable.of_not_not fun hout => ?_)
      rw [Value.inline?, if_neg hout] at htext
      cases htext
  | @table _ name inner rest _ _ _ ihinner ih =>
    rw [signed_table_cons]
    rw [printAssignments_section rfl] at hbody
    obtain ⟨sections, hsections⟩ := hsections
    simp only [printSections, Option.bind_eq_bind, Option.bind_eq_some_iff] at hsections
    obtain ⟨first, hfirst, more, hmore, -⟩ := hsections
    obtain ⟨hinnerBody, hinnerSections⟩ := printTable_eq_some hfirst
    exact ⟨ihinner _ hinnerBody hinnerSections, ih path hbody ⟨more, hmore⟩⟩
  | @tables _ name inners rest _ _ _ ihinners ih =>
    rw [signed_table_cons, signed_tables]
    obtain ⟨sections, hsections⟩ := hsections
    by_cases hne : inners = []
    · subst hne
      have hnone : ¬(tablesIn? ([].map Value.table)).isSome = true := Bool.false_ne_true
      obtain ⟨-, hrest⟩ := printAssignments_leaf rfl hbody
      simp only [printSections, if_neg hnone, Option.bind_eq_bind, Option.bind_eq_some_iff] at hsections
      obtain ⟨-, -, more, hmore, -⟩ := hsections
      exact ⟨List.forall_mem_nil _, ih path hrest ⟨more, hmore⟩⟩
    · have htables : (tablesIn? (inners.map .table)).isSome = true := isSection_tables hne
      rw [printAssignments_section (isSection_tables hne)] at hbody
      simp only [printSections, if_pos htables, Option.bind_eq_bind, Option.bind_eq_some_iff] at hsections
      obtain ⟨first, hfirst, more, hmore, -⟩ := hsections
      refine ⟨fun inner hmem => ?_, ih path hbody ⟨more, hmore⟩⟩
      obtain ⟨text, htext⟩ := printTables_eq_some hfirst inner hmem
      obtain ⟨hinnerBody, hinnerSections⟩ := printTable_eq_some htext
      exact ihinners inner hmem _ hinnerBody hinnerSections

theorem Document.signed_of_print? {text : String} (h : Document n entries)
    (hprint : (Value.table entries).print? = some text) : (Value.table entries).Signed := by
  obtain ⟨printed, hprinted, -⟩ := Option.bind_eq_some_iff.1 hprint
  obtain ⟨hbody, hsections⟩ := printTable_eq_some hprinted
  exact h.signed_of_print [] hbody hsections

/-- What this library prints it reads back, as long as no header gets too long to be read. -/
theorem pretty_faithful (hn : n < depthLimit) : Codec.pretty.Faithful n where
  isSome_print? entries h := by
    constructor
    · intro hprinted
      obtain ⟨text, hprint⟩ := Option.isSome_iff_exists.1 hprinted
      exact h.signed_of_print? hprint
    · intro hsigned
      obtain ⟨text, -, hprint, -, -⟩ := (h.tidy hsigned).read?_print? hn
      exact Option.isSome_iff_exists.2 ⟨text, hprint⟩
  read?_print? entries text h hprint := by
    obtain ⟨text', v, hprint', hread, halike⟩ := (h.tidy (h.signed_of_print? hprint)).read?_print? hn
    obtain rfl : text = text' := Option.some.inj (hprint.symm.trans hprint')
    exact ⟨v, hread, halike⟩

end MetaPool.Toml
