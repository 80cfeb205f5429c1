import MetaPool.Proofs.Toml.Integers
import MetaPool.Proofs.Toml.Strings
import MetaPool.Toml.Document
import MetaPool.Toml.Printer

/-!
# Lines read as they were written

The lines of a printed document are the assignments of values (`Leaf`) to keys and the headers of dotted keys. A
key stands as it is or in double quotes. A line reads as the statement that it was written for, whatever comes
behind it, and with any fuel beyond the length of the text (`Reads`).

    Reads rest sts →
      Reads (assignmentChars (name, v) ++ rest) (.assign ⟨[], name⟩ v.term :: sts)       (Reads.assign)
      Reads (headerChars inArray path ++ rest) (.header inArray ⟨parents, name⟩ :: sts)   (Reads.header)
-/

namespace MetaPool.Toml

variable {c d close : Char} {cs token more rest : List Char} {name : String} {v : Value} {i : Int}
  {fuel depth : Nat} {path parents : List String} {statements : List Statement}

/-! ## Values in a line -/

/-- A value that is written in a line, without further values in it. -/
inductive Leaf : Value → Prop where
  | string (s : String) : Leaf (.string s)
  | integer (i : Int) : minSignedWord ≤ i → i ≤ maxSignedWord → Leaf (.integer i)
  | boolean (b : Bool) : Leaf (.boolean b)
  | noElements : Leaf (.array [])

/-- A value as it stands in a line. -/
def Value.inline (v : Value) : String := v.inline?.getD ""

/-- The term that it is read as. -/
def Value.term : Value → Term
  | .array _ => .array []
  | v => .scalar v

theorem inline_integer (hlow : minSignedWord ≤ i) (hhigh : i ≤ maxSignedWord) :
    (Value.integer i).inline = toString i := by
  rw [Value.inline, Value.inline?, if_pos ⟨hlow, hhigh⟩, Option.getD_some]

theorem Leaf.inline? (h : Leaf v) : v.inline? = some v.inline := by
  cases h with
  | integer i hlow hhigh =>
    rw [inline_integer hlow hhigh, Value.inline?, if_pos ⟨hlow, hhigh⟩]
  | _ => rfl

theorem Leaf.value? (h : Leaf v) : v.term.value? = some v := by
  cases h <;> rfl

theorem isTokenChar_eq (c : Char) :
    isTokenChar c = (c.isAlphanum || decide (c ∈ ['_', '+', '-', '.', ':'])) := by
  rw [isTokenChar, String.contains_char_eq]
  rfl

theorem isTokenChar_toString (i : Int) : ∀ c ∈ (toString i).toList, isTokenChar c = true := by
  obtain ⟨c, cs, hcs, hc, hdigits⟩ := toString_eq_cons i
  have hdigit : ∀ d : Char, d.isDigit = true → isTokenChar d = true := fun d hd => by
    rw [isTokenChar_eq, Char.isAlphanum, hd, Bool.or_true, Bool.true_or]
  rw [hcs, List.forall_mem_cons]
  refine ⟨?_, fun d hd => hdigit d (hdigits d hd)⟩
  rcases hc with rfl | hc
  · rw [isTokenChar_eq]
    rfl
  · exact hdigit c hc

theorem readTerm_token (hne : token ≠ []) (h : ∀ c ∈ token, isTokenChar c = true)
    (hscalar : scalar? token = some v) :
    readTerm (fuel + 1) depth (token ++ '\n' :: more) = some (.scalar v, '\n' :: more) := by
  have hspan : (token ++ '\n' :: more).span isTokenChar = (token, '\n' :: more) :=
    span_append h (by simp [isTokenChar_eq])
  have hread : readToken (token ++ '\n' :: more) = some (token, '\n' :: more) := by
    unfold readToken
    rw [hspan]
    simp
  obtain ⟨c, cs, rfl⟩ := List.exists_cons_of_ne_nil hne
  have hother : ∀ d, isTokenChar d = false → c ≠ d := by
    rintro d hd rfl
    rw [h c List.mem_cons_self] at hd
    cases hd
  rw [readTerm.eq_def]
  simp only [List.cons_append] at hread ⊢
  split
  next heq => exact absurd (List.cons.inj heq).1 (hother '"' (by rw [isTokenChar_eq]; rfl))
  next heq => exact absurd (List.cons.inj heq).1 (hother '\'' (by rw [isTokenChar_eq]; rfl))
  next heq => exact absurd (List.cons.inj heq).1 (hother '[' (by rw [isTokenChar_eq]; rfl))
  next heq => exact absurd (List.cons.inj heq).1 (hother '\x7b' (by rw [isTokenChar_eq]; rfl))
  next => simp [hread, hscalar]

theorem quote_eq_cons (s : String) : ∃ cs, (quote s).toList = '"' :: cs ∨ (quote s).toList = '\'' :: cs := by
  rw [quote, String.toList_ofList]
  cases Quoting.for s.toList <;> simp [Quoting.write]

theorem unquoted_newline (more : List Char) : Unquoted ('\n' :: more) := by
  intro cs
  constructor <;> intro heq <;> cases heq

theorem readTerm_quote (s : String) :
    readTerm (fuel + 1) depth ((quote s).toList ++ '\n' :: more) =
      some (.scalar (.string s), '\n' :: more) := by
  have hread := readString_quote s (unquoted_newline more)
  obtain ⟨cs, hcs | hcs⟩ := quote_eq_cons s <;>
  · rw [hcs, List.cons_append] at hread ⊢
    simp [readTerm, hread]

/-- A value reads as it was written. -/
theorem Leaf.readTerm (h : Leaf v) (fuel : Nat) (more : List Char) :
    readTerm (fuel + 2) 0 (v.inline.toList ++ '\n' :: more) = some (v.term, '\n' :: more) := by
  cases h with
  | string s => exact readTerm_quote s
  | integer i hlow hhigh =>
    obtain ⟨c, cs, hcs, -⟩ := toString_eq_cons i
    have hne : (toString i).toList ≠ [] := hcs ▸ List.cons_ne_nil c cs
    rw [inline_integer hlow hhigh]
    exact readTerm_token hne (isTokenChar_toString i) (scalar?_toString hlow hhigh)
  | boolean b =>
    have hname : ∀ c ∈ (Value.boolean b).inline.toList, isTokenChar c = true := by
      simp only [isTokenChar_eq, ← List.all_eq_true]
      cases b <;> decide
    cases b <;> exact readTerm_token (by decide) hname rfl
  | noElements => rfl

theorem Leaf.inline_eq_cons (h : Leaf v) : ∃ c cs, v.inline.toList = c :: cs ∧ isBlank c = false := by
  cases h with
  | string s =>
    obtain ⟨cs, hcs | hcs⟩ := quote_eq_cons s
    · exact ⟨'"', cs, hcs, rfl⟩
    · exact ⟨'\'', cs, hcs, rfl⟩
  | integer i hlow hhigh =>
    obtain ⟨c, cs, hcs, -⟩ := toString_eq_cons i
    have htoken := isTokenChar_toString i c (hcs ▸ List.mem_cons_self)
    rw [inline_integer hlow hhigh]
    refine ⟨c, cs, hcs, ?_⟩
    simp only [isBlank, Bool.or_eq_false_iff, beq_eq_false_iff_ne]
    constructor <;> rintro rfl <;> rw [isTokenChar_eq] at htoken <;> cases htoken
  | boolean b => cases b <;> exact ⟨_, _, rfl, rfl⟩
  | noElements => exact ⟨'[', [']'], rfl, rfl⟩

/-! ## Keys -/

/-- What a key starts with, be it quoted or not. -/
def isKeyStart (c : Char) : Bool := isBareKeyChar c || c == '"'

theorem ne_of_isKeyStart (hc : isKeyStart c = true) (hd : isKeyStart d = false) : c ≠ d := by
  rintro rfl
  rw [hc] at hd
  cases hd

/-- A key stands as it is, if it has characters and all of them are its own, or else in double quotes. -/
theorem printKey_cases (name : String) :
    (name.toList ≠ [] ∧ (∀ c ∈ name.toList, isBareKeyChar c = true) ∧ printKey name = name) ∨
      (printKey name).toList = '"' :: (escapeText false 0 name.toList ++ ['"']) := by
  by_cases hbare : (!name.isEmpty && name.all isBareKeyChar) = true
  · have hprinted : printKey name = name := if_pos hbare
    simp only [Bool.and_eq_true, Bool.not_eq_true', Bool.eq_false_iff, ne_eq, String.isEmpty_iff,
      String.all_bool_eq, List.all_eq_true] at hbare
    exact .inl ⟨fun hnil => hbare.1 (String.toList_eq_nil_iff.1 hnil), hbare.2, hprinted⟩
  · have hprinted : printKey name = String.ofList (Quoting.basic.write name.toList) := if_neg hbare
    rw [hprinted, String.toList_ofList]
    exact .inr rfl

theorem printKey_eq_cons (name : String) :
    ∃ c cs, (printKey name).toList = c :: cs ∧ isKeyStart c = true := by
  rcases printKey_cases name with ⟨hne, hall, hprinted⟩ | hquoted
  · obtain ⟨c, cs, hcs⟩ := List.exists_cons_of_ne_nil hne
    have hc := hall c (hcs ▸ List.mem_cons_self)
    exact ⟨c, cs, by rw [hprinted, hcs], by rw [isKeyStart, hc, Bool.true_or]⟩
  · exact ⟨'"', _, hquoted, rfl⟩

theorem skipBlanks_cons (h : isBlank c = false) (cs : List Char) : skipBlanks (c :: cs) = c :: cs := by
  simp [skipBlanks, h]

theorem isBlank_of_isKeyStart (h : isKeyStart c = true) : isBlank c = false := by
  simp only [isBlank, Bool.or_eq_false_iff, beq_eq_false_iff_ne]
  exact ⟨ne_of_isKeyStart h rfl, ne_of_isKeyStart h rfl⟩

theorem readKey_bare (hne : name.toList ≠ []) (hall : ∀ c ∈ name.toList, isBareKeyChar c = true)
    (hrest : ∀ c ∈ rest.head?, isBareKeyChar c = false) :
    readKey (name.toList ++ rest) = some (name, rest) := by
  obtain ⟨c, cs, hcs⟩ := List.exists_cons_of_ne_nil hne
  have hc : ∀ d, isBareKeyChar d = false → c ≠ d := by
    rintro d hd rfl
    rw [hall c (hcs ▸ List.mem_cons_self)] at hd
    cases hd
  have hsome : Text.readSome isBareKeyChar (name.toList ++ rest) = some (name.toList, rest) := by
    unfold Text.readSome
    rw [span_append hall hrest, hcs]
  rw [readKey.eq_def]
  split
  next heq =>
    rw [hcs] at heq
    exact absurd (List.cons.inj heq).1 (hc _ rfl)
  next heq =>
    rw [hcs] at heq
    exact absurd (List.cons.inj heq).1 (hc _ rfl)
  next => simp [hsome]

/-- A key reads as it was written. -/
theorem readKey_printKey (name : String) (hrest : ∀ c ∈ rest.head?, isBareKeyChar c = false) :
    readKey ((printKey name).toList ++ rest) = some (name, rest) := by
  rcases printKey_cases name with ⟨hne, hall, hprinted⟩ | hquoted
  · rw [hprinted]
    exact readKey_bare hne hall hrest
  · have hread := readBasic_escapeText 0 name.toList rest
    rw [hquoted]
    simp [readKey, readLine, hread]

/-- The text of a dotted key. -/
def pathChars (path : List String) : List Char := (printPath path).toList

theorem pathChars_singleton (name : String) : pathChars [name] = (printKey name).toList := by
  simp [pathChars, printPath]

theorem pathChars_cons (name : String) (hne : path ≠ []) :
    pathChars (name :: path) = (printKey name).toList ++ '.' :: pathChars path := by
  obtain ⟨key, path, rfl⟩ := List.exists_cons_of_ne_nil hne
  simp [pathChars, printPath]

theorem pathChars_eq_cons (hne : path ≠ []) :
    ∃ c cs, pathChars path = c :: cs ∧ isKeyStart c = true := by
  obtain ⟨name, path, rfl⟩ := List.exists_cons_of_ne_nil hne
  obtain ⟨c, cs, hcs, hc⟩ := printKey_eq_cons name
  by_cases hlast : path = []
  · subst hlast
    exact ⟨c, cs, by rw [pathChars_singleton, hcs], hc⟩
  · exact ⟨c, _, by rw [pathChars_cons name hlast, hcs, List.cons_append], hc⟩

/-- A dotted key reads as it was written, with the blanks behind it. -/
theorem readKeys_pathChars (hne : path ≠ []) (hfuel : path.length ≤ fuel)
    (hrest : ∀ c ∈ rest.head?, isBareKeyChar c = false) (hclose : skipBlanks rest = close :: more)
    (hdot : close ≠ '.') : readKeys fuel (pathChars path ++ rest) = some (path, close :: more) := by
  induction path generalizing fuel with
  | nil => exact absurd rfl hne
  | cons name path ih =>
    rw [List.length_cons] at hfuel
    obtain ⟨fuel, rfl⟩ : ∃ f, fuel = f + 1 := ⟨fuel - 1, by omega⟩
    have hskip : ∀ behind, skipBlanks ((printKey name).toList ++ behind) =
        (printKey name).toList ++ behind := fun behind => by
      obtain ⟨c, cs, hcs, hc⟩ := printKey_eq_cons name
      rw [hcs]
      exact skipBlanks_cons (isBlank_of_isKeyStart hc) _
    by_cases hlast : path = []
    · subst hlast
      rw [pathChars_singleton, readKeys, hskip, readKey_printKey name hrest]
      simp [hclose, hdot]
    · have htail := ih hlast (Nat.le_of_succ_le_succ hfuel)
      have hkey : readKey ((printKey name).toList ++ '.' :: (pathChars path ++ rest)) =
          some (name, '.' :: (pathChars path ++ rest)) := readKey_printKey name (by simp [isBareKeyChar])
      rw [pathChars_cons name hlast, List.append_assoc, List.cons_append, readKeys, hskip, hkey]
      simp [skipBlanks_cons (show isBlank '.' = false from rfl), htail]

theorem readKeyPath_pathChars (name : String) (hlength : parents.length < depthLimit - 1)
    (hrest : ∀ c ∈ rest.head?, isBareKeyChar c = false) (hclose : skipBlanks rest = close :: more)
    (hdot : close ≠ '.') :
    readKeyPath (pathChars (parents ++ [name]) ++ rest) = some (⟨parents, name⟩, close :: more) := by
  have hfuel : (parents ++ [name]).length ≤ depthLimit - 1 := by
    rw [List.length_append]
    exact hlength
  have hkeys := readKeys_pathChars (by simp) hfuel hrest hclose hdot
  simp [readKeyPath, hkeys]

/-! ## Statements -/

/-- The line of an assignment. -/
def assignmentChars (e : String × Value) : List Char :=
  (printKey e.1 ++ " = " ++ e.2.inline ++ "\n").toList

/-- The lines of a header. -/
def headerChars (inArray : Bool) (path : List String) : List Char :=
  (if inArray then "\n[[" ++ printPath path ++ "]]\n" else "\n[" ++ printPath path ++ "]\n").toList

/-- A text is read as statements, with any fuel beyond its length. -/
def Reads (cs : List Char) (statements : List Statement) : Prop :=
  ∀ fuel, cs.length < fuel → readStatements fuel cs = some statements

theorem reads_nil : Reads [] [] := by
  intro fuel hfuel
  obtain ⟨fuel, rfl⟩ : ∃ f, fuel = f + 1 := ⟨fuel - 1, by omega⟩
  rfl

/-- A line that is not blank and no comment holds a statement. -/
theorem readStatements_cons (hblank : isBlank c = false) (hline : c ≠ '\n') (hreturn : c ≠ '\r')
    (hcomment : c ≠ '#') (fuel : Nat) (cs : List Char) : readStatements (fuel + 1) (c :: cs) = (do
      let (statement, rest) ← if c = '[' then readHeader (c :: cs) else readAssignment (c :: cs)
      let (_, rest) ← readLineEnd rest
      return statement :: (← readStatements fuel rest)) := by
  rw [readStatements.eq_def]
  simp only [skipBlanks_cons hblank]
  split
  next heq => cases heq
  next heq => exact absurd (List.cons.inj heq).1 hline
  next heq => exact absurd (List.cons.inj heq).1 hreturn
  next heq => exact absurd (List.cons.inj heq).1 hcomment
  next heq =>
    obtain ⟨rfl, rfl⟩ := List.cons.inj heq
    rfl

theorem readLineEnd_newline (rest : List Char) : readLineEnd ('\n' :: rest) = some ((), rest) := rfl

theorem readAssignment_assignmentChars (name : String) (hv : Leaf v) (rest : List Char) :
    readAssignment (assignmentChars (name, v) ++ rest) = some (.assign ⟨[], name⟩ v.term, '\n' :: rest) := by
  have hchars : assignmentChars (name, v) ++ rest =
      pathChars ([] ++ [name]) ++ ' ' :: '=' :: ' ' :: (v.inline.toList ++ '\n' :: rest) := by
    rw [List.nil_append, pathChars_singleton]
    simp [assignmentChars]
  have hkey : readKeyPath (pathChars ([] ++ [name]) ++ ' ' :: '=' :: ' ' :: (v.inline.toList ++ '\n' :: rest)) =
      some (⟨[], name⟩, '=' :: ' ' :: (v.inline.toList ++ '\n' :: rest)) :=
    readKeyPath_pathChars name (by decide) (by simp [isBareKeyChar]) rfl (by decide)
  have hskip : skipBlanks (' ' :: (v.inline.toList ++ '\n' :: rest)) = v.inline.toList ++ '\n' :: rest := by
    obtain ⟨c, cs, hcs, hc⟩ := hv.inline_eq_cons
    rw [hcs]
    exact skipBlanks_cons hc _
  rw [hchars, readAssignment, hkey]
  simp [Text.readExactly, hskip, hv.readTerm]

theorem Reads.assign (name : String) (hv : Leaf v) (h : Reads rest statements) :
    Reads (assignmentChars (name, v) ++ rest) (.assign ⟨[], name⟩ v.term :: statements) := by
  intro fuel hfuel
  obtain ⟨fuel, rfl⟩ : ∃ f, fuel = f + 1 := ⟨fuel - 1, by omega⟩
  have hread := readAssignment_assignmentChars name hv rest
  have hlength : rest.length < fuel := by
    simp [assignmentChars] at hfuel
    omega
  obtain ⟨c, cs, hcs, hc⟩ := printKey_eq_cons name
  obtain ⟨behind, hbehind⟩ : ∃ behind, assignmentChars (name, v) ++ rest = c :: behind := by
    simp [assignmentChars, hcs]
  rw [hbehind] at hread ⊢
  rw [readStatements_cons (isBlank_of_isKeyStart hc) (ne_of_isKeyStart hc rfl) (ne_of_isKeyStart hc rfl)
    (ne_of_isKeyStart hc rfl), if_neg (ne_of_isKeyStart hc rfl), hread]
  simp [readLineEnd_newline, h fuel hlength]

theorem Reads.header (inArray : Bool) (name : String) (hlength : parents.length < depthLimit - 1)
    (h : Reads rest statements) :
    Reads (headerChars inArray (parents ++ [name]) ++ rest)
      (.header inArray ⟨parents, name⟩ :: statements) := by
  intro fuel hfuel
  have hlong : rest.length + 2 < fuel := by
    cases inArray <;> simp [headerChars] at hfuel <;> omega
  obtain ⟨fuel, rfl⟩ : ∃ f, fuel = f + 2 := ⟨fuel - 2, by omega⟩
  have hkey : ∀ behind, readKeyPath (pathChars (parents ++ [name]) ++ ']' :: behind) =
      some (⟨parents, name⟩, ']' :: behind) := fun behind =>
    readKeyPath_pathChars name hlength (by simp [isBareKeyChar]) rfl (by decide)
  cases inArray with
  | true =>
    have hchars : headerChars true (parents ++ [name]) ++ rest =
        '\n' :: '[' :: '[' :: (pathChars (parents ++ [name]) ++ ']' :: ']' :: '\n' :: rest) := by
      simp [headerChars, pathChars]
    rw [hchars, readStatements.eq_def]
    show readStatements (fuel + 1)
      ('[' :: '[' :: (pathChars (parents ++ [name]) ++ ']' :: ']' :: '\n' :: rest)) = _
    rw [readStatements_cons rfl (by decide) (by decide) (by decide), if_pos rfl, readHeader, hkey]
    simp [Text.readExactly, readLineEnd_newline, h fuel (by omega)]
  | false =>
    have hchars : headerChars false (parents ++ [name]) ++ rest =
        '\n' :: '[' :: (pathChars (parents ++ [name]) ++ ']' :: '\n' :: rest) := by
      simp [headerChars, pathChars]
    have hhead : readHeader ('[' :: (pathChars (parents ++ [name]) ++ ']' :: '\n' :: rest)) =
        some (.header false ⟨parents, name⟩, '\n' :: rest) := by
      have hne : parents ++ [name] ≠ [] := by simp
      obtain ⟨c, cs, hcs, hc⟩ := pathChars_eq_cons hne
      rw [readHeader.eq_def]
      split
      next heq =>
        rw [hcs, List.cons_append] at heq
        exact absurd (List.cons.inj (List.cons.inj heq).2).1 (ne_of_isKeyStart hc rfl)
      next => simp [Text.readExactly, hkey]
    rw [hchars, readStatements.eq_def]
    show readStatements (fuel + 1) ('[' :: (pathChars (parents ++ [name]) ++ ']' :: '\n' :: rest)) = _
    rw [readStatements_cons rfl (by decide) (by decide) (by decide), if_pos rfl, hhead]
    simp [readLineEnd_newline, h fuel (by omega)]

/-- A text may do without a line break in front. -/
theorem Reads.of_newline (h : Reads ('\n' :: cs) statements) : Reads cs statements := fun fuel hfuel =>
  h (fuel + 1) (by rw [List.length_cons]; omega)

/-- No text that is read starts with a byte order mark. -/
theorem Reads.ne_mark (h : Reads cs statements) (rest : List Char) : cs ≠ '\uFEFF' :: rest := by
  rintro rfl
  have hkey : readKeyPath ('\uFEFF' :: rest) = none := by
    have hfirst : readKey ('\uFEFF' :: rest) = none := by
      simp [readKey, Text.readSome, List.span_eq_takeWhile_dropWhile, isBareKeyChar]
    rw [readKeyPath, show depthLimit - 1 = 78 + 1 from rfl, readKeys, skipBlanks_cons rfl, hfirst]
    rfl
  have hread := h _ (Nat.lt_succ_self _)
  rw [Nat.succ_eq_add_one, readStatements_cons rfl (by decide) (by decide) (by decide),
    if_neg (by decide), readAssignment, hkey] at hread
  cases hread

end MetaPool.Toml
