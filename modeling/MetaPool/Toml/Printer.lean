import MetaPool.Toml.Quote
import MetaPool.Toml.Statement

/-!
# Printing TOML

A table is printed as its assignments and then its tables, each behind a header of its own, all in
order. An array of tables is printed as a header and a table for each. A blank line stands before
each header but the first line of a document. A table that holds nothing but tables needs no header.
A key that needs quotes has double ones, and stands in one line whatever it holds. Only integers
that are signed words are printed.
-/

namespace MetaPool.Toml

/-- A key as it is written. -/
def printKey (name : String) : String :=
  if !name.isEmpty && name.all isBareKeyChar then name
  else String.ofList (Quoting.basic.write name.toList)

def printPath (path : List String) : String := String.intercalate "." (path.map printKey)

/-! ## Values in an assignment -/

/-- Elements as they stand between brackets: one in the line, several in a line each. -/
def joinElements : List String → String
  | [] => ""
  | [element] => element
  | elements => String.join (elements.map fun element => "\n    " ++ element ++ ",") ++ "\n"

mutual

/-- A value as it stands in an assignment. Only what has a text of its own can be printed. -/
def Value.inline? : Value → Option String
  | .string s => some (quote s)
  | .integer i => if minSignedWord ≤ i ∧ i ≤ maxSignedWord then some (toString i) else none
  | .boolean b => some (if b then "true" else "false")
  | .float | .dateTime => none
  | .array elements => do return "[" ++ joinElements (← inlineElements elements) ++ "]"
  | .table entries => do
    match ← inlineFields entries with
    | [] => return "\x7b\x7d"
    | fields => return "\x7b " ++ String.intercalate ", " fields ++ " \x7d"

def inlineElements : List Value → Option (List String)
  | [] => some []
  | v :: rest => do return (← v.inline?) :: (← inlineElements rest)

def inlineFields : List (String × Value) → Option (List String)
  | [] => some []
  | (name, v) :: rest => do
    return (printKey name ++ " = " ++ (← v.inline?)) :: (← inlineFields rest)

end

/-! ## Tables -/

/-- The tables of an array that holds at least one and nothing else. -/
def tablesIn? : List Value → Option (List (List (String × Value)))
  | [] => none
  | values => values.mapM fun v => match v with
    | .table entries => some entries
    | _ => none

/-- Whether a value is printed behind a header. -/
def Value.isSection : Value → Bool
  | .table _ => true
  | .array elements => (tablesIn? elements).isSome
  | _ => false

/-- The assignments among the entries of a table. -/
def printAssignments (entries : List (String × Value)) : Option String := do
  let lines ← (entries.filter fun e => !e.2.isSection).mapM fun e => do
    return printKey e.1 ++ " = " ++ (← e.2.inline?) ++ "\n"
  return String.join lines

/-- Whether the tables in a table tell all that its header would. -/
def omitsHeader (entries : List (String × Value)) : Bool :=
  !entries.isEmpty && entries.all (·.2.isSection)

/-- The header of a table, if it has to have one. -/
def printHeader (inArray : Bool) (path : List String) (entries : List (String × Value)) : String :=
  if inArray then "\n[[" ++ printPath path ++ "]]\n"
  else if path.isEmpty || omitsHeader entries then ""
  else "\n[" ++ printPath path ++ "]\n"

mutual

/-- What stands behind the header of a table at a path: its assignments and its sections. -/
def printTable (path : List String) (inArray : Bool) : Value → Option String
  | .table entries => do
    return printHeader inArray path entries ++ (← printAssignments entries)
      ++ (← printSections path entries)
  | _ => none

/-- The sections among the entries of a table. -/
def printSections (path : List String) : List (String × Value) → Option String
  | [] => some ""
  | (name, v) :: rest => do
    let first ← match v with
      | .table entries => printTable (path ++ [name]) false (.table entries)
      | .array elements =>
        if (tablesIn? elements).isSome then printTables (path ++ [name]) elements else some ""
      | _ => some ""
    return first ++ (← printSections path rest)

/-- The tables of an array. -/
def printTables (path : List String) : List Value → Option String
  | [] => some ""
  | v :: rest => do return (← printTable path true v) ++ (← printTables path rest)

end

/-- The text of a table. -/
def Value.print? (v : Value) : Option String := do
  let text ← printTable [] false v
  return if text.startsWith "\n" then (text.drop 1).toString else text

end MetaPool.Toml
