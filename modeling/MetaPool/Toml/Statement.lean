import MetaPool.Toml.Scalar
import MetaPool.Toml.Unquote

/-!
# TOML statements

A document is a list of statements: assignments, headers of tables and headers of tables in an
array. `statements?` reads them as they are written; what they say together is for `Toml.Document`
to find out. Arrays may run over lines and hold comments, inline tables may not.
-/

namespace MetaPool.Toml

open Text (Reader readSome)

/-- A dotted key: the keys of the tables that lead to an entry, and its own. -/
structure KeyPath where
  parents : List String
  name : String
deriving DecidableEq

/-- A value as it is written. -/
inductive Term where
  | scalar (value : Value)
  | array (elements : List Term)
  | inlineTable (entries : List (KeyPath × Term))

inductive Statement where
  | assign (key : KeyPath) (term : Term)
  /-- The header of a table, or of a further table in an array. -/
  | header (inArray : Bool) (key : KeyPath)

/-- The number of keys in a dotted key, and of arrays and inline tables around a value, that is too
large. -/
def depthLimit : Nat := 80

/-! ## Blanks and comments -/

def skipBlanks (cs : List Char) : List Char := cs.dropWhile isBlank

/-- Skips a comment, if there is one. -/
def skipComment : List Char → List Char
  | '#' :: rest => rest.dropWhile isPrintable
  | cs => cs

/-- Reads the blanks and the comment behind a statement and the end of its line. -/
def readLineEnd : Reader Unit := fun cs =>
  match skipComment (skipBlanks cs) with
  | [] => some ((), [])
  | '\n' :: rest => some ((), rest)
  | '\r' :: '\n' :: rest => some ((), rest)
  | _ => none

/-- Skips blanks, comments and line breaks. A comment may not end in a control. The flag tells
whether the text is inside a comment. -/
def skipLines : Bool → List Char → List Char
  | false, '#' :: rest => skipLines true rest
  | _, '\r' :: '\n' :: rest => skipLines false rest
  | inside, c :: rest =>
    if c = '\n' then skipLines false rest
    else if inside && isPrintable c || isBlank c then skipLines inside rest
    else c :: rest
  | _, [] => []

/-! ## Keys -/

def isBareKeyChar (c : Char) : Bool := c.isAlphanum || c == '_' || c == '-'

/-- Reads a key without dots. -/
def readKey : Reader String
  | '"' :: rest => readLine ('"' :: rest)
  | '\'' :: rest => readLine ('\'' :: rest)
  | cs => do
    let (key, rest) ← readSome isBareKeyChar cs
    return (String.ofList key, rest)

/-- Reads a dotted key and the blanks around it. The fuel bounds its length. -/
def readKeys : Nat → Reader (List String)
  | 0, _ => none
  | fuel + 1, cs => do
    let (key, rest) ← readKey (skipBlanks cs)
    match skipBlanks rest with
    | '.' :: rest =>
      let (keys, rest) ← readKeys fuel rest
      return (key :: keys, rest)
    | rest => return ([key], rest)

/-- Reads a dotted key of an accepted length. -/
def readKeyPath : Reader KeyPath := fun cs => do
  let (keys, rest) ← readKeys (depthLimit - 1) cs
  match keys.reverse with
  | name :: parents => some (⟨parents.reverse, name⟩, rest)
  | [] => none

/-! ## Values -/

def isTokenChar (c : Char) : Bool := c.isAlphanum || "_+-.:".contains c

/-- Reads the token of a scalar. A date takes the time behind a blank with it. -/
def readToken : Reader (List Char) := fun cs =>
  let (token, rest) := cs.span isTokenChar
  match rest with
  | ' ' :: d :: more =>
    if isDate token && d.isDigit then
      let (time, rest) := (d :: more).span isTokenChar
      some (token ++ ' ' :: time, rest)
    else some (token, rest)
  | rest => some (token, rest)

/-- Whether a value goes on behind a comma, or ends with its bracket. -/
def readSeparator (close : Char) : Reader Bool := fun cs =>
  match cs with
  | c :: rest =>
    if c = ',' then some (true, rest) else if c = close then some (false, rest) else none
  | [] => none

mutual

/-- Reads a value inside `depth` arrays and inline tables. The fuel bounds the steps. -/
def readTerm : Nat → Nat → Reader Term
  | 0, _, _ => none
  | fuel + 1, depth, cs =>
    match cs with
    | '"' :: _ | '\'' :: _ => do
      let (text, rest) ← readString cs
      return (.scalar (.string text), rest)
    | '[' :: rest =>
      if depth + 1 < depthLimit then do
        let (elements, rest) ← readElements fuel (depth + 1) rest
        return (.array elements, rest)
      else none
    | '\x7b' :: rest =>
      if depth + 1 < depthLimit then
        match skipBlanks rest with
        | '\x7d' :: rest => some (.inlineTable [], rest)
        | rest => do
          let (entries, rest) ← readEntries fuel (depth + 1) rest
          return (.inlineTable entries, rest)
      else none
    | cs => do
      let (token, rest) ← readToken cs
      return (.scalar (← scalar? token), rest)

/-- Reads the elements of an array up to its bracket. -/
def readElements : Nat → Nat → Reader (List Term)
  | 0, _, _ => none
  | fuel + 1, depth, cs =>
    match skipLines false cs with
    | ']' :: rest => some ([], rest)
    | cs => do
      let (element, rest) ← readTerm fuel depth cs
      let (more, rest) ← readSeparator ']' (skipLines false rest)
      if more then
        let (elements, rest) ← readElements fuel depth rest
        return (element :: elements, rest)
      else return ([element], rest)

/-- Reads the entries of an inline table, the first of which is next, up to its brace. -/
def readEntries : Nat → Nat → Reader (List (KeyPath × Term))
  | 0, _, _ => none
  | fuel + 1, depth, cs => do
    let (key, rest) ← readKeyPath cs
    let (_, rest) ← Text.readExactly ['='] rest
    let (term, rest) ← readTerm fuel depth (skipBlanks rest)
    let (more, rest) ← readSeparator '\x7d' (skipBlanks rest)
    if more then
      let (entries, rest) ← readEntries fuel depth rest
      return ((key, term) :: entries, rest)
    else return ([(key, term)], rest)

end

/-! ## Statements -/

/-- Reads a header. -/
def readHeader : Reader Statement
  | '[' :: '[' :: rest => do
    let (key, rest) ← readKeyPath rest
    let (_, rest) ← Text.readExactly [']', ']'] rest
    return (.header true key, rest)
  | cs => do
    let (_, rest) ← Text.readExactly ['['] cs
    let (key, rest) ← readKeyPath rest
    let (_, rest) ← Text.readExactly [']'] rest
    return (.header false key, rest)

/-- Reads an assignment. Two steps for each character are enough for its value. -/
def readAssignment : Reader Statement := fun cs => do
  let (key, rest) ← readKeyPath cs
  let (_, rest) ← Text.readExactly ['='] rest
  let (term, rest) ← readTerm (2 * rest.length + 2) 0 (skipBlanks rest)
  return (.assign key term, rest)

/-- Reads all statements of a text. The fuel bounds the number of lines. -/
def readStatements : Nat → List Char → Option (List Statement)
  | 0, _ => none
  | fuel + 1, cs =>
    match skipBlanks cs with
    | [] => some []
    | '\n' :: rest => readStatements fuel rest
    | '\r' :: '\n' :: rest => readStatements fuel rest
    | '#' :: rest => do
      let (_, rest) ← readLineEnd ('#' :: rest)
      readStatements fuel rest
    | c :: rest => do
      let cs := c :: rest
      let (statement, rest) ← if c = '[' then readHeader cs else readAssignment cs
      let (_, rest) ← readLineEnd rest
      return statement :: (← readStatements fuel rest)

/-- The statements of a text, behind a byte order mark if it starts with one. -/
def statements? (text : String) : Option (List Statement) :=
  let cs :=
    match text.toList with
    | '\uFEFF' :: rest => rest
    | cs => cs
  readStatements (cs.length + 1) cs

end MetaPool.Toml
