import MetaPool.Text.Digits
import MetaPool.Text.Reader

/-!
# Reading TOML strings

A string stands between double quotes, with escapes, or between single quotes, as it is. Tripled
quotes let it run over lines. A line break right behind the opening quotes is dropped; one behind a
backslash is dropped together with all blanks and line breaks that follow it. Closing tripled quotes
may have one or two of the string's own quotes before them.
-/

namespace MetaPool.Toml

open Text (Reader)

def isBlank (c : Char) : Bool := c == ' ' || c == '\t'

/-- Whether a character may stand in a string or a comment: all but controls, tabs apart. -/
def isPrintable (c : Char) : Bool := c == '\t' || (0x20 ≤ c.toNat && c.toNat != 0x7F)

/-! ## Escapes -/

/-- The character of a single-letter escape. -/
def escape? : Char → Option Char
  | 'b' => some '\x08'
  | 'f' => some '\x0c'
  | 'n' => some '\n'
  | 'r' => some '\r'
  | 't' => some '\t'
  | '\\' => some '\\'
  | '"' => some '"'
  | _ => none

/-- The character whose code point is written by hexadecimal digits. -/
def codePoint? (digits : List Char) : Option Char := do
  let code ← Text.ofDigits? 16 digits
  if code.isValidChar then some (Char.ofNat code) else none

/-! ## Single lines -/

/-- Reads the text up to a closing double quote. -/
def readBasic : Reader (List Char)
  | '"' :: rest => some ([], rest)
  | '\\' :: 'u' :: a :: b :: c :: d :: rest => do
    let char ← codePoint? [a, b, c, d]
    let (text, rest) ← readBasic rest
    return (char :: text, rest)
  | '\\' :: 'U' :: a :: b :: c :: d :: e :: f :: g :: h :: rest => do
    let char ← codePoint? [a, b, c, d, e, f, g, h]
    let (text, rest) ← readBasic rest
    return (char :: text, rest)
  | '\\' :: e :: rest => do
    let char ← escape? e
    let (text, rest) ← readBasic rest
    return (char :: text, rest)
  | c :: rest =>
    if isPrintable c then do
      let (text, rest) ← readBasic rest
      return (c :: text, rest)
    else none
  | [] => none

/-- Reads the text up to a closing single quote. -/
def readLiteral : Reader (List Char)
  | '\'' :: rest => some ([], rest)
  | c :: rest =>
    if isPrintable c then do
      let (text, rest) ← readLiteral rest
      return (c :: text, rest)
    else none
  | [] => none

/-! ## Several lines -/

/-- The text behind a line break that it starts with, or else the whole text. -/
def dropNewline : List Char → List Char
  | '\n' :: rest => rest
  | '\r' :: '\n' :: rest => rest
  | cs => cs

/-- Reads the text up to closing tripled single quotes. -/
def readLiteralLines : Reader (List Char)
  | '\'' :: '\'' :: '\'' :: '\'' :: '\'' :: rest => some (['\'', '\''], rest)
  | '\'' :: '\'' :: '\'' :: '\'' :: rest => some (['\''], rest)
  | '\'' :: '\'' :: '\'' :: rest => some ([], rest)
  | '\r' :: '\n' :: rest => do
    let (text, rest) ← readLiteralLines rest
    return ('\n' :: text, rest)
  | c :: rest =>
    if isPrintable c || c == '\n' then do
      let (text, rest) ← readLiteralLines rest
      return (c :: text, rest)
    else none
  | [] => none

/-- A piece of a string that runs over lines. -/
inductive Piece where
  /-- A character as it stands. -/
  | plain (c : Char)
  /-- A character that was escaped. -/
  | escaped (c : Char)
  /-- A backslash before a blank or a line break. -/
  | join
deriving DecidableEq

/-- Reads the pieces up to closing tripled double quotes. -/
def readPieces : Reader (List Piece)
  | '"' :: '"' :: '"' :: '"' :: '"' :: rest => some ([.plain '"', .plain '"'], rest)
  | '"' :: '"' :: '"' :: '"' :: rest => some ([.plain '"'], rest)
  | '"' :: '"' :: '"' :: rest => some ([], rest)
  | '\r' :: '\n' :: rest => do
    let (pieces, rest) ← readPieces rest
    return (.plain '\n' :: pieces, rest)
  | '\\' :: 'u' :: a :: b :: c :: d :: rest => do
    let char ← codePoint? [a, b, c, d]
    let (pieces, rest) ← readPieces rest
    return (.escaped char :: pieces, rest)
  | '\\' :: 'U' :: a :: b :: c :: d :: e :: f :: g :: h :: rest => do
    let char ← codePoint? [a, b, c, d, e, f, g, h]
    let (pieces, rest) ← readPieces rest
    return (.escaped char :: pieces, rest)
  | '\\' :: '\r' :: '\n' :: rest => do
    let (pieces, rest) ← readPieces rest
    return (.join :: .plain '\n' :: pieces, rest)
  | '\\' :: e :: rest => do
    if isBlank e || e == '\n' then
      let (pieces, rest) ← readPieces rest
      return (.join :: .plain e :: pieces, rest)
    else
      let char ← escape? e
      let (pieces, rest) ← readPieces rest
      return (.escaped char :: pieces, rest)
  | c :: rest =>
    if isPrintable c || c == '\n' then do
      let (pieces, rest) ← readPieces rest
      return (.plain c :: pieces, rest)
    else none
  | [] => none

/-- Where the text of pieces is being joined. -/
inductive Joining where
  | off
  /-- Behind a backslash, before a line break. -/
  | pending
  /-- Behind the line break. -/
  | skipping
deriving DecidableEq

/-- The text of pieces. A join swallows blanks and line breaks, of which there has to be one. -/
def textOfPieces : Joining → List Piece → Option (List Char)
  | .pending, [] => none
  | _, [] => some []
  | .off, .plain c :: rest => (textOfPieces .off rest).map (c :: ·)
  | .pending, .plain c :: rest =>
    if c = '\n' then textOfPieces .skipping rest
    else if isBlank c then textOfPieces .pending rest
    else none
  | .skipping, .plain c :: rest =>
    if c = '\n' ∨ isBlank c then textOfPieces .skipping rest
    else (textOfPieces .off rest).map (c :: ·)
  | .pending, .escaped _ :: _ => none
  | _, .escaped c :: rest => (textOfPieces .off rest).map (c :: ·)
  | .pending, .join :: _ => none
  | _, .join :: rest => textOfPieces .pending rest

/-- Reads the text up to closing tripled double quotes. -/
def readBasicLines : Reader (List Char) := fun cs => do
  let (pieces, rest) ← readPieces cs
  return (← textOfPieces .off pieces, rest)

/-! ## All strings -/

/-- Reads a string on a single line. -/
def readLine : Reader String
  | '"' :: rest => do
    let (text, rest) ← readBasic rest
    return (String.ofList text, rest)
  | '\'' :: rest => do
    let (text, rest) ← readLiteral rest
    return (String.ofList text, rest)
  | _ => none

/-- Reads a string. -/
def readString : Reader String
  | '"' :: '"' :: '"' :: rest => do
    let (text, rest) ← readBasicLines (dropNewline rest)
    return (String.ofList text, rest)
  | '\'' :: '\'' :: '\'' :: rest => do
    let (text, rest) ← readLiteralLines (dropNewline rest)
    return (String.ofList text, rest)
  | cs => readLine cs

end MetaPool.Toml
