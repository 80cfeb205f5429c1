import MetaPool.Text.Digits

/-!
# Quoting TOML strings

Of the four ways to write a string the first that needs no escape is taken: double quotes, single
quotes, tripled double quotes and tripled single quotes, in this order. A string that needs an
escape whatever the quotes has tripled double quotes if it has a line break, and else double quotes.
-/

namespace MetaPool.Toml

/-- The ways to write a string. -/
inductive Quoting where
  | basic
  | literal
  | basicLines
  | literalLines
deriving DecidableEq

/-! ## Choice -/

/-- The length of the longest run of a character, given the length of the run that the text
continues. -/
def longestRun (c : Char) : Nat → List Char → Nat
  | run, [] => run
  | run, d :: rest => if d = c then longestRun c (run + 1) rest else max run (longestRun c 0 rest)

/-- Whether a character cannot stand in a string but by an escape. -/
def isCode (c : Char) : Bool :=
  (c.toNat < 0x20 && c != '\t' && c != '\n') || c.toNat == 0x7F

/-- Whether a way needs no escape for a text. -/
def Quoting.fits (q : Quoting) (cs : List Char) : Bool :=
  !cs.any isCode &&
    match q with
    | basic => !cs.contains '\\' && !cs.contains '"' && !cs.contains '\n'
    | literal => !cs.contains '\'' && !cs.contains '\n'
    | basicLines => !cs.contains '\\' && longestRun '"' 0 cs ≤ 2
    | literalLines => longestRun '\'' 0 cs ≤ 2

/-- The way in which a text is written. -/
def Quoting.for (cs : List Char) : Quoting :=
  match [basic, literal, basicLines, literalLines].find? (·.fits cs) with
  | some q => q
  | none => if cs.contains '\n' then basicLines else basic

/-! ## Writing -/

/-- Text between double quotes, or tripled ones. A run of quotes is broken by an escape where it
gets longer than allowed; `run` is the length of the run that the text continues. -/
def escapeText (overLines : Bool) : Nat → List Char → List Char
  | _, [] => []
  | run, c :: rest =>
    if c = '"' then
      if run < (if overLines then 2 else 0) then '"' :: escapeText overLines (run + 1) rest
      else '\\' :: '"' :: escapeText overLines 0 rest
    else
      (if c = '\\' then ['\\', '\\']
        else if c = '\t' then ['\\', 't']
        else if c = '\n' then if overLines then ['\n'] else ['\\', 'n']
        else if c = '\x08' then ['\\', 'b']
        else if c = '\x0c' then ['\\', 'f']
        else if c = '\r' then ['\\', 'r']
        else if isCode c then '\\' :: 'u' :: Text.fourHexDigits c.toNat
        else [c]) ++ escapeText overLines 0 rest

/-- The line break behind opening tripled quotes, which a text of several lines begins with. -/
def openingBreak (cs : List Char) : List Char := if cs.contains '\n' then ['\n'] else []

/-- A text in quotes. -/
def Quoting.write (q : Quoting) (cs : List Char) : List Char :=
  match q with
  | basic => '"' :: escapeText false 0 cs ++ ['"']
  | literal => '\'' :: cs ++ ['\'']
  | basicLines =>
    ['"', '"', '"'] ++ openingBreak cs ++ escapeText true 0 cs ++ ['"', '"', '"']
  | literalLines => ['\'', '\'', '\''] ++ openingBreak cs ++ cs ++ ['\'', '\'', '\'']

/-- A string as it is written. -/
def quote (s : String) : String := String.ofList ((Quoting.for s.toList).write s.toList)

end MetaPool.Toml
