import MetaPool.Json.Value
import MetaPool.Text.Digits

/-!
# Printing JSON

The printed form of a value has a line for each element and field, indented by two spaces a level.
Empty arrays and objects stay on one line. Strings escape quotes, backslashes and controls, and no
other characters.
-/

namespace MetaPool.Json

/-- A character as it stands in a string. -/
def escapeChar (c : Char) : List Char :=
  if c = '"' then ['\\', '"']
  else if c = '\\' then ['\\', '\\']
  else if c = '\x08' then ['\\', 'b']
  else if c = '\x0c' then ['\\', 'f']
  else if c = '\n' then ['\\', 'n']
  else if c = '\r' then ['\\', 'r']
  else if c = '\t' then ['\\', 't']
  else if c.toNat < 0x20 then '\\' :: 'u' :: (Text.fourHexDigits c.toNat).map Char.toLower
  else [c]

def quote (s : String) : String := "\"" ++ String.ofList (s.toList.flatMap escapeChar) ++ "\""

/-- A line break and the indentation of a level. -/
def newLine (level : Nat) : String := "\n" ++ "".pushn ' ' (2 * level)

/-- The items of a bracket at a level, each on a line of its own. -/
def bracket (opening closing : String) (level : Nat) (items : List String) : String :=
  if items.isEmpty then opening ++ closing
  else
    opening ++ newLine (level + 1) ++ (String.intercalate ("," ++ newLine (level + 1)) items)
      ++ newLine level ++ closing

namespace Value

mutual

/-- A value that starts at a level. What has no text of its own is printed as null. -/
def printAt (level : Nat) : Value → String
  | null | fractional | string none => "null"
  | boolean b => if b then "true" else "false"
  | whole negative n => (if negative then "-" else "") ++ toString n
  | string (some s) => quote s
  | array elements => bracket "[" "]" level (printElements level elements)
  | object fields => bracket "\x7b" "\x7d" level (printFields level fields)

def printElements (level : Nat) : List Value → List String
  | [] => []
  | v :: rest => printAt (level + 1) v :: printElements level rest

def printFields (level : Nat) : List (Option String × Value) → List String
  | [] => []
  | (name, v) :: rest =>
    (quote (name.getD "") ++ ": " ++ printAt (level + 1) v) :: printFields level rest

end

/-- The text of a value. -/
def print (v : Value) : String := v.printAt 0

end Value

end MetaPool.Json
