import MetaPool.Json.Value
import MetaPool.Text.Digits
import MetaPool.Text.Reader

/-!
# Reading JSON

`Value.read?` accepts exactly one value of the JSON grammar between blanks. Strings may hold any
character but controls; numbers have no leading zeros.
-/

namespace MetaPool.Json

open Text (Reader)

def isBlank (c : Char) : Bool := c == ' ' || c == '\t' || c == '\n' || c == '\r'

def skipBlanks (cs : List Char) : List Char := cs.dropWhile isBlank

/-! ## Strings -/

/-- The character of a single-letter escape. -/
def escape? : Char → Option Char
  | '"' => some '"'
  | '\\' => some '\\'
  | '/' => some '/'
  | 'b' => some '\x08'
  | 'f' => some '\x0c'
  | 'n' => some '\n'
  | 'r' => some '\r'
  | 't' => some '\t'
  | _ => none

/-- Reads the codes of a string up to its closing quote. A character stands for its code point, an
escape of four digits for a code unit. -/
def readCodes : Reader (List Nat)
  | '"' :: rest => some ([], rest)
  | '\\' :: 'u' :: a :: b :: c :: d :: rest => do
    let code ← Text.ofDigits? 16 [a, b, c, d]
    let (codes, rest) ← readCodes rest
    return (code :: codes, rest)
  | '\\' :: e :: rest => do
    let c ← escape? e
    let (codes, rest) ← readCodes rest
    return (c.toNat :: codes, rest)
  | c :: rest => do
    if c.toNat < 0x20 ∨ c = '\\' then none
    else
      let (codes, rest) ← readCodes rest
      return (c.toNat :: codes, rest)
  | [] => none

def isHighSurrogate (code : Nat) : Bool := 0xD800 ≤ code && code ≤ 0xDBFF

def isLowSurrogate (code : Nat) : Bool := 0xDC00 ≤ code && code ≤ 0xDFFF

/-- The characters of codes in which every high surrogate is followed by a low one and every low one
follows a high one. -/
def charsOfCodes : List Nat → Option (List Char)
  | [] => some []
  | high :: low :: rest =>
    if isHighSurrogate high then
      if isLowSurrogate low then
        (charsOfCodes rest).map
          (Char.ofNat (0x10000 + (high - 0xD800) * 0x400 + (low - 0xDC00)) :: ·)
      else none
    else if isLowSurrogate high then none
    else (charsOfCodes (low :: rest)).map (Char.ofNat high :: ·)
  | [code] => if isHighSurrogate code || isLowSurrogate code then none else some [Char.ofNat code]

/-- Reads a string behind its opening quote. The text is none if a surrogate is left alone. -/
def readString : Reader (Option String) := fun cs => do
  let (codes, rest) ← readCodes cs
  return ((charsOfCodes codes).map String.ofList, rest)

/-! ## Numbers -/

/-- Reads one or more digits. -/
def readDigits : Reader (List Char) := Text.readSome Char.isDigit

/-- Reads the digits of a whole part: a zero, or digits that do not start with one. -/
def readWhole : Reader Nat
  | '0' :: rest => some (0, rest)
  | cs => do
    let (digits, rest) ← readDigits cs
    return (← Text.ofDigits? 10 digits, rest)

/-- Reads a fraction, if there is one. Tells whether there is. -/
def readFraction : Reader Bool
  | '.' :: rest => do
    let (_, rest) ← readDigits rest
    return (true, rest)
  | cs => some (false, cs)

/-- Reads the digits of an exponent behind its sign. -/
def readExponentDigits : Reader Bool
  | '+' :: rest | '-' :: rest | rest => do
    let (_, rest) ← readDigits rest
    return (true, rest)

/-- Reads an exponent, if there is one. Tells whether there is. -/
def readExponent : Reader Bool
  | 'e' :: rest | 'E' :: rest => readExponentDigits rest
  | cs => some (false, cs)

/-- Reads a number behind its sign. -/
def readNumber (negative : Bool) : Reader Value := fun cs => do
  let (whole, rest) ← readWhole cs
  let (hasFraction, rest) ← readFraction rest
  let (hasExponent, rest) ← readExponent rest
  return (if hasFraction || hasExponent then .fractional else .whole negative whole, rest)

/-! ## Values -/

/-- What may follow an element or a field: a comma and more, or the closing bracket. -/
def readSeparator (close : Char) : Reader Bool := fun cs =>
  match skipBlanks cs with
  | c :: rest =>
    if c = ',' then some (true, rest) else if c = close then some (false, rest) else none
  | [] => none

mutual

/-- Reads a value. The fuel bounds the steps. -/
def readValue : Nat → Reader Value
  | 0, _ => none
  | fuel + 1, cs =>
    match skipBlanks cs with
    | 'n' :: 'u' :: 'l' :: 'l' :: rest => some (.null, rest)
    | 't' :: 'r' :: 'u' :: 'e' :: rest => some (.boolean true, rest)
    | 'f' :: 'a' :: 'l' :: 's' :: 'e' :: rest => some (.boolean false, rest)
    | '"' :: rest => do
      let (text, rest) ← readString rest
      return (.string text, rest)
    | '[' :: rest =>
      match skipBlanks rest with
      | ']' :: rest => some (.array [], rest)
      | rest => do
        let (elements, rest) ← readElements fuel rest
        return (.array elements, rest)
    | '\x7b' :: rest =>
      match skipBlanks rest with
      | '\x7d' :: rest => some (.object [], rest)
      | rest => do
        let (fields, rest) ← readFields fuel rest
        return (.object fields, rest)
    | '-' :: rest => readNumber true rest
    | rest => readNumber false rest

/-- Reads the elements of an array, the first of which is next, and the closing bracket. -/
def readElements : Nat → Reader (List Value)
  | 0, _ => none
  | fuel + 1, cs => do
    let (element, rest) ← readValue fuel cs
    let (more, rest) ← readSeparator ']' rest
    if more then
      let (elements, rest) ← readElements fuel rest
      return (element :: elements, rest)
    else return ([element], rest)

/-- Reads the fields of an object, the first of which is next, and the closing brace. -/
def readFields : Nat → Reader (List (Option String × Value))
  | 0, _ => none
  | fuel + 1, cs =>
    match skipBlanks cs with
    | '"' :: rest => do
      let (name, rest) ← readString rest
      match skipBlanks rest with
      | ':' :: rest =>
        let (value, rest) ← readValue fuel rest
        let (more, rest) ← readSeparator '\x7d' rest
        if more then
          let (fields, rest) ← readFields fuel rest
          return ((name, value) :: fields, rest)
        else return ([(name, value)], rest)
      | _ => none
    | _ => none

end

/-- The value that a text holds. Two steps for each character are enough. -/
def Value.read? (text : String) : Option Value := do
  let cs := text.toList
  let (value, rest) ← readValue (2 * cs.length + 2) cs
  if (skipBlanks rest).isEmpty then some value else none

end MetaPool.Json
