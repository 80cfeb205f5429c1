import MetaPool.Text.CaseTable

/-!
# Lowercase text

Lowercase by the full rules of Unicode that depend on no language: each character has the lowercase
of the tables, a capital dotted `İ` becomes an `i` and a combining dot, and a capital sigma becomes
the final `ς` at the end of a word and `σ` elsewhere. A sigma ends a word if a letter comes before
it and none after it, ignorable characters in between apart.
-/

namespace MetaPool.Text

def CaseRun.holds (r : CaseRun) (code : Nat) : Bool :=
  r.first ≤ code && code ≤ r.last && (code - r.first) % r.step == 0

def inRanges (ranges : List CodeRange) (c : Char) : Bool :=
  ranges.any fun r => r.1 ≤ c.toNat && c.toNat ≤ r.2

def isCased (c : Char) : Bool := inRanges casedRanges c

def isIgnorable (c : Char) : Bool := inRanges ignorableRanges c

/-- The lowercase of a character outside any word. -/
def lowerChar (c : Char) : List Char :=
  if c = 'İ' then ['i', '\u0307']
  else
    match lowercaseRuns.find? (·.holds c.toNat) with
    | some r => [Char.ofNat (c.toNat + r.offset).toNat]
    | none => [c]

/-- Whether the first character that is not ignorable is a letter. -/
def startsCased (cs : List Char) : Bool :=
  match cs.dropWhile isIgnorable with
  | c :: _ => isCased c
  | [] => false

/-- The lowercase of a text, whose characters before it are given from the last to the first. -/
def lowerAfter (before : List Char) : List Char → List Char
  | [] => []
  | c :: rest =>
    (if c = 'Σ' then [if startsCased before && !startsCased rest then 'ς' else 'σ']
      else lowerChar c) ++ lowerAfter (c :: before) rest

def lowercase (s : String) : String := String.ofList (lowerAfter [] s.toList)

end MetaPool.Text
