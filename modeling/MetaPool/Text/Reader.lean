/-!
# Readers

A reader takes something from the front of a text. It gives what it read and the rest of the text,
or nothing if the text does not start with what it reads.
-/

namespace MetaPool.Text

/-- A step that reads an `α`. -/
abbrev Reader (α : Type) := List Char → Option (α × List Char)

/-- Reads one or more characters of a class. -/
def readSome (accepts : Char → Bool) : Reader (List Char) := fun cs =>
  match cs.span accepts with
  | ([], _) => none
  | found => some found

/-- Reads the given characters. -/
def readExactly : List Char → Reader Unit
  | [], cs => some ((), cs)
  | _ :: _, [] => none
  | e :: expected, c :: rest => if e = c then readExactly expected rest else none

end MetaPool.Text
