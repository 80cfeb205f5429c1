/-!
# The clock

A clock shows the height of the chain and the time in seconds. Heights are 64-bit words and times
signed 64-bit words; both stop at the end of their range.
-/

namespace MetaPool

/-- The height `a + b`, or the largest height. -/
def addHeights (a b : UInt64) : UInt64 :=
  if a.toNat + b.toNat < UInt64.size then a + b else -1

/-- The time nearest to `t` that can be told. -/
abbrev clampTime (t : Int) : Int64 := Int64.ofIntClamp t

/-- What every operation sees of the chain. -/
structure Clock where
  height : UInt64
  time : Int64
deriving DecidableEq

namespace Clock

instance : Inhabited Clock := ⟨1, 1600000000⟩

/-- The clock `blocks` blocks on, at the same time. -/
def passBlocks (c : Clock) (blocks : UInt64) : Clock :=
  { c with height := addHeights c.height blocks }

/-- The clock `seconds` later, at the same height. -/
def passTime (c : Clock) (seconds : Int64) : Clock :=
  { c with time := clampTime (c.time.toInt + seconds.toInt) }

/-- The clock after `blocks` blocks that are `spacing` seconds apart. The count enters the product
as the signed word of the same bits. -/
def mine (c : Clock) (blocks : UInt64) (spacing : Int64) : Clock :=
  (c.passBlocks blocks).passTime (clampTime (blocks.toInt64.toInt * spacing.toInt))

/-- The seconds from `earlier` to the clock's time. -/
def since (c : Clock) (earlier : Int64) : Int64 := clampTime (c.time.toInt - earlier.toInt)

end Clock

end MetaPool
