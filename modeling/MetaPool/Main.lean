import MetaPool.CommandLine

/-!
# The program

Reads and writes files, waits between the cycles and prints the summary.
-/

namespace MetaPool.CommandLine

/-- The bytes of a file that can be read. -/
def readFile? (path : String) : IO (Option ByteArray) := do
  try return some (← IO.FS.readBinFile path) catch _ => return none

/-- Writes the sample configuration. Tells whether it is written. -/
def writeSample (path : String) : IO Bool := do
  match sampleText with
  | .error _ => return false
  | .ok text => try IO.FS.writeFile path text; return true catch _ => return false

/-- Runs cycles at intervals, up to a limit if there is one. -/
partial def runAtIntervals (k : Keeper) (limit : Option Nat) (interval : Nat) : IO Keeper := do
  if limit.any (· ≤ k.cycles) then return k
  else
    let next := (k.run (k.cycles + 1)).2
    if limit != some next.cycles then IO.sleep (min interval 4294967295).toUInt32
    runAtIntervals next limit interval

/-- Runs the keeper of a configuration file and prints its summary. Tells whether it did. -/
def runKeeper (path : String) (limit : Option Nat) (interval : Nat) (dryRun : Bool) : IO Bool := do
  match launch (← readFile? path) dryRun with
  | .error _ => return false
  | .ok k =>
    match (← runAtIntervals k limit interval).summaryText with
    | .error _ => return false
    | .ok text =>
      IO.println text
      return true

end MetaPool.CommandLine

def main (args : List String) : IO UInt32 := do
  match MetaPool.CommandLine.request args with
  | .error stop => return stop.exitCode
  | .ok (.writeSample path) =>
    return MetaPool.CommandLine.exitCode (← MetaPool.CommandLine.writeSample path)
  | .ok (.run path limit interval dryRun) =>
    return MetaPool.CommandLine.exitCode
      (← MetaPool.CommandLine.runKeeper path limit interval dryRun)
