import MetaPool.Keeper.ConfigFile
import MetaPool.Keeper.Summary
import MetaPool.Text.Digits

/-!
# The command line

The options of the keeper's command, what they ask for and what it answers. An option has a long
name, most have a letter too; letters may be joined behind one dash. A value stands behind its
option as the next argument, which may then not look like an option, or is attached: behind an
equals sign or, for a letter, directly. No option is given twice, and there are no other arguments.
-/

namespace MetaPool.CommandLine

inductive Switch where
  | config
  | init
  | iterations
  | interval
  | dryRun
  | verbose
  | help
deriving DecidableEq

namespace Switch

def ofName? : String → Option Switch
  | "config" => some config
  | "init" => some init
  | "iterations" => some iterations
  | "interval" => some interval
  | "dry-run" => some dryRun
  | "verbose" => some verbose
  | "help" => some help
  | _ => none

def ofLetter? : Char → Option Switch
  | 'c' => some config
  | 'n' => some iterations
  | 'i' => some interval
  | 'v' => some verbose
  | 'h' => some help
  | _ => none

def takesValue : Switch → Bool
  | config | iterations | interval => true
  | init | dryRun | verbose | help => false

end Switch

/-- Why the arguments are not followed. -/
inductive Stop where
  /-- They ask for help. -/
  | help
  /-- They are not understood. -/
  | refused
deriving DecidableEq

/-- What the arguments have set so far. -/
structure Settings where
  config : Option String := none
  init : Bool := false
  iterations : Option Nat := none
  interval : Option Nat := none
  dryRun : Bool := false
  verbose : Bool := false
deriving DecidableEq

/-- The unsigned 64-bit number that a text writes, perhaps behind a plus. -/
def wordOf? (text : String) : Option Nat :=
  let digits :=
    match text.toList with
    | '+' :: rest => rest
    | cs => cs
  (Text.ofDigits? 10 digits).filter (· ≤ maxWord)

namespace Settings

/-- Sets an option that has not been set to a value that has been understood. -/
def once {α : Type} (old : Option α) (value : Option α) : Except Stop (Option α) :=
  match old, value with
  | none, some v => .ok (some v)
  | _, _ => .error .refused

/-- Sets a flag that has not been set. -/
def onceFlag (old : Bool) : Except Stop Bool := if old then .error .refused else .ok true

/-- Gives an option its value. -/
def give (s : Settings) (value : String) : Switch → Except Stop Settings
  | .config => return { s with config := ← once s.config (some value) }
  | .iterations => return { s with iterations := ← once s.iterations (wordOf? value) }
  | .interval => return { s with interval := ← once s.interval (wordOf? value) }
  | _ => .error .refused

/-- Sets an option that has no value. -/
def raise (s : Settings) : Switch → Except Stop Settings
  | .init => return { s with init := ← onceFlag s.init }
  | .dryRun => return { s with dryRun := ← onceFlag s.dryRun }
  | .verbose => return { s with verbose := ← onceFlag s.verbose }
  | .help => .error .help
  | _ => .error .refused

/-- Follows letters behind a dash. The option is one that waits for its value. -/
def letters (s : Settings) : List Char → Except Stop (Settings × Option Switch)
  | [] => .ok (s, none)
  | letter :: rest =>
    match Switch.ofLetter? letter with
    | none => .error .refused
    | some switch =>
      if switch.takesValue then
        match rest with
        | [] => .ok (s, some switch)
        | '=' :: value => do return (← s.give (String.ofList value) switch, none)
        | value => do return (← s.give (String.ofList value) switch, none)
      else do letters (← s.raise switch) rest

/-- Follows a long name behind two dashes, with a value if one is attached. -/
def longName (s : Settings) (cs : List Char) : Except Stop (Settings × Option Switch) :=
  let (name, attached) := cs.span (· ≠ '=')
  match Switch.ofName? (String.ofList name), attached with
  | none, _ => .error .refused
  | some switch, [] =>
    if switch.takesValue then .ok (s, some switch) else do return (← s.raise switch, none)
  | some switch, _ :: value => do return (← s.give (String.ofList value) switch, none)

/-- Follows the arguments, the first of which may be a value that an option waits for. -/
def follow (s : Settings) : Option Switch → List String → Except Stop Settings
  | none, [] => .ok s
  | some _, [] => .error .refused
  | waiting, arg :: rest =>
    match waiting, arg.toList with
    | none, ['-', '-'] => if rest.isEmpty then .ok s else .error .refused
    | some switch, ['-'] => do follow (← s.give "-" switch) none rest
    | none, ['-'] => .error .refused
    | none, '-' :: '-' :: name => do
      let (s, waiting) ← s.longName name
      follow s waiting rest
    | none, '-' :: joined => do
      let (s, waiting) ← s.letters joined
      follow s waiting rest
    | some _, '-' :: _ => .error .refused
    | some switch, _ => do follow (← s.give arg switch) none rest
    | none, _ => .error .refused

end Settings

/-! ## Requests -/

/-- What the command is asked to do. -/
inductive Request where
  /-- To write the sample configuration. -/
  | writeSample (path : String)
  /-- To run a keeper, for ever if there is no limit. The interval between two cycles is in
  milliseconds. -/
  | run (path : String) (limit : Option Nat) (interval : Nat) (dryRun : Bool)
deriving DecidableEq

def defaultPath : String := "keeper.toml"

/-- The default interval, a second. -/
def defaultInterval : Nat := 1000

/-- The request of settings. -/
def Settings.request (s : Settings) : Request :=
  let path := s.config.getD defaultPath
  if s.init then .writeSample path
  else .run path s.iterations (max 1 (s.interval.getD defaultInterval)) s.dryRun

/-- The request of the arguments behind the command. -/
def request (args : List String) : Except Stop Request := do
  return (← Settings.follow {} none args).request

/-! ## Answers -/

/-- The exit code of arguments that are not followed. -/
def Stop.exitCode : Stop → UInt32
  | help => 0
  | refused => 2

/-- The exit code of a request that succeeds or fails. -/
def exitCode (succeeded : Bool) : UInt32 := if succeeded then 0 else 1

/-- The text of the sample configuration. -/
def sampleText : Except Keeper.Fault String := Keeper.Config.sample.print

/-- The keeper of a configuration file. -/
def launch (file : Option ByteArray) (dryRun : Bool) : Except Keeper.Fault Keeper := do
  Keeper.start (← Keeper.Config.load file) dryRun

/-- The summary of the keeper of a configuration file after all its cycles. -/
def runToEnd (file : Option ByteArray) (dryRun : Bool) (limit : Nat) :
    Except Keeper.Fault String := do
  ((← launch file dryRun).run limit).2.summaryText

end MetaPool.CommandLine
