import MetaPool.Protocol.Operation
import MetaPool.Protocol.Valuation

/-!
# Scripts

A script is a list of steps: operations, observations and transactions of further steps. Running it
answers every step and marks where the protocol stood after it. A transaction ends at its first
failing step, unless it keeps going, and commits unless a fault is left; a fault rolls back all that
its steps did.
-/

namespace MetaPool

/-- A step of a script whose observations show a `ρ`. -/
inductive Step (ρ : Type) where
  | perform (operation : Operation)
  | observe (view : Protocol → Except Fault ρ)
  /-- Runs steps as one. A transaction that keeps going is not ended by a failing step, and one that
  is to revert fails at its end. -/
  | transaction (steps : List (Step ρ)) (keepsGoing reverts : Bool)

/-- Where the protocol stands. -/
structure Mark where
  height : UInt64
  time : Int64
  lockEnd : UInt64
  metaSupply : Nat
  logLength : Nat
deriving DecidableEq

def Protocol.mark (p : Protocol) : Mark where
  height := p.clock.height
  time := p.clock.time
  lockEnd := p.oracle.lockEnd
  metaSupply := p.metaToken.supply
  logLength := p.log.length

/-- The answer to a step. -/
inductive Reply (ρ : Type) where
  | performed (outcome : Outcome) (mark : Mark)
  | observed (shown : ρ) (mark : Mark)
  | failed (fault : Fault) (mark : Mark)
  /-- A transaction, committed if it has no cause to fail. -/
  | transaction (cause : Option Fault) (replies : List (Reply ρ)) (mark : Mark)

namespace Step

variable {ρ : Type}

mutual

/-- Runs a step. Gives its answer, the fault with which it ends and the state that it leaves. A
transaction as a step does not fail, even if it is rolled back. -/
def run : Step ρ → Protocol → Reply ρ × Option Fault × Protocol
  | perform operation, p =>
    match operation.perform p with
    | .ok outcome q => (.performed outcome q.mark, none, q)
    | .error fault q => (.failed fault q.mark, some fault, q)
  | observe view, p =>
    match view p with
    | .ok shown => (.observed shown p.mark, none, p)
    | .error fault => (.failed fault p.mark, some fault, p)
  | transaction steps keepsGoing reverts, p =>
    let (replies, cause, q) := runAll keepsGoing steps p
    let cause := cause <|> if reverts then some .amountInsufficient else none
    let left := if cause.isSome then p.rollback q else q
    (.transaction cause replies left.mark, none, left)

/-- Runs steps in order. Gives their answers, the fault that ended them early and the state that
they leave. -/
def runAll (keepsGoing : Bool) : List (Step ρ) → Protocol →
    List (Reply ρ) × Option Fault × Protocol
  | [], p => ([], none, p)
  | step :: rest, p =>
    let (reply, fault, q) := run step p
    if fault.isSome && !keepsGoing then ([reply], fault, q)
    else
      let (replies, fault, r) := runAll keepsGoing rest q
      (reply :: replies, fault, r)

end

end Step

end MetaPool
