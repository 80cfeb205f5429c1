import MetaPool.Account.Registry
import MetaPool.Book.Tokens
import MetaPool.Capital.Allocation
import MetaPool.Capital.MetaShares
import MetaPool.Pool.Basic
import MetaPool.Price.Oracle
import MetaPool.Protocol.Event

/-!
# The protocol

The state of the protocol is that of all its components, the clock and the event log. A view reads a
state and may fail. An action runs on a state in place and may fail, and what it has written by then
stays written; `atomically` makes a sequence of actions one step, which either happens or leaves the
state as it was.

A rolled-back step does not restore the log from its checkpoint: it cuts the log back to its earlier
length. That is the same unless the log was taken in between.
-/

namespace MetaPool

/-- All components of the protocol. -/
structure Protocol where
  clock : Clock
  feeds : FeedBook
  tokens : TokenBook
  registry : Registry
  oracle : Oracle
  pools : OrderedMap Address Pool
  metaToken : MetaToken
  lpAccount : LpAccount
  allocation : Allocation
  log : List LogEntry
deriving DecidableEq

namespace Protocol

/-! ## Lookups -/

/-- A deployed pool. -/
def pool (p : Protocol) (address : Address) : Except Fault Pool :=
  match p.pools.get? address with
  | some pool => .ok pool
  | none => .error (.unknownPool address)

def address (p : Protocol) (id : String) : Except Fault Address := p.registry.address id

/-- The address behind an identifier, if a pool is deployed there. -/
def poolAddress (p : Protocol) (id : String) : Except Fault Address := do
  let address ← p.address id
  let _ ← p.pool address
  return address

def poolAddresses (p : Protocol) (ids : List String) : Except Fault (List Address) :=
  ids.mapM p.poolAddress

/-! ## Actions -/

/-- A step that reads and writes the protocol and may fail. -/
abbrev Action := EStateM Fault Protocol

/-- Fails as `x` does. -/
def demand {α : Type} (x : Except Fault α) : Action α := fun p =>
  match x with
  | .ok a => .ok a p
  | .error fault => .error fault p

/-- What a view shows of the present state. -/
def ask {α : Type} (view : Protocol → Except Fault α) : Action α := fun p => demand (view p) p

/-- The state to which a failed step returns: all of `before` but for the log, which is what `after`
has of it up to its length before. -/
def rollback (before after : Protocol) : Protocol :=
  { before with log := after.log.take before.log.length }

/-- Runs an action to its end or not at all. -/
def atomically {α : Type} (body : Action α) : Action α := fun p =>
  match body p with
  | .ok a q => .ok a q
  | .error fault q => .error fault (rollback p q)

/-- Logs an event. -/
def logEvent (event : Event) : Action Unit :=
  modify fun p => { p with log := p.log ++ [⟨p.clock.height, p.clock.time, event⟩] }

/-- Empties the log and returns what it held. -/
def takeLog : Action (List LogEntry) :=
  modifyGet fun p => (p.log, { p with log := [] })

/-- Changes the token book. -/
def onTokens (change : TokenBook → Except Fault TokenBook) : Action Unit := do
  let tokens ← ask (change ·.tokens)
  modify ({ · with tokens })

/-- Changes the feeds. -/
def onFeeds (change : FeedBook → Except Fault FeedBook) : Action Unit := do
  let feeds ← ask (change ·.feeds)
  modify ({ · with feeds })

/-- Changes the meta shares. -/
def onMetaToken (change : MetaToken → Except Fault MetaToken) : Action Unit := do
  let metaToken ← ask (change ·.metaToken)
  modify ({ · with metaToken })

/-- Changes one pool. -/
def onPool (address : Address) (change : Pool → Except Fault Pool) : Action Unit := do
  let pool ← ask fun p => do change (← p.pool address)
  modify fun p => { p with pools := p.pools.insert address pool }

/-- Runs a setter of the oracle, which sees the clock and the feeds. -/
def onOracle {α : Type} (setter : Clock → FeedBook → Oracle.Setter α) : Action α := fun p =>
  match setter p.clock p.feeds p.oracle with
  | .ok a oracle => .ok a { p with oracle }
  | .error fault oracle => .error fault { p with oracle }

end Protocol

end MetaPool
