import MetaPool.Proofs.Collection.Values
import MetaPool.Proofs.Price.Setters
import MetaPool.Protocol.Basic

/-!
# A replica of the protocol

A replica holds what can be told of the protocol from its log: the meta shares, the pools, the
settings of the oracle and the listed tokens. `Replica.apply` changes it by one log entry, and it
looks at nothing else. It checks nothing: an entry says what has happened already.

Of an override the log tells the value and the height at which it ends, but not its duration, which
is lost where the end is the largest height. So the replica keeps value and expiry alone
(`StandIn`).
-/

namespace MetaPool

namespace ShareBook

/-- The book after `holder` got new shares. -/
def credit (b : ShareBook) (holder : Address) (amount : Nat) : ShareBook :=
  ⟨b.supply + amount, b.balances.insert holder (b.balanceOf holder + amount)⟩

/-- The book after `holder` gave up shares. -/
def debit (b : ShareBook) (holder : Address) (amount : Nat) : ShareBook :=
  ⟨b.supply - amount,
    if b.balanceOf holder = amount then b.balances.erase holder
    else b.balances.insert holder (b.balanceOf holder - amount)⟩

end ShareBook

/-- A value that stands in for a feed up to a height. -/
structure StandIn where
  value : Int
  expiry : UInt64
deriving DecidableEq

def Override.standIn (o : Override) : StandIn := ⟨o.value, o.expiry⟩

/-- The settings of the oracle. -/
structure OracleReplica where
  tvlSource : Address
  assetSources : OrderedMap Address Address
  stalePeriod : Int64
  lockPeriod : UInt64
  lockEnd : UInt64
  tvlOverride : Option StandIn
  assetOverrides : OrderedMap Address StandIn
deriving DecidableEq

def Oracle.replica (o : Oracle) : OracleReplica where
  tvlSource := o.tvlSource
  assetSources := o.assetSources
  stalePeriod := o.stalePeriod
  lockPeriod := o.lockPeriod
  lockEnd := o.lockEnd
  tvlOverride := o.tvlOverride.map Override.standIn
  assetOverrides := o.assetOverrides.map Override.standIn

/-- What the log tells of the protocol. -/
structure Replica where
  metaShares : ShareBook
  pools : OrderedMap Address Pool
  oracle : OracleReplica
  listed : OrderedMap Address AllocatedToken
deriving DecidableEq

def Protocol.replica (p : Protocol) : Replica where
  metaShares := p.metaToken.shares
  pools := p.pools
  oracle := p.oracle.replica
  listed := p.allocation.tokens

namespace Replica

/-- Changes one pool. -/
def onPool (r : Replica) (pool : Address) (change : Pool → Pool) : Replica :=
  { r with pools := r.pools.adjust pool change }

/-- The replica after one more entry. A move of capital changes nothing here: the meta shares that
stand for it have an entry of their own. -/
def apply (r : Replica) (entry : LogEntry) : Replica :=
  match entry.event with
  | .deposited pool sender _ _ shares _ => r.onPool pool fun s =>
    { s with
      shares := s.shares.credit sender shares
      lastDeposit := s.lastDeposit.insert sender entry.time }
  | .redeemed pool sender _ _ shares _ =>
    r.onPool pool fun s => { s with shares := s.shares.debit sender shares }
  | .poolPaused pool paused => r.onPool pool fun s => { s with locks.paused := paused }
  | .depositsLocked pool locked => r.onPool pool fun s => { s with locks.deposits := locked }
  | .redemptionsLocked pool locked => r.onPool pool fun s => { s with locks.redemptions := locked }
  | .reservePercentageChanged pool percentage =>
    r.onPool pool fun s => { s with terms.reservePercentage := percentage }
  | .withdrawFeeChanged pool bps => r.onPool pool fun s => { s with terms.withdrawFeeBps := bps }
  | .arbitrageFeeChanged pool bps period => r.onPool pool fun s =>
    { s with terms.arbitrageFeeBps := bps, terms.arbitragePeriod := period }
  | .metaMinted pool amount => { r with metaShares := r.metaShares.credit pool amount }
  | .metaBurned pool amount => { r with metaShares := r.metaShares.debit pool amount }
  | .capitalSent _ _ _ | .capitalReturned _ _ _ => r
  | .tokenRegistered token symbol decimals =>
    { r with listed := r.listed.insert token ⟨token, symbol, decimals⟩ }
  | .oracleLocked lockEnd => { r with oracle.lockEnd := lockEnd }
  | .oracleUnlocked => { r with oracle.lockEnd := entry.height }
  | .tvlOverrideSet value expiry => { r with oracle.tvlOverride := some ⟨value, expiry⟩ }
  | .tvlOverrideUnset => { r with oracle.tvlOverride := none }
  | .assetOverrideSet asset value expiry =>
    { r with oracle.assetOverrides := r.oracle.assetOverrides.insert asset ⟨value, expiry⟩ }
  | .assetOverrideUnset asset =>
    { r with oracle.assetOverrides := r.oracle.assetOverrides.erase asset }
  | .tvlSourceChanged source => { r with oracle.tvlSource := source }
  | .assetSourceChanged asset source =>
    { r with oracle.assetSources := r.oracle.assetSources.insert asset source }
  | .stalePeriodChanged period => { r with oracle.stalePeriod := period }
  | .lockPeriodChanged blocks => { r with oracle.lockPeriod := blocks }

/-- The replica after more entries, in order. -/
def replay (r : Replica) (entries : List LogEntry) : Replica := entries.foldl apply r

theorem replay_append (r : Replica) (l l' : List LogEntry) :
    r.replay (l ++ l') = (r.replay l).replay l' := List.foldl_append

/-- The entries of a list of sources point each asset in turn. -/
theorem replay_sources (r : Replica) (height : UInt64) (time : Int64)
    (l : List (Address × Address)) :
    r.replay (l.map fun e => ⟨height, time, .assetSourceChanged e.1 e.2⟩) =
      { r with oracle.assetSources := Oracle.pointed r.oracle.assetSources l } := by
  induction l generalizing r with
  | nil => rfl
  | cons e l ih => exact ih (r.apply ⟨height, time, .assetSourceChanged e.1 e.2⟩)

end Replica

end MetaPool
