import MetaPool.Account.Roles
import MetaPool.Price.Feed
import MetaPool.Quantity.Checked

/-!
# The oracle

The oracle is the single source of the TVL and of asset prices. It answers in this order: nothing
while it is locked; the value of an override whose window holds the current height; else the latest
round of the feed that it is pointed at, which has to be non-negative and young enough.

The lock ends at a height. `lockFor` moves that height forward only, and only `unlock` moves it
back.

A setter runs on the oracle in place: what it has written when it fails stays written. All but
`setAssetSources` look before they write, so that their faults leave the oracle as it was.
-/

namespace MetaPool

/-- The default largest age of an answer, in seconds: a day. -/
def defaultStalePeriod : Int64 := 86400

/-- The default length of a lock, in blocks. -/
def defaultLockPeriod : UInt64 := 135

/-- A value that stands in for a feed for a number of blocks. -/
structure Override where
  value : Int
  setAt : UInt64
  duration : UInt64
deriving DecidableEq

namespace Override

/-- The height at which the override ends. -/
def expiry (o : Override) : UInt64 := addHeights o.setAt o.duration

def isActive (o : Override) (height : UInt64) : Bool := height < o.expiry

end Override

/-- The state of the oracle. -/
structure Oracle where
  roles : RoleTable
  tvlSource : Address
  assetSources : OrderedMap Address Address
  stalePeriod : Int64
  lockPeriod : UInt64
  lockEnd : UInt64
  tvlOverride : Option Override
  assetOverrides : OrderedMap Address Override
deriving DecidableEq

namespace Oracle

/-- An unlocked oracle without asset sources and overrides. -/
def new (roles : RoleTable) (feeds : FeedBook) (tvlSource : Address) (stalePeriod : Int64)
    (lockPeriod : UInt64) : Except Fault Oracle :=
  if !feeds.contains tvlSource then .error .invalidSource
  else if stalePeriod ≤ 0 then .error .invalidStalePeriod
  else .ok { roles, tvlSource, assetSources := .empty, stalePeriod, lockPeriod, lockEnd := 0,
             tvlOverride := none, assetOverrides := .empty }

/-! ## Views -/

def assetSource (o : Oracle) (asset : Address) : Option Address := o.assetSources.get? asset

def isLocked (o : Oracle) (clock : Clock) : Bool := clock.height < o.lockEnd

/-- The override of the TVL, while it lasts. -/
def activeTvlOverride (o : Oracle) (clock : Clock) : Option Override :=
  o.tvlOverride.filter (·.isActive clock.height)

/-- The override of an asset's price, while it lasts. -/
def activeAssetOverride (o : Oracle) (clock : Clock) (asset : Address) : Option Override :=
  (o.assetOverrides.get? asset).filter (·.isActive clock.height)

def hasTvlOverride (o : Oracle) (clock : Clock) : Bool := (o.activeTvlOverride clock).isSome

def hasAssetOverride (o : Oracle) (clock : Clock) (asset : Address) : Bool :=
  (o.activeAssetOverride clock asset).isSome

/-! ## Answers -/

def requireUnlocked (o : Oracle) (clock : Clock) : Except Fault Unit :=
  if o.isLocked clock then .error .locked else .ok ()

/-- The answer of a feed, if it is non-negative and not older than the stale period. -/
def answerOf (o : Oracle) (clock : Clock) (feeds : FeedBook) (source : Address) :
    Except Fault Nat := do
  let round ← feeds.latest source
  let value ← Checked.ofSigned round.answer
  let age := round.age clock
  if age > o.stalePeriod then .error (.staleData age o.stalePeriod) else return value

/-- The value locked in the LP account, in feed units. A feed that answers zero contradicts an
outstanding supply of meta shares. -/
def tvl (o : Oracle) (clock : Clock) (feeds : FeedBook) (metaSupply : Nat) :
    Except Fault Nat := do
  o.requireUnlocked clock
  match o.activeTvlOverride clock with
  | some manual => Checked.ofSigned manual.value
  | none =>
    let value ← o.answerOf clock feeds o.tvlSource
    if value = 0 ∧ metaSupply > 0 then .error .zeroTvl else return value

/-- The worth of one whole token, in feed units. -/
def assetPrice (o : Oracle) (clock : Clock) (feeds : FeedBook) (asset : Address) :
    Except Fault Nat := do
  o.requireUnlocked clock
  let price ← match o.activeAssetOverride clock asset with
    | some manual => Checked.ofSigned manual.value
    | none =>
      match o.assetSource asset with
      | some source => o.answerOf clock feeds source
      | none => .error .missingAssetValue
  if price = 0 then .error .missingAssetValue else return price

/-! ## Setters -/

/-- A change of the oracle that may fail. -/
abbrev Setter := EStateM Fault Oracle

/-- Ends the setter unless the policy lets the caller use the permission. -/
def authorize (caller : Address) (permission : Permission) : Setter Unit := fun o =>
  match o.roles.authorize caller permission with
  | .ok _ => .ok () o
  | .error fault => .error fault o

/-- Locks the oracle until `blocks` blocks from now. -/
def lockFor (caller : Address) (clock : Clock) (blocks : UInt64) : Setter Unit := do
  authorize caller .lockOracle
  let lockEnd := addHeights clock.height blocks
  if lockEnd < (← get).lockEnd then throw .cannotShortenLock
  modify ({ · with lockEnd })

/-- Locks the oracle for its lock period. -/
def lock (caller : Address) (clock : Clock) : Setter Unit := do
  lockFor caller clock (← get).lockPeriod

def unlock (caller : Address) (clock : Clock) : Setter Unit := do
  authorize caller .unlockOracle
  modify ({ · with lockEnd := clock.height })

def setTvl (caller : Address) (clock : Clock) (value : Int) (duration : UInt64) :
    Setter Override := do
  authorize caller .setTvlOverride
  let manual := { value, setAt := clock.height, duration }
  modify ({ · with tvlOverride := some manual })
  return manual

def unsetTvl (caller : Address) (clock : Clock) : Setter Unit := do
  authorize caller .unsetTvlOverride
  unless (← get).hasTvlOverride clock do throw .overrideNotSet
  modify ({ · with tvlOverride := none })

def setAssetValue (caller : Address) (clock : Clock) (asset : Address) (value : Int)
    (duration : UInt64) : Setter Override := do
  authorize caller .setAssetOverride
  if asset.isEmpty then throw .invalidAddress
  let manual := { value, setAt := clock.height, duration }
  modify fun o => { o with assetOverrides := o.assetOverrides.insert asset manual }
  return manual

def unsetAssetValue (caller : Address) (clock : Clock) (asset : Address) : Setter Unit := do
  authorize caller .unsetAssetOverride
  unless (← get).hasAssetOverride clock asset do throw .overrideNotSet
  modify fun o => { o with assetOverrides := o.assetOverrides.erase asset }

def setTvlSource (caller : Address) (feeds : FeedBook) (source : Address) : Setter Unit := do
  authorize caller .setTvlSource
  unless feeds.contains source do throw .invalidSource
  modify ({ · with tvlSource := source })

/-- Points one asset at a feed. -/
def pointAsset (feeds : FeedBook) (asset source : Address) : Setter Unit := do
  if asset.isEmpty then throw .invalidAddress
  unless feeds.contains source do throw .invalidSource
  modify fun o => { o with assetSources := o.assetSources.insert asset source }

def setAssetSource (caller : Address) (feeds : FeedBook) (asset source : Address) :
    Setter Unit := do
  authorize caller .setAssetSource
  pointAsset feeds asset source

/-- Points each asset at the feed in its place. All feeds are looked up before the first asset is
pointed; the assets are looked at one by one. -/
def setAssetSources (caller : Address) (feeds : FeedBook) (assets sources : List Address) :
    Setter Unit := do
  authorize caller .setAssetSources
  if assets.length ≠ sources.length then
    throw (.lengthsDiffer assets.length sources.length)
  if sources.any (!feeds.contains ·) then throw .invalidSource
  (assets.zip sources).forM fun p => pointAsset feeds p.1 p.2

def setStalePeriod (caller : Address) (stalePeriod : Int64) : Setter Unit := do
  authorize caller .setStalePeriod
  if stalePeriod ≤ 0 then throw .invalidStalePeriod
  modify ({ · with stalePeriod })

def setLockPeriod (caller : Address) (blocks : UInt64) : Setter Unit := do
  authorize caller .setDefaultLockPeriod
  modify ({ · with lockPeriod := blocks })

end Oracle

end MetaPool
