import MetaPool.Account.Address

/-!
# Events

The protocol logs what it does. A record carries the height and the time at which its event
happened.
-/

namespace MetaPool

/-- What happened. -/
inductive Event where
  | deposited (pool sender token : Address) (amount shares totalValue : Nat)
  | redeemed (pool sender token : Address) (amount shares totalValue : Nat)
  | poolPaused (pool : Address) (paused : Bool)
  | depositsLocked (pool : Address) (locked : Bool)
  | redemptionsLocked (pool : Address) (locked : Bool)
  | reservePercentageChanged (pool : Address) (percentage : Nat)
  | withdrawFeeChanged (pool : Address) (bps : Nat)
  | arbitrageFeeChanged (pool : Address) (bps : Nat) (period : Int64)
  | metaMinted (pool : Address) (amount : Nat)
  | metaBurned (pool : Address) (amount : Nat)
  | capitalSent (pool token : Address) (amount : Nat)
  | capitalReturned (pool token : Address) (amount : Nat)
  | tokenRegistered (token : Address) (symbol : String) (decimals : Nat)
  | oracleLocked (lockEnd : UInt64)
  | oracleUnlocked
  | tvlOverrideSet (value : Int) (expiry : UInt64)
  | tvlOverrideUnset
  | assetOverrideSet (asset : Address) (value : Int) (expiry : UInt64)
  | assetOverrideUnset (asset : Address)
  | tvlSourceChanged (source : Address)
  | assetSourceChanged (asset source : Address)
  | stalePeriodChanged (period : Int64)
  | lockPeriodChanged (blocks : UInt64)
deriving DecidableEq

/-- An event and when it happened. -/
structure LogEntry where
  height : UInt64
  time : Int64
  event : Event
deriving DecidableEq

end MetaPool
