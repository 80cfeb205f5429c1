import MetaPool.Protocol.Basic

/-!
# Controls

What operators do to pools and to the oracle: locks, terms, overrides, sources and periods. Each
control asks the component whether the caller may use it and logs the change that it made.
-/

namespace MetaPool.Protocol

/-! ## Pools -/

def setPoolPaused (caller pool : Address) (paused : Bool) : Action Unit := atomically do
  onPool pool (·.setPaused caller paused)
  logEvent (.poolPaused pool paused)

def setDepositLock (caller pool : Address) (locked : Bool) : Action Unit := atomically do
  onPool pool (·.setDepositLock caller locked)
  logEvent (.depositsLocked pool locked)

def setRedemptionLock (caller pool : Address) (locked : Bool) : Action Unit := atomically do
  onPool pool (·.setRedemptionLock caller locked)
  logEvent (.redemptionsLocked pool locked)

def setReservePercentage (caller pool : Address) (percentage : Nat) : Action Unit := atomically do
  onPool pool (·.setReservePercentage caller percentage)
  logEvent (.reservePercentageChanged pool percentage)

def setWithdrawFee (caller pool : Address) (bps : Nat) : Action Unit := atomically do
  onPool pool (·.setWithdrawFee caller bps)
  logEvent (.withdrawFeeChanged pool bps)

def setArbitrageFee (caller pool : Address) (bps : Nat) (period : Int64) : Action Unit :=
  atomically do
    onPool pool (·.setArbitrageFee caller bps period)
    logEvent (.arbitrageFeeChanged pool bps period)

/-! ## The oracle -/

def lockOracle (caller : Address) : Action Unit := atomically do
  onOracle fun clock _ => Oracle.lock caller clock
  logEvent (.oracleLocked (← get).oracle.lockEnd)

def lockOracleFor (caller : Address) (blocks : UInt64) : Action Unit := atomically do
  onOracle fun clock _ => Oracle.lockFor caller clock blocks
  logEvent (.oracleLocked (← get).oracle.lockEnd)

def unlockOracle (caller : Address) : Action Unit := atomically do
  onOracle fun clock _ => Oracle.unlock caller clock
  logEvent .oracleUnlocked

def setTvlOverride (caller : Address) (value : Int) (duration : UInt64) : Action Unit :=
  atomically do
    let manual ← onOracle fun clock _ => Oracle.setTvl caller clock value duration
    logEvent (.tvlOverrideSet value manual.expiry)

def unsetTvlOverride (caller : Address) : Action Unit := atomically do
  onOracle fun clock _ => Oracle.unsetTvl caller clock
  logEvent .tvlOverrideUnset

def setAssetOverride (caller asset : Address) (value : Int) (duration : UInt64) : Action Unit :=
  atomically do
    let manual ← onOracle fun clock _ => Oracle.setAssetValue caller clock asset value duration
    logEvent (.assetOverrideSet asset value manual.expiry)

def unsetAssetOverride (caller asset : Address) : Action Unit := atomically do
  onOracle fun clock _ => Oracle.unsetAssetValue caller clock asset
  logEvent (.assetOverrideUnset asset)

def setTvlSource (caller source : Address) : Action Unit := atomically do
  onOracle fun _ feeds => Oracle.setTvlSource caller feeds source
  logEvent (.tvlSourceChanged source)

def setAssetSource (caller asset source : Address) : Action Unit := atomically do
  onOracle fun _ feeds => Oracle.setAssetSource caller feeds asset source
  logEvent (.assetSourceChanged asset source)

def setAssetSources (caller : Address) (assets sources : List Address) : Action Unit :=
  atomically do
    onOracle fun _ feeds => Oracle.setAssetSources caller feeds assets sources
    (assets.zip sources).forM fun (asset, source) => logEvent (.assetSourceChanged asset source)

def setStalePeriod (caller : Address) (period : Int64) : Action Unit := atomically do
  onOracle fun _ _ => Oracle.setStalePeriod caller period
  logEvent (.stalePeriodChanged period)

def setLockPeriod (caller : Address) (blocks : UInt64) : Action Unit := atomically do
  onOracle fun _ _ => Oracle.setLockPeriod caller blocks
  logEvent (.lockPeriodChanged blocks)

end MetaPool.Protocol
