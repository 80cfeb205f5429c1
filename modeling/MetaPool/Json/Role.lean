import MetaPool.Account.Roles
import MetaPool.Json.Component

/-!
# Roles and permissions in documents

Roles and permissions are written as their names.
-/

namespace MetaPool

def Role.all : List Role := [admin, emergency, lp, contract]

/-- The role of a name. -/
def Role.ofName? (name : String) : Option Role := all.find? (·.name = name)

namespace Permission

/-- The name of a permission in documents. -/
def name : Permission → String
  | lockOracle => "OracleLock"
  | unlockOracle => "OracleEmergencyUnlock"
  | setTvlOverride => "OracleSetTvlOverride"
  | unsetTvlOverride => "OracleUnsetTvlOverride"
  | setAssetOverride => "OracleSetAssetOverride"
  | unsetAssetOverride => "OracleUnsetAssetOverride"
  | setTvlSource => "OracleSetTvlSource"
  | setAssetSource => "OracleSetAssetSource"
  | setAssetSources => "OracleSetAssetSources"
  | setStalePeriod => "OracleSetStalePeriod"
  | setDefaultLockPeriod => "OracleSetDefaultLockPeriod"
  | pausePool => "PoolEmergencyLock"
  | lockDeposits => "PoolLockAddLiquidity"
  | lockRedemptions => "PoolLockRedeem"
  | setReservePercentage => "PoolSetReservePercentage"
  | setWithdrawFee => "PoolSetWithdrawFee"
  | setArbitrageFee => "PoolSetArbitrageFee"
  | sendToLpAccount => "PoolTransferToLpAccount"
  | sendSurplus => "FundLpAccount"
  | recallShortfall => "WithdrawFromLpAccount"
  | sendByHand => "EmergencyFundLpAccount"
  | recallByHand => "EmergencyWithdrawFromLpAccount"
  | returnToPool => "LpAccountTransferToPool"
  | registerToken => "RegisterErc20Token"

def all : List Permission :=
  [lockOracle, unlockOracle, setTvlOverride, unsetTvlOverride, setAssetOverride,
    unsetAssetOverride, setTvlSource, setAssetSource, setAssetSources, setStalePeriod,
    setDefaultLockPeriod, pausePool, lockDeposits, lockRedemptions, setReservePercentage,
    setWithdrawFee, setArbitrageFee, sendToLpAccount, sendSurplus, recallShortfall,
    sendByHand, recallByHand, returnToPool, registerToken]

/-- The permission of a name. -/
def ofName? (name : String) : Option Permission := all.find? (·.name = name)

end Permission

end MetaPool
