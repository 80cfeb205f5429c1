import MetaPool.Account.Address

/-!
# Faults

Every operation of the protocol either succeeds or fails with one of these causes. A fault carries
the data of its cause; `Fault.message` is its wording.
-/

namespace MetaPool

/-- What is wrong with a parameter or a configured value. -/
inductive Defect where
  | decimalsAbove (decimals limit : Nat)
  | reserveAbove (percentage : Nat)
  | feeAbove (limit : Nat)
  | feeAboveWhole
  | negativeFeePeriod
  | emptySymbol
  | duplicateToken (symbol : String)
  | symbolDecimalsAbove (symbol : String) (decimals limit : Nat)
  | priceNotPositive (symbol : String)
  | emptyPoolId
  | reservedPoolId (id : String)
  | duplicatePool (id : String)
  | unknownUnderlyer (id symbol : String)
  | metaSharesOffSupply
  | metaSharesOutsidePools
  | poolSharesOffSupply (pool : Address)
  /-- A defect known by its text alone. -/
  | stated (text : String)
deriving DecidableEq

/-- Why an operation of the protocol fails. -/
inductive Fault where
  | notLp
  | notEmergency
  | notAdmin
  | notContract
  | amountInsufficient
  | allowanceInsufficient
  | balanceInsufficient
  | invalidAddress
  | lengthsDiffer (left right : Nat)
  | invalidStalePeriod
  | invalidSource
  | invalidParameter (defect : Defect)
  | insufficientSupply
  | reserveInsufficient (requested available : Nat)
  | zeroTvl
  | missingAddress (id : String)
  | unknownPool (pool : Address)
  | unknownToken (token : Address)
  | alreadyRegistered (address : Address)
  | overrideNotSet
  | locked
  | staleData (age maxAge : Int64)
  | negativeValue
  | missingAssetValue
  | cannotShortenLock
  | paused
  | depositsLocked
  | redemptionsLocked
  | transferExceedsBalance (token holder : Address)
  | overflow
  | underflow
  | divisionByZero
  | conversion
deriving DecidableEq

def Defect.text : Defect → String
  | decimalsAbove d l => "decimals " ++ toString d ++ " exceeds " ++ toString l
  | reserveAbove p => "reserve percentage " ++ toString p ++ " above 100"
  | feeAbove l => "fee above " ++ toString l ++ " bps"
  | feeAboveWhole => "fee above 100%"
  | negativeFeePeriod => "negative arbitrage fee period"
  | emptySymbol => "empty token symbol"
  | duplicateToken s => "duplicate token " ++ s
  | symbolDecimalsAbove s d l => s ++ " decimals " ++ toString d ++ " exceed " ++ toString l
  | priceNotPositive s => s ++ " price must be positive"
  | emptyPoolId => "empty pool id"
  | reservedPoolId i => "pool id " ++ i ++ " is reserved"
  | duplicatePool i => "duplicate pool " ++ i
  | unknownUnderlyer i s => "pool " ++ i ++ " uses unknown token " ++ s
  | metaSharesOffSupply => "mAPT balances do not sum to supply"
  | metaSharesOutsidePools => "mAPT held outside pools"
  | poolSharesOffSupply p => "pool " ++ p.label ++ " balances do not sum to supply"
  | stated t => t

def Fault.message : Fault → String
  | notLp => "Caller lacks the LP role"
  | notEmergency => "Caller lacks the emergency role"
  | notAdmin => "Caller lacks the admin role"
  | notContract => "Caller lacks the contract role"
  | amountInsufficient => "Amount insufficient"
  | allowanceInsufficient => "Allowance insufficient"
  | balanceInsufficient => "Balance insufficient"
  | invalidAddress => "Invalid address"
  | lengthsDiffer l r => "Lengths must match: " ++ toString l ++ " != " ++ toString r
  | invalidStalePeriod => "Invalid stale period"
  | invalidSource => "Invalid source"
  | invalidParameter d => "Invalid parameter: " ++ d.text
  | insufficientSupply => "Insufficient total supply"
  | reserveInsufficient r a =>
    "Reserve insufficient: requested " ++ toString r ++ ", available " ++ toString a
  | zeroTvl => "Invalid zero TVL"
  | missingAddress i => "Missing address: " ++ i
  | unknownPool p => "Unknown pool: " ++ p.label
  | unknownToken t => "Unknown token: " ++ t.label
  | alreadyRegistered a => "Already registered: " ++ a.label
  | overrideNotSet => "No active override to unset"
  | locked => "Oracle locked"
  | staleData a m => "Stale data: " ++ toString a.toInt ++ "s old (max " ++ toString m.toInt ++ "s)"
  | negativeValue => "Negative value"
  | missingAssetValue => "Missing asset value"
  | cannotShortenLock => "Cannot shorten lock"
  | paused => "Pool paused"
  | depositsLocked => "Add liquidity locked"
  | redemptionsLocked => "Redeem locked"
  | transferExceedsBalance t h =>
    "Transfer amount exceeds balance of " ++ h.label ++ " in " ++ t.label
  | overflow => "Math overflow"
  | underflow => "Math underflow"
  | divisionByZero => "Division by zero"
  | conversion => "Conversion error"

end MetaPool
