import MetaPool.Fault
import MetaPool.Json.Value
import MetaPool.Quantity.Checked

/-!
# Faults in documents

A fault without data is written as its name; a fault with data as an object with one field, whose
name is that of the fault and whose value holds the data: the datum itself, an array of two, or an
object. Reading also takes an array in place of an object and a field of value null for a fault
without data. What is wrong with a parameter is known by its text alone.
-/

namespace MetaPool

open Json

namespace Fault

/-- The name of a fault in documents. -/
def tag : Fault → String
  | notLp => "NotLpRole"
  | notEmergency => "NotEmergencyRole"
  | notAdmin => "NotAdminRole"
  | notContract => "NotContractRole"
  | amountInsufficient => "AmountInsufficient"
  | allowanceInsufficient => "AllowanceInsufficient"
  | balanceInsufficient => "BalanceInsufficient"
  | invalidAddress => "InvalidAddress"
  | lengthsDiffer .. => "LengthsMustMatch"
  | invalidStalePeriod => "InvalidStalePeriod"
  | invalidSource => "InvalidSource"
  | invalidParameter _ => "InvalidParameter"
  | insufficientSupply => "InsufficientTotalSupply"
  | reserveInsufficient .. => "ReserveInsufficient"
  | zeroTvl => "InvalidZeroTvl"
  | missingAddress _ => "MissingAddress"
  | unknownPool _ => "UnknownPool"
  | unknownToken _ => "UnknownToken"
  | alreadyRegistered _ => "AlreadyRegistered"
  | overrideNotSet => "OverrideNotSet"
  | locked => "Locked"
  | staleData .. => "StaleData"
  | negativeValue => "NegativeValue"
  | missingAssetValue => "MissingAssetValue"
  | cannotShortenLock => "CannotShortenLock"
  | paused => "Paused"
  | depositsLocked => "AddLiquidityLocked"
  | redemptionsLocked => "RedeemLocked"
  | transferExceedsBalance .. => "TransferExceedsBalance"
  | overflow => "MathOverflow"
  | underflow => "MathUnderflow"
  | divisionByZero => "DivisionByZero"
  | conversion => "ConversionError"

/-- The data of a fault, if it has any. -/
def data : Fault → Option Value
  | lengthsDiffer left right => some (.array [.ofNat left, .ofNat right])
  | invalidParameter defect => some (.ofString defect.text)
  | reserveInsufficient requested available =>
    some (.ofFields [("requested", .ofNat requested), ("available", .ofNat available)])
  | missingAddress id => some (.ofString id)
  | unknownPool pool => some (.ofString pool.label)
  | unknownToken token => some (.ofString token.label)
  | alreadyRegistered address => some (.ofString address.label)
  | staleData age maxAge =>
    some (.ofFields [("age_seconds", .ofInt age.toInt), ("max_age", .ofInt maxAge.toInt)])
  | transferExceedsBalance token holder =>
    some (.ofFields [("token", .ofString token.label), ("holder", .ofString holder.label)])
  | _ => none

/-- A fault as it is written. -/
def toJson (f : Fault) : Value :=
  match f.data with
  | some data => .ofFields [(f.tag, data)]
  | none => .ofString f.tag

/-! ## Reading -/

/-- The faults without data. -/
def plain : List Fault :=
  [notLp, notEmergency, notAdmin, notContract, amountInsufficient, allowanceInsufficient,
    balanceInsufficient, invalidAddress, invalidStalePeriod, invalidSource, insufficientSupply,
    zeroTvl, overrideNotSet, locked, negativeValue, missingAssetValue, cannotShortenLock, paused,
    depositsLocked, redemptionsLocked, overflow, underflow, divisionByZero, conversion]

/-- The fault without data of a name. -/
def ofTag? (tag : String) : Option Fault := plain.find? (·.tag = tag)

/-- A fault of the given name from its data. -/
def ofData? (tag : String) (data : Value) : Option Fault :=
  match tag with
  | "LengthsMustMatch" => do
    match ← (← data.elements? 2).mapM (·.natUpTo? maxWord) with
    | [left, right] => some (lengthsDiffer left right)
    | _ => none
  | "InvalidParameter" => data.string?.map fun text => invalidParameter (.stated text)
  | "ReserveInsufficient" => do
    match ← (← data.record? ["requested", "available"]).mapM (·.natUpTo? maxAmount) with
    | [requested, available] => some (reserveInsufficient requested available)
    | _ => none
  | "MissingAddress" => data.string?.map missingAddress
  | "UnknownPool" => data.string?.map fun label => unknownPool ⟨label⟩
  | "UnknownToken" => data.string?.map fun label => unknownToken ⟨label⟩
  | "AlreadyRegistered" => data.string?.map fun label => alreadyRegistered ⟨label⟩
  | "StaleData" => do
    match ← (← data.record? ["age_seconds", "max_age"]).mapM (·.int64?) with
    | [age, maxAge] => some (staleData age maxAge)
    | _ => none
  | "TransferExceedsBalance" => do
    match ← (← data.record? ["token", "holder"]).mapM (·.string?) with
    | [token, holder] => some (transferExceedsBalance ⟨token⟩ ⟨holder⟩)
    | _ => none
  | tag =>
    match data with
    | .null => ofTag? tag
    | _ => none

/-- The fault that a value states. -/
def ofJson? : Value → Option Fault
  | .string (some tag) => ofTag? tag
  | .object [(some tag, data)] => ofData? tag data
  | _ => none

end Fault

end MetaPool
