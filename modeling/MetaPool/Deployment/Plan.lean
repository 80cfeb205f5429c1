import MetaPool.Pool.Terms
import MetaPool.Price.Oracle
import MetaPool.Text.Lowercase

/-!
# Deployment plans

A plan lists what a deployment consists of: the oracle's periods, the operators, the tokens with
their first prices and the pools. `Plan.validate` accepts plans whose tokens and pools are well
formed and named once; of several defects it reports the first in the order of the fields.
-/

namespace MetaPool

/-- A token and the first answer of its price feed. -/
structure TokenPlan where
  symbol : String
  decimals : Nat
  /-- The worth of one whole token in feed units. -/
  price : Int64
deriving DecidableEq

/-- The address of the token's price feed. -/
def TokenPlan.feedLabel (t : TokenPlan) : String := Text.lowercase t.symbol ++ "-usd-agg"

/-- A pool for one underlyer. -/
structure PoolPlan where
  /-- The pool's identifier in the registry and its address. -/
  id : String
  /-- The symbol of a planned token. -/
  underlyer : String
  terms : PoolTerms
deriving DecidableEq

/-- Everything that a deployment needs. -/
structure Plan where
  stalePeriod : Int64
  lockPeriod : UInt64
  adminSafe : String
  emergencySafe : String
  lpSafe : String
  tokens : List TokenPlan
  pools : List PoolPlan
deriving DecidableEq

/-! ## Well-known names -/

def metaTokenId : String := "mApt"
def lpAccountId : String := "lpAccount"
def oracleId : String := "oracleAdapter"
def tvlManagerId : String := "tvlManager"
def adminSafeId : String := "adminSafe"
def emergencySafeId : String := "emergencySafe"
def lpSafeId : String := "lpSafe"

/-- The address of the feed that reports the TVL. -/
def tvlFeed : Address := ⟨"tvl-usd-agg"⟩

/-- The identifiers that no pool may take. -/
def reservedIds : List String :=
  [metaTokenId, lpAccountId, oracleId, tvlManagerId, adminSafeId, emergencySafeId, lpSafeId]

namespace Plan

/-- Three dollar tokens and a pool for each. -/
instance : Inhabited Plan where
  default := {
    stalePeriod := defaultStalePeriod
    lockPeriod := defaultLockPeriod
    adminSafe := adminSafeId
    emergencySafe := emergencySafeId
    lpSafe := lpSafeId
    tokens := [⟨"DAI", 18, 100000000⟩, ⟨"USDC", 6, 100000000⟩, ⟨"USDT", 6, 100000000⟩]
    pools := [⟨"daiPool", "DAI", default⟩, ⟨"usdcPool", "USDC", default⟩,
      ⟨"usdtPool", "USDT", default⟩] }

/-! ## Validation -/

/-- The first defect of a token that comes after tokens of the given symbols. -/
def tokenDefect (earlier : List String) (t : TokenPlan) : Option Defect :=
  if t.symbol.isEmpty then some .emptySymbol
  else if t.symbol ∈ earlier then some (.duplicateToken t.symbol)
  else if t.decimals > maxDecimals then
    some (.symbolDecimalsAbove t.symbol t.decimals maxDecimals)
  else if t.price ≤ 0 then some (.priceNotPositive t.symbol)
  else none

def validateTokens (earlier : List String) : List TokenPlan → Except Fault Unit
  | [] => .ok ()
  | t :: rest =>
    match tokenDefect earlier t with
    | some defect => .error (.invalidParameter defect)
    | none => validateTokens (t.symbol :: earlier) rest

/-- The first defect of a pool's names, if it comes after pools of the given identifiers. -/
def poolDefect (symbols earlier : List String) (p : PoolPlan) : Option Defect :=
  if p.id.isEmpty then some .emptyPoolId
  else if p.id ∈ reservedIds then some (.reservedPoolId p.id)
  else if p.id ∈ earlier then some (.duplicatePool p.id)
  else if p.underlyer ∉ symbols then some (.unknownUnderlyer p.id p.underlyer)
  else none

def validatePools (symbols earlier : List String) : List PoolPlan → Except Fault Unit
  | [] => .ok ()
  | p :: rest =>
    match poolDefect symbols earlier p with
    | some defect => .error (.invalidParameter defect)
    | none => do
      p.terms.validate
      validatePools symbols (p.id :: earlier) rest

def validate (p : Plan) : Except Fault Unit :=
  if p.stalePeriod ≤ 0 then .error .invalidStalePeriod
  else if p.adminSafe.isEmpty ∨ p.emergencySafe.isEmpty ∨ p.lpSafe.isEmpty then
    .error .invalidAddress
  else do
    validateTokens [] p.tokens
    validatePools (p.tokens.map (·.symbol)) [] p.pools

end Plan

end MetaPool
