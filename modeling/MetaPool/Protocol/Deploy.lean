import MetaPool.Deployment.Plan
import MetaPool.Protocol.Basic

/-!
# Deployment

`Protocol.deploy` builds the protocol of a plan: it registers the well-known names, opens a feed and
a token record for each token, points the oracle at the feeds and deploys the pools. Every component
has the same administrators; which components may call it differs.
-/

namespace MetaPool

namespace Plan

/-- The roles of a component that the given components may call. -/
def operators (p : Plan) (callers : List Address) : RoleTable :=
  .ofGrants ((.admin, ⟨p.adminSafe⟩) :: (.emergency, ⟨p.emergencySafe⟩) ::
    callers.map fun caller => (.contract, caller))

/-- The registry of the well-known names. -/
def baseRegistry (p : Plan) : Except Fault Registry :=
  [(metaTokenId, metaTokenId), (lpAccountId, lpAccountId), (oracleId, oracleId),
    (tvlManagerId, tvlManagerId), (adminSafeId, p.adminSafe), (emergencySafeId, p.emergencySafe),
    (lpSafeId, p.lpSafe)].foldlM (fun r e => r.register e.1 ⟨e.2⟩) .empty

/-- Opens the record and the feed of a token. -/
def addToken (time : Int64) (state : TokenBook × FeedBook) (t : TokenPlan) :
    Except Fault (TokenBook × FeedBook) := do
  let tokens ← state.1.register ⟨t.symbol⟩ ⟨t.symbol, t.decimals⟩
  let feeds ← state.2.add ⟨t.feedLabel⟩ ⟨t.price.toInt, time⟩
  return (tokens, feeds)

/-- The oracle, pointed at the feeds of all tokens. -/
def oracle (p : Plan) (feeds : FeedBook) : Except Fault Oracle := do
  let blank ← Oracle.new (p.operators [⟨metaTokenId⟩, ⟨tvlManagerId⟩]) feeds tvlFeed
    p.stalePeriod p.lockPeriod
  let point := Oracle.setAssetSources ⟨p.emergencySafe⟩ feeds
    (p.tokens.map fun t => ⟨t.symbol⟩) (p.tokens.map fun t => ⟨t.feedLabel⟩)
  match point blank with
  | .ok _ oracle => .ok oracle
  | .error fault _ => .error fault

/-- Deploys a pool and registers it. -/
def addPool (roles : RoleTable) (state : OrderedMap Address Pool × Registry) (plan : PoolPlan) :
    Except Fault (OrderedMap Address Pool × Registry) := do
  let address : Address := ⟨plan.id⟩
  let pool ← Pool.new address ⟨plan.underlyer⟩ roles plan.terms
  let registry ← state.2.register plan.id address
  return (state.1.insert address pool, registry)

end Plan

/-- The protocol of a plan at a given clock. -/
def Protocol.deploy (plan : Plan) (clock : Clock) : Except Fault Protocol := do
  plan.validate
  let base ← plan.baseRegistry
  let feeds ← FeedBook.empty.add tvlFeed ⟨0, clock.time⟩
  let (tokens, feeds) ← plan.tokens.foldlM (Plan.addToken clock.time) (.empty, feeds)
  let oracle ← plan.oracle feeds
  let called := plan.operators [⟨metaTokenId⟩]
  let (pools, registry) ← plan.pools.foldlM (Plan.addPool called) (.empty, base)
  return {
    clock, feeds, tokens, registry, oracle, pools
    metaToken := .new ⟨metaTokenId⟩ ((plan.operators []).grant .lp ⟨plan.lpSafe⟩)
    lpAccount := ⟨⟨lpAccountId⟩, called⟩
    allocation := .new called
    log := [] }

end MetaPool
