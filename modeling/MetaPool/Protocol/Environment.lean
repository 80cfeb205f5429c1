import MetaPool.Deployment.Plan
import MetaPool.Protocol.Basic

/-!
# The environment

What happens to the protocol from outside: time passes, feeds publish, tokens arrive and owners
approve spenders. Nothing here is gated, and nothing here is logged.
-/

namespace MetaPool.Protocol

/-! ## Time -/

def passBlocks (blocks : UInt64) : Action Unit :=
  modify fun p => { p with clock := p.clock.passBlocks blocks }

def passTime (seconds : Int64) : Action Unit :=
  modify fun p => { p with clock := p.clock.passTime seconds }

def mine (blocks : UInt64) (spacing : Int64) : Action Unit :=
  modify fun p => { p with clock := p.clock.mine blocks spacing }

/-! ## Feeds -/

/-- Publishes an answer of a feed, given now. -/
def publish (source : Address) (answer : Int) : Action Unit := do
  let time := (← get).clock.time
  onFeeds (·.publish source ⟨answer, time⟩)

/-- Publishes an answer of the TVL feed. -/
def publishTvl (answer : Int) : Action Unit := publish tvlFeed answer

/-- Publishes an answer of the feed at which the oracle is pointed for an asset. -/
def publishPrice (asset : Address) (answer : Int) : Action Unit := do
  match (← get).oracle.assetSource asset with
  | some source => publish source answer
  | none => throw .missingAssetValue

/-- Adds a feed. -/
def openFeed (source : Address) (answer : Int) : Action Unit := do
  let time := (← get).clock.time
  onFeeds (·.add source ⟨answer, time⟩)

/-! ## Tokens -/

/-- Credits tokens to an account. -/
def mintTokens (token holder : Address) (amount : Nat) : Action Unit :=
  onTokens (·.mint token holder amount)

def approve (token owner spender : Address) (amount : Nat) : Action Unit :=
  onTokens (·.approve token owner spender amount)

end MetaPool.Protocol
