import MetaPool.Collection.OrderedMap
import MetaPool.Fault
import MetaPool.Quantity.Clock

/-!
# Price feeds

A feed publishes rounds: a signed answer in feed units and the time at which it was given. Feeds
have addresses, so that an oracle can be pointed at another one.
-/

namespace MetaPool

/-- The latest answer of a feed. -/
structure Round where
  answer : Int
  updatedAt : Int64
deriving DecidableEq

/-- The seconds since the answer was given, and zero for an answer of the future. -/
def Round.age (r : Round) (c : Clock) : Int64 :=
  let age := c.since r.updatedAt
  if age < 0 then 0 else age

/-- The latest round of every feed. -/
structure FeedBook where
  feeds : OrderedMap Address Round
deriving DecidableEq

namespace FeedBook

def empty : FeedBook := ⟨.empty⟩

instance : Inhabited FeedBook := ⟨empty⟩

def contains (n : FeedBook) (source : Address) : Bool := n.feeds.contains source

/-- Adds a feed with its first round. -/
def add (n : FeedBook) (source : Address) (round : Round) : Except Fault FeedBook :=
  if source.isEmpty then .error .invalidSource
  else if n.contains source then .error (.alreadyRegistered source)
  else .ok ⟨n.feeds.insert source round⟩

/-- Publishes a new round of a feed. -/
def publish (n : FeedBook) (source : Address) (round : Round) : Except Fault FeedBook :=
  if n.contains source then .ok ⟨n.feeds.insert source round⟩ else .error .invalidSource

def latest (n : FeedBook) (source : Address) : Except Fault Round :=
  match n.feeds.get? source with
  | some round => .ok round
  | none => .error .invalidSource

end FeedBook

end MetaPool
