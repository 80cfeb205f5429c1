import MetaPool.Collection.OrderedMap
import MetaPool.Quantity.Checked

/-!
# The token book

The token book records, for each registered token, its symbol and decimals, its supply, the balance
of every account and what each owner lets each spender move. Tokens are minted from outside and move
between accounts; a move never changes the supply.
-/

namespace MetaPool

/-- A token's symbol and number of decimals. -/
structure TokenTraits where
  symbol : String
  decimals : Nat
deriving DecidableEq

/-- All that is recorded of one token. Allowances are listed by owner, then by spender. -/
structure TokenRecord where
  traits : TokenTraits
  supply : Nat
  balances : OrderedMap Address Nat
  allowances : OrderedMap Address (OrderedMap Address Nat)
deriving DecidableEq

namespace TokenRecord

def balanceOf (r : TokenRecord) (holder : Address) : Nat := (r.balances.get? holder).getD 0

def allowance (r : TokenRecord) (owner spender : Address) : Nat :=
  (((r.allowances.get? owner).getD .empty).get? spender).getD 0

def approve (r : TokenRecord) (owner spender : Address) (amount : Nat) : TokenRecord :=
  { r with allowances :=
      r.allowances.insert owner (((r.allowances.get? owner).getD .empty).insert spender amount) }

end TokenRecord

/-- The records of all tokens. -/
structure TokenBook where
  records : OrderedMap Address TokenRecord
deriving DecidableEq

namespace TokenBook

def empty : TokenBook := ⟨.empty⟩

instance : Inhabited TokenBook := ⟨empty⟩

/-- Opens the record of a token. -/
def register (b : TokenBook) (token : Address) (traits : TokenTraits) : Except Fault TokenBook :=
  if token.isEmpty then .error .invalidAddress
  else if traits.decimals > maxDecimals then
    .error (.invalidParameter (.decimalsAbove traits.decimals maxDecimals))
  else if b.records.contains token then .error (.alreadyRegistered token)
  else .ok ⟨b.records.insert token
    { traits, supply := 0, balances := .empty, allowances := .empty }⟩

def isRegistered (b : TokenBook) (token : Address) : Bool := b.records.contains token

def tokens (b : TokenBook) : List Address := b.records.keys

/-- The record of a token. -/
def record (b : TokenBook) (token : Address) : Except Fault TokenRecord :=
  match b.records.get? token with
  | some r => .ok r
  | none => .error (.unknownToken token)

def traits (b : TokenBook) (token : Address) : Except Fault TokenTraits := do
  return (← b.record token).traits

def decimals (b : TokenBook) (token : Address) : Except Fault Nat := do
  return (← b.traits token).decimals

def symbol (b : TokenBook) (token : Address) : Except Fault String := do
  return (← b.traits token).symbol

def supply (b : TokenBook) (token : Address) : Except Fault Nat := do
  return (← b.record token).supply

def balanceOf (b : TokenBook) (token holder : Address) : Except Fault Nat := do
  return (← b.record token).balanceOf holder

def allowance (b : TokenBook) (token owner spender : Address) : Except Fault Nat := do
  return (← b.record token).allowance owner spender

/-- Credits new tokens to an account. -/
def mint (b : TokenBook) (token holder : Address) (amount : Nat) : Except Fault TokenBook := do
  let r ← b.record token
  let supply ← Checked.add r.supply amount
  let balance ← Checked.add (r.balanceOf holder) amount
  return ⟨b.records.insert token { r with supply, balances := r.balances.insert holder balance }⟩

/-- Lets `spender` move up to `amount` of the owner's tokens, whatever it was allowed before. -/
def approve (b : TokenBook) (token owner spender : Address) (amount : Nat) :
    Except Fault TokenBook := do
  let r ← b.record token
  return ⟨b.records.insert token (r.approve owner spender amount)⟩

/-- Moves tokens between accounts. A move to oneself or of nothing changes nothing. -/
def transfer (b : TokenBook) (token source target : Address) (amount : Nat) :
    Except Fault TokenBook :=
  if target.isEmpty then .error .invalidAddress
  else do
    let r ← b.record token
    let held := r.balanceOf source
    if held < amount then .error (.transferExceedsBalance token source)
    else if source = target ∨ amount = 0 then return b
    else
      let balance ← Checked.add (r.balanceOf target) amount
      return ⟨b.records.insert token
        { r with balances := (r.balances.insert source (held - amount)).insert target balance }⟩

/-- Moves tokens on behalf of `source` out of what it allows `spender`. -/
def transferFrom (b : TokenBook) (token spender source target : Address) (amount : Nat) :
    Except Fault TokenBook := do
  let allowed ← b.allowance token source spender
  if allowed < amount then .error .allowanceInsufficient
  else
    let moved ← b.transfer token source target amount
    let remaining ← Checked.sub allowed amount
    moved.approve token source spender remaining

end TokenBook

end MetaPool
