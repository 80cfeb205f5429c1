import MetaPool.Proofs.Collection.Lookup
import MetaPool.Proofs.Collection.Values
import MetaPool.Proofs.InPlace
import MetaPool.Proofs.Ledger.Tokens

/-!
# Writing the token book in place

A routine of the token book writes one part of a record after the other, and what it has written stays
written if it fails later on. Every instruction makes all its checks before its first write, but
for a move out of an allowance, which moves the tokens before it writes the rest of the allowance back: two
more steps that could fail. They do not, because the first check has seen to both. So each instruction
happens or leaves the book as it was.

    i.carryOut = allOrNothing i.apply                               (carryOut_eq)
-/

namespace MetaPool.TokenBook

open InPlace

variable {b b' : TokenBook} {token holder source target spender owner : Address}
  {amount : Nat} {r : TokenRecord}

/-! ## Instructions -/

/-- What the token book can be told to do. -/
inductive Instruction where
  | register (token : Address) (traits : TokenTraits)
  | mint (token holder : Address) (amount : Nat)
  | approve (token owner spender : Address) (amount : Nat)
  | transfer (token source target : Address) (amount : Nat)
  | transferFrom (token spender source target : Address) (amount : Nat)

/-- The book that an instruction makes out of a book. -/
def Instruction.apply (i : Instruction) (b : TokenBook) : Except Fault TokenBook :=
  match i with
  | register token traits => b.register token traits
  | mint token holder amount => b.mint token holder amount
  | approve token owner spender amount => b.approve token owner spender amount
  | transfer token source target amount => b.transfer token source target amount
  | transferFrom token spender source target amount => b.transferFrom token spender source target amount

/-! ## Routines -/

/-- Writes to the record of a token. -/
def write (token : Address) (change : TokenRecord → TokenRecord) : Routine TokenBook Unit :=
  modify fun b => ⟨b.records.adjust token change⟩

def mintInPlace (token holder : Address) (amount : Nat) : Routine TokenBook Unit := do
  let r ← look (·.record token)
  let supply ← look fun _ => Checked.add r.supply amount
  let balance ← look fun _ => Checked.add (r.balanceOf holder) amount
  write token ({ · with supply })
  write token fun r => { r with balances := r.balances.insert holder balance }

def approveInPlace (token owner spender : Address) (amount : Nat) : Routine TokenBook Unit := do
  let _ ← look (·.record token)
  write token (·.approve owner spender amount)

def transferInPlace (token source target : Address) (amount : Nat) : Routine TokenBook Unit :=
  if target.isEmpty then throw .invalidAddress
  else do
    let r ← look (·.record token)
    let held := r.balanceOf source
    if held < amount then throw (.transferExceedsBalance token source)
    else if source = target ∨ amount = 0 then return
    else
      let balance ← look fun _ => Checked.add (r.balanceOf target) amount
      write token fun r => { r with balances := r.balances.insert source (held - amount) }
      write token fun r => { r with balances := r.balances.insert target balance }

def transferFromInPlace (token spender source target : Address) (amount : Nat) : Routine TokenBook Unit := do
  let allowed ← look (·.allowance token source spender)
  if allowed < amount then throw .allowanceInsufficient
  else
    transferInPlace token source target amount
    let remaining ← look fun _ => Checked.sub allowed amount
    approveInPlace token source spender remaining

/-- Carries out an instruction step by step. -/
def Instruction.carryOut : Instruction → Routine TokenBook Unit
  | register token traits => allOrNothing (·.register token traits)
  | mint token holder amount => mintInPlace token holder amount
  | approve token owner spender amount => approveInPlace token owner spender amount
  | transfer token source target amount => transferInPlace token source target amount
  | transferFrom token spender source target amount =>
    transferFromInPlace token spender source target amount

/-! ## Writes -/

theorem write_eq {change : TokenRecord → TokenRecord} (h : b.records.get? token = some r) :
    write token change b = .ok () ⟨b.records.insert token (change r)⟩ := by
  show EStateM.Result.ok () (TokenBook.mk (b.records.adjust token change)) = _
  rw [OrderedMap.adjust_eq_insert h]

/-- Two writes to one record are one. -/
theorem write_write_eq {first second : TokenRecord → TokenRecord} (h : b.records.get? token = some r) :
    (write token first >>= fun _ => write token second) b =
      .ok () ⟨b.records.insert token (second (first r))⟩ := by
  have hsecond : write token second ⟨b.records.insert token (first r)⟩ =
      .ok () ⟨b.records.insert token (second (first r))⟩ := by
    rw [write_eq (by rw [OrderedMap.get?_insert, if_pos rfl]), OrderedMap.insert_insert]
  exact bind_eq_ok.2 ⟨(), _, write_eq h, hsecond⟩

/-! ## All or nothing -/

theorem mintInPlace_eq (token holder : Address) (amount : Nat) (b : TokenBook) :
    mintInPlace token holder amount b = allOrNothing (·.mint token holder amount) b := by
  refine look_bind_eq fun r hr => look_bind_eq fun supply _ => look_bind_eq fun balance _ => ?_
  rw [write_write_eq (record_eq_ok.1 hr)]
  exact (allOrNothing_of_ok rfl).symm

theorem approveInPlace_eq (token owner spender : Address) (amount : Nat) (b : TokenBook) :
    approveInPlace token owner spender amount b = allOrNothing (·.approve token owner spender amount) b := by
  refine look_bind_eq fun r hr => ?_
  rw [write_eq (record_eq_ok.1 hr)]
  exact (allOrNothing_of_ok rfl).symm

theorem transferInPlace_eq (token source target : Address) (amount : Nat) (b : TokenBook) :
    transferInPlace token source target amount b = allOrNothing (·.transfer token source target amount) b := by
  unfold transferInPlace transfer
  split
  next => rfl
  refine look_bind_eq fun r hr => ?_
  dsimp only
  split
  next => rfl
  split
  next => exact (allOrNothing_of_ok rfl).symm
  refine look_bind_eq fun balance _ => ?_
  rw [write_write_eq (record_eq_ok.1 hr)]
  exact (allOrNothing_of_ok rfl).symm

/-- A token that has a record still has one after a transfer. -/
theorem exists_approve_of_transfer (h : b.transfer token source target amount = .ok b')
    (spender : Address) (v : Nat) : ∃ b'', b'.approve token source spender v = .ok b'' := by
  obtain ⟨-, m, -, hm, -⟩ := record_of_transfer h
  exact ⟨_, approve_eq_ok.2 ⟨m, hm, rfl⟩⟩

/-- What follows the move of the tokens cannot fail: the allowance covers the amount, and the token has a
record. -/
theorem transferFromInPlace_eq (token spender source target : Address) (amount : Nat) (b : TokenBook) :
    transferFromInPlace token spender source target amount b =
      allOrNothing (·.transferFrom token spender source target amount) b := by
  unfold transferFromInPlace transferFrom
  refine look_bind_eq fun allowed _ => ?_
  split
  next => rfl
  next hcovers =>
  have hremaining : Checked.sub allowed amount = .ok (allowed - amount) :=
    Checked.sub_eq_ok.2 ⟨Nat.not_lt.1 hcovers, rfl⟩
  cases hmove : b.transfer token source target amount with
  | error fault =>
    rw [allOrNothing_of_error (except_bind_eq_error.2 (.inl hmove))]
    refine bind_eq_error.2 (.inl ?_)
    rw [transferInPlace_eq, allOrNothing_of_error hmove]
  | ok moved =>
    obtain ⟨b', happrove⟩ := exists_approve_of_transfer hmove spender (allowed - amount)
    have hall : (do
        let moved ← b.transfer token source target amount
        let remaining ← Checked.sub allowed amount
        moved.approve token source spender remaining) = .ok b' :=
      except_bind_eq_ok.2 ⟨moved, hmove, except_bind_eq_ok.2 ⟨_, hremaining, happrove⟩⟩
    rw [allOrNothing_of_ok hall]
    refine bind_eq_ok.2 ⟨(), moved, ?_, ?_⟩
    · rw [transferInPlace_eq, allOrNothing_of_ok hmove]
    · rw [look_bind, hremaining]
      dsimp only
      rw [approveInPlace_eq, allOrNothing_of_ok happrove]

/-- Every instruction happens or leaves the book as it was. -/
theorem carryOut_eq (i : Instruction) (b : TokenBook) : i.carryOut b = allOrNothing i.apply b := by
  cases i with
  | register token traits => rfl
  | mint token holder amount => exact mintInPlace_eq token holder amount b
  | approve token owner spender amount => exact approveInPlace_eq token owner spender amount b
  | transfer token source target amount => exact transferInPlace_eq token source target amount b
  | transferFrom token spender source target amount =>
    exact transferFromInPlace_eq token spender source target amount b

end MetaPool.TokenBook
