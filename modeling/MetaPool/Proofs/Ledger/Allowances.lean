import MetaPool.Proofs.Ledger.Deposit
import MetaPool.Proofs.Ledger.InPlace

/-!
# Allowances bound what is spent

An approval that succeeds sets an allowance, and a move out of the allowance that succeeds takes its amount off
it, also where it moves nothing, to oneself or of nothing. Nothing else writes the allowance, and what fails
writes nothing. So along a run of instructions an allowance and what has been moved out of it since the latest
approval make up what was approved.

    allowed after i + moved by i = approved by i, or else allowed before     (allowed_after)
    allowed after the run + moved since = approved last, or else allowed before it  (allowed_run)
-/

namespace MetaPool.TokenBook

open InPlace

variable {b b' : TokenBook} {i : Instruction} {t o s : Address}

/-! ## Runs -/

/-- Whether an instruction succeeds. -/
def Instruction.succeeds (i : Instruction) (b : TokenBook) : Bool :=
  match i.carryOut b with
  | .ok _ _ => true
  | .error _ _ => false

/-- The book that an instruction leaves, whether it succeeds or fails. -/
def after (b : TokenBook) (i : Instruction) : TokenBook :=
  match i.carryOut b with
  | .ok _ b' => b'
  | .error _ b' => b'

/-- The book that instructions leave, one after the other. -/
def run (b : TokenBook) (instructions : List Instruction) : TokenBook := instructions.foldl after b

/-- An instruction that is carried out does what it says, or it fails and leaves the book as it was. -/
theorem carryOut_cases (i : Instruction) (b : TokenBook) :
    (∃ b', i.apply b = .ok b' ∧ i.carryOut b = .ok () b' ∧ i.succeeds b = true ∧ b.after i = b') ∨
      ∃ fault, i.apply b = .error fault ∧ i.carryOut b = .error fault b ∧ i.succeeds b = false ∧
        b.after i = b := by
  unfold Instruction.succeeds after
  rw [carryOut_eq]
  cases happly : i.apply b with
  | ok b' =>
    rw [allOrNothing_of_ok happly]
    exact .inl ⟨b', rfl, rfl, rfl, rfl⟩
  | error fault =>
    rw [allOrNothing_of_error happly]
    exact .inr ⟨fault, rfl, rfl, rfl, rfl⟩

/-! ## What instructions do to an allowance -/

/-- What an owner lets a spender move; nothing, of a token without a record. -/
def allowed (b : TokenBook) (token owner spender : Address) : Nat :=
  match b.records.get? token with
  | some r => r.allowance owner spender
  | none => 0

/-- Whether an instruction is about what an owner lets a spender move. -/
def Instruction.concerns (token owner spender : Address) : Instruction → Bool
  | approve t o s _ => decide (t = token ∧ o = owner ∧ s = spender)
  | transferFrom t s source _ _ => decide (t = token ∧ source = owner ∧ s = spender)
  | register _ _ | mint _ _ _ | transfer _ _ _ _ => false

/-- What an instruction approves, if it succeeds. -/
def Instruction.approves (token owner spender : Address) (i : Instruction) (b : TokenBook) : Option Nat :=
  match i with
  | approve _ _ _ amount =>
    if i.concerns token owner spender && i.succeeds b then some amount else none
  | _ => none

/-- What an instruction moves out of the allowance, if it succeeds. -/
def Instruction.moves (token owner spender : Address) (i : Instruction) (b : TokenBook) : Nat :=
  match i with
  | transferFrom _ _ _ _ amount =>
    if i.concerns token owner spender && i.succeeds b then amount else 0
  | _ => 0

theorem allowed_insert {token : Address} {r : TokenRecord} (t o s : Address) :
    allowed ⟨b.records.insert token r⟩ t o s = if t = token then r.allowance o s else b.allowed t o s := by
  unfold allowed
  rw [OrderedMap.get?_insert]
  by_cases ht : t = token <;> simp [ht]

theorem allowed_of_record {r : TokenRecord} (h : b.records.get? t = some r) (o s : Address) :
    b.allowed t o s = r.allowance o s := by
  simp only [allowed, h]

/-- A record is exchanged for one with the same allowances. -/
theorem allowed_insert_same {token : Address} {r r' : TokenRecord} (hr : b.records.get? token = some r)
    (hsame : r'.allowances = r.allowances) (t o s : Address) :
    allowed ⟨b.records.insert token r'⟩ t o s = b.allowed t o s := by
  rw [allowed_insert]
  split
  next ht =>
    rw [ht, allowed_of_record hr]
    simp only [TokenRecord.allowance, hsame]
  next => rfl

theorem allowed_of_register {token : Address} {traits : TokenTraits}
    (h : b.register token traits = .ok b') : b'.allowed t o s = b.allowed t o s := by
  simp only [register, refuse_eq_ok] at h
  obtain ⟨-, -, hnew, h⟩ := h
  obtain rfl := Except.ok.inj h
  rw [allowed_insert]
  split
  next ht =>
    have hnone : b.records.get? token = none := by simpa [OrderedMap.contains] using hnew
    simp [allowed, ht, hnone, TokenRecord.allowance]
  next => rfl

theorem allowed_of_mint {token holder : Address} {amount : Nat} (h : b.mint token holder amount = .ok b') :
    b'.allowed t o s = b.allowed t o s := by
  obtain ⟨r, hr, -, -, rfl⟩ := mint_eq_ok.1 h
  exact allowed_insert_same hr (by rfl) t o s

theorem allowed_of_approve {token owner spender : Address} {amount : Nat}
    (h : b.approve token owner spender amount = .ok b') :
    b'.allowed t o s = if token = t ∧ owner = o ∧ spender = s then amount else b.allowed t o s := by
  obtain ⟨r, hr, rfl⟩ := approve_eq_ok.1 h
  rw [allowed_insert, TokenRecord.allowance_approve]
  by_cases ht : t = token
  · subst ht
    rw [allowed_of_record hr]
    grind
  · rw [if_neg ht, if_neg fun hall => ht hall.1.symm]

theorem allowed_of_transfer {token source target : Address} {amount : Nat}
    (h : b.transfer token source target amount = .ok b') : b'.allowed t o s = b.allowed t o s := by
  obtain ⟨-, r, hr, -, ⟨-, rfl⟩ | ⟨-, -, rfl⟩⟩ := transfer_eq_ok.1 h
  · rfl
  · exact allowed_insert_same hr (by rfl) t o s

theorem allowed_of_transferFrom {token spender source target : Address} {amount : Nat}
    (h : b.transferFrom token spender source target amount = .ok b') :
    b'.allowed t o s + (if token = t ∧ source = o ∧ spender = s then amount else 0) = b.allowed t o s := by
  obtain ⟨r, r', hr, hr', hpulled, hother⟩ := pulled_of_transferFrom h
  by_cases ht : token = t
  · subst ht
    rw [allowed_of_record hr, allowed_of_record hr']
    by_cases hpair : o = source ∧ s = spender
    · obtain ⟨rfl, rfl⟩ := hpair
      rw [if_pos ⟨rfl, rfl, rfl⟩]
      exact hpulled.allowed
    · rw [if_neg fun hall => hpair ⟨hall.2.1.symm, hall.2.2.symm⟩, hpulled.allowance o s hpair]
      rfl
  · rw [if_neg fun hall => ht hall.1]
    simp only [allowed, hother t (Ne.symm ht), Nat.add_zero]

/-- One instruction: what it approves and what it moves is all that it does to an allowance. -/
theorem allowed_after (t o s : Address) (i : Instruction) (b : TokenBook) :
    (b.after i).allowed t o s + i.moves t o s b = (i.approves t o s b).getD (b.allowed t o s) := by
  rcases carryOut_cases i b with ⟨b', happly, -, hsucceeds, hafter⟩ | ⟨fault, -, -, hfails, hafter⟩
  · rw [hafter]
    cases i with
    | register token traits => exact allowed_of_register happly
    | mint token holder amount => exact allowed_of_mint happly
    | transfer token source target amount => exact allowed_of_transfer happly
    | approve token owner spender amount =>
      simp only [Instruction.moves, Instruction.approves, hsucceeds, Instruction.concerns, Bool.and_true,
        decide_eq_true_eq, Nat.add_zero]
      rw [allowed_of_approve happly]
      split <;> rfl
    | transferFrom token spender source target amount =>
      simp only [Instruction.moves, Instruction.approves, hsucceeds, Instruction.concerns, Bool.and_true,
        decide_eq_true_eq, Option.getD_none]
      exact allowed_of_transferFrom happly
  · have hnone : i.moves t o s b = 0 ∧ i.approves t o s b = none := by
      cases i <;> simp [Instruction.moves, Instruction.approves, hfails]
    rw [hafter, hnone.1, hnone.2]
    rfl

/-! ## Along a run -/

/-- The latest of what instructions approve. -/
def approved (token owner spender : Address) : List Instruction → TokenBook → Option Nat
  | [], _ => none
  | i :: rest, b => (approved token owner spender rest (b.after i)).or (i.approves token owner spender b)

/-- What instructions have moved out of an allowance since the latest approval, or in all if there is none. -/
def movedSince (token owner spender : Address) : List Instruction → TokenBook → Nat
  | [], _ => 0
  | i :: rest, b =>
    movedSince token owner spender rest (b.after i) +
      if (approved token owner spender rest (b.after i)).isSome then 0 else i.moves token owner spender b

/-- A run: what is allowed after it and what has been moved since the latest approval make up what was
approved, or what was allowed before. -/
theorem allowed_run (t o s : Address) (instructions : List Instruction) (b : TokenBook) :
    (b.run instructions).allowed t o s + movedSince t o s instructions b =
      (approved t o s instructions b).getD (b.allowed t o s) := by
  induction instructions generalizing b with
  | nil => rfl
  | cons i rest ih =>
    have hrest := ih (b.after i)
    have hfirst := allowed_after t o s i b
    show ((b.after i).run rest).allowed t o s + _ = _
    simp only [movedSince, approved]
    cases happroved : approved t o s rest (b.after i) with
    | some amount =>
      rw [happroved] at hrest
      simpa using hrest
    | none =>
      rw [happroved] at hrest
      simp only [Option.getD_none, Option.isSome_none, Bool.false_eq_true, ↓reduceIte,
        Option.none_or] at hrest ⊢
      omega

theorem allowance_eq (b : TokenBook) (t o s : Address) : b.allowance t o s =
    if b.isRegistered t then .ok (b.allowed t o s) else .error (.unknownToken t) := by
  unfold allowance record isRegistered OrderedMap.contains allowed
  cases b.records.get? t <;> rfl

/-- After a run of instructions from the empty book, the allowance of a token with a record is what was
approved last less what has been moved out of it since, which is never more. An instruction about something
else leaves it as it is. And an instruction that fails, whatever it has done by then, leaves the whole book
as it was. -/
theorem allowance_is_rest (instructions : List Instruction) (t o s : Address) :
    movedSince t o s instructions empty ≤ (approved t o s instructions empty).getD 0 ∧
      (empty.run instructions).allowance t o s = (if (empty.run instructions).isRegistered t then
        .ok ((approved t o s instructions empty).getD 0 - movedSince t o s instructions empty)
        else .error (.unknownToken t)) ∧
      (∀ i : Instruction, i.concerns t o s = false →
        ((empty.run instructions).after i).allowed t o s = (empty.run instructions).allowed t o s) ∧
      ∀ i : Instruction,
        (∃ b', i.apply (empty.run instructions) = .ok b' ∧
          i.carryOut (empty.run instructions) = .ok () b') ∨
        ∃ fault, i.apply (empty.run instructions) = .error fault ∧
          i.carryOut (empty.run instructions) = .error fault (empty.run instructions) := by
  have hrun : (empty.run instructions).allowed t o s + movedSince t o s instructions empty =
      (approved t o s instructions empty).getD 0 := allowed_run t o s instructions empty
  refine ⟨by omega, ?_, fun i hother => ?_, fun i => ?_⟩
  · rw [allowance_eq, ← hrun, Nat.add_sub_cancel]
  · have hafter := allowed_after t o s i (empty.run instructions)
    have hnone : i.moves t o s (empty.run instructions) = 0 ∧
        i.approves t o s (empty.run instructions) = none := by
      cases i <;> simp_all [Instruction.moves, Instruction.approves]
    rw [hnone.1, hnone.2] at hafter
    exact hafter
  · rcases carryOut_cases i (empty.run instructions) with ⟨b', happly, hok, -⟩ | ⟨fault, hfails, herror, -⟩
    · exact .inl ⟨b', happly, hok⟩
    · exact .inr ⟨fault, hfails, herror⟩

/-- Alice lets a pool spend 70 of her 100; the pool moves 50, and then cannot move 21 more. -/
def poolSpends : List Instruction :=
  [.register ⟨"dai"⟩ ⟨"DAI", 18⟩, .mint ⟨"dai"⟩ ⟨"alice"⟩ 100, .approve ⟨"dai"⟩ ⟨"alice"⟩ ⟨"pool"⟩ 70,
    .transferFrom ⟨"dai"⟩ ⟨"pool"⟩ ⟨"alice"⟩ ⟨"carol"⟩ 50,
    .transferFrom ⟨"dai"⟩ ⟨"pool"⟩ ⟨"alice"⟩ ⟨"carol"⟩ 21]

theorem allowance_is_rest_poolSpends :
    (empty.run poolSpends).allowance ⟨"dai"⟩ ⟨"alice"⟩ ⟨"pool"⟩ = .ok 20 ∧
      ((empty.run poolSpends).after (.transfer ⟨"dai"⟩ ⟨"alice"⟩ ⟨"carol"⟩ 10)).allowed
        ⟨"dai"⟩ ⟨"alice"⟩ ⟨"pool"⟩ = 20 ∧
      ∃ fault, (Instruction.transferFrom ⟨"dai"⟩ ⟨"pool"⟩ ⟨"alice"⟩ ⟨"carol"⟩ 21).carryOut
        (empty.run poolSpends) = .error fault (empty.run poolSpends) := by
  obtain ⟨-, hrest, hother, hfails⟩ := allowance_is_rest poolSpends ⟨"dai"⟩ ⟨"alice"⟩ ⟨"pool"⟩
  have hallowed : (empty.run poolSpends).allowed ⟨"dai"⟩ ⟨"alice"⟩ ⟨"pool"⟩ = 20 := by decide +kernel
  refine ⟨?_, ?_, ?_⟩
  · rw [hrest]
    decide +kernel
  · rw [hother _ (by decide), hallowed]
  · rcases hfails (.transferFrom ⟨"dai"⟩ ⟨"pool"⟩ ⟨"alice"⟩ ⟨"carol"⟩ 21) with ⟨b', happly, -⟩ | ⟨fault, -, h⟩
    · have hno : (Instruction.transferFrom ⟨"dai"⟩ ⟨"pool"⟩ ⟨"alice"⟩ ⟨"carol"⟩ 21).apply
          (empty.run poolSpends) = .error .allowanceInsufficient := by decide +kernel
      rw [hno] at happly
      cases happly
    · exact ⟨fault, h⟩

end MetaPool.TokenBook
