import MetaPool.Proofs.Ledger.Pools
import MetaPool.Proofs.Ledger.Tokens

/-!
# Who spends

Tokens are credited from outside, move between accounts or are approved for others to move. A move
spends from one account and keeps traits, supply and the sum of all balances; so does every run of
moves and approvals (`Spent`). The operations spend from their caller, from pools that are not paused and
from the LP account, and from nobody else.

    op.perform p = .ok out q → TokenStep op p q                     (tokens_of_ok)
-/

namespace MetaPool

namespace TokenRecord

/-- What moves and approvals do to a record: nothing is credited or lost, and only accounts of which
`may` holds can end up with less. -/
structure Spent (may : Address → Prop) (r r' : TokenRecord) : Prop where
  traits : r'.traits = r.traits
  supply : r'.supply = r.supply
  total : r'.balances.total = r.balances.total
  balance : ∀ a, ¬ may a → r.balanceOf a ≤ r'.balanceOf a

variable {may : Address → Prop} {r r' r'' : TokenRecord} {source target owner spender : Address}
  {amount : Nat}

theorem Spent.refl (may : Address → Prop) (r : TokenRecord) : Spent may r r :=
  ⟨rfl, rfl, rfl, fun _ _ => Nat.le_refl _⟩

theorem Spent.trans (h : Spent may r r') (h' : Spent may r' r'') : Spent may r r'' where
  traits := h'.traits.trans h.traits
  supply := h'.supply.trans h.supply
  total := h'.total.trans h.total
  balance a ha := Nat.le_trans (h.balance a ha) (h'.balance a ha)

/-- What the target gets is what the source gives. -/
theorem total_moved (hne : source ≠ target) (hle : amount ≤ r.balanceOf source) :
    (r.moved source target amount).balances.total = r.balances.total := by
  have hsource := r.balances.total_insert source (r.balanceOf source - amount)
  have htarget := (r.balances.insert source (r.balanceOf source - amount)).total_insert target
    (r.balanceOf target + amount)
  rw [OrderedMap.get?_insert, if_neg (Ne.symm hne)] at htarget
  simp only [moved, balanceOf] at *
  omega

theorem spent_moved (hne : source ≠ target) (hle : amount ≤ r.balanceOf source)
    (hmay : may source) : Spent may r (r.moved source target amount) where
  traits := rfl
  supply := rfl
  total := total_moved hne hle
  balance a ha := by
    have hsource : a ≠ source := fun e => ha (e ▸ hmay)
    rw [balanceOf_moved, if_neg hsource]
    split
    next htarget => rw [htarget]; exact Nat.le_add_right _ _
    next => exact Nat.le_refl _

theorem spent_approve : Spent may r (r.approve owner spender amount) :=
  ⟨rfl, rfl, rfl, fun _ _ => Nat.le_refl _⟩

end TokenRecord

namespace TokenBook

/-- Every record is at most spent from, and none is opened. -/
structure Spent (may : Address → Prop) (b b' : TokenBook) : Prop where
  record : ∀ t r, b.records.get? t = some r → ∃ r', b'.records.get? t = some r' ∧ r.Spent may r'
  unknown : ∀ t, b.records.get? t = none → b'.records.get? t = none

variable {may : Address → Prop} {b b' b'' : TokenBook} {token source target owner spender : Address}
  {amount : Nat}

theorem Spent.refl (may : Address → Prop) (b : TokenBook) : Spent may b b where
  record _ r hr := ⟨r, hr, .refl may r⟩
  unknown _ ht := ht

theorem Spent.trans (h : Spent may b b') (h' : Spent may b' b'') : Spent may b b'' where
  record t r hr := by
    obtain ⟨r', hr', hspent⟩ := h.record t r hr
    obtain ⟨r'', hr'', hspent'⟩ := h'.record t r' hr'
    exact ⟨r'', hr'', hspent.trans hspent'⟩
  unknown t ht := h'.unknown t (h.unknown t ht)

/-- One record is spent from. -/
theorem spent_insert {r r' : TokenRecord} (hr : b.records.get? token = some r)
    (h : r.Spent may r') : Spent may b ⟨b.records.insert token r'⟩ where
  record t s hs := by
    rw [OrderedMap.get?_insert]
    by_cases ht : t = token
    · subst ht
      obtain rfl := Option.some.inj (hr.symm.trans hs)
      exact ⟨r', if_pos rfl, h⟩
    · exact ⟨s, (if_neg ht).trans hs, .refl may s⟩
  unknown t ht := by
    rw [OrderedMap.get?_insert, if_neg, ht]
    rintro rfl
    rw [hr] at ht
    cases ht

theorem spent_of_transfer (hmay : may source)
    (h : b.transfer token source target amount = .ok b') : Spent may b b' := by
  obtain ⟨-, r, hr, hle, ⟨-, rfl⟩ | ⟨hmoves, -, rfl⟩⟩ := transfer_eq_ok.1 h
  · exact .refl may b'
  · exact spent_insert hr (TokenRecord.spent_moved (fun e => hmoves (.inl e)) hle hmay)

theorem spent_of_approve (h : b.approve token owner spender amount = .ok b') : Spent may b b' := by
  obtain ⟨r, hr, rfl⟩ := approve_eq_ok.1 h
  exact spent_insert hr TokenRecord.spent_approve

theorem spent_of_transferFrom (hmay : may source)
    (h : b.transferFrom token spender source target amount = .ok b') : Spent may b b' := by
  obtain ⟨allowed, moved, -, -, hmoved, happrove⟩ := transferFrom_eq_ok.1 h
  exact (spent_of_transfer hmay hmoved).trans (spent_of_approve happrove)

end TokenBook

/-- Whom an operation may spend from: its caller, pools that are not paused and the LP account. -/
def Operation.maySpend (op : Operation) (p : Protocol) (a : Address) : Prop :=
  op.caller? = some a ∨ p.Running a ∨ a = p.lpAccount.address

namespace Protocol

variable {p q r : Protocol} {u : Unit} {may : Address → Prop} {caller pool : Address} {amount : Nat}

/-- Tokens are spent, while the pools and the LP account stay. -/
structure Spends (may : Address → Prop) (p q : Protocol) : Prop where
  pools : q.pools = p.pools
  lpAccount : q.lpAccount = p.lpAccount
  tokens : p.tokens.Spent may q.tokens

theorem Spends.refl (may : Address → Prop) (p : Protocol) : Spends may p p :=
  ⟨rfl, rfl, .refl may p.tokens⟩

theorem Spends.trans (h : Spends may p q) (h' : Spends may q r) : Spends may p r :=
  ⟨h'.pools.trans h.pools, h'.lpAccount.trans h.lpAccount, h.tokens.trans h'.tokens⟩

theorem mem_keys_of_pool {s : Pool} (h : p.pool pool = .ok s) : pool ∈ p.pools.keys :=
  OrderedMap.mem_keys.2 ⟨s, pool_eq_ok.1 h⟩

/-- The pool spends, if it is not paused. -/
theorem spends_of_send (h : sendToLpAccount caller pool amount p = .ok u q)
    (hmay : ∀ a, p.Running a → may a) : Spends may p q := by
  obtain ⟨s, tokens, hs, hauth, ht, rfl⟩ := sendToLpAccount_eq_ok.1 h
  have hrunning : p.Running pool := ⟨s, hs, Pool.running_of_authorizeSend hauth⟩
  exact ⟨rfl, rfl, TokenBook.spent_of_transfer (hmay pool hrunning) ht⟩

/-- The LP account spends. -/
theorem spends_of_return (h : returnToPool caller pool amount p = .ok u q)
    (hmay : may p.lpAccount.address) : Spends may p q := by
  obtain ⟨-, s, tokens, hs, ht, rfl⟩ := returnToPool_eq_ok.1 h
  exact ⟨rfl, rfl, TokenBook.spent_of_transfer hmay ht⟩

theorem spends_of_mintAndSend {shares : Nat} (h : mintAndSend pool shares amount p = .ok u q)
    (hmay : ∀ a, p.Running a → may a) : Spends may p q := by
  obtain ⟨-, rfl⟩ | ⟨-, metaToken, -, hsend⟩ := mintAndSend_eq_ok.1 h
  · exact .refl may q
  · obtain ⟨hpools, hlp, htokens⟩ := spends_of_send hsend hmay
    exact ⟨hpools, hlp, htokens⟩

theorem spends_of_burnAndReturn {shares : Nat} (h : burnAndReturn pool shares amount p = .ok u q)
    (hmay : may p.lpAccount.address) : Spends may p q := by
  obtain ⟨-, rfl⟩ | ⟨-, metaToken, -, hreturn⟩ := burnAndReturn_eq_ok.1 h
  · exact .refl may q
  · obtain ⟨hpools, hlp, htokens⟩ := spends_of_return hreturn hmay
    exact ⟨hpools, hlp, htokens⟩

/-- Neither the allocation nor the oracle bears on tokens. -/
theorem spends_of_frame (h : Frame [.allocation, .oracle] q r) (hpq : Spends may p q) :
    Spends may p r := by
  refine ⟨?_, ?_, ?_⟩
  · exact (h .pools (by simp)).trans hpq.pools
  · exact (h .lpAccount (by simp)).trans hpq.lpAccount
  · have htokens : r.tokens = q.tokens := h .tokens (by simp)
    rw [htokens]
    exact hpq.tokens

theorem spends_of_sendBatch {pools : List Address} {amounts : List Nat}
    (h : Batch mintAndSend pools amounts p q) (hmay : ∀ a, p.Running a → may a) :
    Spends may p q := by
  refine h.preserves (fun _ _ => spends_of_frame) (fun pool delta amount r s hpr hleg => ?_)
    (.refl may p)
  exact hpr.trans (spends_of_mintAndSend hleg fun a ha => hmay a (ha.congr hpr.pools))

theorem spends_of_recallBatch {pools : List Address} {amounts : List Nat}
    (h : Batch burnAndReturn pools amounts p q) (hmay : may p.lpAccount.address) :
    Spends may p q := by
  refine h.preserves (fun _ _ => spends_of_frame) (fun pool delta amount r s hpr hleg => ?_)
    (.refl may p)
  exact hpr.trans (spends_of_burnAndReturn hleg (hpr.lpAccount ▸ hmay))

/-- What an operation does to the tokens: it credits them from outside or spends them. -/
inductive TokenStep (op : Operation) (p q : Protocol) : Prop where
  | credited (token holder : Address) (amount : Nat) (hop : op = .mintTokens token holder amount)
      (h : p.tokens.mint token holder amount = .ok q.tokens)
  | spent (hop : ∀ token holder amount, op ≠ .mintTokens token holder amount)
      (h : p.tokens.Spent (op.maySpend p) q.tokens)

end Protocol

namespace Operation

open Protocol TokenBook

theorem tokens_of_ok {op : Operation} {p q : Protocol} {out : Outcome}
    (h : op.perform p = .ok out q) : TokenStep op p q := by
  have hpools : ∀ a, p.Running a → op.maySpend p a := fun a ha => .inr (.inl ha)
  have hlp : op.maySpend p p.lpAccount.address := .inr (.inr rfl)
  by_cases hop : op.isRebalance = true
  · have hne : ∀ token holder amount, op ≠ .mintTokens token holder amount := by
      rintro _ _ _ rfl
      cases hop
    obtain ⟨pools, amounts, hbatch | hbatch⟩ := batch_of_ok hop h
    · exact .spent hne (spends_of_sendBatch hbatch hpools).tokens
    · exact .spent hne (spends_of_recallBatch hbatch hlp).tokens
  by_cases hw : .tokens ∈ op.writes
  · cases op with
    | mintTokens token holder amount =>
      obtain ⟨tokens, ht, rfl⟩ := onTokens_eq_ok.1 (complete_eq_ok.1 h).2
      exact .credited token holder amount rfl ht
    | approve =>
      obtain ⟨tokens, ht, rfl⟩ := onTokens_eq_ok.1 (complete_eq_ok.1 h).2
      exact .spent nofun (spent_of_approve ht)
    | deposit caller pool amount =>
      obtain ⟨_, -, h⟩ := reply_eq_ok.1 h
      obtain ⟨s, s', tokens, _, -, -, -, -, -, ht, -, -, rfl⟩ := deposit_eq_ok.1 h
      exact .spent nofun (spent_of_transferFrom (.inl rfl) ht)
    | redeem caller pool shares =>
      obtain ⟨_, -, h⟩ := reply_eq_ok.1 h
      obtain ⟨s, s', tokens, _, _, _, hs, hopen, -, -, -, -, -, -, -, ht, -, rfl⟩ := redeem_eq_ok.1 h
      have hrunning : p.Running pool := ⟨s, hs, Pool.running_of_redemptionsOpen hopen⟩
      exact .spent nofun (spent_of_transfer (hpools pool hrunning) ht)
    | sendToLpAccount =>
      exact .spent nofun (spends_of_send (complete_eq_ok.1 h).2 hpools).tokens
    | returnToPool =>
      exact .spent nofun (spends_of_return (complete_eq_ok.1 h).2 hlp).tokens
    | sendSurplus | recallShortfall | sendByHand | recallByHand => exact absurd rfl hop
    | _ => simp [writes] at hw
  · have hne : ∀ token holder amount, op ≠ .mintTokens token holder amount := by
      rintro _ _ _ rfl
      exact hw List.mem_cons_self
    have htokens : q.tokens = p.tokens := frame_of_ok h .tokens hw
    refine .spent hne ?_
    rw [htokens]
    exact .refl _ _

end Operation

end MetaPool
