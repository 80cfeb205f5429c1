import MetaPool.Proofs.Ledger.Order
import MetaPool.Proofs.Step.Success

/-!
# Legs of both kinds

A leg that sends and one that recalls differ in what they do to the meta shares, in whom they ask and in
the direction of the transfer. What they have in common is stated once, for a `LegKind`.

    kind.leg a x m p = .ok u q ↔
      x = 0 and q = p, or the meta shares change, the tokens move and both are logged        (leg_eq_ok)
-/

namespace MetaPool

/-- The state that a leg leaves: other meta shares, other tokens and more in the log. -/
def Protocol.afterLeg (p : Protocol) (metaToken : MetaToken) (tokens : TokenBook)
    (events : List Event) : Protocol :=
  { p with
    metaToken, tokens
    log := p.log ++ events.map fun event => ⟨p.clock.height, p.clock.time, event⟩ }

/-- The two directions in which a batch moves capital. -/
inductive LegKind where
  | sends
  | recalls

namespace LegKind

variable {kind : LegKind} {t t' t₁ t₂ : MetaToken} {a b lp : Address} {x y m : Nat}

/-- A leg of the kind. -/
def leg : LegKind → Address → Nat → Nat → Protocol.Action Unit
  | sends => Protocol.mintAndSend
  | recalls => Protocol.burnAndReturn

/-- What a leg does to the meta shares of its pool. -/
def change : LegKind → MetaToken → Address → Nat → Except Fault MetaToken
  | sends => MetaToken.mint
  | recalls => MetaToken.burn

/-- Whether the holder of the tokens lets the caller move them. -/
def authorize : LegKind → LpAccount → Pool → Address → Except Fault Unit
  | sends, _, s, caller => s.authorizeSend caller
  | recalls, lpAccount, _, caller => lpAccount.authorizeReturn caller

/-- Whose tokens a leg moves, for the addresses of the LP account and of the pool. -/
def source : LegKind → Address → Address → Address
  | sends, _, a => a
  | recalls, lp, _ => lp

/-- To whom a leg moves them. -/
def target : LegKind → Address → Address → Address
  | sends, lp, _ => lp
  | recalls, _, a => a

/-- What a leg of a pool and its underlyer logs. -/
def events : LegKind → Address → Address → Nat → Nat → List Event
  | sends, a, token, x, m => [.metaMinted a x, .capitalSent a token m]
  | recalls, a, token, x, m => [.metaBurned a x, .capitalReturned a token m]

/-! ## Meta shares -/

/-- Only the book of meta shares changes. -/
theorem eq_of_change (h : kind.change t a x = .ok t') : t' = { t with shares := t'.shares } := by
  cases kind with
  | sends =>
    obtain ⟨book, -, rfl⟩ := MetaToken.mint_eq_ok.1 h
    rfl
  | recalls =>
    obtain ⟨book, -, rfl⟩ := MetaToken.burn_eq_ok.1 h
    rfl

theorem address_of_change (h : kind.change t a x = .ok t') : t'.address = t.address := by
  rw [eq_of_change h]

/-- The meta shares of others stay as they are. -/
theorem get?_of_change (h : kind.change t a x = .ok t') (hne : b ≠ a) :
    t'.shares.balances.get? b = t.shares.balances.get? b := by
  cases kind with
  | sends =>
    obtain ⟨book, hbook, rfl⟩ := MetaToken.mint_eq_ok.1 h
    exact (ShareBook.get?_of_mint hbook b).trans (if_neg hne)
  | recalls =>
    obtain ⟨book, hbook, rfl⟩ := MetaToken.burn_eq_ok.1 h
    exact (ShareBook.get?_of_burn hbook b).trans (if_neg hne)

theorem change_comm (hfirst : kind.change t a x = .ok t₁) (hsecond : kind.change t₁ b y = .ok t₂) :
    ∃ t', kind.change t b y = .ok t' ∧ kind.change t' a x = .ok t₂ := by
  cases kind with
  | sends => exact MetaToken.mint_comm hfirst hsecond
  | recalls => exact MetaToken.burn_comm hfirst hsecond

/-! ## Ends -/

theorem source_eq (kind : LegKind) (lp a : Address) : kind.source lp a = a ∨ kind.source lp a = lp := by
  cases kind with
  | sends => exact .inl rfl
  | recalls => exact .inr rfl

theorem target_eq (kind : LegKind) (lp a : Address) : kind.target lp a = a ∨ kind.target lp a = lp := by
  cases kind with
  | sends => exact .inr rfl
  | recalls => exact .inl rfl

/-- The pools are on one side and the LP account on the other. -/
theorem source_ne_target (ha : a ≠ lp) (hb : b ≠ lp) : kind.source lp a ≠ kind.target lp b := by
  cases kind with
  | sends => exact ha
  | recalls => exact Ne.symm hb

/-! ## Legs -/

variable {p q : Protocol} {u : Unit}

/-- A leg without meta shares is skipped, and any other moves meta shares and tokens. -/
theorem leg_eq_ok : kind.leg a x m p = .ok u q ↔ x = 0 ∧ q = p ∨ x ≠ 0 ∧
    ∃ metaToken s tokens, kind.change p.metaToken a x = .ok metaToken ∧ p.pool a = .ok s ∧
      kind.authorize p.lpAccount s p.metaToken.address = .ok () ∧
      p.tokens.transfer s.underlyer (kind.source p.lpAccount.address a)
        (kind.target p.lpAccount.address a) m = .ok tokens ∧
      q = p.afterLeg metaToken tokens (kind.events a s.underlyer x m) := by
  cases kind with
  | sends =>
    refine Protocol.mintAndSend_eq_ok.trans (or_congr_right (and_congr_right fun _ => ?_))
    simp only [Protocol.sendToLpAccount_eq_ok, List.append_assoc]
    constructor
    · rintro ⟨metaToken, hmint, s, tokens, hs, hauth, ht, rfl⟩
      obtain ⟨book, -, rfl⟩ := MetaToken.mint_eq_ok.1 hmint
      exact ⟨_, s, tokens, hmint, hs, hauth, ht, rfl⟩
    · rintro ⟨metaToken, s, tokens, hmint, hs, hauth, ht, rfl⟩
      obtain ⟨book, -, rfl⟩ := MetaToken.mint_eq_ok.1 hmint
      exact ⟨_, hmint, s, tokens, hs, hauth, ht, rfl⟩
  | recalls =>
    refine Protocol.burnAndReturn_eq_ok.trans (or_congr_right (and_congr_right fun _ => ?_))
    simp only [Protocol.returnToPool_eq_ok, List.append_assoc]
    constructor
    · rintro ⟨metaToken, hburn, hauth, s, tokens, hs, ht, rfl⟩
      obtain ⟨book, -, rfl⟩ := MetaToken.burn_eq_ok.1 hburn
      exact ⟨_, s, tokens, hburn, hs, hauth, ht, rfl⟩
    · rintro ⟨metaToken, s, tokens, hburn, hs, hauth, ht, rfl⟩
      obtain ⟨book, -, rfl⟩ := MetaToken.burn_eq_ok.1 hburn
      exact ⟨_, hburn, hauth, s, tokens, hs, ht, rfl⟩

end LegKind

end MetaPool
