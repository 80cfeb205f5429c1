import MetaPool.Proofs.Ledger.Spending

/-!
# Tokens are conserved

In every reachable state the balances of every token sum to its supply (`Reachable.tokens_balanced`),
and along every history the supply grows by what successful mints credit and by nothing else
(`supply_run`). Two balances together are therefore at most a supply, which is an amount, so that a
transfer never overflows (`fault_of_transfer`).
-/

namespace MetaPool

namespace TokenRecord

/-- The balances sum to the supply, and the supply is an amount. -/
structure Balanced (r : TokenRecord) : Prop where
  total_eq : r.balances.total = r.supply
  supply_le : r.supply ≤ maxAmount

variable {may : Address → Prop} {r r' : TokenRecord} {holder source target : Address} {amount : Nat}

theorem balanced_of_spent (hr : r.Balanced) (h : r.Spent may r') : r'.Balanced where
  total_eq := by rw [h.total, h.supply, hr.total_eq]
  supply_le := by rw [h.supply]; exact hr.supply_le

theorem balanced_credited (hr : r.Balanced) (hle : r.supply + amount ≤ maxAmount) :
    (r.credited holder amount).Balanced where
  total_eq := by
    have htotal := r.balances.total_insert holder (r.balanceOf holder + amount)
    have heq := hr.total_eq
    simp only [credited, balanceOf] at htotal ⊢
    omega
  supply_le := hle

/-- What two accounts hold together is an amount. -/
theorem add_balances_le (hr : r.Balanced) (hne : source ≠ target) :
    r.balanceOf source + r.balanceOf target ≤ maxAmount := by
  have hle : r.balanceOf source + r.balanceOf target ≤ r.balances.total :=
    r.balances.add_le_total hne
  have heq := hr.total_eq
  have hsupply := hr.supply_le
  omega

end TokenRecord

namespace TokenBook

/-- Every record is balanced. -/
def Balanced (b : TokenBook) : Prop := ∀ t r, b.records.get? t = some r → r.Balanced

variable {may : Address → Prop} {b b' : TokenBook} {token holder source target : Address}
  {amount : Nat}

theorem balanced_insert {r : TokenRecord} (hb : b.Balanced) (hr : r.Balanced) :
    Balanced ⟨b.records.insert token r⟩ := by
  intro t s hs
  rw [OrderedMap.get?_insert] at hs
  split at hs
  · exact Option.some.inj hs ▸ hr
  · exact hb t s hs

theorem balanced_of_register {traits : TokenTraits} (hb : b.Balanced)
    (h : b.register token traits = .ok b') : b'.Balanced := by
  simp only [register, refuse_eq_ok] at h
  obtain ⟨-, -, -, h⟩ := h
  obtain rfl := Except.ok.inj h
  exact balanced_insert hb ⟨rfl, Nat.zero_le _⟩

theorem balanced_of_mint (hb : b.Balanced) (h : b.mint token holder amount = .ok b') :
    b'.Balanced := by
  obtain ⟨r, hr, hle, -, rfl⟩ := mint_eq_ok.1 h
  exact balanced_insert hb (TokenRecord.balanced_credited (hb token r hr) hle)

theorem balanced_of_spent (hb : b.Balanced) (h : b.Spent may b') : b'.Balanced := by
  intro t r' hr'
  cases hr : b.records.get? t with
  | none =>
    rw [h.unknown t hr] at hr'
    cases hr'
  | some r =>
    obtain ⟨s, hs, hspent⟩ := h.record t r hr
    obtain rfl := Option.some.inj (hs.symm.trans hr')
    exact TokenRecord.balanced_of_spent (hb t r hr) hspent

/-- A transfer of no more than the source holds succeeds: the two balances are part of the supply, so
that their sum is an amount. -/
theorem exists_transfer {r : TokenRecord} (hb : b.Balanced) (htarget : ¬ target.isEmpty = true)
    (hr : b.records.get? token = some r) (hle : amount ≤ r.balanceOf source) :
    ∃ b', b.transfer token source target amount = .ok b' := by
  by_cases hidle : source = target ∨ amount = 0
  · exact ⟨b, transfer_eq_ok.2 ⟨htarget, r, hr, hle, .inl ⟨hidle, rfl⟩⟩⟩
  · have hfits := TokenRecord.add_balances_le (hb token r hr) fun e => hidle (.inl e)
    refine ⟨_, transfer_eq_ok.2 ⟨htarget, r, hr, hle, .inr ⟨hidle, ?_, rfl⟩⟩⟩
    omega

/-- A transfer of a known token to a named target fails only for the balance of its source. -/
theorem exceeds_of_transfer {r : TokenRecord} {fault : Fault} (hb : b.Balanced)
    (htarget : ¬ target.isEmpty = true) (hr : b.records.get? token = some r)
    (h : b.transfer token source target amount = .error fault) :
    r.balanceOf source < amount ∧ fault = .transferExceedsBalance token source := by
  by_cases hle : amount ≤ r.balanceOf source
  · obtain ⟨b', hok⟩ := exists_transfer hb htarget hr hle
    rw [hok] at h
    cases h
  · have hlt : r.balanceOf source < amount := Nat.not_le.1 hle
    simp only [transfer, if_neg htarget, record, hr] at h
    exact ⟨hlt, (Except.error.inj ((if_pos hlt).symm.trans h)).symm⟩

/-- What a transfer can fail with, while the records are balanced: the sum of the two balances is no
reason. -/
theorem fault_of_transfer {fault : Fault} (hb : b.Balanced)
    (h : b.transfer token source target amount = .error fault) :
    fault = .invalidAddress ∨ fault = .unknownToken token ∨
      fault = .transferExceedsBalance token source := by
  by_cases htarget : target.isEmpty = true
  · rw [transfer, if_pos htarget] at h
    exact .inl (Except.error.inj h).symm
  cases hr : b.records.get? token with
  | none =>
    simp only [transfer, if_neg htarget, record, hr] at h
    exact .inr (.inl (Except.error.inj h).symm)
  | some r => exact .inr (.inr (exceeds_of_transfer hb htarget hr h).2)

/-! ## Supplies -/

theorem supply_eq (b : TokenBook) (t : Address) : b.supply t =
    match b.records.get? t with
    | some r => .ok r.supply
    | none => .error (.unknownToken t) := by
  unfold supply record
  cases b.records.get? t <;> rfl

theorem supply_of_spent (h : b.Spent may b') (t : Address) : b'.supply t = b.supply t := by
  rw [supply_eq, supply_eq]
  cases hr : b.records.get? t with
  | none => rw [h.unknown t hr]
  | some r =>
    obtain ⟨r', hr', hspent⟩ := h.record t r hr
    rw [hr']
    exact congrArg Except.ok hspent.supply

theorem supply_of_mint (h : b.mint token holder amount = .ok b') (t : Address) :
    b'.supply t = (b.supply t).map (· + if token = t then amount else 0) := by
  obtain ⟨r, hr, -, -, rfl⟩ := mint_eq_ok.1 h
  rw [supply_eq, supply_eq, OrderedMap.get?_insert]
  by_cases ht : t = token
  · subst ht
    simp only [hr, ↓reduceIte]
    rfl
  · rw [if_neg ht, if_neg (Ne.symm ht)]
    cases b.records.get? t <;> rfl

/-! ## Traits -/

theorem traits_of_spent (h : b.Spent may b') (t : Address) : b'.traits t = b.traits t := by
  unfold traits record
  cases hr : b.records.get? t with
  | none => rw [h.unknown t hr]
  | some r =>
    obtain ⟨r', hr', hspent⟩ := h.record t r hr
    rw [hr']
    exact congrArg Except.ok hspent.traits

theorem traits_of_mint (h : b.mint token holder amount = .ok b') (t : Address) :
    b'.traits t = b.traits t := by
  obtain ⟨r, hr, -, -, rfl⟩ := mint_eq_ok.1 h
  have htraits : (r.credited holder amount).traits = r.traits := rfl
  exact traits_insert hr htraits t

end TokenBook

/-- What an operation credits of a token: the amount of a mint, if it succeeds. -/
def Operation.credits (op : Operation) (p : Protocol) (t : Address) : Nat :=
  match op with
  | .mintTokens token _ amount => if token = t ∧ op.fails p = false then amount else 0
  | _ => 0

namespace Protocol

variable {p q : Protocol} {op : Operation} {out : Outcome}

/-! ## Balances sum to supplies -/

theorem tokens_balanced_of_deploy {plan : Plan} {clock : Clock}
    (h : Protocol.deploy plan clock = .ok p) : p.tokens.Balanced := by
  simp only [Protocol.deploy, except_bind_eq_ok, except_pure_eq_ok] at h
  obtain ⟨_, -, base, -, feeds, -, ⟨tokens, feeds'⟩, htokens, _, -, _, -, rfl⟩ := h
  refine foldlM_preserves (I := fun state : TokenBook × FeedBook => state.1.Balanced) ?_ ?_ htokens
  · intro state plan state' hstate hadd
    simp only [Plan.addToken, except_bind_eq_ok, except_pure_eq_ok] at hadd
    obtain ⟨tokens', hregister, _, -, rfl⟩ := hadd
    exact TokenBook.balanced_of_register hstate hregister
  · exact fun t r hr => by cases hr

theorem tokens_balanced_of_ok (hp : p.tokens.Balanced) (h : op.perform p = .ok out q) :
    q.tokens.Balanced := by
  cases Operation.tokens_of_ok h with
  | credited token holder amount hop h => exact TokenBook.balanced_of_mint hp h
  | spent hop h => exact TokenBook.balanced_of_spent hp h

theorem Reachable.tokens_balanced (h : Reachable p) : p.tokens.Balanced :=
  h.invariant (fun _ _ _ => tokens_balanced_of_deploy) fun _ _ _ _ => tokens_balanced_of_ok

/-! ## Nothing changes traits -/

theorem traits_of_ok (h : op.perform p = .ok out q) (t : Address) :
    q.tokens.traits t = p.tokens.traits t := by
  cases Operation.tokens_of_ok h with
  | credited token holder amount hop h => exact TokenBook.traits_of_mint h t
  | spent hop h => exact TokenBook.traits_of_spent h t

theorem traits_run (p : Protocol) (ops : List Operation) (t : Address) :
    (p.run ops).tokens.traits t = p.tokens.traits t :=
  run_eq_of_ok (f := fun p => p.tokens.traits t) (fun _ _ _ _ h => traits_of_ok h t) p ops

/-! ## Only mints change supplies -/

theorem credits_of_ne_mint (hop : ∀ token holder amount, op ≠ .mintTokens token holder amount)
    (t : Address) : op.credits p t = 0 := by
  cases op with
  | mintTokens token holder amount => exact absurd rfl (hop token holder amount)
  | _ => rfl

theorem credits_of_fails (h : op.fails p = true) (t : Address) : op.credits p t = 0 := by
  cases op with
  | mintTokens => simp [Operation.credits, h]
  | _ => rfl

theorem map_add_zero (x : Except Fault Nat) : x.map (· + 0) = x := by
  cases x <;> rfl

theorem supply_after (p : Protocol) (op : Operation) (t : Address) :
    (p.after op).tokens.supply t = (p.tokens.supply t).map (· + op.credits p t) := by
  rcases ok_or_unchanged p op with ⟨out, h⟩ | ⟨hfails, hsame⟩
  · cases Operation.tokens_of_ok h with
    | credited token holder amount hop hmint =>
      subst hop
      rw [TokenBook.supply_of_mint hmint]
      simp [Operation.credits, Operation.fails, h]
    | spent hop hspent => rw [TokenBook.supply_of_spent hspent, credits_of_ne_mint hop, map_add_zero]
  · rw [hsame, credits_of_fails hfails, map_add_zero]

/-- What a history credits of a token. -/
def credited (p : Protocol) (t : Address) : List Operation → Nat
  | [] => 0
  | op :: ops => op.credits p t + (p.after op).credited t ops

theorem supply_run (p : Protocol) (ops : List Operation) (t : Address) :
    (p.run ops).tokens.supply t = (p.tokens.supply t).map (· + p.credited t ops) := by
  induction ops generalizing p with
  | nil => exact (map_add_zero _).symm
  | cons op ops ih =>
    show ((p.after op).run ops).tokens.supply t = _
    rw [ih, supply_after]
    cases p.tokens.supply t with
    | error fault => rfl
    | ok n => exact congrArg Except.ok (Nat.add_assoc _ _ _)

/-- In every reachable state the balances of every token sum to its supply and a transfer can only
fail for its target, its token or the balance of its source; and from there on the supply changes by
what successful mints credit. -/
theorem tokens_conserved (p : Protocol) (h : Reachable p) :
    (∀ t r, p.tokens.record t = .ok r → r.balances.total = r.supply) ∧
      (∀ ops t, (p.run ops).tokens.supply t = (p.tokens.supply t).map (· + p.credited t ops)) ∧
      ∀ t source target amount fault,
        p.tokens.transfer t source target amount = .error fault →
          fault = .invalidAddress ∨ fault = .unknownToken t ∨
            fault = .transferExceedsBalance t source := by
  have hbalanced := h.tokens_balanced
  refine ⟨?_, supply_run p, fun t source target amount fault => ?_⟩
  · intro t r hr
    exact (hbalanced t r (TokenBook.record_eq_ok.1 hr)).total_eq
  · exact TokenBook.fault_of_transfer hbalanced

/-- A mint, a deposit, a batch that sends half of it to the LP account, and a mint that would take
the supply above the largest amount. -/
def spentAround : List Operation :=
  [.mintTokens ⟨"USDC"⟩ ⟨"alice"⟩ 700, .approve ⟨"USDC"⟩ ⟨"alice"⟩ ⟨"usdcPool"⟩ 400,
    .deposit ⟨"alice"⟩ ⟨"usdcPool"⟩ 400, .sendByHand ⟨"emergencySafe"⟩ [⟨"usdcPool"⟩] [200],
    .mintTokens ⟨"USDC"⟩ ⟨"bob"⟩ maxAmount]

theorem tokens_conserved_spentAround :
    (initial.run spentAround).tokens.held ⟨"USDC"⟩ ⟨lpAccountId⟩ = 200 ∧
      (initial.run spentAround).tokens.supply ⟨"USDC"⟩ = .ok 700 ∧
      (∃ r, (initial.run spentAround).tokens.record ⟨"USDC"⟩ = .ok r ∧
        r.balances.total = r.supply) ∧
      ∃ fault, (initial.run spentAround).tokens.transfer ⟨"USDC"⟩ ⟨"alice"⟩ ⟨"bob"⟩ 301 =
        .error fault ∧ fault ≠ .overflow := by
  have hinitial := tokens_conserved initial reachable_initial
  obtain ⟨hsum, -, hfault⟩ := tokens_conserved _ (reachable_initial.run spentAround)
  have hnone : initial.tokens.supply ⟨"USDC"⟩ = .ok 0 := eq_ok_of_toOption (by decide +kernel)
  have hcredited : initial.credited ⟨"USDC"⟩ spentAround = 700 := by decide +kernel
  refine ⟨by decide +kernel, ?_, ?_, ?_⟩
  · rw [hinitial.2.1, hnone, hcredited]
    rfl
  · obtain ⟨r, hr⟩ := exists_ok_of_isSome (x := (initial.run spentAround).tokens.record ⟨"USDC"⟩)
      (by decide +kernel)
    exact ⟨r, hr, hsum _ r hr⟩
  · obtain ⟨fault, h⟩ := exists_error_of_isNone
      (x := (initial.run spentAround).tokens.transfer ⟨"USDC"⟩ ⟨"alice"⟩ ⟨"bob"⟩ 301)
      (by decide +kernel)
    refine ⟨fault, h, ?_⟩
    rintro rfl
    rcases hfault _ _ _ _ _ h with h | h | h <;> cases h

end Protocol

end MetaPool
