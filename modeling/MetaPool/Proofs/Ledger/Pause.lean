import MetaPool.Proofs.Capital.Deployed
import MetaPool.Proofs.Capital.Leg
import MetaPool.Proofs.Ledger.Custody

/-!
# A pause contains a pool

While a pool is paused its shares and its deposit times stay what they are, it loses no tokens and it gets
no meta shares, whatever is tried. Deposits, redemptions and sends look at the pause before they write; a
batch that would send from the pool has minted by then, and is undone as a whole; a recall only gives back.
That ends when the pause is lifted, and only the pool itself could have its tokens spent before.

    p.Paused a → no end of the pause → Contained a p (p.after op)   (contained_after)
    p.Paused a → no end of the pause → Contained a p (p.run ops)    (contained_run)
-/

namespace MetaPool

namespace Operation

/-- Whether an operation lifts the pause of the pool, and succeeds. -/
def liftsPause (op : Operation) (a : Address) (p : Protocol) : Bool :=
  match op with
  | setPoolPaused _ pool false => decide (pool = a) && !op.fails p
  | _ => false

end Operation

namespace Protocol

variable {p q r : Protocol} {a b : Address} {op : Operation} {out : Outcome} {ops : List Operation}

/-- The pool is deployed and paused. -/
def Paused (p : Protocol) (a : Address) : Prop := ∃ s, p.pool a = .ok s ∧ s.locks.paused = true

theorem Paused.not_running (h : p.Paused a) : ¬ p.Running a := by
  rintro ⟨s, hs, hrunning⟩
  obtain ⟨t, ht, hpaused⟩ := h
  obtain rfl : s = t := ok_unique hs ht
  exact absurd (hrunning.symm.trans hpaused) nofun

theorem Paused.apart (h : p.Paused a) (hp : Reachable p) : a ≠ p.lpAccount.address := by
  obtain ⟨s, hs, -⟩ := h
  exact hp.poolsApart a s hs

/-- The pool's shares and deposit times are the same, of every token it holds no less, and it holds no more
meta shares. -/
structure Contained (a : Address) (p q : Protocol) : Prop where
  shares : (q.pool a).map (·.shares) = (p.pool a).map (·.shares)
  lastDeposit : (q.pool a).map (·.lastDeposit) = (p.pool a).map (·.lastDeposit)
  tokens : ∀ t v, p.tokens.balanceOf t a = .ok v → ∃ w, q.tokens.balanceOf t a = .ok w ∧ v ≤ w
  metaShares : q.metaToken.balanceOf a ≤ p.metaToken.balanceOf a

theorem Contained.refl (a : Address) (p : Protocol) : Contained a p p :=
  ⟨rfl, rfl, fun _ v hv => ⟨v, hv, Nat.le_refl v⟩, Nat.le_refl _⟩

theorem Contained.trans (h : Contained a p q) (h' : Contained a q r) : Contained a p r where
  shares := h'.shares.trans h.shares
  lastDeposit := h'.lastDeposit.trans h.lastDeposit
  tokens t v hv := by
    obtain ⟨w, hw, hvw⟩ := h.tokens t v hv
    obtain ⟨x, hx, hwx⟩ := h'.tokens t w hw
    exact ⟨x, hx, Nat.le_trans hvw hwx⟩
  metaShares := Nat.le_trans h'.metaShares h.metaShares

/-! ## Shares and deposit times -/

/-- A deposit or a redemption that succeeds found its pool running. -/
theorem running_of_exchange {caller : Address} {n : Nat} (h : op.perform p = .ok out q)
    (hop : op = .deposit caller a n ∨ op = .redeem caller a n) : p.Running a := by
  rcases hop with rfl | rfl
  · obtain ⟨_, -, h⟩ := Operation.reply_eq_ok.1 h
    obtain ⟨s, _, _, _, hs, hopen, -⟩ := deposit_eq_ok.1 h
    exact ⟨s, hs, Pool.running_of_depositsOpen hopen⟩
  · obtain ⟨_, -, h⟩ := Operation.reply_eq_ok.1 h
    obtain ⟨s, _, _, _, _, _, hs, hopen, -⟩ := redeem_eq_ok.1 h
    exact ⟨s, hs, Pool.running_of_redemptionsOpen hopen⟩

/-- Of a paused pool nothing but terms and locks changes, and it stays paused unless the pause is lifted. -/
theorem pool_of_paused (hp : p.Paused a) (hop : ∀ caller, op ≠ .setPoolPaused caller a false)
    (h : op.perform p = .ok out q) : ∃ s t, p.pool a = .ok s ∧ q.pool a = .ok t ∧
      t.shares = s.shares ∧ t.lastDeposit = s.lastDeposit ∧ t.locks.paused = true := by
  have hstill := hp.not_running
  obtain ⟨s, hs, hpaused⟩ := hp
  rcases Operation.pools_of_ok h with hsame | ⟨b, s', t, hs', hchange, hinsert⟩
  · exact ⟨s, s, hs, by rw [pool_of_eq hsame, hs], rfl, rfl, hpaused⟩
  by_cases hb : a = b
  · subst hb
    obtain rfl : s = s' := ok_unique hs hs'
    refine ⟨s, t, hs, by rw [pool_of_insert hinsert, if_pos rfl], ?_⟩
    cases hchange with
    | deposit caller amount shares time hdeposit =>
      exact absurd (running_of_exchange h (.inl hdeposit)) hstill
    | redeem caller shares hredeem => exact absurd (running_of_exchange h (.inr hredeem)) hstill
    | control hcontrol hpause =>
      refine ⟨hcontrol.shares, hcontrol.lastDeposit, ?_⟩
      rcases hpause with hsame | ⟨caller, hset⟩
      · rw [hsame, hpaused]
      · cases hlift : t.locks.paused with
        | true => rfl
        | false => exact absurd (hlift ▸ hset) (hop caller)
  · exact ⟨s, s, hs, by rw [pool_of_insert hinsert, if_neg hb, hs], rfl, rfl, hpaused⟩

/-! ## Meta shares -/

/-- A leg of another pool does not bear on the meta shares, and one of the pool itself can only recall. -/
theorem metaShares_of_leg (kind : LegKind) {x m : Nat} (hp : p.Paused a)
    (h : kind.leg b x m p = .ok () q) : q.metaToken.balanceOf a ≤ p.metaToken.balanceOf a := by
  obtain ⟨-, rfl⟩ | ⟨-, metaToken, s, tokens, hchange, hs, hauth, -, rfl⟩ := LegKind.leg_eq_ok.1 h
  · exact Nat.le_refl _
  by_cases hb : a = b
  · subst hb
    cases kind with
    | sends => exact absurd ⟨s, hs, Pool.running_of_authorizeSend hauth⟩ hp.not_running
    | recalls =>
      obtain ⟨book, hburn, rfl⟩ := MetaToken.burn_eq_ok.1 hchange
      exact Nat.le.intro (ShareBook.balanceOf_of_burn hburn a)
  · have hsame := LegKind.get?_of_change hchange hb
    exact Nat.le_of_eq (congrArg (·.getD 0) hsame)

theorem metaShares_of_batch (kind : LegKind) {pools : List Address} {amounts : List Nat}
    (hp : p.Paused a) (h : Batch kind.leg pools amounts p q) :
    q.metaToken.balanceOf a ≤ p.metaToken.balanceOf a := by
  -- the pause lasts for the whole batch, since no part of it writes a pool
  have hwalk : q.pools = p.pools ∧ q.metaToken.balanceOf a ≤ p.metaToken.balanceOf a := by
    refine h.preserves (I := fun r => r.pools = p.pools ∧
      r.metaToken.balanceOf a ≤ p.metaToken.balanceOf a) ?_ ?_ ⟨rfl, Nat.le_refl _⟩
    · rintro r r' hframe ⟨hpools, hle⟩
      have hmeta : r'.metaToken = r.metaToken := hframe .metaToken (by simp)
      exact ⟨(hframe .pools (by simp)).trans hpools, hmeta ▸ hle⟩
    · rintro b x m r r' ⟨hpools, hle⟩ hleg
      have hr : r.Paused a := by
        obtain ⟨s, hs, hpaused⟩ := hp
        exact ⟨s, by rw [pool_of_eq hpools, hs], hpaused⟩
      refine ⟨?_, Nat.le_trans (metaShares_of_leg kind hr hleg) hle⟩
      obtain ⟨-, rfl⟩ | ⟨-, _, _, _, -, -, -, -, rfl⟩ := LegKind.leg_eq_ok.1 hleg <;> exact hpools
  exact hwalk.2

theorem metaShares_of_ok (hp : p.Paused a) (h : op.perform p = .ok out q) :
    q.metaToken.balanceOf a ≤ p.metaToken.balanceOf a := by
  by_cases hop : op.isRebalance = true
  · obtain ⟨pools, amounts, hbatch | hbatch⟩ := Operation.batch_of_ok hop h
    · exact metaShares_of_batch .sends hp hbatch
    · exact metaShares_of_batch .recalls hp hbatch
  · have hmeta : q.metaToken = p.metaToken :=
      Operation.frame_of_ok h .metaToken (mt Operation.metaToken_mem_writes.1 hop)
    exact Nat.le_of_eq (congrArg (MetaToken.balanceOf · a) hmeta)

/-! ## One operation -/

theorem contained_of_ok (hp : p.Paused a) (hlp : a ≠ p.lpAccount.address)
    (hcaller : op.caller? ≠ some a) (hop : ∀ caller, op ≠ .setPoolPaused caller a false)
    (h : op.perform p = .ok out q) : Contained a p q ∧ q.Paused a := by
  obtain ⟨s, t, hs, ht, hshares, htimes, hpaused⟩ := pool_of_paused hp hop h
  have hmay : ¬ op.maySpend p a := by
    rintro (h | h | h)
    · exact hcaller h
    · exact hp.not_running h
    · exact hlp h
  refine ⟨⟨?_, ?_, fun token v hv => ?_, metaShares_of_ok hp h⟩, t, ht, hpaused⟩
  · rw [hs, ht]
    exact congrArg Except.ok hshares
  · rw [hs, ht]
    exact congrArg Except.ok htimes
  · cases Operation.tokens_of_ok h with
    | credited _ _ _ _ hmint => exact TokenBook.balance_le_of_mint hmint hv
    | spent _ hspent => exact TokenBook.balance_le_of_spent hspent hmay hv

theorem contained_after (hp : p.Paused a) (hlp : a ≠ p.lpAccount.address)
    (hcaller : op.caller? ≠ some a) (hop : op.liftsPause a p = false) :
    Contained a p (p.after op) ∧ (p.after op).Paused a := by
  rcases ok_or_unchanged p op with ⟨out, h⟩ | ⟨-, hsame⟩
  · refine contained_of_ok hp hlp hcaller ?_ h
    rintro caller rfl
    simp [Operation.liftsPause, Operation.fails, h] at hop
  · rw [hsame]
    exact ⟨.refl a p, hp⟩

/-! ## Histories -/

/-- Whether no end of the pool's pause in a history succeeds. -/
def keepsPause (p : Protocol) (a : Address) : List Operation → Bool
  | [] => true
  | op :: ops => !op.liftsPause a p && (p.after op).keepsPause a ops

theorem keepsPause_append {before later : List Operation} : p.keepsPause a (before ++ later) = true ↔
    p.keepsPause a before = true ∧ (p.run before).keepsPause a later = true := by
  induction before generalizing p with
  | nil => exact ⟨fun h => ⟨rfl, h⟩, fun h => h.2⟩
  | cons op before ih =>
    simp only [List.cons_append, keepsPause, Bool.and_eq_true, ih, and_assoc]
    rfl

theorem contained_run (hp : p.Paused a) (hlp : a ≠ p.lpAccount.address)
    (hcaller : ∀ op ∈ ops, op.caller? ≠ some a) (hkeeps : p.keepsPause a ops = true) :
    Contained a p (p.run ops) ∧ (p.run ops).Paused a := by
  induction ops generalizing p with
  | nil => exact ⟨.refl a p, hp⟩
  | cons op ops ih =>
    rw [List.forall_mem_cons] at hcaller
    simp only [keepsPause, Bool.and_eq_true, Bool.not_eq_true'] at hkeeps
    obtain ⟨hstep, hpaused⟩ := contained_after hp hlp hcaller.1 hkeeps.1
    have hlp' : a ≠ (p.after op).lpAccount.address := by rwa [Operation.lpAccount_after]
    obtain ⟨hrest, hend⟩ := ih hpaused hlp' hcaller.2 hkeeps.2
    exact ⟨hstep.trans hrest, hend⟩

/-- In every reachable state in which a pool is paused and along every history from it in which the pool is
not a caller and its pause is not lifted: from each moment to every later one its shares and its deposit
times are the same, of every token, its underlyer among them, it holds no less, and it holds no more meta
shares. -/
theorem pause_contains (p : Protocol) (h : Reachable p) (a : Address) (hpaused : p.Paused a)
    (before later : List Operation) (hcaller : ∀ op ∈ before ++ later, op.caller? ≠ some a)
    (hkeeps : p.keepsPause a (before ++ later) = true) :
    Contained a (p.run before) (p.run (before ++ later)) := by
  obtain ⟨hbefore, hlater⟩ := List.forall_mem_append.1 hcaller
  obtain ⟨hkeeps, hkeeps'⟩ := keepsPause_append.1 hkeeps
  obtain ⟨-, hstill⟩ := contained_run hpaused (hpaused.apart h) hbefore hkeeps
  rw [show p.run (before ++ later) = (p.run before).run later from List.foldl_append]
  exact (contained_run hstill (hstill.apart (h.run before)) hlater hkeeps').1

/-- Part of a deposit is deployed, the lock of the oracle is over, and the pool is paused. -/
def pausedPool : Protocol :=
  initial.run [.mintTokens ⟨"USDC"⟩ ⟨"alice"⟩ 1000, .approve ⟨"USDC"⟩ ⟨"alice"⟩ ⟨"usdcPool"⟩ 1000,
    .deposit ⟨"alice"⟩ ⟨"usdcPool"⟩ 600, .sendByHand ⟨"emergencySafe"⟩ [⟨"usdcPool"⟩] [400],
    .passBlocks 135, .publishTvl 40000, .setPoolPaused ⟨"emergencySafe"⟩ ⟨"usdcPool"⟩ true]

/-- A deposit, a redemption and the end of the pause are refused, and so is a batch that sends from the
pool. -/
def refused : List Operation :=
  [.deposit ⟨"alice"⟩ ⟨"usdcPool"⟩ 100, .redeem ⟨"alice"⟩ ⟨"usdcPool"⟩ 1000000000000000,
    .setPoolPaused ⟨"alice"⟩ ⟨"usdcPool"⟩ false, .sendByHand ⟨"emergencySafe"⟩ [⟨"usdcPool"⟩] [100]]

/-- Capital comes back, and somebody credits the pool. -/
def givenBack : List Operation :=
  [.recallByHand ⟨"emergencySafe"⟩ [⟨"usdcPool"⟩] [300], .mintTokens ⟨"USDC"⟩ ⟨"usdcPool"⟩ 5]

theorem pause_contains_pausedPool :
    pausedPool.Paused ⟨"usdcPool"⟩ ∧
      Contained ⟨"usdcPool"⟩ (pausedPool.run refused) (pausedPool.run (refused ++ givenBack)) ∧
      (pausedPool.run refused).tokens.held ⟨"USDC"⟩ ⟨"usdcPool"⟩ = 200 ∧
      (pausedPool.run (refused ++ givenBack)).tokens.held ⟨"USDC"⟩ ⟨"usdcPool"⟩ = 505 := by
  have hpaused : pausedPool.Paused ⟨"usdcPool"⟩ := by
    have hlocks : ((pausedPool.pool ⟨"usdcPool"⟩).map (·.locks.paused)).toOption = some true := by
      decide +kernel
    obtain ⟨s, hs⟩ := exists_ok_of_isSome (x := pausedPool.pool ⟨"usdcPool"⟩) (by decide +kernel)
    rw [hs] at hlocks
    exact ⟨s, hs, Option.some.inj hlocks⟩
  refine ⟨hpaused, ?_, by decide +kernel, by decide +kernel⟩
  exact pause_contains pausedPool (reachable_initial.run _) ⟨"usdcPool"⟩ hpaused refused givenBack
    (by decide) (by decide +kernel)

end Protocol

end MetaPool
