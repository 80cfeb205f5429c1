import MetaPool.Proofs.Deployment.Pools
import MetaPool.Proofs.Ledger.Deposit
import MetaPool.Proofs.Quantity.Clock
import MetaPool.Proofs.Value.Views

/-!
# The arbitrage fee

A pool notes the time of a holder's last deposit, and nothing but a deposit of that holder that succeeds
changes the note: what fails leaves it, and redemptions, controls and the deposits of others or into
other pools do not write it. So along a history the note is the time of the last deposit that succeeded.

    noted after op = the time, if op deposits, else noted before    (lastDepositOf_after)
    noted after ops = the last of the deposit times along ops       (lastDepositOf_run)

Whether a redemption is early is decided by the note, the clock and the period that is in force, and an
early redemption pays the arbitrage fee on top of the withdraw fee, of the same base.
-/

namespace MetaPool

theorem Pool.isEarly_iff {s : Pool} {holder : Address} {clock : Clock} :
    s.isEarly holder clock = true ↔
      ∃ time, s.lastDeposit.get? holder = some time ∧ clock.since time < s.terms.arbitragePeriod := by
  unfold isEarly
  cases s.lastDeposit.get? holder with
  | none => simp
  | some time => simp

/-- Whether an operation is a deposit of a holder into a pool that succeeds. -/
def Operation.makesDeposit (op : Operation) (p : Protocol) (pool holder : Address) : Bool :=
  match op with
  | deposit caller target _ => decide (caller = holder ∧ target = pool) && !op.fails p
  | _ => false

namespace Protocol

variable {p q : Protocol} {op : Operation} {out : Outcome} {pool holder : Address} {s : Pool}

/-! ## The note of a deposit -/

/-- The time that a pool has noted for a holder. -/
def lastDepositOf (p : Protocol) (pool holder : Address) : Option Int64 :=
  (p.pools.get? pool).bind (·.lastDeposit.get? holder)

theorem lastDepositOf_of_pool (h : p.pool pool = .ok s) (holder : Address) :
    p.lastDepositOf pool holder = s.lastDeposit.get? holder := by
  simp only [lastDepositOf, pool_eq_ok.1 h, Option.bind_some]

theorem lastDepositOf_of_map
    (h : (q.pool pool).map (·.lastDeposit) = (p.pool pool).map (·.lastDeposit)) (holder : Address) :
    q.lastDepositOf pool holder = p.lastDepositOf pool holder := by
  unfold Protocol.pool at h
  unfold lastDepositOf
  cases hp : p.pools.get? pool <;> cases hq : q.pools.get? pool <;> simp_all [Except.map]

/-- Nothing is noted when a history begins. -/
theorem lastDepositOf_of_deploy {plan : Plan} {clock : Clock}
    (h : Protocol.deploy plan clock = .ok p) (pool holder : Address) :
    p.lastDepositOf pool holder = none := by
  cases hs : p.pools.get? pool with
  | none => simp only [lastDepositOf, hs, Option.bind_none]
  | some s =>
    obtain ⟨_, -, -, hnew⟩ := pool_of_deploy h (pool_eq_ok.2 hs)
    obtain ⟨-, -, -, rfl⟩ := Pool.new_eq_ok.1 hnew
    simp only [lastDepositOf, hs, Option.bind_some]
    rfl

/-- A deposit notes the time for its caller and its pool. -/
theorem lastDepositOf_of_deposit {caller target : Address} {amount shares : Nat}
    (h : deposit caller target amount p = .ok shares q) : q.lastDepositOf pool holder =
      if caller = holder ∧ target = pool then some p.clock.time else p.lastDepositOf pool holder := by
  obtain ⟨-, s, s', _, _, hdeposited⟩ := deposited_of_deposit h
  by_cases hpool : target = pool
  · subst hpool
    rw [lastDepositOf_of_pool hdeposited.after.1, lastDepositOf_of_pool hdeposited.before.1,
      hdeposited.lastDeposit]
    simp only [and_true, eq_comm]
  · rw [if_neg fun h => hpool h.2]
    exact lastDepositOf_of_map (by rw [hdeposited.pool_ne pool (Ne.symm hpool)]) holder

/-- What is not a deposit notes nothing. -/
theorem lastDepositOf_of_other (hop : ∀ caller target amount, op ≠ .deposit caller target amount)
    (h : op.perform p = .ok out q) : q.lastDepositOf pool holder = p.lastDepositOf pool holder := by
  refine lastDepositOf_of_map ((Operation.pools_of_ok h).map_eq (fun _ s s' hchange => ?_) pool) holder
  cases hchange with
  | deposit caller amount shares time hdeposit => exact absurd hdeposit (hop _ _ _)
  | redeem caller shares _ htake =>
    obtain ⟨book, -, rfl⟩ := Pool.takeShares_eq_ok.1 htake
    rfl
  | control hcontrolled => exact hcontrolled.lastDeposit

theorem lastDepositOf_after (p : Protocol) (op : Operation) (pool holder : Address) :
    (p.after op).lastDepositOf pool holder =
      if op.makesDeposit p pool holder then some p.clock.time else p.lastDepositOf pool holder := by
  by_cases hop : ∃ caller target amount, op = .deposit caller target amount
  · obtain ⟨caller, target, amount, rfl⟩ := hop
    rcases ok_or_unchanged p (.deposit caller target amount) with ⟨out, h⟩ | ⟨hfails, hsame⟩
    · obtain ⟨shares, -, hdeposit⟩ := Operation.reply_eq_ok.1 h
      simp only [lastDepositOf_of_deposit hdeposit, Operation.makesDeposit, Operation.fails, h,
        Bool.not_false, Bool.and_true, decide_eq_true_eq]
    · simp [Operation.makesDeposit, hfails, hsame]
  · simp only [not_exists] at hop
    have hnone : op.makesDeposit p pool holder = false := by
      unfold Operation.makesDeposit
      split
      · exact absurd rfl (hop _ _ _)
      · rfl
    rw [hnone, if_neg (by decide)]
    rcases ok_or_unchanged p op with ⟨out, h⟩ | ⟨-, hsame⟩
    · exact lastDepositOf_of_other hop h
    · rw [hsame]

/-! ## Deposits along a history -/

/-- The times at which deposits of a holder into a pool have succeeded along a history, in its order. -/
def depositTimes (p : Protocol) (pool holder : Address) : List Operation → List Int64
  | [] => []
  | op :: ops => (if op.makesDeposit p pool holder then [p.clock.time] else []) ++
      (p.after op).depositTimes pool holder ops

theorem lastDepositOf_run (p : Protocol) (pool holder : Address) (ops : List Operation) :
    (p.run ops).lastDepositOf pool holder =
      (p.depositTimes pool holder ops).getLast?.or (p.lastDepositOf pool holder) := by
  induction ops generalizing p with
  | nil => rfl
  | cons op ops ih =>
    show ((p.after op).run ops).lastDepositOf pool holder = _
    rw [ih, lastDepositOf_after, depositTimes, List.getLast?_append]
    split
    · simp
    · simp

/-- The last deposit of a holder into a pool that has succeeded along a history is less than a period
ago. -/
def DepositedWithin (p : Protocol) (pool holder : Address) (ops : List Operation) (period : Int64) :
    Prop :=
  ∃ time, (p.depositTimes pool holder ops).getLast? = some time ∧
    max minSignedWord (min maxSignedWord ((p.run ops).clock.time.toInt - time.toInt)) < period.toInt

theorem isEarly_iff_depositedWithin {plan : Plan} {clock : Clock} {ops : List Operation}
    (h : Protocol.deploy plan clock = .ok p) (hs : (p.run ops).pool pool = .ok s) (holder : Address) :
    s.isEarly holder (p.run ops).clock = true ↔
      p.DepositedWithin pool holder ops s.terms.arbitragePeriod := by
  rw [Pool.isEarly_iff, ← lastDepositOf_of_pool hs, lastDepositOf_run, lastDepositOf_of_deploy h,
    Option.or_none]
  simp only [DepositedWithin, Int64.lt_iff_toInt_lt, Clock.toInt_since]

/-- Along every history from a deployment, a redemption of a holder is early exactly while the holder's
last deposit into the pool that succeeded is less than the period ago that is in force now; and what a
redemption pays is its base amount without the withdraw fee and, exactly then, the arbitrage fee. -/
theorem arbitrage_fee_follows_deposit {plan : Plan} {clock : Clock} {p : Protocol}
    (h : Protocol.deploy plan clock = .ok p) (ops : List Operation) (pool holder : Address) (s : Pool)
    (hs : (p.run ops).pool pool = .ok s) :
    (∃ early, (p.run ops).isEarly pool holder = .ok early ∧
      (early = true ↔ p.DepositedWithin pool holder ops s.terms.arbitragePeriod)) ∧
    ∀ shares paid q, redeem holder pool shares (p.run ops) = .ok paid q →
      ∃ base, (p.run ops).underlyerFor pool shares = .ok base ∧
        (p.DepositedWithin pool holder ops s.terms.arbitragePeriod →
          paid = base - base * s.terms.withdrawFeeBps / wholeBps -
            base * s.terms.arbitrageFeeBps / wholeBps) ∧
        (¬ p.DepositedWithin pool holder ops s.terms.arbitragePeriod →
          paid = base - base * s.terms.withdrawFeeBps / wholeBps) ∧
        TokenBook.Moved (p.run ops).tokens q.tokens s.underlyer pool holder paid := by
  have hearly := isEarly_iff_depositedWithin h hs holder
  refine ⟨⟨s.isEarly holder (p.run ops).clock, ?_, hearly⟩, ?_⟩
  · unfold Protocol.isEarly
    rw [hs]
    rfl
  · intro shares paid q hredeem
    obtain ⟨s₁, _, _, _, quote, _, hs₁, -, -, -, hquote, rfl, -, -, -, htransfer, -, rfl⟩ :=
      redeem_eq_ok.1 hredeem
    obtain rfl : s = s₁ := ok_unique hs hs₁
    obtain ⟨s₂, base, hs₂, hbase, hquote⟩ := quote_eq_ok.1 hquote
    obtain rfl : s = s₂ := ok_unique hs hs₂
    have hnet := congrArg RedemptionQuote.net (RedemptionQuote.of_eq_ok hquote)
    refine ⟨base, hbase, fun hwithin => ?_, fun hlong => ?_, TokenBook.moved_of_transfer htransfer⟩
    · rw [hnet, if_pos (hearly.2 hwithin)]
    · rw [hnet, if_neg (mt hearly.1 hlong), Nat.sub_zero]

/-- Two deposits, the second a day after the first, then a redemption, a deposit that fails, one of
another holder and a shorter period. -/
def visits : List Operation :=
  [.mintTokens ⟨"USDC"⟩ ⟨"alice"⟩ 100000, .approve ⟨"USDC"⟩ ⟨"alice"⟩ ⟨"usdcPool"⟩ 100000,
    .deposit ⟨"alice"⟩ ⟨"usdcPool"⟩ 40000, .passTime 86400, .deposit ⟨"alice"⟩ ⟨"usdcPool"⟩ 30000,
    .publishPrice ⟨"USDC"⟩ 100000000, .passTime 1800,
    .redeem ⟨"alice"⟩ ⟨"usdcPool"⟩ 1000000000000000000, .deposit ⟨"alice"⟩ ⟨"usdcPool"⟩ 40000,
    .mintTokens ⟨"USDC"⟩ ⟨"bob"⟩ 1, .approve ⟨"USDC"⟩ ⟨"bob"⟩ ⟨"usdcPool"⟩ 1,
    .deposit ⟨"bob"⟩ ⟨"usdcPool"⟩ 1, .setArbitrageFee ⟨"adminSafe"⟩ ⟨"usdcPool"⟩ 1000 3600]

/-- A redemption of the same shares pays the fee until the second before an hour is over. -/
theorem arbitrage_fee_follows_deposit_visits :
    (∃ q, redeem ⟨"alice"⟩ ⟨"usdcPool"⟩ 10000000000000000000 (initial.run (visits ++ [.passTime 1799])) =
        .ok 8997 q) ∧
      initial.DepositedWithin ⟨"usdcPool"⟩ ⟨"alice"⟩ (visits ++ [.passTime 1799]) 3600 ∧
      (∃ q, redeem ⟨"alice"⟩ ⟨"usdcPool"⟩ 10000000000000000000 (initial.run (visits ++ [.passTime 1800])) =
        .ok 9997 q) ∧
      ¬ initial.DepositedWithin ⟨"usdcPool"⟩ ⟨"alice"⟩ (visits ++ [.passTime 1800]) 3600 := by
  have hpaid (ops : List Operation) (early : Bool)
      (hterms : ((initial.run ops).pool ⟨"usdcPool"⟩).toOption.map (·.terms) =
        some ⟨5, 10, 1000, 3600⟩)
      (hearly : ((initial.run ops).isEarly ⟨"usdcPool"⟩ ⟨"alice"⟩).toOption = some early)
      (hbase : ((initial.run ops).underlyerFor ⟨"usdcPool"⟩ 10000000000000000000).toOption = some 10007)
      (hok : (Operation.redeem ⟨"alice"⟩ ⟨"usdcPool"⟩ 10000000000000000000).fails (initial.run ops) =
        false) :
      (∃ q, redeem ⟨"alice"⟩ ⟨"usdcPool"⟩ 10000000000000000000 (initial.run ops) =
        .ok (if early then 8997 else 9997) q) ∧
      (early = true ↔ initial.DepositedWithin ⟨"usdcPool"⟩ ⟨"alice"⟩ ops 3600) := by
    cases hs : (initial.run ops).pool ⟨"usdcPool"⟩ with
    | error fault => simp [hs, Except.toOption] at hterms
    | ok s =>
      have hs' : s.terms = ⟨5, 10, 1000, 3600⟩ := by simpa [hs, Except.toOption] using hterms
      obtain ⟨⟨_, hearly', hiff⟩, hpays⟩ :=
        arbitrage_fee_follows_deposit deploy_default ops ⟨"usdcPool"⟩ ⟨"alice"⟩ s hs
      obtain rfl := ok_unique (eq_ok_of_toOption hearly) hearly'
      rw [hs'] at hiff hpays
      refine ⟨?_, hiff⟩
      obtain ⟨_, h⟩ := perform_of_not_fails hok
      obtain ⟨paid, -, h⟩ := Operation.reply_eq_ok.1 h
      obtain ⟨base, hbase', hwithin, hlong, -⟩ := hpays _ _ _ h
      obtain rfl := ok_unique (eq_ok_of_toOption hbase) hbase'
      cases early with
      | true => exact ⟨_, hwithin (hiff.1 rfl) ▸ h⟩
      | false => exact ⟨_, hlong (mt hiff.2 (by decide)) ▸ h⟩
  obtain ⟨hsoon, hwithin⟩ := hpaid (visits ++ [.passTime 1799]) true (by decide +kernel)
    (by decide +kernel) (by decide +kernel) (by decide +kernel)
  obtain ⟨hlate, hlong⟩ := hpaid (visits ++ [.passTime 1800]) false (by decide +kernel)
    (by decide +kernel) (by decide +kernel) (by decide +kernel)
  exact ⟨hsoon, hwithin.1 rfl, hlate, mt hlong.2 (by decide)⟩

end Protocol

end MetaPool
