import MetaPool.Proofs.Ledger.Pools
import MetaPool.Proofs.Ledger.Shares
import MetaPool.Proofs.Log.Replica

/-!
# The log determines the state

Whatever an operation changes that a replica holds, it logs, and it logs nothing else: from the
replica of the state before, the new entries lead to the replica of the state after (`Follows`). A
failed operation leaves no entry. So the replica of a deployment and all entries since, those that
were taken from the log and those that are still in it, give the replica of the state that a history
leads to.

    (p.run ops).replica = p.replica.replay (p.taken ops ++ (p.run ops).log)   (replay_history)
-/

namespace MetaPool

/-! ## Single writes -/

theorem ShareBook.eq_credit_of_mint {b b' : ShareBook} {holder : Address} {amount : Nat}
    (h : b.mint holder amount = .ok b') : b' = b.credit holder amount := by
  obtain ⟨-, -, -, rfl⟩ := mint_eq_ok.1 h
  rfl

theorem ShareBook.eq_debit_of_burn {b b' : ShareBook} {holder : Address} {amount : Nat}
    (h : b.burn holder amount = .ok b') : b' = b.debit holder amount := by
  obtain ⟨-, -, rfl⟩ := burn_eq_ok.1 h
  rfl

theorem Allocation.tokens_of_register {a a' : Allocation} {caller : Address} {data : AllocatedToken}
    (h : a.register caller data = .ok a') : a'.tokens = a.tokens.insert data.token data := by
  simp only [register, except_check_eq_ok, refuse_eq_ok, except_pure_eq_ok] at h
  obtain ⟨-, -, -, rfl⟩ := h
  rfl

namespace Protocol

variable {p q r : Protocol} {u : Unit}

/-- The new entries of the log lead from one replica to the other. -/
def Follows (p q : Protocol) : Prop :=
  ∃ entries, q.log = p.log ++ entries ∧ q.replica = p.replica.replay entries

theorem Follows.refl (p : Protocol) : Follows p p := ⟨[], (List.append_nil _).symm, rfl⟩

theorem Follows.trans (h : Follows p q) (h' : Follows q r) : Follows p r := by
  obtain ⟨entries, hlog, hreplica⟩ := h
  obtain ⟨entries', hlog', hreplica'⟩ := h'
  refine ⟨entries ++ entries', ?_, ?_⟩
  · rw [hlog', hlog, List.append_assoc]
  · rw [hreplica', hreplica, Replica.replay_append]

/-- Nothing that the log tells of has changed. -/
theorem follows_of_silent (hlog : q.log = p.log) (h : q.replica = p.replica) : Follows p q :=
  ⟨[], hlog.trans (List.append_nil _).symm, h⟩

/-- One entry tells all that has changed. -/
theorem follows_of_entry {event : Event}
    (hlog : q.log = p.log ++ [⟨p.clock.height, p.clock.time, event⟩])
    (h : q.replica = p.replica.apply ⟨p.clock.height, p.clock.time, event⟩) : Follows p q :=
  ⟨_, hlog, h⟩

/-- One entry tells how one pool has changed. -/
theorem follows_of_pool {event : Event} {a : Address} {s : Pool} {change : Pool → Pool}
    (hs : p.pool a = .ok s)
    (happly : p.replica.apply ⟨p.clock.height, p.clock.time, event⟩ = p.replica.onPool a change)
    (hlog : q.log = p.log ++ [⟨p.clock.height, p.clock.time, event⟩])
    (h : q.replica = { p.replica with pools := p.pools.insert a (change s) }) : Follows p q := by
  refine follows_of_entry hlog ?_
  rw [h, happly, ← OrderedMap.adjust_eq_insert (pool_eq_ok.1 hs)]
  rfl

/-! ## Moves of capital -/

theorem follows_send {caller pool : Address} {amount : Nat}
    (h : sendToLpAccount caller pool amount p = .ok u q) : Follows p q := by
  obtain ⟨s, tokens, -, -, -, rfl⟩ := sendToLpAccount_eq_ok.1 h
  exact follows_of_entry rfl rfl

theorem follows_return {caller pool : Address} {amount : Nat}
    (h : returnToPool caller pool amount p = .ok u q) : Follows p q := by
  obtain ⟨-, s, tokens, -, -, rfl⟩ := returnToPool_eq_ok.1 h
  exact follows_of_entry rfl rfl

/-! ## Deposits and redemptions -/

theorem follows_deposit {caller pool : Address} {amount shares : Nat}
    (h : deposit caller pool amount p = .ok shares q) : Follows p q := by
  obtain ⟨s, s', tokens, value, hs, -, -, -, -, -, hadd, -, rfl⟩ := deposit_eq_ok.1 h
  obtain ⟨book, hmint, rfl⟩ := Pool.addDeposit_eq_ok.1 hadd
  obtain rfl := ShareBook.eq_credit_of_mint hmint
  exact follows_of_pool hs rfl rfl rfl

theorem follows_redeem {caller pool : Address} {shares paid : Nat}
    (h : redeem caller pool shares p = .ok paid q) : Follows p q := by
  obtain ⟨s, s', tokens, _, _, value, hs, -, -, -, -, -, -, -, htake, -, -, rfl⟩ := redeem_eq_ok.1 h
  obtain ⟨book, hburn, rfl⟩ := Pool.takeShares_eq_ok.1 htake
  obtain rfl := ShareBook.eq_debit_of_burn hburn
  exact follows_of_pool hs rfl rfl rfl

/-! ## Controls -/

/-- A control of a pool logs how it changes the pool. -/
theorem follows_controlPool {pool : Address} {change : Pool → Except Fault Pool} {event : Event}
    {after : Pool → Pool} (h : (atomically do onPool pool change; logEvent event) p = .ok u q)
    (hchange : ∀ s s', change s = .ok s' → s' = after s)
    (happly : ∀ (r : Replica) height time, r.apply ⟨height, time, event⟩ = r.onPool pool after) :
    Follows p q := by
  obtain ⟨s, s', hs, hs', rfl⟩ := controlPool_eq_ok.1 h
  obtain rfl := hchange s s' hs'
  exact follows_of_pool hs (happly _ _ _) rfl rfl

/-- A control of the oracle logs how it changes the oracle. -/
theorem follows_controlOracle {α : Type} {setter : Clock → FeedBook → Oracle.Setter α}
    {event : α → Event} (h : (atomically do let a ← onOracle setter; logEvent (event a)) p = .ok u q)
    (happly : ∀ a oracle, setter p.clock p.feeds p.oracle = .ok a oracle →
      { p.replica with oracle := oracle.replica } =
        p.replica.apply ⟨p.clock.height, p.clock.time, event a⟩) : Follows p q := by
  obtain ⟨a, oracle, hset, rfl⟩ := controlOracle_eq_ok.1 h
  exact follows_of_entry rfl (happly a oracle hset)

/-- A lock logs its end, which is all that it changes. -/
theorem follows_lock {setter : Clock → FeedBook → Oracle.Setter Unit}
    (h : (do onOracle setter; logEvent (.oracleLocked (← get).oracle.lockEnd)) p = .ok u q)
    (hset : ∀ oracle, setter p.clock p.feeds p.oracle = .ok () oracle →
      oracle = { p.oracle with lockEnd := oracle.lockEnd }) : Follows p q := by
  obtain ⟨oracle, hok, rfl⟩ := lock_eq_ok.1 h
  refine follows_of_entry rfl ?_
  rw [hset oracle hok]
  rfl

theorem follows_setAssetSources {caller : Address} {assets sources : List Address}
    (h : setAssetSources caller assets sources p = .ok u q) : Follows p q := by
  obtain ⟨oracle, hset, rfl⟩ := setAssetSources_eq_ok.1 h
  obtain ⟨-, -, -, -, rfl⟩ := Oracle.setAssetSources_eq_ok.1 hset
  refine ⟨_, rfl, ?_⟩
  rw [Replica.replay_sources]
  rfl

/-! ## Batches -/

theorem follows_registerUnderlyer {pool : Address} (h : registerUnderlyer pool p = .ok u q) :
    Follows p q := by
  obtain ⟨s, -, ⟨-, rfl⟩ | ⟨-, info, allocation, -, hregister, rfl⟩⟩ := registerUnderlyer_eq_ok.1 h
  · exact .refl q
  · refine follows_of_entry rfl ?_
    show { p.replica with listed := allocation.tokens } = _
    rw [Allocation.tokens_of_register hregister]
    rfl

theorem follows_mintAndSend {pool : Address} {shares amount : Nat}
    (h : mintAndSend pool shares amount p = .ok u q) : Follows p q := by
  obtain ⟨-, rfl⟩ | ⟨-, metaToken, hmint, hsend⟩ := mintAndSend_eq_ok.1 h
  · exact .refl q
  · obtain ⟨book, hbook, rfl⟩ := MetaToken.mint_eq_ok.1 hmint
    obtain rfl := ShareBook.eq_credit_of_mint hbook
    exact (follows_of_entry rfl rfl).trans (follows_send hsend)

theorem follows_burnAndReturn {pool : Address} {shares amount : Nat}
    (h : burnAndReturn pool shares amount p = .ok u q) : Follows p q := by
  obtain ⟨-, rfl⟩ | ⟨-, metaToken, hburn, hreturn⟩ := burnAndReturn_eq_ok.1 h
  · exact .refl q
  · obtain ⟨book, hbook, rfl⟩ := MetaToken.burn_eq_ok.1 hburn
    obtain rfl := ShareBook.eq_debit_of_burn hbook
    exact (follows_of_entry rfl rfl).trans (follows_return hreturn)

theorem oracle_of_lock {o o' : Oracle} {caller : Address} {clock : Clock}
    (h : Oracle.lock caller clock o = .ok u o') : o' = { o with lockEnd := o'.lockEnd } := by
  obtain ⟨-, -, rfl⟩ := Oracle.lock_eq_ok.1 h
  rfl

theorem follows_lockAfterMove (h : lockAfterMove p = .ok u q) : Follows p q :=
  follows_lock (get_bind_eq_ok.1 h) fun _ => oracle_of_lock

theorem follows_batch {leg : Address → Nat → Nat → Action Unit} {pools : List Address}
    {amounts : List Nat}
    (hleg : ∀ {pool delta amount p q}, leg pool delta amount p = .ok () q → Follows p q)
    (h : Batch leg pools amounts p q) : Follows p q :=
  h.walk (fun _ _ _ hp hlist => hp.trans (follows_registerUnderlyer hlist))
    (fun _ _ _ _ _ hp h => hp.trans (hleg h))
    (fun _ _ hp hlock => hp.trans (follows_lockAfterMove hlock)) (.refl p)

end Protocol

/-! ## Operations -/

namespace Operation

open Protocol

variable {op : Operation} {p q : Protocol} {out : Outcome}

theorem follows_of_poolControl (hop : op.writes = [.pools]) (h : op.perform p = .ok out q) :
    Follows p q := by
  cases op with
  | setPoolPaused =>
    refine follows_controlPool (complete_eq_ok.1 h).2 (fun s s' hs => ?_) fun _ _ _ => rfl
    exact (Pool.setPaused_eq_ok.1 hs).2
  | setDepositLock =>
    refine follows_controlPool (complete_eq_ok.1 h).2 (fun s s' hs => ?_) fun _ _ _ => rfl
    exact (Pool.setDepositLock_eq_ok.1 hs).2
  | setRedemptionLock =>
    refine follows_controlPool (complete_eq_ok.1 h).2 (fun s s' hs => ?_) fun _ _ _ => rfl
    exact (Pool.setRedemptionLock_eq_ok.1 hs).2
  | setReservePercentage =>
    refine follows_controlPool (complete_eq_ok.1 h).2 (fun s s' hs => ?_) fun _ _ _ => rfl
    exact (Pool.setTerms_eq_ok.1 (Pool.setReservePercentage_eq_ok.1 hs).2).2
  | setWithdrawFee =>
    refine follows_controlPool (complete_eq_ok.1 h).2 (fun s s' hs => ?_) fun _ _ _ => rfl
    exact (Pool.setTerms_eq_ok.1 (Pool.setWithdrawFee_eq_ok.1 hs).2).2
  | setArbitrageFee =>
    refine follows_controlPool (complete_eq_ok.1 h).2 (fun s s' hs => ?_) fun _ _ _ => rfl
    exact (Pool.setTerms_eq_ok.1 (Pool.setArbitrageFee_eq_ok.1 hs).2).2
  | _ => simp [writes, batchWrites] at hop

theorem follows_of_oracleControl (hop : op.writes = [.oracle]) (h : op.perform p = .ok out q) :
    Follows p q := by
  cases op with
  | lockOracle =>
    refine follows_lock (atomically_eq_ok.1 (complete_eq_ok.1 h).2) fun oracle hset => ?_
    exact oracle_of_lock hset
  | lockOracleFor =>
    refine follows_lock (atomically_eq_ok.1 (complete_eq_ok.1 h).2) fun oracle hset => ?_
    obtain ⟨-, -, rfl⟩ := Oracle.lockFor_eq_ok.1 hset
    rfl
  | unlockOracle =>
    refine follows_controlOracle (complete_eq_ok.1 h).2 fun a oracle hset => ?_
    obtain ⟨-, rfl⟩ := Oracle.unlock_eq_ok.1 hset
    rfl
  | setTvlOverride =>
    refine follows_controlOracle (complete_eq_ok.1 h).2 fun a oracle hset => ?_
    obtain ⟨-, rfl, rfl⟩ := Oracle.setTvl_eq_ok.1 hset
    rfl
  | unsetTvlOverride =>
    refine follows_controlOracle (complete_eq_ok.1 h).2 fun a oracle hset => ?_
    obtain ⟨-, -, rfl⟩ := Oracle.unsetTvl_eq_ok.1 hset
    rfl
  | setAssetOverride =>
    refine follows_controlOracle (complete_eq_ok.1 h).2 fun a oracle hset => ?_
    obtain ⟨-, -, rfl, rfl⟩ := Oracle.setAssetValue_eq_ok.1 hset
    simp only [Oracle.replica, OrderedMap.map_insert]
    rfl
  | unsetAssetOverride =>
    refine follows_controlOracle (complete_eq_ok.1 h).2 fun a oracle hset => ?_
    obtain ⟨-, -, rfl⟩ := Oracle.unsetAssetValue_eq_ok.1 hset
    simp only [Oracle.replica, OrderedMap.map_erase]
    rfl
  | setTvlSource =>
    refine follows_controlOracle (complete_eq_ok.1 h).2 fun a oracle hset => ?_
    obtain ⟨-, -, rfl⟩ := Oracle.setTvlSource_eq_ok.1 hset
    rfl
  | setAssetSource =>
    refine follows_controlOracle (complete_eq_ok.1 h).2 fun a oracle hset => ?_
    obtain ⟨-, -, -, rfl⟩ := Oracle.setAssetSource_eq_ok.1 hset
    rfl
  | setAssetSources => exact follows_setAssetSources (complete_eq_ok.1 h).2
  | setStalePeriod =>
    refine follows_controlOracle (complete_eq_ok.1 h).2 fun a oracle hset => ?_
    obtain ⟨-, -, rfl⟩ := Oracle.setStalePeriod_eq_ok.1 hset
    rfl
  | setLockPeriod =>
    refine follows_controlOracle (complete_eq_ok.1 h).2 fun a oracle hset => ?_
    obtain ⟨-, rfl⟩ := Oracle.setLockPeriod_eq_ok.1 hset
    rfl
  | _ => simp [writes, batchWrites] at hop

/-- Every operation but `takeLog` logs what it changes. -/
theorem follows_of_ok (hop : op ≠ .takeLog) (h : op.perform p = .ok out q) : Follows p q := by
  by_cases hbatch : op.isRebalance = true
  · obtain ⟨pools, amounts, h | h⟩ := batch_of_ok hbatch h
    · exact follows_batch follows_mintAndSend h
    · exact follows_batch follows_burnAndReturn h
  cases op with
  | takeLog => exact absurd rfl hop
  | passBlocks | passTime | mine =>
    obtain rfl := modify_eq_ok.1 (complete_eq_ok.1 h).2
    exact follows_of_silent rfl rfl
  | publish | publishTvl =>
    obtain ⟨feeds, -, rfl⟩ := publish_eq_ok.1 (complete_eq_ok.1 h).2
    exact follows_of_silent rfl rfl
  | publishPrice =>
    obtain ⟨source, -, h⟩ := publishPrice_eq_ok.1 (complete_eq_ok.1 h).2
    obtain ⟨feeds, -, rfl⟩ := publish_eq_ok.1 h
    exact follows_of_silent rfl rfl
  | openFeed =>
    obtain ⟨feeds, -, rfl⟩ := openFeed_eq_ok.1 (complete_eq_ok.1 h).2
    exact follows_of_silent rfl rfl
  | mintTokens | approve =>
    obtain ⟨tokens, -, rfl⟩ := onTokens_eq_ok.1 (complete_eq_ok.1 h).2
    exact follows_of_silent rfl rfl
  | deposit =>
    obtain ⟨_, -, h⟩ := reply_eq_ok.1 h
    exact follows_deposit h
  | redeem =>
    obtain ⟨_, -, h⟩ := reply_eq_ok.1 h
    exact follows_redeem h
  | sendToLpAccount => exact follows_send (complete_eq_ok.1 h).2
  | returnToPool => exact follows_return (complete_eq_ok.1 h).2
  | setPoolPaused | setDepositLock | setRedemptionLock | setReservePercentage | setWithdrawFee
  | setArbitrageFee => exact follows_of_poolControl rfl h
  | sendSurplus | recallShortfall | sendByHand | recallByHand => exact absurd rfl hbatch
  | lockOracle | lockOracleFor | unlockOracle | setTvlOverride | unsetTvlOverride
  | setAssetOverride | unsetAssetOverride | setTvlSource | setAssetSource | setAssetSources
  | setStalePeriod | setLockPeriod => exact follows_of_oracleControl rfl h

/-- The entries that an operation takes from the log and hands out. -/
def taken (op : Operation) (p : Protocol) : List LogEntry :=
  match op.perform p with
  | .ok (.records records) _ => records
  | _ => []

/-- Only `takeLog` hands out entries. -/
theorem eq_takeLog_of_records {records : List LogEntry}
    (h : op.perform p = .ok (.records records) q) : op = .takeLog := by
  cases op with
  | takeLog => rfl
  | deposit | redeem | sendSurplus | recallShortfall =>
    obtain ⟨_, hout, -⟩ := reply_eq_ok.1 h
    cases hout
  | _ => cases (complete_eq_ok.1 h).1

theorem taken_of_ne (hop : op ≠ .takeLog) (p : Protocol) : op.taken p = [] := by
  unfold taken
  split
  next records q h => exact absurd (eq_takeLog_of_records h) hop
  next => rfl

end Operation

namespace Protocol

/-! ## Histories -/

/-- The entries that a history takes from the log. -/
def taken (p : Protocol) : List Operation → List LogEntry
  | [] => []
  | op :: ops => op.taken p ++ (p.after op).taken ops

/-- What was in the log and what is new has been taken or is still there, and what is new leads from
one replica to the other. -/
theorem replay_after (p : Protocol) (op : Operation) : ∃ entries,
    p.log ++ entries = op.taken p ++ (p.after op).log ∧
      (p.after op).replica = p.replica.replay entries := by
  by_cases hop : op = .takeLog
  · -- what was in the log has been taken, and nothing is new
    subst hop
    exact ⟨[], rfl, rfl⟩
  · rw [Operation.taken_of_ne hop, List.nil_append]
    rcases ok_or_unchanged p op with ⟨out, h⟩ | ⟨-, hsame⟩
    · obtain ⟨entries, hlog, hreplica⟩ := Operation.follows_of_ok hop h
      exact ⟨entries, hlog.symm, hreplica⟩
    · rw [hsame]
      exact ⟨[], List.append_nil _, rfl⟩

theorem replay_run (p : Protocol) (ops : List Operation) : ∃ entries,
    p.log ++ entries = p.taken ops ++ (p.run ops).log ∧
      (p.run ops).replica = p.replica.replay entries := by
  induction ops generalizing p with
  | nil => exact ⟨[], List.append_nil _, rfl⟩
  | cons op ops ih =>
    obtain ⟨entries, hlog, hreplica⟩ := replay_after p op
    obtain ⟨entries', hlog', hreplica'⟩ := ih (p.after op)
    refine ⟨entries ++ entries', ?_, ?_⟩
    · calc p.log ++ (entries ++ entries')
          = op.taken p ++ ((p.after op).log ++ entries') := by
            rw [← List.append_assoc, hlog, List.append_assoc]
        _ = op.taken p ++ ((p.after op).taken ops ++ ((p.after op).run ops).log) := by rw [hlog']
        _ = p.taken (op :: ops) ++ (p.run (op :: ops)).log := (List.append_assoc _ _ _).symm
    · exact hreplica'.trans (by rw [hreplica, Replica.replay_append])

theorem log_of_deploy {plan : Plan} {clock : Clock} {p : Protocol}
    (h : Protocol.deploy plan clock = .ok p) : p.log = [] := by
  simp only [Protocol.deploy, except_bind_eq_ok, except_pure_eq_ok] at h
  obtain ⟨_, -, _, -, _, -, _, -, _, -, _, -, rfl⟩ := h
  rfl

/-- The entries that have been taken from the log since a deployment and those that are still in it,
replayed over the replica of the deployment, give the replica of the present state. -/
theorem replay_history (plan : Plan) (clock : Clock) (p : Protocol)
    (h : Protocol.deploy plan clock = .ok p) (ops : List Operation) :
    (p.run ops).replica = p.replica.replay (p.taken ops ++ (p.run ops).log) := by
  obtain ⟨entries, hlog, hreplica⟩ := replay_run p ops
  rw [log_of_deploy h, List.nil_append] at hlog
  rw [hreplica, hlog]

/-- A deposit and a batch, the log of which is taken, and a failed batch, an unlock and an override,
the log of which is still there. -/
def takenHalfWay : List Operation :=
  [.mintTokens ⟨"USDC"⟩ ⟨"alice"⟩ 1000, .approve ⟨"USDC"⟩ ⟨"alice"⟩ ⟨"usdcPool"⟩ 1000,
    .deposit ⟨"alice"⟩ ⟨"usdcPool"⟩ 1000, .sendByHand ⟨"emergencySafe"⟩ [⟨"usdcPool"⟩] [400],
    .takeLog, .passBlocks 7, .sendByHand ⟨"emergencySafe"⟩ [⟨"usdcPool"⟩, ⟨"other"⟩] [100, 100],
    .unlockOracle ⟨"emergencySafe"⟩, .setAssetOverride ⟨"emergencySafe"⟩ ⟨"USDC"⟩ 5 (-1)]

theorem replay_takenHalfWay :
    (initial.taken takenHalfWay).length = 5 ∧ (initial.run takenHalfWay).log.length = 2 ∧
      initial.replica.replay (initial.taken takenHalfWay ++ (initial.run takenHalfWay).log) =
        (initial.run takenHalfWay).replica ∧
      (initial.run takenHalfWay).replica.oracle.lockEnd = 8 := by
  refine ⟨by decide +kernel, by decide +kernel, ?_, by decide +kernel⟩
  exact (replay_history default default initial deploy_default takenHalfWay).symm

end Protocol

end MetaPool
