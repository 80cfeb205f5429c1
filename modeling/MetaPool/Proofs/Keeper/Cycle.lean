import MetaPool.Proofs.Keeper.Needs
import MetaPool.Proofs.Keeper.Task

/-!
# The parts of a cycle

A cycle observes, settles and concludes. Observing writes the time and the feeds alone, also where it
fails half-way (`observe_leaves`). To settle is to leave everything as it is or to have the protocol move
capital once, which it does entirely or not at all (`Settled`, `atomic_settle`). Concluding takes the log
and cannot fail. So a failed cycle leaves nothing behind but the time, the feeds and its number.

    cycle = observe >>= fun tvl => settle >>= conclude tvl          (cycle_eq)
    settle k = .ok verdict k' → Settled k verdict k'                (settled_of_ok)
    cycle k = .error fault k' → k' is k one cycle later, at another time and with other feeds
                                                                    (watched_of_error)
-/

namespace MetaPool.Keeper

variable {k k' : Keeper} {l : List Need} {verdict : Verdict} {report : Report} {fault : Fault}

/-! ## Moves -/

theorem withdraw_live (hlive : k.dryRun = false) : withdraw l k =
    act (Protocol.recallShortfall k.config.rebalancer (l.map (·.id))) k := by
  show (if k.dryRun = true then _ else _ : Task (List Nat)) k = _
  rw [hlive]
  rfl

theorem fund_live (hlive : k.dryRun = false) : fund l k =
    act (Protocol.sendSurplus k.config.rebalancer (l.map (·.id))) k := by
  show (if k.dryRun = true then _ else _ : Task (List Nat)) k = _
  rw [hlive]
  rfl

/-- The move for needs: back to those that need capital, or else out of those that have it to spare. -/
def moveFor : List Need → List Need → Task Verdict
  | n :: short, _ => do
    return .withdrawn ((n :: short).map (·.id)) (← withdraw (n :: short))
  | [], n :: spare => do return .funded ((n :: spare).map (·.id)) (← fund (n :: spare))
  | [], [] => return .balanced

theorem rebalance_eq : rebalance = (do
    let config := (← get).config
    let all ← ask (needs config)
    moveFor (all.filter (0 < ·.topUp)) (all.filter fun n => !decide (0 < n.topUp))) := by
  have hmove (short spare : List Need) : moveFor short spare = (do
      if !short.isEmpty then return .withdrawn (short.map (·.id)) (← withdraw short)
      else if !spare.isEmpty then return .funded (spare.map (·.id)) (← fund spare)
      else return .balanced) := by
    cases short <;> cases spare <;> rfl
  simp only [rebalance, List.partition_eq_filter_filter, hmove]
  rfl

/-! ## The three parts -/

/-- The beginning of a cycle, up to the report of the TVL. -/
def observe : Task Nat := do
  modify fun k => { k with cycles := k.cycles + 1 }
  let config := (← get).config
  act (Protocol.mine config.blocksPerCycle config.blockTime)
  reportToOracle

/-- The middle of a cycle: a rebalance, unless the oracle is locked. -/
def settle : Task Verdict := do
  let protocol := (← get).protocol
  if protocol.isOracleLocked then return .locked protocol.oracle.lockEnd
  else rebalance

/-- The end of a cycle. -/
def conclude (tvl : Nat) (verdict : Verdict) : Task Report := do
  let events ← act Protocol.takeLog
  let k ← get
  return { cycle := k.cycles, height := k.protocol.clock.height, tvl, dryRun := k.dryRun, verdict,
           events := events.length }

/-- Only the middle of a cycle depends on whether moves are planned only. -/
theorem cycle_eq : cycle = observe >>= fun tvl => settle >>= conclude tvl := by
  simp only [cycle, observe, settle, bind_assoc]
  refine bind_congr fun _ => bind_congr fun _ => bind_congr fun _ => bind_congr fun tvl => ?_
  refine bind_congr fun k => ?_
  split <;> rfl

theorem conclude_eq (tvl : Nat) (verdict : Verdict) (k : Keeper) : conclude tvl verdict k =
    .ok ⟨k.cycles, k.protocol.clock.height, tvl, k.dryRun, verdict, k.protocol.log.length⟩
      { k with protocol := { k.protocol with log := [] } } := rfl

theorem settle_eq (k : Keeper) : settle k = if k.protocol.isOracleLocked then
    .ok (.locked k.protocol.oracle.lockEnd) k else rebalance k := by
  show (if k.protocol.isOracleLocked then pure _ else rebalance : Task Verdict) k = _
  split <;> rfl

/-- A cycle that succeeds has observed and settled. Its report is on what it has settled, and the log is
empty. -/
theorem cycle_eq_ok : cycle k = .ok report k' ↔ ∃ observed settled verdict,
    observe k = .ok report.tvl observed ∧ settle observed = .ok verdict settled ∧
      report = ⟨settled.cycles, settled.protocol.clock.height, report.tvl, settled.dryRun, verdict,
        settled.protocol.log.length⟩ ∧
      k' = { settled with protocol := { settled.protocol with log := [] } } := by
  rw [cycle_eq, bind_eq_ok]
  constructor
  · rintro ⟨tvl, observed, hobserve, h⟩
    obtain ⟨verdict, settled, hsettle, h⟩ := bind_eq_ok.1 h
    rw [conclude_eq] at h
    obtain ⟨rfl, rfl⟩ := EStateM.Result.ok.inj h
    exact ⟨observed, settled, verdict, hobserve, hsettle, rfl, rfl⟩
  · rintro ⟨observed, settled, verdict, hobserve, hsettle, hreport, rfl⟩
    refine ⟨report.tvl, observed, hobserve, bind_eq_ok.2 ⟨verdict, settled, hsettle, ?_⟩⟩
    rw [conclude_eq, ← hreport]

/-- A cycle that fails has failed to observe or to settle. -/
theorem cycle_eq_error : cycle k = .error fault k' ↔ observe k = .error fault k' ∨
    ∃ tvl observed, observe k = .ok tvl observed ∧ settle observed = .error fault k' := by
  rw [cycle_eq, bind_eq_error]
  refine or_congr_right (exists_congr fun tvl => exists_congr fun observed => and_congr_right fun _ => ?_)
  rw [bind_eq_error]
  refine ⟨fun h => ?_, .inl⟩
  obtain h | ⟨_, _, -, h⟩ := h
  · exact h
  · cases h

/-! ## What the parts leave -/

section

variable {R : Keeper → Keeper → Prop} [Std.Refl R] [IsTrans Keeper R]

theorem leaves_reportToOracle (hpublish : ∀ source answer, Leaves R (act (Protocol.publish source answer))) :
    Leaves R reportToOracle := by
  refine leaves_get_bind fun k => leaves_bind (leaves_foldlM (fun sum t => ?_) _ _) (fun tvl => ?_) k
  · refine leaves_get_bind fun k => ?_
    cases k.protocol.oracle.assetSource ⟨t.symbol⟩ with
    | none => exact leaves_throw _ k
    | some source =>
      refine leaves_bind (leaves_demand _) (fun price => ?_) k
      refine leaves_bind (hpublish _ _) fun _ => leaves_get_bind fun k => ?_
      exact leaves_bind (leaves_ask _) (fun balance => leaves_bind (leaves_demand _) fun value =>
        leaves_demand _) k
  · exact leaves_bind (leaves_demand _) fun answer => leaves_bind (hpublish _ _) fun _ => leaves_pure tvl

theorem leaves_settle (hrecall : ∀ caller ids, Leaves R (act (Protocol.recallShortfall caller ids)))
    (hsend : ∀ caller ids, Leaves R (act (Protocol.sendSurplus caller ids))) : Leaves R settle := by
  have hwithdraw (l : List Need) : Leaves R (withdraw l) := by
    refine leaves_get_bind fun k => ?_
    split
    · exact leaves_bind (leaves_ask _) (fun available => leaves_demand _) k
    · exact leaves_get_bind (fun k => hrecall _ _ k) k
  have hfund (l : List Need) : Leaves R (fund l) := by
    refine leaves_get_bind fun k => ?_
    split
    · exact leaves_pure _ k
    · exact leaves_get_bind (fun k => hsend _ _ k) k
  intro k
  rw [settle_eq]
  split
  · exact leaves_pure _ k
  rw [rebalance_eq]
  refine leaves_get_bind (fun k => leaves_bind (leaves_ask _) (fun all => ?_) k) k
  generalize all.filter (0 < ·.topUp) = short
  generalize all.filter (fun n => !decide (0 < n.topUp)) = spare
  cases short with
  | cons n short => exact leaves_bind (hwithdraw _) fun _ => leaves_pure _
  | nil =>
    cases spare with
    | cons n spare => exact leaves_bind (hfund _) fun _ => leaves_pure _
    | nil => exact leaves_pure _

end

/-! ## Observing -/

/-- Nothing but the time and the feeds is different. -/
def Watched (k k' : Keeper) : Prop :=
  ∃ clock feeds, k' = { k with protocol := { k.protocol with clock, feeds } }

instance : Std.Refl Watched := ⟨fun k => ⟨k.protocol.clock, k.protocol.feeds, rfl⟩⟩

instance : IsTrans Keeper Watched := by
  refine ⟨?_⟩
  rintro k _ _ ⟨_, _, rfl⟩ ⟨clock, feeds, rfl⟩
  exact ⟨clock, feeds, rfl⟩

theorem watched_publish (source : Address) (answer : Int) :
    Leaves Watched (act (Protocol.publish source answer)) := by
  refine leaves_act fun k => ?_
  cases h : Protocol.publish source answer k.protocol with
  | ok u p =>
    obtain ⟨feeds, -, rfl⟩ := Protocol.publish_eq_ok.1 h
    exact ⟨k.protocol.clock, feeds, rfl⟩
  | error cause p =>
    obtain rfl := Protocol.atomic_publish source answer _ _ _ h
    exact Std.Refl.refl k

/-- Observing counts the cycle and writes the time and the feeds. -/
theorem observe_leaves (k : Keeper) : Watched { k with cycles := k.cycles + 1 } (left (observe k)) := by
  have hmine : Leaves Watched (act (Protocol.mine k.config.blocksPerCycle k.config.blockTime)) :=
    leaves_act fun k => ⟨_, k.protocol.feeds, rfl⟩
  exact leaves_bind hmine (fun _ => leaves_reportToOracle watched_publish)
    { k with cycles := k.cycles + 1 }

theorem watched_of_observe {tvl : Nat} (h : observe k = .ok tvl k') :
    Watched { k with cycles := k.cycles + 1 } k' := by
  have hleft := observe_leaves k
  rwa [h] at hleft

/-! ## Settling -/

/-- How a live keeper settles. -/
inductive Settled (k : Keeper) : Verdict → Keeper → Prop where
  | locked (h : k.protocol.isOracleLocked = true) : Settled k (.locked k.protocol.oracle.lockEnd) k
  | balanced (hneeds : needs k.config k.protocol = .ok []) : Settled k .balanced k
  | withdrawn {all short : List Need} {amounts : List Nat} {p : Protocol}
      (hneeds : needs k.config k.protocol = .ok all) (hshort : short = all.filter (0 < ·.topUp))
      (hsome : short ≠ [])
      (hmove : Protocol.recallShortfall k.config.rebalancer (short.map (·.id)) k.protocol =
        .ok amounts p) :
      Settled k (.withdrawn (short.map (·.id)) amounts) { k with protocol := p }
  | funded {all : List Need} {amounts : List Nat} {p : Protocol}
      (hneeds : needs k.config k.protocol = .ok all) (hspare : ∀ n ∈ all, ¬ 0 < n.topUp)
      (hsome : all ≠ [])
      (hmove : Protocol.sendSurplus k.config.rebalancer (all.map (·.id)) k.protocol = .ok amounts p) :
      Settled k (.funded (all.map (·.id)) amounts) { k with protocol := p }

theorem settled_of_moveFor {all : List Need} (hlive : k.dryRun = false)
    (hneeds : needs k.config k.protocol = .ok all)
    (h : moveFor (all.filter (0 < ·.topUp)) (all.filter fun n => !decide (0 < n.topUp)) k =
      .ok verdict k') : Settled k verdict k' := by
  cases hshort : all.filter (0 < ·.topUp) with
  | cons n short =>
    rw [hshort] at h
    obtain ⟨amounts, r, hmove, h⟩ := bind_eq_ok.1 h
    obtain ⟨rfl, rfl⟩ := pure_eq_ok.1 h
    rw [withdraw_live hlive, act_eq_ok] at hmove
    obtain ⟨p, hmove, rfl⟩ := hmove
    exact .withdrawn hneeds hshort.symm (List.cons_ne_nil n short) hmove
  | nil =>
    -- what is left for the other side is all needs
    have hspare : ∀ n ∈ all, ¬ 0 < n.topUp := by simpa using hshort
    have hall : all.filter (fun n => !decide (0 < n.topUp)) = all :=
      List.filter_eq_self.2 fun n hn => by simp [hspare n hn]
    rw [hshort, hall] at h
    cases all with
    | cons n all =>
      obtain ⟨amounts, r, hmove, h⟩ := bind_eq_ok.1 h
      obtain ⟨rfl, rfl⟩ := pure_eq_ok.1 h
      rw [fund_live hlive, act_eq_ok] at hmove
      obtain ⟨p, hmove, rfl⟩ := hmove
      exact .funded hneeds hspare (List.cons_ne_nil n all) hmove
    | nil =>
      obtain ⟨rfl, rfl⟩ := pure_eq_ok.1 h
      exact .balanced hneeds

theorem settled_of_ok (hlive : k.dryRun = false) (h : settle k = .ok verdict k') :
    Settled k verdict k' := by
  rw [settle_eq] at h
  split at h
  next hlocked =>
    obtain ⟨rfl, rfl⟩ := EStateM.Result.ok.inj h
    exact .locked hlocked
  next =>
    rw [rebalance_eq] at h
    obtain ⟨all, r, hask, hmove⟩ := bind_eq_ok.1 (get_bind_eq_ok.1 h)
    obtain ⟨hneeds, rfl⟩ := ask_eq_ok.1 hask
    exact settled_of_moveFor hlive hneeds hmove

/-- A batch that fails is undone. -/
theorem atomic_recallShortfall (caller : Address) (ids : List String) :
    Protocol.Atomic (Protocol.recallShortfall caller ids) :=
  Protocol.atomic_atomically fun p => Protocol.within_recallShortfall caller ids p .log (by decide)

theorem atomic_sendSurplus (caller : Address) (ids : List String) :
    Protocol.Atomic (Protocol.sendSurplus caller ids) :=
  Protocol.atomic_atomically fun p => Protocol.within_sendSurplus caller ids p .log (by decide)

theorem atomic_withdraw (l : List Need) : Atomic (withdraw l) := by
  refine atomic_get_bind fun k => ?_
  split
  · exact atomic_ask_bind fun available => atomic_demand _
  · exact atomic_get_bind fun k => atomic_act (atomic_recallShortfall _ _)

theorem atomic_fund (l : List Need) : Atomic (fund l) := by
  refine atomic_get_bind fun k => ?_
  split
  · exact atomic_pure _
  · exact atomic_get_bind fun k => atomic_act (atomic_sendSurplus _ _)

theorem atomic_moveFor (short spare : List Need) : Atomic (moveFor short spare) := by
  cases short with
  | cons n short => exact atomic_bind_pure (atomic_withdraw _) _
  | nil =>
    cases spare with
    | cons n spare => exact atomic_bind_pure (atomic_fund _) _
    | nil => exact atomic_pure _

/-- Whatever keeps a keeper from settling, it is as if it had not tried. -/
theorem atomic_settle : Atomic settle := by
  refine atomic_get_bind fun k => ?_
  dsimp only
  split
  · exact atomic_pure _
  · rw [rebalance_eq]
    exact atomic_get_bind fun k => atomic_ask_bind fun all => atomic_moveFor _ _

/-- A cycle of a live keeper that succeeds, by its parts: what it has observed and what it has settled. -/
theorem settled_of_cycle (hlive : k.dryRun = false) (h : cycle k = .ok report k') :
    ∃ clock feeds settled,
      observe k = .ok report.tvl
        { k with cycles := k.cycles + 1, protocol := { k.protocol with clock, feeds } } ∧
      Settled { k with cycles := k.cycles + 1, protocol := { k.protocol with clock, feeds } }
        report.verdict settled ∧
      k' = { settled with protocol := { settled.protocol with log := [] } } := by
  obtain ⟨observed, settled, verdict, hobserve, hsettle, hreport, hk'⟩ := cycle_eq_ok.1 h
  obtain ⟨clock, feeds, rfl⟩ := watched_of_observe hobserve
  refine ⟨clock, feeds, settled, hobserve, ?_, hk'⟩
  rw [hreport]
  exact settled_of_ok hlive hsettle

/-- A cycle that fails leaves nothing behind but the time, the feeds and its number. -/
theorem watched_of_error (h : cycle k = .error fault k') :
    Watched { k with cycles := k.cycles + 1 } k' := by
  rcases cycle_eq_error.1 h with h | ⟨tvl, observed, hobserve, hsettle⟩
  · have hleft := observe_leaves k
    rwa [h] at hleft
  · rw [atomic_settle _ _ _ hsettle]
    exact watched_of_observe hobserve

end MetaPool.Keeper
