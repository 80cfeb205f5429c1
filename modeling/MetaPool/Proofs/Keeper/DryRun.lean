import MetaPool.Proofs.Capital.Prediction
import MetaPool.Proofs.Keeper.History

/-!
# A dry run foretells a live one

A live keeper and the same keeper in a dry run report the same TVL, since nothing on the way there looks
at whether moves are planned only. From there on the dry run plans on the top-ups that it has read for all
its pools, while the live keeper names the pools and has the protocol read their top-ups again, in a
transaction. Nothing has changed in between, so both have the same amounts (`rebalanceAmounts_of_read`).

    live.cycle = .ok report _ → dry.cycle = .ok plan _, with the same verdict  (dryRun_foretells)

A batch does not pass the time, so that both report the same height as well. And the dry run leaves all but
the time, the feeds and the log as it was, whether its cycle succeeds or not (`harmless_cycle`).
-/

namespace MetaPool.Keeper

variable {k k' : Keeper} {l : List Need}

/-! ## Moves -/

/-- The keeper with another protocol of the same time. -/
def Moved (k k' : Keeper) : Prop :=
  ∃ p, p.clock = k.protocol.clock ∧ k' = { k with protocol := p }

/-- A dry run plans to take back what the live keeper takes back. -/
theorem planned_of_withdraw {amounts : List Nat} (hlive : k.dryRun = false)
    (hread : ∀ n ∈ l, n.ReadFrom k.protocol) (h : withdraw l k = .ok amounts k') :
    withdraw l k.planning = .ok amounts k.planning ∧ Moved k k' := by
  rw [withdraw_live hlive, act_eq_ok] at h
  obtain ⟨p, hp, rfl⟩ := h
  have hclock : p.clock = k.protocol.clock :=
    (Protocol.within_recallShortfall _ _).frame hp .clock (by decide)
  obtain ⟨-, _, _, available, hagain, hheld, hcapped, -⟩ := Protocol.recallShortfall_eq_ok.1 hp
  -- the recall has read the top-ups again, and the same ones
  obtain ⟨pools, hfirst⟩ := rebalanceAmounts_of_read hread
  obtain ⟨rfl, rfl⟩ := Prod.mk.inj (ok_unique hagain hfirst)
  rw [← Protocol.lpBalances_of_rebalanceAmounts hfirst] at hheld
  refine ⟨?_, p, hclock, rfl⟩
  refine get_bind_eq_ok.2 (bind_eq_ok.2 ⟨available, _, ask_eq_ok.2 ⟨hheld, rfl⟩, ?_⟩)
  exact act_eq_ok.2 ⟨_, Protocol.demand_eq_ok.2 ⟨hcapped, rfl⟩, rfl⟩

/-- A dry run plans to send out what the live keeper sends out. -/
theorem planned_of_fund {amounts : List Nat} (hlive : k.dryRun = false)
    (hread : ∀ n ∈ l, n.ReadFrom k.protocol) (h : fund l k = .ok amounts k') :
    fund l k.planning = .ok amounts k.planning ∧ Moved k k' := by
  rw [fund_live hlive, act_eq_ok] at h
  obtain ⟨p, hp, rfl⟩ := h
  have hclock : p.clock = k.protocol.clock :=
    (Protocol.within_sendSurplus _ _).frame hp .clock (by decide)
  obtain ⟨-, _, _, hagain, rfl, -⟩ := Protocol.sendSurplus_eq_ok.1 hp
  obtain ⟨pools, hfirst⟩ := rebalanceAmounts_of_read hread
  obtain ⟨rfl, rfl⟩ := Prod.mk.inj (ok_unique hagain hfirst)
  exact ⟨rfl, p, hclock, rfl⟩

theorem planned_of_moveFor {short spare : List Need} {verdict : Verdict} (hlive : k.dryRun = false)
    (hshort : ∀ n ∈ short, n.ReadFrom k.protocol) (hspare : ∀ n ∈ spare, n.ReadFrom k.protocol)
    (h : moveFor short spare k = .ok verdict k') :
    moveFor short spare k.planning = .ok verdict k.planning ∧ Moved k k' := by
  cases short with
  | cons n short =>
    obtain ⟨amounts, r, hmove, h⟩ := bind_eq_ok.1 h
    obtain ⟨rfl, rfl⟩ := pure_eq_ok.1 h
    obtain ⟨hplan, hmoved⟩ := planned_of_withdraw hlive hshort hmove
    exact ⟨bind_eq_ok.2 ⟨amounts, _, hplan, rfl⟩, hmoved⟩
  | nil =>
    cases spare with
    | cons n spare =>
      obtain ⟨amounts, r, hmove, h⟩ := bind_eq_ok.1 h
      obtain ⟨rfl, rfl⟩ := pure_eq_ok.1 h
      obtain ⟨hplan, hmoved⟩ := planned_of_fund hlive hspare hmove
      exact ⟨bind_eq_ok.2 ⟨amounts, _, hplan, rfl⟩, hmoved⟩
    | nil =>
      obtain ⟨rfl, rfl⟩ := pure_eq_ok.1 h
      exact ⟨rfl, _, rfl, rfl⟩

theorem planned_of_rebalance {verdict : Verdict} (hlive : k.dryRun = false)
    (h : rebalance k = .ok verdict k') :
    rebalance k.planning = .ok verdict k.planning ∧ Moved k k' := by
  rw [rebalance_eq] at h ⊢
  obtain ⟨all, r, hall, hmove⟩ := bind_eq_ok.1 (get_bind_eq_ok.1 h)
  obtain ⟨hneeds, rfl⟩ := ask_eq_ok.1 hall
  have hread := readFrom_of_mem_needs hneeds
  obtain ⟨hplan, hmoved⟩ := planned_of_moveFor hlive
    (fun n hn => hread n (List.mem_of_mem_filter hn))
    (fun n hn => hread n (List.mem_of_mem_filter hn)) hmove
  exact ⟨get_bind_eq_ok.2 (bind_eq_ok.2 ⟨all, _, ask_eq_ok.2 ⟨hneeds, rfl⟩, hplan⟩), hmoved⟩

/-! ## Cycles -/

theorem blind_reportToken (sum : Nat) (t : TokenPlan) : Blind (reportToken sum t) := by
  refine blind_get_bind (fun k => ?_) fun k => rfl
  cases k.protocol.oracle.assetSource ⟨t.symbol⟩ with
  | none => exact blind_throw _
  | some source =>
    refine blind_bind (blind_act _) fun price => blind_bind (blind_act _) fun _ => ?_
    refine blind_get_bind (fun k => ?_) fun k => rfl
    refine blind_bind (blind_act _) fun balance => blind_bind (blind_act _) fun value => ?_
    exact blind_act _

theorem blind_observe : Blind observe := by
  refine blind_bind ?_ fun _ => blind_get_bind (fun k => ?_) fun k => rfl
  · intro k u k' h
    obtain rfl := modify_eq_ok.1 h
    exact ⟨rfl, rfl⟩
  refine blind_bind (blind_act _) fun _ => blind_get_bind (fun k => ?_) fun k => rfl
  refine blind_bind (blind_foldlM blind_reportToken _ _) fun tvl => ?_
  refine blind_bind (blind_act _) fun answer => blind_bind (blind_act _) fun _ => ?_
  exact blind_pure tvl

/-- The dry run finds the oracle locked as well. -/
theorem planned_of_settle {verdict : Verdict} (hlive : k.dryRun = false)
    (h : settle k = .ok verdict k') :
    settle k.planning = .ok verdict k.planning ∧ Moved k k' := by
  rw [settle_eq] at h ⊢
  split at h
  next hlocked =>
    obtain ⟨rfl, rfl⟩ := EStateM.Result.ok.inj h
    exact ⟨if_pos hlocked, _, rfl, rfl⟩
  next hunlocked =>
    obtain ⟨hplan, hmoved⟩ := planned_of_rebalance hlive h
    exact ⟨(if_neg hunlocked).trans hplan, hmoved⟩

/-! ## What a dry run writes -/

theorem harmless_observe : Harmless observe := by
  intro k hdry
  obtain ⟨clock, feeds, h⟩ := observe_leaves k
  rw [h]
  refine ⟨fun c hc => ?_, hdry⟩
  cases c <;> first | rfl | exact List.prefix_refl _ | exact absurd (by decide) hc

theorem harmless_withdraw (l : List Need) : Harmless (withdraw l) := by
  refine harmless_get_bind fun k hdry => ?_
  rw [if_pos hdry]
  exact leaves_bind (leaves_ask _) fun available => leaves_demand _

theorem harmless_fund (l : List Need) : Harmless (fund l) := by
  refine harmless_get_bind fun k hdry => ?_
  rw [if_pos hdry]
  exact leaves_pure _

theorem harmless_moveFor (short spare : List Need) : Harmless (moveFor short spare) := by
  cases short with
  | cons n short => exact leaves_bind (harmless_withdraw _) fun _ => leaves_pure _
  | nil =>
    cases spare with
    | cons n spare => exact leaves_bind (harmless_fund _) fun _ => leaves_pure _
    | nil => exact leaves_pure _

theorem harmless_rebalance : Harmless rebalance := by
  rw [rebalance_eq]
  refine harmless_get_bind fun k _ => leaves_bind (leaves_ask _) fun all => ?_
  exact harmless_moveFor _ _

theorem harmless_conclude (tvl : Nat) (verdict : Verdict) : Harmless (conclude tvl verdict) := by
  refine leaves_bind (harmless_act (Protocol.within_takeLog (by decide))) fun events => ?_
  exact harmless_get_bind fun k _ => leaves_pure _

theorem harmless_settle : Harmless settle := by
  refine harmless_get_bind fun k _ => ?_
  dsimp only
  split
  · exact leaves_pure _
  · exact harmless_rebalance

theorem harmless_cycle : Harmless cycle := by
  rw [cycle_eq]
  refine leaves_bind harmless_observe fun tvl => leaves_bind harmless_settle fun verdict => ?_
  exact harmless_conclude tvl verdict

/-! ## The foretelling -/

/-- Two keepers that differ only in whether moves are planned only. If the cycle of the live one
succeeds, the dry run succeeds with the same cycle, height, TVL and verdict. Whatever happens, the dry run
writes nothing but the time, the feeds and the log. -/
theorem dryRun_foretells (live dry : Keeper) (hlive : live.dryRun = false)
    (hdry : dry = { live with dryRun := true }) :
    (∀ report live', live.cycle = .ok report live' →
      ∃ plan dry', dry.cycle = .ok plan dry' ∧ plan.cycle = report.cycle ∧
        plan.height = report.height ∧ plan.tvl = report.tvl ∧ plan.verdict = report.verdict) ∧
      Protocol.Frame [.clock, .feeds, .log] dry.protocol (left dry.cycle).protocol := by
  subst hdry
  refine ⟨fun report live' h => ?_, (harmless_cycle live.planning rfl).1⟩
  rw [cycle_eq] at h ⊢
  obtain ⟨tvl, k, hobserve, h⟩ := bind_eq_ok.1 h
  obtain ⟨verdict, k', hsettle, h⟩ := bind_eq_ok.1 h
  rw [conclude_eq] at h
  obtain ⟨rfl, rfl⟩ := EStateM.Result.ok.inj h
  obtain ⟨hplan, hkeeps⟩ := blind_observe live tvl k hobserve
  obtain ⟨hverdict, p, hclock, rfl⟩ := planned_of_settle (hkeeps.trans hlive) hsettle
  refine ⟨_, _, bind_eq_ok.2 ⟨tvl, _, hplan, bind_eq_ok.2 ⟨verdict, _, hverdict, conclude_eq _ _ _⟩⟩,
    rfl, ?_, rfl, rfl⟩
  exact congrArg Clock.height hclock.symm

/-- Each pool of the sample keeps a twentieth of its deposit. -/
theorem dryRun_foretells_sample : ∃ plan dry', sampleKeeper.planning.cycle = .ok plan dry' ∧
    plan.verdict = .funded ["daiPool", "usdcPool", "usdtPool"]
      [237500000000000000000000, 95000000000, 47500000000] ∧
    Protocol.Frame dryWrites sampleKeeper.protocol dry'.protocol := by
  have hfunds : (EStateM.run' cycle sampleKeeper).map (·.verdict) = some (.funded
      ["daiPool", "usdcPool", "usdtPool"]
      [237500000000000000000000, 95000000000, 47500000000]) := by decide +kernel
  obtain ⟨hforetells, hframe⟩ :=
    dryRun_foretells sampleKeeper sampleKeeper.planning (by decide +kernel) rfl
  simp only [EStateM.run', EStateM.run] at hfunds
  cases hlive : sampleKeeper.cycle with
  | ok report live' =>
    rw [hlive] at hfunds
    obtain ⟨plan, dry', hdry, -, -, -, hverdict⟩ := hforetells report live' hlive
    rw [hdry] at hframe
    exact ⟨plan, dry', hdry, hverdict.trans (Option.some.inj hfunds), hframe⟩
  | error fault live' =>
    rw [hlive] at hfunds
    cases hfunds

end MetaPool.Keeper
