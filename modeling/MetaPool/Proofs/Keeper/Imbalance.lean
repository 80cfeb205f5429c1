import MetaPool.Proofs.Capital.RoundTrip
import MetaPool.Proofs.Keeper.History

/-!
# Imbalances

The imbalance of a pool is what its top-up is worth, as a part of what the pool is worth. The target of a
pool is at most its total value, and so is the idle value. So the gap between the two is, whichever is
larger, and the top-up is worth at most the gap: it is rounded down, and rounded down again when it is valued.

    s.topUp percentage = .ok t → worth of |t| ≤ total value              (Snapshot.worthOf_topUp)

So an imbalance is a part of the whole, and nothing that the keeper computes for it can leave the range of
an amount, whatever the value. At the largest threshold the keeper acts only on pools of which all is to be
moved (`imbalance_is_part`).
-/

namespace MetaPool

namespace Snapshot

variable {s : Snapshot} {percentage : Nat} {t : Int}

/-- What a top-up moves can be valued, and is worth at most as much as the pool, which is worth something
unless it needs no top-up. -/
theorem worthOf_topUp (h : s.topUp percentage = .ok t) (hwhole : percentage ≤ wholePercent) :
    ∃ total moved, s.totalValue = .ok total ∧ s.worthOf t.natAbs = .ok moved ∧ moved ≤ total ∧
      (t ≠ 0 → 0 < total) := by
  obtain ⟨total, idle, htotal, hidle, hsplit, hgap⟩ := gap_of_topUp h
  obtain ⟨hdecimals, rfl, hfits⟩ := totalValue_eq_ok.1 htotal
  suffices hmoved : t.natAbs * s.price / 10 ^ s.decimals ≤ s.value ∧ (t ≠ 0 → 0 < s.value) from
    ⟨_, _, htotal, worth_eq_ok.2 ⟨hdecimals, rfl, hmoved.1.trans hfits⟩, hmoved⟩
  rcases hgap with ⟨-, rfl⟩ | hgap
  · exact ⟨by simp, fun hne => absurd rfl hne⟩
  have htarget : s.value * percentage / wholePercent ≤ s.value :=
    Nat.div_le_of_le_mul (by rw [Nat.mul_comm]; exact Nat.mul_le_mul_right _ hwhole)
  generalize s.value * percentage / wholePercent = target at hgap htarget
  obtain ⟨units, hunits, rfl⟩ := signedUnitsWorth_eq_ok hgap
  have hworth := (Checked.prorate_bounds hunits).1
  have hle : ((target : Int) - idle).natAbs ≤ s.value := by omega
  have habs : (if (target : Int) - idle < 0 then -(units : Int) else units).natAbs = units := by
    split <;> omega
  rw [habs]
  constructor
  · refine Nat.div_le_of_le_mul (hworth.trans ?_)
    rw [Nat.mul_comm]
    exact Nat.mul_le_mul_left _ hle
  · intro hne
    by_contra hnone
    -- a pool that is worth nothing has no gap to close
    have hgap : ((target : Int) - idle).natAbs = 0 := by omega
    obtain ⟨-, hzero, -⟩ := Checked.prorate_eq_ok.1 hunits
    rw [hgap, Nat.zero_mul, Nat.zero_div] at hzero
    simp [hzero] at hne

end Snapshot

namespace Keeper

variable {k k' : Keeper} {p : Protocol} {a : Address} {t : Int} {total moved bps : Nat}
  {verdict : Verdict} {short spare : List Need}

/-! ## One pool -/

/-- The top-up `t` of a pool as a part of the whole. -/
structure Imbalance (p : Protocol) (a : Address) (t : Int) (total moved bps : Nat) : Prop where
  totalRead : p.poolValue a = .ok total
  movedRead : p.underlyerValue a t.natAbs = .ok moved
  bpsRead : changeBps moved total = .ok bps
  total_pos : 0 < total
  moved_le : moved ≤ total
  bps_eq : bps = moved * wholeBps / total

/-- Every top-up of a pool in force has an imbalance, unless there is nothing to move. -/
theorem exists_imbalance (hk : Founded k) (h : k.protocol.topUp a = .ok t) (ht : t ≠ 0) :
    ∃ total moved bps, Imbalance k.protocol a t total moved bps := by
  obtain ⟨state, hstate, h⟩ := except_bind_eq_ok.1 h
  obtain ⟨s, hs, h⟩ := except_bind_eq_ok.1 h
  have hterms := (hk.wired.deployed a state hstate).terms
  obtain ⟨total, moved, htotal, hmoved, hle, hpos⟩ :=
    Snapshot.worthOf_topUp h (Nat.not_lt.1 (refuse_eq_ok.1 hterms).1)
  have hpos := hpos ht
  obtain ⟨state', hstate', hprice, hdecimals, -, -, -⟩ := Protocol.snapshot_eq_ok.1 hs
  obtain ⟨-, -, hfits⟩ := worth_eq_ok.1 hmoved
  have hbps : moved * wholeBps / total ≤ wholeBps :=
    Nat.div_le_of_le_mul (Nat.mul_le_mul_right _ hle)
  refine ⟨total, moved, _, Protocol.poolValue_eq_ok.2 ⟨s, hs, htotal⟩,
    Protocol.underlyerValue_of_worth hstate' hprice hdecimals hmoved, ?_, hpos, hle, rfl⟩
  unfold changeBps
  rw [if_neg hpos.ne']
  exact Checked.prorate_eq_ok.2 ⟨hpos.ne', rfl, hbps.trans (by decide)⟩

theorem Imbalance.bps_le (h : Imbalance p a t total moved bps) : bps ≤ wholeBps := by
  rw [h.bps_eq]
  exact Nat.div_le_of_le_mul (Nat.mul_le_mul_right _ h.moved_le)

/-- The keeper compares the imbalance with its threshold. -/
theorem Imbalance.isWorthwhile (h : Imbalance p a t total moved bps) (ht : t ≠ 0) (thresholdBps : Nat) :
    isWorthwhile thresholdBps a t p = .ok (decide (thresholdBps ≤ bps)) := by
  unfold Keeper.isWorthwhile
  rw [if_neg ht]
  refine except_bind_eq_ok.2 ⟨total, h.totalRead, except_bind_eq_ok.2 ⟨moved, h.movedRead, ?_⟩⟩
  exact except_bind_eq_ok.2 ⟨bps, h.bpsRead, rfl⟩

/-- All of a whole is all of it: no rounding reaches the largest number of basis points from below. -/
theorem Imbalance.whole_iff (h : Imbalance p a t total moved bps) : wholeBps ≤ bps ↔ moved = total := by
  rw [h.bps_eq, Nat.le_div_iff_mul_le h.total_pos, Nat.mul_comm]
  have hle := h.moved_le
  constructor
  · intro hwhole
    have := Nat.le_of_mul_le_mul_right hwhole (by decide)
    omega
  · rintro rfl
    exact Nat.le_refl _

/-! ## Cycles -/

/-- The pools that a verdict names. -/
def Verdict.pools : Verdict → List String
  | funded ids _ | withdrawn ids _ => ids
  | locked _ | balanced => []

theorem ids_of_moveFor (h : moveFor short spare k = .ok verdict k') :
    ∀ id ∈ verdict.pools, ∃ n ∈ short ++ spare, n.id = id := by
  intro id hid
  cases short with
  | cons n short =>
    obtain ⟨amounts, r, -, h⟩ := bind_eq_ok.1 h
    obtain ⟨rfl, -⟩ := pure_eq_ok.1 h
    obtain ⟨m, hm, rfl⟩ := List.mem_map.1 hid
    exact ⟨m, List.mem_append_left _ hm, rfl⟩
  | nil =>
    cases spare with
    | cons n spare =>
      obtain ⟨amounts, r, -, h⟩ := bind_eq_ok.1 h
      obtain ⟨rfl, -⟩ := pure_eq_ok.1 h
      obtain ⟨m, hm, rfl⟩ := List.mem_map.1 hid
      exact ⟨m, hm, rfl⟩
    | nil =>
      obtain ⟨rfl, -⟩ := pure_eq_ok.1 h
      cases hid

/-- Whether it moves capital or plans to, a keeper names only pools whose top-up warrants it. -/
theorem warrants_of_settle (h : settle k = .ok verdict k') : ∀ id ∈ verdict.pools,
    ∃ a t, k.protocol.poolAddress id = .ok a ∧ Warrants k.config.thresholdBps k.protocol a t := by
  intro id hid
  rw [settle_eq] at h
  split at h
  next =>
    obtain ⟨rfl, -⟩ := EStateM.Result.ok.inj h
    cases hid
  next =>
    rw [rebalance_eq] at h
    obtain ⟨all, r, hask, hmove⟩ := bind_eq_ok.1 (get_bind_eq_ok.1 h)
    obtain ⟨hneeds, rfl⟩ := ask_eq_ok.1 hask
    obtain ⟨n, hn, rfl⟩ := ids_of_moveFor hmove id hid
    have hall : n ∈ all := by
      rcases List.mem_append.1 hn with hn | hn
      · exact List.mem_of_mem_filter hn
      · exact List.mem_of_mem_filter hn
    obtain ⟨-, a, ha, hw⟩ := (mem_needs_iff hneeds).1 hall
    exact ⟨a, n.topUp, ha, hw⟩

/-- In every reachable state, a top-up that is not nothing is worth at most as much as its pool, which is
worth something. So it always has a number of basis points, between none and all, and the keeper compares it
with whatever threshold. At the largest one it finds only a top-up of all that its pool is worth worthwhile,
and names only such pools in the verdict of a cycle. -/
theorem imbalance_is_part (k : Keeper) (hk : Reachable k) :
    (∀ a t, k.protocol.topUp a = .ok t → t ≠ 0 → ∃ total moved bps,
      Imbalance k.protocol a t total moved bps ∧ bps ≤ wholeBps ∧
        (∀ thresholdBps, isWorthwhile thresholdBps a t k.protocol = .ok (decide (thresholdBps ≤ bps))) ∧
        (isWorthwhile wholeBps a t k.protocol = .ok true ↔ moved = total)) ∧
      (k.config.thresholdBps = wholeBps → ∀ report k', k.cycle = .ok report k' →
        ∃ observed, observe k = .ok report.tvl observed ∧ ∀ id ∈ report.verdict.pools, ∃ a t total,
          observed.protocol.poolAddress id = .ok a ∧ observed.protocol.topUp a = .ok t ∧
          observed.protocol.poolValue a = .ok total ∧
          observed.protocol.underlyerValue a t.natAbs = .ok total) := by
  refine ⟨fun a t htopUp ht => ?_, fun hthreshold report k' hcycle => ?_⟩
  · obtain ⟨total, moved, bps, h⟩ := exists_imbalance hk.founded htopUp ht
    refine ⟨total, moved, bps, h, h.bps_le, h.isWorthwhile ht, ?_⟩
    rw [h.isWorthwhile ht, Except.ok.injEq, decide_eq_true_iff, h.whole_iff]
  · obtain ⟨observed, settled, verdict, hobserve, hsettle, hreport, -⟩ := cycle_eq_ok.1 hcycle
    have hevolved := evolved_observe.of_ok hobserve
    refine ⟨observed, hobserve, fun id hid => ?_⟩
    rw [hreport] at hid
    obtain ⟨a, t, ha, hw⟩ := warrants_of_settle hsettle id hid
    obtain ⟨total, moved, bps, h⟩ := exists_imbalance (hk.founded.evolve hevolved) hw.topUp hw.ne_zero
    rw [hevolved.config, hthreshold] at hw
    have hworth := (isWorthwhile_iff hw.topUp (h.isWorthwhile hw.ne_zero wholeBps)).2 hw
    obtain rfl := h.whole_iff.1 (of_decide_eq_true hworth)
    exact ⟨a, t, moved, ha, hw.topUp, h.totalRead, h.movedRead⟩

/-- A pool that keeps no reserve, one that keeps the usual one, and the largest threshold. -/
def wholeMovesConfig : Config := { Config.sample with
  thresholdBps := wholeBps
  plan := { (default : Plan) with
    pools := [⟨"daiPool", "DAI", { (default : PoolTerms) with reservePercentage := 0 }⟩,
      ⟨"usdcPool", "USDC", default⟩, ⟨"usdtPool", "USDT", default⟩] } }

theorem start_wholeMoves_isSome : (start wholeMovesConfig false).toOption.isSome := by decide +kernel

/-- The keeper of that configuration before its first cycle. Only the kernel unfolds it. -/
@[irreducible] def wholeMovesKeeper : Keeper :=
  (start wholeMovesConfig false).toOption.get start_wholeMoves_isSome

/-- All that the first pool has is to be moved, and it is the only one that the first cycle names. -/
theorem imbalance_is_part_wholeMoves :
    isWorthwhile wholeBps ⟨"daiPool"⟩ (-250000000000000000000000) wholeMovesKeeper.protocol = .ok true ∧
      ∃ observed, observe wholeMovesKeeper = .ok 0 observed ∧ ∃ a t total,
        observed.protocol.poolAddress "daiPool" = .ok a ∧ observed.protocol.topUp a = .ok t ∧
        observed.protocol.poolValue a = .ok total ∧
        observed.protocol.underlyerValue a t.natAbs = .ok total := by
  have hk : Reachable wholeMovesKeeper := by
    unfold wholeMovesKeeper
    exact .start (eq_ok_of_toOption (Option.some_get _).symm)
  obtain ⟨hparts, hwhole⟩ := imbalance_is_part wholeMovesKeeper hk
  constructor
  · obtain ⟨total, moved, bps, himbalance, -, -, hiff⟩ := hparts ⟨"daiPool"⟩ (-250000000000000000000000)
      (by decide +kernel) (by decide)
    have hall : wholeMovesKeeper.protocol.underlyerValue ⟨"daiPool"⟩ 250000000000000000000000 =
        wholeMovesKeeper.protocol.poolValue ⟨"daiPool"⟩ := by decide +kernel
    exact hiff.2 (ok_unique himbalance.movedRead (hall.trans himbalance.totalRead))
  · have hreport : (answer wholeMovesKeeper.cycle).map (fun r => (r.tvl, r.verdict.pools)) =
        .ok (0, ["daiPool"]) := by decide +kernel
    obtain ⟨report, hcycle, hreport⟩ := eq_ok_of_answer hreport
    obtain ⟨htvl, hpools⟩ := Prod.mk.inj hreport
    obtain ⟨observed, hobserve, hnamed⟩ := hwhole (by decide +kernel) report _ hcycle
    rw [htvl] at hobserve
    rw [hpools] at hnamed
    exact ⟨observed, hobserve, hnamed "daiPool" List.mem_cons_self⟩

end Keeper

end MetaPool
