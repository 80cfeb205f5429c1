import MetaPool.Proofs.Keeper.Runs
import MetaPool.Proofs.Quantity.Mining

/-!
# The pace of a keeper

A cycle mines once and does nothing else to the clock, whether it succeeds or fails, and in a dry run as well.

    (left k.cycle).protocol.clock = k.protocol.clock.mine blocksPerCycle blockTime      (clock_cycle)

So cycles take the clock to where mining all their blocks at once takes it, as long as it can tell the exact
height and time (`clock_afterCycles`). Blocks take time in a valid configuration, but any number of them makes
a cycle (`Config.WellFormed.repaced`), and if that number is no signed word, the first cycle runs the time
back. So time never goes back exactly if the number is one (`time_never_back_iff`).
-/

namespace MetaPool.Keeper

variable {α : Type} {k : Keeper}

/-! ## One cycle -/

/-- The clock is the same. -/
def SameClock (k k' : Keeper) : Prop := k'.protocol.clock = k.protocol.clock

instance : Std.Refl SameClock := ⟨fun _ => rfl⟩

instance : IsTrans Keeper SameClock := ⟨fun _ _ _ h h' => h'.trans h⟩

theorem sameClock_act {action : Protocol.Action α} (op : Operation) (reply : α → Outcome)
    (h : op.perform = action >>= fun a => pure (reply a)) (hop : .clock ∉ op.writes) :
    Leaves SameClock (act action) :=
  leaves_act fun k => Protocol.left_eq_after h k.protocol ▸ Operation.frame_after k.protocol op .clock hop

theorem sameClock_reportToOracle : Leaves SameClock reportToOracle :=
  leaves_reportToOracle fun _ _ => sameClock_act (.publish _ _) (fun _ => .done) rfl nofun

theorem sameClock_settle : Leaves SameClock settle :=
  leaves_settle (fun _ _ => sameClock_act (.recallShortfall _ _) .amounts rfl nofun)
    fun _ _ => sameClock_act (.sendSurplus _ _) .amounts rfl nofun

theorem clock_cycle (k : Keeper) : (left k.cycle).protocol.clock =
    k.protocol.clock.mine k.config.blocksPerCycle k.config.blockTime := by
  have hrest : Leaves SameClock (reportToOracle >>= fun tvl => settle >>= conclude tvl) := by
    refine leaves_bind sameClock_reportToOracle fun tvl => leaves_bind sameClock_settle fun verdict => ?_
    refine leaves_bind (sameClock_act .takeLog .records rfl nofun) fun events => ?_
    exact leaves_get_bind fun k => leaves_pure _ k
  rw [cycle_eq]
  exact hrest { k with
    cycles := k.cycles + 1
    protocol := { k.protocol with
      clock := k.protocol.clock.mine k.config.blocksPerCycle k.config.blockTime } }

theorem config_cycle (k : Keeper) : (left k.cycle).config = k.config := (evolved_cycle k).config

theorem blockTime_pos (h : k.config.WellFormed) : 0 < k.config.blockTime.toInt :=
  Int64.lt_iff_toInt_lt.1 h.blockTime

theorem time_le_cycle_iff (h : k.config.WellFormed) :
    k.protocol.clock.time ≤ (left k.cycle).protocol.clock.time ↔
      (k.config.blocksPerCycle.toNat : Int) ≤ maxSignedWord ∨ k.protocol.clock.time = Int64.minValue := by
  have hpos := blockTime_pos h
  have hspacing : k.config.blockTime ≠ 0 := by
    rw [ne_eq, eq_zero_iff_toInt]
    omega
  rw [clock_cycle, Clock.time_le_mine_iff _ _ (Int.le_of_lt hpos), or_iff_right hspacing]

/-! ## Many cycles -/

theorem time_le_afterCycles (h : k.config.WellFormed)
    (hblocks : (k.config.blocksPerCycle.toNat : Int) ≤ maxSignedWord) (n : Nat) :
    k.protocol.clock.time ≤ (afterCycles n k).protocol.clock.time := by
  induction n generalizing k with
  | zero => exact Int64.le_refl _
  | succ n ih =>
    have hfirst := (time_le_cycle_iff h).2 (.inl hblocks)
    rw [← config_cycle] at h hblocks
    exact Int64.le_trans hfirst (ih h hblocks)

/-- From any but the earliest time, the cycles of a keeper never run the time back exactly if the number of
their blocks is a signed word. -/
theorem time_never_back_iff (h : k.config.WellFormed) (htime : k.protocol.clock.time ≠ Int64.minValue) :
    (∀ n, k.protocol.clock.time ≤ (afterCycles n k).protocol.clock.time) ↔
      (k.config.blocksPerCycle.toNat : Int) ≤ maxSignedWord := by
  refine ⟨fun hnever => ?_, fun hblocks => time_le_afterCycles h hblocks⟩
  exact ((time_le_cycle_iff h).1 (hnever 1)).resolve_right htime

/-- Cycles take as long as all their blocks at once, whichever of them fail. -/
theorem clock_afterCycles (h : k.config.WellFormed) (htime : 0 ≤ k.protocol.clock.time.toInt) (n : Nat)
    (hheight : k.protocol.clock.exactHeight (n * k.config.blocksPerCycle.toNat) ≤ maxWord)
    (hfits : k.protocol.clock.exactTime (n * k.config.blocksPerCycle.toNat) k.config.blockTime ≤
      maxSignedWord) :
    (afterCycles n k).protocol.clock =
      k.protocol.clock.mine (.ofNat (n * k.config.blocksPerCycle.toNat)) k.config.blockTime := by
  induction n generalizing k with
  | zero =>
    rw [Nat.zero_mul]
    exact (Clock.mine_zero _ _).symm
  | succ n ih =>
    have hpos := blockTime_pos h
    -- every block takes a second at least, so that a cycle that fits has no more blocks than that
    have hcount : (k.config.blocksPerCycle.toNat : Int) ≤ maxSignedWord := by
      have hlong := Clock.le_duration ((n + 1) * k.config.blocksPerCycle.toNat) hpos
      have hpart : k.config.blocksPerCycle.toNat ≤ (n + 1) * k.config.blocksPerCycle.toNat :=
        Nat.le_mul_of_pos_left _ n.succ_pos
      unfold Clock.exactTime at hfits
      omega
    have hforward := Int64.le_iff_toInt_le.1 ((time_le_cycle_iff h).2 (.inl hcount))
    rw [Nat.succ_mul, Nat.add_comm (n * _)] at hheight hfits ⊢
    rw [afterCycles, ← Clock.mine_ofNat (Int.le_of_lt hpos) htime hheight hfits, ← clock_cycle, ← config_cycle]
    -- the later cycles fit on the clock that the first one leaves
    refine ih ?_ (Int.le_trans htime hforward) ?_ ?_ <;> rw [config_cycle]
    · exact h
    · rwa [clock_cycle, Clock.exactHeight_mine hheight]
    · rw [clock_cycle]
      exact Int.le_trans (Clock.exactTime_mine_le (Int.le_of_lt hpos) _) hfits

end MetaPool.Keeper
