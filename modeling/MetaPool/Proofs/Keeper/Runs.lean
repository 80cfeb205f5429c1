import MetaPool.Proofs.Keeper.Moves

/-!
# Runs of a keeper

A run is a loop: as long as fewer cycles were begun than its limit, it runs one more, whether that succeeds or
fails, and counts it if it reports a move (`Loops`). A cycle counts itself whatever becomes of it, and nothing
else does, so that every loop ends, and in one way only.

    (left k.cycle).cycles = k.cycles + 1                             (cycles_cycle)
    Loops limit k moved k' ↔ k.run limit = (moved, k')               (loops_iff)

But a run compares its limit with all cycles of the keeper, also those of earlier runs, and takes them off what
it is asked for. It does as many cycles as it is asked for exactly if there were none before, or if it is asked
for none (`run_does_asked_iff`). A keeper that runs one cycle and is asked for one more does not do it
(`second_run_does_nothing`).
-/

namespace MetaPool.Keeper

variable {k k' r r' : Keeper} {limit moved moved' : Nat}

/-! ## Cycles count themselves -/

/-- As many cycles were begun. -/
def SameNumber (k k' : Keeper) : Prop := k'.cycles = k.cycles

instance : Std.Refl SameNumber := ⟨fun _ => rfl⟩

instance : IsTrans Keeper SameNumber := ⟨fun _ _ _ h h' => h'.trans h⟩

theorem sameNumber_settle : Leaves SameNumber settle :=
  leaves_settle (fun _ _ => leaves_act fun _ => rfl) fun _ _ => leaves_act fun _ => rfl

/-- A cycle counts once, whether it succeeds or fails. -/
theorem cycles_cycle (k : Keeper) : (left k.cycle).cycles = k.cycles + 1 := by
  cases h : k.cycle with
  | ok report k' =>
    obtain ⟨observed, settled, verdict, hobserve, hsettle, -, rfl⟩ := cycle_eq_ok.1 h
    obtain ⟨clock, feeds, rfl⟩ := watched_of_observe hobserve
    exact sameNumber_settle.of_ok hsettle
  | error fault k' =>
    obtain ⟨clock, feeds, rfl⟩ := watched_of_error h
    rfl

theorem cycles_afterCycles (n : Nat) (k : Keeper) : (afterCycles n k).cycles = k.cycles + n := by
  induction n generalizing k with
  | zero => rfl
  | succ n ih =>
    rw [afterCycles, ih, cycles_cycle]
    omega

/-! ## The loop -/

/-- From one keeper to another, a loop counts the cycles that report a move, until `limit` cycles were
begun. -/
inductive Loops (limit : Nat) : Keeper → Nat → Keeper → Prop where
  | done {k : Keeper} (h : limit ≤ k.cycles) : Loops limit k 0 k
  | next {k k' : Keeper} {moved : Nat} (h : k.cycles < limit) (rest : Loops limit (left k.cycle) moved k') :
      Loops limit k ((if k.reportsMove then 1 else 0) + moved) k'

/-- A run does the cycles that are left, and counts those that report a move. -/
theorem run_eq (k : Keeper) (limit : Nat) : k.run limit =
    ((List.range (limit - k.cycles)).countP fun i => (afterCycles i k).reportsMove,
      afterCycles (limit - k.cycles) k) := by
  rw [run, runCycles_eq, Nat.zero_add]

theorem run_of_le (h : limit ≤ k.cycles) : k.run limit = (0, k) := by
  rw [run_eq, Nat.sub_eq_zero_of_le h]
  rfl

/-- Below its limit a run does one cycle and goes on from there. -/
theorem run_of_lt (h : k.cycles < limit) : k.run limit =
    ((if k.reportsMove then 1 else 0) + ((left k.cycle).run limit).1, ((left k.cycle).run limit).2) := by
  obtain ⟨n, hn⟩ := Nat.exists_eq_add_of_lt h
  have hleft : limit - k.cycles = n + 1 := by omega
  have hrest : limit - (left k.cycle).cycles = n := by
    rw [cycles_cycle]
    omega
  rw [run_eq, run_eq, hleft, hrest, List.range_succ_eq_map, List.countP_cons, List.countP_map, Nat.add_comm]
  rfl

/-- Every loop ends: with each cycle there is one less to begin. -/
theorem loops_run (k : Keeper) (limit : Nat) : Loops limit k (k.run limit).1 (k.run limit).2 := by
  induction hn : limit - k.cycles generalizing k with
  | zero =>
    have hle : limit ≤ k.cycles := by omega
    rw [run_of_le hle]
    exact .done hle
  | succ n ih =>
    have hlt : k.cycles < limit := by omega
    rw [run_of_lt hlt]
    refine .next hlt (ih (left k.cycle) ?_)
    rw [cycles_cycle]
    omega

theorem Loops.unique (h : Loops limit k moved r) (h' : Loops limit k moved' r') :
    moved = moved' ∧ r = r' := by
  induction h generalizing moved' with
  | done hle =>
    cases h' with
    | done => exact ⟨rfl, rfl⟩
    | next hlt => omega
  | next hlt _ ih =>
    cases h' with
    | done hle => omega
    | next _ hrest =>
      obtain ⟨rfl, rfl⟩ := ih hrest
      exact ⟨rfl, rfl⟩

/-- A run is what the loop comes to. -/
theorem loops_iff : Loops limit k moved k' ↔ k.run limit = (moved, k') := by
  constructor
  · intro h
    obtain ⟨hmoved, hk⟩ := (loops_run k limit).unique h
    exact Prod.ext hmoved hk
  · intro h
    have hrun := loops_run k limit
    rwa [h] at hrun

/-! ## As many cycles as asked for -/

/-- A run that is asked for `n` cycles ends, whichever of them fail. It begins those of `n` that are more than
the keeper has begun before, and returns how many of them report a move. These are the `n` cycles it is asked
for exactly if the keeper has begun none before, or if it is asked for none. -/
theorem run_does_asked_iff (k : Keeper) (n : Nat) :
    (∀ moved k', Loops n k moved k' ↔ k.run n = (moved, k')) ∧
      k.run n = ((List.range (n - k.cycles)).countP fun i => (afterCycles i k).reportsMove,
        afterCycles (n - k.cycles) k) ∧
      (k.run n).2.cycles = max k.cycles n ∧
      (k.run n = ((List.range n).countP fun i => (afterCycles i k).reportsMove, afterCycles n k) ↔
        k.cycles = 0 ∨ n = 0) := by
  have hcycles : (k.run n).2.cycles = max k.cycles n := by
    rw [run_eq, cycles_afterCycles]
    omega
  refine ⟨fun moved k' => loops_iff, run_eq k n, hcycles, fun h => ?_, fun h => ?_⟩
  · rw [h, cycles_afterCycles] at hcycles
    omega
  · have hall : n - k.cycles = n := by omega
    rw [run_eq, hall]

/-- A keeper that has run a cycle and is asked for one more. -/
theorem second_run_does_nothing : Reachable (left plainKeeper.cycle) ∧
    (left plainKeeper.cycle).cycles = 1 ∧ (left plainKeeper.cycle).run 1 = (0, left plainKeeper.cycle) ∧
    (afterCycles 1 (left plainKeeper.cycle)).cycles = 2 := by
  have hone : (left plainKeeper.cycle).cycles = 1 := by decide +kernel
  refine ⟨reachable_plainKeeper.cycle, hone, run_of_le (Nat.le_of_eq hone.symm), ?_⟩
  rw [cycles_afterCycles, hone]

end MetaPool.Keeper
