import MetaPool.Proofs.Keeper.History
import MetaPool.Proofs.Log.Replay

/-!
# What cycles take out of the log

The log is taken at the very end of a cycle. So a cycle that succeeds takes all of it, what was there before
and what the cycle itself has logged, and reports how much that was. A cycle that fails takes nothing, and
since it logs nothing either the log is what it was. Along a history the first so many records are out, as
many as were taken, and the others are still there, in order: no record is taken twice, and none is lost.

    the log is empty after a cycle ↔ the cycle succeeds, or it was empty before   (cycle_drains_log_iff)
    Since k₀ n k → the log of k is that of k₀ and all records since, but for the first n   (Since.drained)
-/

namespace MetaPool

namespace Protocol

variable {α : Type} {p : Protocol} {x : Action α}

instance : Std.Refl Follows := ⟨.refl⟩

instance : IsTrans Protocol Follows := ⟨fun _ _ _ => .trans⟩

theorem follows_after {op : Operation} (hop : op ≠ .takeLog) (p : Protocol) : Follows p (p.after op) := by
  rcases ok_or_unchanged p op with ⟨out, hok⟩ | ⟨-, hsame⟩
  · exact Operation.follows_of_ok hop hok
  · rw [hsame]
    exact .refl p

/-- What a routine logs leads from one replica to the other, if it does not take the log. -/
theorem Routine.follows (hx : Routine (· ≠ .takeLog) x) (p : Protocol) : Follows p (left (x p)) := by
  refine hx.leaves (fun op p hop => follows_after hop p) (fun p q h => ?_) p
  obtain ⟨entries, hlog, -⟩ := h
  rw [rollback_eq_iff.2 (hlog ▸ List.prefix_append _ _)]
  exact .refl p

end Protocol

namespace Keeper

variable {α : Type} {k k' k₀ : Keeper} {report : Report} {fault : Fault} {n : Nat}

/-! ## One cycle -/

/-- What is new in the log tells what has changed. -/
def Logged (k k' : Keeper) : Prop := Protocol.Follows k.protocol k'.protocol

instance : Std.Refl Logged := ⟨fun _ => .refl _⟩

instance : IsTrans Keeper Logged := ⟨fun _ _ _ => Protocol.Follows.trans⟩

theorem logged_act {action : Protocol.Action α} (op : Operation) (reply : α → Outcome)
    (h : op.perform = action >>= fun a => pure (reply a)) (hop : op ≠ .takeLog) :
    Leaves Logged (act action) :=
  leaves_act fun k => Protocol.left_eq_after h k.protocol ▸ Protocol.follows_after hop k.protocol

theorem logged_settle : Leaves Logged settle :=
  leaves_settle (fun _ _ => logged_act (.recallShortfall _ _) .amounts rfl nofun)
    fun _ _ => logged_act (.sendSurplus _ _) .amounts rfl nofun

theorem logged_reportToOracle : Leaves Logged reportToOracle :=
  leaves_reportToOracle fun _ _ => logged_act (.publish _ _) (fun _ => .done) rfl nofun

/-- A cycle that succeeds takes all that was in the log and all that it has logged itself. -/
theorem logged_of_cycle (h : k.cycle = .ok report k') : ∃ settled, Logged k settled ∧
    report.events = settled.protocol.log.length ∧
    k' = { settled with protocol := { settled.protocol with log := [] } } := by
  obtain ⟨observed, settled, verdict, hobserve, hsettle, hreport, hk'⟩ := cycle_eq_ok.1 h
  obtain ⟨clock, feeds, rfl⟩ := watched_of_observe hobserve
  have hlogged : Logged _ settled := logged_settle.of_ok hsettle
  exact ⟨settled, hlogged, congrArg Report.events hreport, hk'⟩

theorem log_of_cycle (h : k.cycle = .ok report k') : k'.protocol.log = [] ∧ ∃ entries,
    k'.protocol.replica = k.protocol.replica.replay entries ∧
      report.events = (k.protocol.log ++ entries).length := by
  obtain ⟨settled, ⟨entries, hlog, hreplica⟩, hevents, rfl⟩ := logged_of_cycle h
  exact ⟨rfl, entries, hreplica, hlog ▸ hevents⟩

/-- A cycle that fails takes nothing out of the log and has nothing to add to it. -/
theorem log_of_failed_cycle (h : k.cycle = .error fault k') :
    k'.protocol.log = k.protocol.log ∧ k'.protocol.replica = k.protocol.replica := by
  obtain ⟨clock, feeds, rfl⟩ := watched_of_error h
  exact ⟨rfl, rfl⟩

/-! ## Histories -/

/-- From one keeper to another, so many records were taken out of the log: as many as the cycles have
reported, and those that clients have taken themselves. -/
inductive Since (k₀ : Keeper) : Nat → Keeper → Prop where
  | refl : Since k₀ 0 k₀
  | cycle {n : Nat} {k k' : Keeper} {report : Report} (h : Since k₀ n k)
      (hcycle : k.cycle = .ok report k') : Since k₀ (n + report.events) k'
  | failure {n : Nat} {k k' : Keeper} {fault : Fault} (h : Since k₀ n k)
      (hcycle : k.cycle = .error fault k') : Since k₀ n k'
  | report {n : Nat} {k : Keeper} (h : Since k₀ n k) : Since k₀ n (left k.reportToOracle)
  | access {n : Nat} {k : Keeper} {α : Type} {x : Protocol.Action α} (h : Since k₀ n k)
      (hx : Protocol.Routine (· ≠ .takeLog) x) :
      Since k₀ n { k with protocol := Protocol.left (x k.protocol) }
  | take {n : Nat} {k k' : Keeper} {taken : List LogEntry} (h : Since k₀ n k)
      (htake : act Protocol.takeLog k = .ok taken k') : Since k₀ (n + taken.length) k'

/-- Of the records since then, and of those that were there, the first `n` are out, and the others are still
in the log. -/
def Drained (k₀ : Keeper) (n : Nat) (k : Keeper) : Prop := ∃ entries,
  k.protocol.replica = k₀.protocol.replica.replay entries ∧
    n ≤ (k₀.protocol.log ++ entries).length ∧ k.protocol.log = (k₀.protocol.log ++ entries).drop n

theorem Drained.logged (h : Drained k₀ n k) (h' : Logged k k') : Drained k₀ n k' := by
  obtain ⟨entries, hreplica, hle, hlog⟩ := h
  obtain ⟨entries', hlog', hreplica'⟩ := h'
  refine ⟨entries ++ entries', ?_, ?_, ?_⟩
  · rw [hreplica', hreplica, Replica.replay_append]
  · rw [← List.append_assoc, List.length_append]
    exact Nat.le_add_right_of_le hle
  · rw [hlog', hlog, ← List.append_assoc, List.drop_append_of_le_length hle]

/-- Whoever takes the log takes all that is left of it. -/
theorem Drained.take (h : Drained k₀ n k) (hreplica : k'.protocol.replica = k.protocol.replica)
    (hempty : k'.protocol.log = []) : Drained k₀ (n + k.protocol.log.length) k' := by
  obtain ⟨entries, hreplica', hle, hlog⟩ := h
  have hlength : n + k.protocol.log.length = (k₀.protocol.log ++ entries).length := by
    rw [hlog, List.length_drop]
    omega
  refine ⟨entries, hreplica.trans hreplica', hlength.le, ?_⟩
  rw [hempty, hlength, List.drop_length]

theorem Drained.cycle (h : Drained k₀ n k) (hcycle : k.cycle = .ok report k') :
    Drained k₀ (n + report.events) k' := by
  obtain ⟨settled, hlogged, hevents, hk'⟩ := logged_of_cycle hcycle
  subst hk'
  rw [hevents]
  exact (h.logged hlogged).take rfl rfl

/-- Every record is drained once, in order. -/
theorem Since.drained (h : Since k₀ n k) : Drained k₀ n k := by
  induction h with
  | refl => exact ⟨[], rfl, Nat.zero_le _, (List.append_nil _).symm⟩
  | cycle _ hcycle ih => exact ih.cycle hcycle
  | failure _ hcycle ih =>
    obtain ⟨clock, feeds, rfl⟩ := watched_of_error hcycle
    exact ih
  | @report _ k _ ih => exact ih.logged (logged_reportToOracle k)
  | @access _ k _ x _ hx ih => exact ih.logged (hx.follows k.protocol)
  | take _ htake ih =>
    obtain ⟨p, hall, rfl⟩ := act_eq_ok.1 htake
    obtain ⟨rfl, rfl⟩ := EStateM.Result.ok.inj hall
    exact ih.take rfl rfl

/-- After a cycle the log is empty if and only if the cycle succeeds or the log was empty before. A cycle that
succeeds drains and counts all records since the one before, and a cycle that fails leaves the log as it was.
So along every history each record is drained once, by the first cycle to succeed since it was logged. -/
theorem cycle_drains_log_iff (k : Keeper) :
    ((left k.cycle).protocol.log = [] ↔ (∃ report k', k.cycle = .ok report k') ∨ k.protocol.log = []) ∧
      (∀ report k', k.cycle = .ok report k' → ∃ entries,
        k'.protocol.replica = k.protocol.replica.replay entries ∧
          report.events = (k.protocol.log ++ entries).length) ∧
      (∀ fault k', k.cycle = .error fault k' →
        k'.protocol.log = k.protocol.log ∧ k'.protocol.replica = k.protocol.replica) ∧
      ∀ k₀ n, Since k₀ n k → Drained k₀ n k ∧
        ∀ report k', k.cycle = .ok report k' → Drained k₀ (n + report.events) k' := by
  refine ⟨?_, fun _ _ h => (log_of_cycle h).2, fun _ _ => log_of_failed_cycle,
    fun k₀ n h => ⟨h.drained, fun _ _ => h.drained.cycle⟩⟩
  cases hcycle : k.cycle with
  | ok report k' => simp [left, (log_of_cycle hcycle).1]
  | error fault k' => simp [left, (log_of_failed_cycle hcycle).1]

/-- The first cycle of the sample drains the three deposits and the ten records of its own move. -/
theorem cycle_drains_log_iff_sample : ∃ report, sampleKeeper.cycle = .ok report (left sampleKeeper.cycle) ∧
    report.events = 13 ∧ (left sampleKeeper.cycle).protocol.log = [] ∧
    Drained sampleKeeper (0 + report.events) (left sampleKeeper.cycle) := by
  have hevents : (answer sampleKeeper.cycle).map (·.events) = .ok 13 := by decide +kernel
  obtain ⟨report, hcycle, hevents⟩ := eq_ok_of_answer hevents
  obtain ⟨hempty, -, -, hsince⟩ := cycle_drains_log_iff sampleKeeper
  exact ⟨report, hcycle, hevents, hempty.2 (.inl ⟨report, _, hcycle⟩),
    (hsince sampleKeeper 0 .refl).2 report _ hcycle⟩

/-- The pool that has capital to spare is paused. -/
def pausedKeeper : Keeper := plainKeeper.meanwhile
  [.mintTokens ⟨"DAI"⟩ ⟨"daiPool"⟩ 10000000000, .setPoolPaused ⟨"emergencySafe"⟩ ⟨"daiPool"⟩ true]

/-- The move fails and with it the cycle, and the record of the pause stays in the log. -/
theorem failed_cycle_drains_nothing : Reachable pausedKeeper ∧
    (answer pausedKeeper.cycle).map (·.events) = .error (.protocol .paused) ∧
    (left pausedKeeper.cycle).protocol.log.map (·.event) = [.poolPaused ⟨"daiPool"⟩ true] :=
  ⟨reachable_plainKeeper.meanwhile _, by decide +kernel, by decide +kernel⟩

end Keeper

end MetaPool
