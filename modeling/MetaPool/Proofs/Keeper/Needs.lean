import MetaPool.Keeper.Basic
import MetaPool.Proofs.Capital.Recall

/-!
# The needs that are worth a move

A top-up warrants a move if it is worth enough basis points of what its pool is worth (`Warrants`). The
keeper divides and compares. It has a rule of its own for a pool that is worth nothing, which never applies,
since such a pool needs no top-up. So its needs are the configured pools whose top-up warrants a move, all
of them, read from one state.

    needs c p = .ok l → (n ∈ l ↔ n.id ∈ c.poolIds ∧ its pool warrants n.topUp)   (mem_needs_iff)

A pool with a positive top-up is below its target, and one with a negative top-up is above (`ReserveGap`).
-/

namespace MetaPool.Keeper

variable {p : Protocol} {l : List Need} {n : Need} {config : Config} {a : Address} {t : Int} {b : Bool}
  {thresholdBps part whole bps : Nat}

/-! ## Targets -/

/-- How far a pool is below its target: by how much a percentage of its value exceeds the idle part. -/
def ReserveGap (p : Protocol) (a : Address) (gap : Int) : Prop :=
  ∃ state s total idle, p.pool a = .ok state ∧ p.snapshot a = .ok s ∧ s.totalValue = .ok total ∧
    s.idleValue = .ok idle ∧
    gap = ((total * state.terms.reservePercentage / wholePercent : Nat) : Int) - idle

/-- A top-up that is not rounded down to nothing has the sign of the gap, and its pool is worth something. -/
theorem reserveGap_of_topUp (h : p.topUp a = .ok t) (ht : t ≠ 0) :
    ∃ gap, ReserveGap p a gap ∧ (0 < t → 0 < gap) ∧ (t < 0 → gap < 0) ∧
      ∃ total, p.poolValue a = .ok total ∧ total ≠ 0 := by
  obtain ⟨state, hstate, h⟩ := except_bind_eq_ok.1 h
  obtain ⟨s, hs, h⟩ := except_bind_eq_ok.1 h
  obtain ⟨total, idle, htotal, hidle, hsplit, ⟨-, rfl⟩ | hgap⟩ := Snapshot.gap_of_topUp h
  · exact absurd rfl ht
  obtain ⟨magnitude, hmagnitude, rfl⟩ := signedUnitsWorth_eq_ok hgap
  obtain ⟨-, hmagnitude, -⟩ := Checked.prorate_eq_ok.1 hmagnitude
  refine ⟨_, ⟨state, s, total, idle, hstate, hs, htotal, hidle, rfl⟩, ?_⟩
  generalize htarget : total * state.terms.reservePercentage / wholePercent = target at *
  have hne : (target : Int) - idle ≠ 0 := by
    intro h
    simp [h] at hmagnitude
    simp [hmagnitude] at ht
  refine ⟨fun hpos => ?_, fun hneg => ?_, total, Protocol.poolValue_eq_ok.2 ⟨s, hs, htotal⟩, ?_⟩
  · split at hpos <;> omega
  · split at hneg <;> omega
  · rintro rfl
    rw [Nat.zero_mul, Nat.zero_div] at htarget
    omega

/-! ## What is worth a move -/

/-- The top-up of a pool is worth the move: at least `thresholdBps` basis points of what the pool is worth. -/
structure Warrants (thresholdBps : Nat) (p : Protocol) (a : Address) (t : Int) : Prop where
  topUp : p.topUp a = .ok t
  ne_zero : t ≠ 0
  worth : ∃ total moved, p.poolValue a = .ok total ∧ p.underlyerValue a t.natAbs = .ok moved ∧
    thresholdBps * total ≤ moved * wholeBps

theorem le_changeBps_iff (h : changeBps part whole = .ok bps) (hwhole : whole ≠ 0) :
    thresholdBps ≤ bps ↔ thresholdBps * whole ≤ part * wholeBps := by
  unfold changeBps at h
  rw [if_neg hwhole] at h
  obtain ⟨-, rfl, -⟩ := Checked.prorate_eq_ok.1 h
  exact Nat.le_div_iff_mul_le (Nat.pos_of_ne_zero hwhole)

/-- The keeper makes the moves that are warranted. -/
theorem isWorthwhile_iff (htopUp : p.topUp a = .ok t) (h : isWorthwhile thresholdBps a t p = .ok b) :
    b = true ↔ Warrants thresholdBps p a t := by
  unfold isWorthwhile at h
  by_cases ht : t = 0
  · rw [if_pos ht] at h
    obtain rfl := Except.ok.inj h
    exact ⟨nofun, fun hw => absurd ht hw.ne_zero⟩
  rw [if_neg ht] at h
  obtain ⟨total, htotal, h⟩ := except_bind_eq_ok.1 h
  obtain ⟨moved, hmoved, h⟩ := except_bind_eq_ok.1 h
  obtain ⟨bps, hbps, h⟩ := except_bind_eq_ok.1 h
  obtain rfl := except_pure_eq_ok.1 h
  obtain ⟨-, -, -, -, total', htotal', hne⟩ := reserveGap_of_topUp htopUp ht
  obtain rfl := ok_unique htotal htotal'
  rw [decide_eq_true_iff, le_changeBps_iff hbps hne]
  constructor
  · exact fun hle => ⟨htopUp, ht, total, moved, htotal, hmoved, hle⟩
  · rintro ⟨-, -, _, _, htotal', hmoved', hle⟩
    rwa [ok_unique htotal htotal', ok_unique hmoved hmoved']

/-! ## All needs -/

theorem zip_zip_map {α β γ : Type} (l : List α) (f : α → β) (g : β → γ) :
    (l.zip (l.map f)).zip ((l.map f).map g) = l.map fun a => ((a, f a), g (f a)) := by
  induction l with
  | nil => rfl
  | cons a l ih => exact congrArg (_ :: ·) ih

/-- The needs are the top-ups of the configured pools that warrant a move. -/
theorem mem_needs_iff (h : needs config p = .ok l) : n ∈ l ↔ n.id ∈ config.poolIds ∧
    ∃ a, p.poolAddress n.id = .ok a ∧ Warrants config.thresholdBps p a n.topUp := by
  obtain ⟨⟨pools, topUps⟩, hread, h⟩ := except_bind_eq_ok.1 h
  obtain ⟨worthwhile, hfilter, h⟩ := except_bind_eq_ok.1 h
  obtain rfl := except_pure_eq_ok.1 h
  obtain ⟨hpools, htopUps⟩ := Protocol.rebalanceAmounts_eq_ok.1 hread
  obtain ⟨pool, rfl, hpool⟩ := exists_map_of_mapM hpools
  obtain ⟨topUp, rfl, htopUp⟩ := exists_map_of_mapM htopUps
  rw [zip_zip_map] at hfilter
  obtain ⟨hlooked, hkept⟩ := filterM_eq_ok hfilter
  rw [List.forall_mem_map] at htopUp hlooked
  rw [List.mem_map]
  constructor
  · rintro ⟨e, he, rfl⟩
    obtain ⟨he, hworth⟩ := (hkept e).1 he
    obtain ⟨id, hid, rfl⟩ := List.mem_map.1 he
    exact ⟨hid, pool id, hpool id hid, (isWorthwhile_iff (htopUp id hid) hworth).1 rfl⟩
  · rintro ⟨hid, a, ha, hw⟩
    obtain rfl := ok_unique (hpool n.id hid) ha
    have ht : topUp (pool n.id) = n.topUp := ok_unique (htopUp n.id hid) hw.topUp
    obtain ⟨keep, hlook⟩ := hlooked n.id hid
    obtain rfl : keep = true := (isWorthwhile_iff (htopUp n.id hid) hlook).2 (ht ▸ hw)
    exact ⟨_, (hkept _).2 ⟨List.mem_map_of_mem hid, hlook⟩, by rw [ht]⟩

/-- A need that is read off the protocol. -/
def Need.ReadFrom (n : Need) (p : Protocol) : Prop :=
  ∃ pool, p.poolAddress n.id = .ok pool ∧ p.topUp pool = .ok n.topUp

theorem readFrom_of_mem_needs (h : needs config p = .ok l) : ∀ n ∈ l, n.ReadFrom p := by
  intro n hn
  obtain ⟨-, a, ha, hw⟩ := (mem_needs_iff h).1 hn
  exact ⟨a, ha, hw.topUp⟩

/-- The protocol reads for needs what was read for them before. -/
theorem rebalanceAmounts_of_read (h : ∀ n ∈ l, n.ReadFrom p) :
    ∃ pools, p.rebalanceAmounts (l.map (·.id)) = .ok (pools, l.map (·.topUp)) := by
  induction l with
  | nil => exact ⟨[], rfl⟩
  | cons n l ih =>
    rw [List.forall_mem_cons] at h
    obtain ⟨pool, hpool, htopUp⟩ := h.1
    obtain ⟨pools, hread⟩ := ih h.2
    obtain ⟨hpools, htopUps⟩ := Protocol.rebalanceAmounts_eq_ok.1 hread
    refine ⟨pool :: pools, Protocol.rebalanceAmounts_eq_ok.2 ⟨?_, ?_⟩⟩
    · rw [List.map_cons, Protocol.poolAddresses, List.mapM_cons]
      exact except_bind_eq_ok.2 ⟨pool, hpool, except_bind_eq_ok.2 ⟨pools, hpools, rfl⟩⟩
    · rw [List.map_cons, List.mapM_cons]
      exact except_bind_eq_ok.2 ⟨n.topUp, htopUp, except_bind_eq_ok.2 ⟨_, htopUps, rfl⟩⟩

end MetaPool.Keeper
