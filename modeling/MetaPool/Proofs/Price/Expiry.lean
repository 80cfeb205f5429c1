import MetaPool.Proofs.Price.Readings

/-!
# Overrides expire

An override is written by the operations that set or unset it and by nothing else, and its end is not an
event: at every height it is computed anew from where the override was set and how long it was to last.
As the height never goes back, an override that has ended stays ended until it is set again.

    reading.keeps p ops → reading.entry (p.run ops).oracle = reading.entry p.oracle       (entry_run)
    unlocked → reading.of p = the active override's value, or reading.fromFeed p          (of_unlocked)

What is said of the TVL and of the prices of assets is said once, of a `Reading`.
-/

namespace MetaPool

/-- What the oracle is asked for, and what an override stands in for. -/
inductive Reading where
  | tvl
  | price (asset : Address)
deriving DecidableEq

namespace Reading

/-! ## Readings and their overrides -/

/-- The reading itself. -/
def of (p : Protocol) : Reading → Except Fault Nat
  | tvl => p.tvl
  | price asset => p.assetPrice asset

/-- What the reading would be without an override of it. -/
def fromFeed (p : Protocol) : Reading → Except Fault Nat
  | tvl => do
    let value ← p.oracle.answerOf p.clock p.feeds p.oracle.tvlSource
    if value = 0 ∧ p.metaToken.supply > 0 then .error .zeroTvl else return value
  | price asset =>
    match p.oracle.assetSource asset with
    | some source => do
      let value ← p.oracle.answerOf p.clock p.feeds source
      if value = 0 then .error .missingAssetValue else return value
    | none => .error .missingAssetValue

/-- What a value that was set by hand reads as. A price is not zero. -/
def byHand (value : Int) : Reading → Except Fault Nat
  | tvl => if value < 0 then .error .negativeValue else .ok value.toNat
  | price _ =>
    if value < 0 then .error .negativeValue
    else if value = 0 then .error .missingAssetValue
    else .ok value.toNat

/-- Whether the oracle says that the reading is overridden. -/
def overridden (p : Protocol) : Reading → Bool
  | tvl => p.hasTvlOverride
  | price asset => p.hasAssetOverride asset

/-- The override of the reading, whether it lasts or has ended. -/
def entry (o : Oracle) : Reading → Option Override
  | tvl => o.tvlOverride
  | price asset => o.assetOverrides.get? asset

/-- The operation that sets an override of the reading. -/
def set (caller : Address) (value : Int) (duration : UInt64) : Reading → Operation
  | tvl => .setTvlOverride caller value duration
  | price asset => .setAssetOverride caller asset value duration

/-- The operation that unsets it. -/
def unset (caller : Address) : Reading → Operation
  | tvl => .unsetTvlOverride caller
  | price asset => .unsetAssetOverride caller asset

/-- The permission that this asks for. -/
def unsetPermission : Reading → Permission
  | tvl => .unsetTvlOverride
  | price _ => .unsetAssetOverride

/-- Whether an operation would set or unset the override of the reading. -/
def isTarget : Reading → Operation → Bool
  | tvl, .setTvlOverride _ _ _ | tvl, .unsetTvlOverride _ => true
  | price asset, .setAssetOverride _ target _ _ | price asset, .unsetAssetOverride _ target =>
    decide (target = asset)
  | _, _ => false

/-- Whether no operation of a history succeeds in setting or unsetting the override of the reading. -/
def keeps (reading : Reading) (p : Protocol) : List Operation → Bool
  | [] => true
  | op :: ops => !(reading.isTarget op && !op.fails p) && reading.keeps (p.after op) ops

variable {reading other : Reading} {p q : Protocol} {op : Operation} {out : Outcome}
  {caller : Address} {value : Int} {duration : UInt64}

/-! ## Who writes an override -/

open Operation Protocol

theorem entry_of_set (h : (reading.set caller value duration).perform p = .ok out q) :
    reading.entry q.oracle = some ⟨value, p.clock.height, duration⟩ := by
  cases reading with
  | tvl =>
    obtain ⟨_, o, hset, rfl⟩ := controlOracle_eq_ok.1 (complete_eq_ok.1 h).2
    obtain ⟨-, rfl, rfl⟩ := Oracle.setTvl_eq_ok.1 hset
    rfl
  | price asset =>
    obtain ⟨_, o, hset, rfl⟩ := controlOracle_eq_ok.1 (complete_eq_ok.1 h).2
    obtain ⟨-, -, rfl, rfl⟩ := Oracle.setAssetValue_eq_ok.1 hset
    simp only [entry, OrderedMap.get?_insert, if_pos]

theorem entry_of_ok (hop : reading.isTarget op = false) (h : op.perform p = .ok out q) :
    reading.entry q.oracle = reading.entry p.oracle := by
  have hcongr {o o' : Oracle} (htvl : o'.tvlOverride = o.tvlOverride)
      (hassets : o'.assetOverrides = o.assetOverrides) : reading.entry o' = reading.entry o := by
    cases reading with
    | tvl => exact htvl
    | price asset => simp only [entry, hassets]
  by_cases hrebalance : op.isRebalance = true
  · obtain ⟨-, horacle⟩ := oracle_of_rebalance hrebalance h
    rw [horacle]
    exact hcongr rfl rfl
  by_cases hw : .oracle ∈ op.writes
  swap
  · exact congrArg (reading.entry ·) (frame_of_ok h .oracle hw)
  -- a change of the oracle does not tell which operation made it, so each control is looked at
  cases op with
  | lockOracle =>
    obtain ⟨o, hset, rfl⟩ :=
      lock_eq_ok.1 (atomically_eq_ok.1 (complete_eq_ok.1 h).2)
    obtain ⟨-, -, rfl⟩ := Oracle.lock_eq_ok.1 hset
    exact hcongr rfl rfl
  | lockOracleFor =>
    obtain ⟨o, hset, rfl⟩ :=
      lock_eq_ok.1 (atomically_eq_ok.1 (complete_eq_ok.1 h).2)
    obtain ⟨-, -, rfl⟩ := Oracle.lockFor_eq_ok.1 hset
    exact hcongr rfl rfl
  | unlockOracle =>
    obtain ⟨_, o, hset, rfl⟩ := controlOracle_eq_ok.1 (complete_eq_ok.1 h).2
    obtain ⟨-, rfl⟩ := Oracle.unlock_eq_ok.1 hset
    exact hcongr rfl rfl
  | setTvlOverride =>
    obtain ⟨_, o, hset, rfl⟩ := controlOracle_eq_ok.1 (complete_eq_ok.1 h).2
    obtain ⟨-, -, rfl⟩ := Oracle.setTvl_eq_ok.1 hset
    cases reading with
    | tvl => cases hop
    | price asset => rfl
  | unsetTvlOverride =>
    obtain ⟨_, o, hset, rfl⟩ := controlOracle_eq_ok.1 (complete_eq_ok.1 h).2
    obtain ⟨-, -, rfl⟩ := Oracle.unsetTvl_eq_ok.1 hset
    cases reading with
    | tvl => cases hop
    | price asset => rfl
  | setAssetOverride caller target value duration =>
    obtain ⟨_, o, hset, rfl⟩ := controlOracle_eq_ok.1 (complete_eq_ok.1 h).2
    obtain ⟨-, -, -, rfl⟩ := Oracle.setAssetValue_eq_ok.1 hset
    cases reading with
    | tvl => rfl
    | price asset =>
      have hne : asset ≠ target := Ne.symm (of_decide_eq_false hop)
      simp only [entry, OrderedMap.get?_insert, if_neg hne]
  | unsetAssetOverride caller target =>
    obtain ⟨_, o, hset, rfl⟩ := controlOracle_eq_ok.1 (complete_eq_ok.1 h).2
    obtain ⟨-, -, rfl⟩ := Oracle.unsetAssetValue_eq_ok.1 hset
    cases reading with
    | tvl => rfl
    | price asset =>
      have hne : asset ≠ target := Ne.symm (of_decide_eq_false hop)
      simp only [entry, OrderedMap.get?_erase, if_neg hne]
  | setTvlSource =>
    obtain ⟨_, o, hset, rfl⟩ := controlOracle_eq_ok.1 (complete_eq_ok.1 h).2
    obtain ⟨-, -, rfl⟩ := Oracle.setTvlSource_eq_ok.1 hset
    exact hcongr rfl rfl
  | setAssetSource =>
    obtain ⟨_, o, hset, rfl⟩ := controlOracle_eq_ok.1 (complete_eq_ok.1 h).2
    obtain ⟨-, -, -, rfl⟩ := Oracle.setAssetSource_eq_ok.1 hset
    exact hcongr rfl rfl
  | setAssetSources =>
    obtain ⟨o, hset, rfl⟩ := setAssetSources_eq_ok.1 (complete_eq_ok.1 h).2
    obtain ⟨-, -, -, -, rfl⟩ := Oracle.setAssetSources_eq_ok.1 hset
    exact hcongr rfl rfl
  | setStalePeriod =>
    obtain ⟨_, o, hset, rfl⟩ := controlOracle_eq_ok.1 (complete_eq_ok.1 h).2
    obtain ⟨-, -, rfl⟩ := Oracle.setStalePeriod_eq_ok.1 hset
    exact hcongr rfl rfl
  | setLockPeriod =>
    obtain ⟨_, o, hset, rfl⟩ := controlOracle_eq_ok.1 (complete_eq_ok.1 h).2
    obtain ⟨-, rfl⟩ := Oracle.setLockPeriod_eq_ok.1 hset
    exact hcongr rfl rfl
  | _ => simp [isRebalance, writes] at hrebalance hw

theorem entry_after (hop : (reading.isTarget op && !op.fails p) = false) :
    reading.entry (p.after op).oracle = reading.entry p.oracle := by
  rcases ok_or_unchanged p op with ⟨out, h⟩ | ⟨-, hsame⟩
  · refine entry_of_ok ?_ h
    simpa [fails, h] using hop
  · rw [hsame]

theorem entry_run {ops : List Operation} (hkeeps : reading.keeps p ops = true) :
    reading.entry (p.run ops).oracle = reading.entry p.oracle := by
  induction ops generalizing p with
  | nil => rfl
  | cons op ops ih =>
    simp only [keeps, Bool.and_eq_true, Bool.not_eq_true'] at hkeeps
    exact (ih hkeeps.2).trans (entry_after hkeeps.1)

/-! ## Overrides that last -/

theorem byHand_tvl (value : Int) : Checked.ofSigned value = tvl.byHand value := by
  unfold Checked.ofSigned byHand
  by_cases hneg : value < 0
  · rw [if_pos hneg, if_neg (by omega)]
  · rw [if_neg hneg, if_pos (by omega)]

theorem byHand_price {asset : Address} (value : Int) : (do
    let price ← Checked.ofSigned value
    if price = 0 then .error .missingAssetValue else return price) = (price asset).byHand value := by
  rw [byHand_tvl]
  unfold byHand
  by_cases hneg : value < 0
  · rw [if_pos hneg, if_pos hneg]
    rfl
  · rw [if_neg hneg, if_neg hneg]
    by_cases hzero : value = 0
    · subst hzero
      rfl
    · have hpos : value.toNat ≠ 0 := by omega
      rw [if_neg hzero]
      exact if_neg hpos

theorem overridden_eq (reading : Reading) (p : Protocol) :
    reading.overridden p = ((reading.entry p.oracle).filter (·.isActive p.clock.height)).isSome := by
  cases reading <;> rfl

/-- While the oracle is not locked, it answers with the override that lasts, or else with the feed. -/
theorem of_unlocked (h : p.isOracleLocked = false) :
    reading.of p = match (reading.entry p.oracle).filter (·.isActive p.clock.height) with
      | some manual => reading.byHand manual.value
      | none => reading.fromFeed p := by
  have hunlocked : p.oracle.requireUnlocked p.clock = .ok () := Oracle.requireUnlocked_eq_ok.2 h
  cases reading with
  | tvl =>
    simp only [of, Protocol.tvl, Oracle.tvl, Oracle.activeTvlOverride, hunlocked, entry]
    cases p.oracle.tvlOverride.filter (·.isActive p.clock.height) with
    | some manual => exact byHand_tvl manual.value
    | none => rfl
  | price asset =>
    simp only [of, assetPrice, Oracle.assetPrice, Oracle.activeAssetOverride, hunlocked, entry]
    cases (p.oracle.assetOverrides.get? asset).filter (·.isActive p.clock.height) with
    | some manual => exact byHand_price manual.value
    | none =>
      simp only [fromFeed]
      cases p.oracle.assetSource asset <;> rfl

/-! ## Overrides that have ended -/

/-- A control whose setter stops on an oracle that it has not written changes nothing. -/
theorem control_eq_error {α : Type} {setter : Clock → FeedBook → Oracle.Setter α} {event : α → Event}
    {fault : Fault} (h : setter p.clock p.feeds p.oracle = .error fault p.oracle) :
    complete (atomically do let a ← onOracle setter; logEvent (event a)) p = .error fault p := by
  simp [complete, atomically, onOracle, bind, EStateM.bind, h, rollback]

/-- What is asked for first is the role, and then that the override lasts. -/
theorem unset_refused {o : Oracle} {lasts : Oracle → Bool} {permission : Permission}
    {change : Oracle.Setter Unit} (hpermitted : o.roles.authorize caller permission = .ok ())
    (hended : lasts o = false) : (do
      Oracle.authorize caller permission
      unless lasts (← get) do throw .overrideNotSet
      change : Oracle.Setter Unit) o = .error .overrideNotSet o := by
  simp [Oracle.authorize, bind, EStateM.bind, hpermitted, get, getThe, MonadStateOf.get, EStateM.get,
    hended, throw, throwThe, MonadExceptOf.throw, EStateM.throw]

theorem unset_of_ended (hpermitted : p.oracle.roles.authorize caller reading.unsetPermission = .ok ())
    (hended : reading.overridden p = false) :
    (reading.unset caller).perform p = .error .overrideNotSet p := by
  cases reading with
  | tvl => exact control_eq_error (unset_refused hpermitted hended)
  | price asset => exact control_eq_error (unset_refused hpermitted hended)

/-- Whoever calls, an override that has ended is not unset. -/
theorem unset_fails (hended : reading.overridden p = false) (caller : Address) :
    (reading.unset caller).fails p = true := by
  by_contra hok
  obtain ⟨_, h⟩ := perform_of_not_fails (Bool.eq_false_iff.2 hok)
  cases reading with
  | tvl =>
    obtain ⟨_, _, hset, -⟩ := controlOracle_eq_ok.1 (complete_eq_ok.1 h).2
    obtain ⟨-, hactive, -⟩ := Oracle.unsetTvl_eq_ok.1 hset
    exact Bool.eq_false_iff.1 hended hactive
  | price asset =>
    obtain ⟨_, _, hset, -⟩ := controlOracle_eq_ok.1 (complete_eq_ok.1 h).2
    obtain ⟨-, hactive, -⟩ := Oracle.unsetAssetValue_eq_ok.1 hset
    exact Bool.eq_false_iff.1 hended hactive

/-! ## Overrides of other readings -/

theorem of_after_set (hne : other ≠ reading) :
    other.of (p.after (reading.set caller value duration)) = other.of p := by
  rcases ok_or_unchanged p (reading.set caller value duration) with ⟨_, h⟩ | ⟨-, hsame⟩
  swap
  · rw [hsame]
  cases reading with
  | tvl =>
    obtain ⟨_, _, hset, hafter⟩ := controlOracle_eq_ok.1 (complete_eq_ok.1 h).2
    obtain ⟨-, -, rfl⟩ := Oracle.setTvl_eq_ok.1 hset
    rw [hafter]
    cases other with
    | tvl => exact absurd rfl hne
    | price asset => rfl
  | price target =>
    obtain ⟨_, _, hset, hafter⟩ := controlOracle_eq_ok.1 (complete_eq_ok.1 h).2
    obtain ⟨-, -, -, rfl⟩ := Oracle.setAssetValue_eq_ok.1 hset
    rw [hafter]
    cases other with
    | tvl => rfl
    | price asset =>
      have hasset : asset ≠ target := fun e => hne (congrArg price e)
      simp only [of, assetPrice, Oracle.assetPrice, Oracle.activeAssetOverride,
        OrderedMap.get?_insert, if_neg hasset]
      rfl

/-! ## Along a history -/

/-- An override lasts while the height is below its end, in heights that stop at the largest one. -/
theorem overridden_iff {ops : List Operation}
    (hset : (reading.set caller value duration).perform p = .ok out q)
    (hkeeps : reading.keeps q ops = true) : reading.overridden (q.run ops) = true ↔
      (q.run ops).clock.height.toNat < min (p.clock.height.toNat + duration.toNat) maxWord := by
  rw [overridden_eq, entry_run hkeeps, entry_of_set hset, ← Override.isActive_iff ⟨value, _, _⟩]
  simp [Option.isSome_filter]

/-- An override that was set and is left alone lasts for its duration and does not come back. As long as
it lasts, the oracle answers with its value whenever it is not locked; from then on it answers with the
feed, and nobody can unset the override. Other readings are as they were before it was set. -/
theorem overrides_expire (reading : Reading) (p : Protocol) (caller : Address) (value : Int)
    (duration : UInt64) :
    (∀ out q ops, (reading.set caller value duration).perform p = .ok out q →
      reading.keeps q ops = true →
      (reading.overridden (q.run ops) = true ↔
        (q.run ops).clock.height.toNat < min (p.clock.height.toNat + duration.toNat) maxWord) ∧
      ((q.run ops).isOracleLocked = false → reading.of (q.run ops) =
        if reading.overridden (q.run ops) then reading.byHand value
        else reading.fromFeed (q.run ops)) ∧
      (reading.overridden (q.run ops) = false →
        (∀ other, (reading.unset other).fails (q.run ops) = true) ∧
        (∀ other, (q.run ops).oracle.roles.authorize other reading.unsetPermission = .ok () →
          (reading.unset other).perform (q.run ops) = .error .overrideNotSet (q.run ops)) ∧
        ∀ more, reading.keeps q (ops ++ more) = true →
          reading.overridden (q.run (ops ++ more)) = false)) ∧
    ∀ other, other ≠ reading →
      other.of (p.after (reading.set caller value duration)) = other.of p := by
  refine ⟨fun out q ops hset hkeeps => ⟨overridden_iff hset hkeeps, ?_, ?_⟩, fun _ => of_after_set⟩
  · intro hunlocked
    rw [of_unlocked hunlocked, overridden_eq, entry_run hkeeps, entry_of_set hset, Option.filter_some]
    cases Override.isActive ⟨value, p.clock.height, duration⟩ (q.run ops).clock.height <;> rfl
  · intro hended
    refine ⟨unset_fails hended, fun _ hpermitted => unset_of_ended hpermitted hended, ?_⟩
    intro more hmore
    have hheight : (q.run ops).clock.height ≤ (q.run (ops ++ more)).clock.height := by
      rw [show q.run (ops ++ more) = (q.run ops).run more from List.foldl_append]
      exact height_le_run _ more
    rw [Bool.eq_false_iff, Ne, overridden_iff hset hmore]
    rw [Bool.eq_false_iff, Ne, overridden_iff hset hkeeps] at hended
    have := UInt64.le_iff_toNat_le.1 hheight
    omega

/-- Nine blocks in which the feeds become stale, others fail to end or to replace an override, and the
stale period is shortened. -/
def nineBlocks : List Operation :=
  [.publishTvl 700, .passTime 90000, .unsetTvlOverride ⟨"alice"⟩, .setTvlOverride ⟨"alice"⟩ 1 100,
    .setAssetOverride ⟨"emergencySafe"⟩ ⟨"USDC"⟩ 7 2, .setStalePeriod ⟨"adminSafe"⟩ 3600, .passBlocks 9]

/-- One more block, and a feed that is young again. -/
def tenBlocks : List Operation := nineBlocks ++ [.passBlocks 1, .publishTvl 800]

/-- The TVL, set by hand for ten blocks. -/
def tvlByHand : Protocol := initial.after (tvl.set ⟨"emergencySafe"⟩ 5000 10)

/-- A price, set by hand to zero for ten blocks. -/
def priceByHand : Protocol := initial.after ((price ⟨"DAI"⟩).set ⟨"emergencySafe"⟩ 0 10)

/-- Overrides of ten blocks last through the nine and have ended with the tenth. -/
theorem overrides_expire_tenBlocks :
    tvl.of (tvlByHand.run nineBlocks) = .ok 5000 ∧
      (price ⟨"DAI"⟩).of (priceByHand.run nineBlocks) = .error .missingAssetValue ∧
      tvl.of (tvlByHand.run tenBlocks) = .ok 800 ∧
      (tvl.unset ⟨"emergencySafe"⟩).perform (tvlByHand.run tenBlocks) =
        .error .overrideNotSet (tvlByHand.run tenBlocks) ∧
      tvl.overridden (tvlByHand.run (tenBlocks ++ [.passBlocks 1])) = false ∧
      (price ⟨"DAI"⟩).of tvlByHand = (price ⟨"DAI"⟩).of initial := by
  have htvl : (tvl.set ⟨"emergencySafe"⟩ 5000 10).fails initial = false := by decide +kernel
  have hprice : ((price ⟨"DAI"⟩).set ⟨"emergencySafe"⟩ 0 10).fails initial = false := by decide +kernel
  obtain ⟨_, htvl⟩ := perform_of_not_fails htvl
  obtain ⟨_, hprice⟩ := perform_of_not_fails hprice
  obtain ⟨hlasts, hread, -⟩ :=
    (overrides_expire tvl initial _ _ _).1 _ _ nineBlocks htvl (by decide +kernel)
  obtain ⟨hlasts', hread', -⟩ :=
    (overrides_expire (price ⟨"DAI"⟩) initial _ _ _).1 _ _ nineBlocks hprice (by decide +kernel)
  obtain ⟨-, hfeed, hended⟩ :=
    (overrides_expire tvl initial _ _ _).1 _ _ tenBlocks htvl (by decide +kernel)
  obtain ⟨-, hunset, hstays⟩ := hended (by decide +kernel)
  refine ⟨?_, ?_, ?_, hunset _ (by decide +kernel), hstays _ (by decide +kernel), ?_⟩
  · refine (hread (by decide +kernel)).trans ?_
    rw [if_pos (hlasts.2 (by decide +kernel))]
    rfl
  · refine (hread' (by decide +kernel)).trans ?_
    rw [if_pos (hlasts'.2 (by decide +kernel))]
    rfl
  · refine (hfeed (by decide +kernel)).trans ?_
    rw [if_neg (by decide +kernel)]
    exact eq_ok_of_toOption (by decide +kernel)
  · exact (overrides_expire tvl initial _ _ _).2 _ (by decide)

end Reading

end MetaPool
