import MetaPool.Proofs.Failure
import MetaPool.Proofs.Value.Views
import MetaPool.Protocol.Rebalance

/-!
# What a reading fails with

The views that value pools look up names, ask the oracle and compute. What is computed fails with the
faults of arithmetic (`Fault.OfArithmetic`), and a reading with those or with the faults of names and pools
that are not there and of answers that the oracle refuses (`Fault.OfAnswer`), if the feeds that the oracle
is pointed at and the underlyers of the pools are there. So each view fails with whatever faults these
lookups do besides (`Readable`), and in any state with those of `Fault.OfReading`: no reading blames a
caller, a lock of a pool or a balance.

The one subtraction among them, of the idle value from the target of a top-up, is of two numbers that
are not negative and never leaves the signed range.
-/

namespace MetaPool

/-- The faults of lookups, of the oracle's answers and of results that are out of range. -/
def Fault.OfReading : Fault → Prop
  | .missingAddress _ | .unknownPool _ | .unknownToken _ | .invalidSource | .locked
  | .staleData _ _ | .negativeValue | .missingAssetValue | .zeroTvl | .overflow | .divisionByZero
  | .conversion | .lengthsDiffer _ _ => True
  | _ => False

/-- The faults of results that are out of range. -/
def Fault.OfArithmetic : Fault → Prop
  | .negativeValue | .overflow | .divisionByZero | .conversion => True
  | _ => False

/-- The faults of readings that find what the oracle and the pools refer to. -/
def Fault.OfAnswer : Fault → Prop
  | .missingAddress _ | .unknownPool _ | .locked | .staleData _ _ | .negativeValue
  | .missingAssetValue | .zeroTvl | .overflow | .divisionByZero | .conversion
  | .lengthsDiffer _ _ => True
  | _ => False

theorem Fault.OfArithmetic.ofAnswer {fault : Fault} (h : fault.OfArithmetic) : fault.OfAnswer := by
  cases fault <;> first | exact h | exact trivial

theorem Fault.OfAnswer.ofReading {fault : Fault} (h : fault.OfAnswer) : fault.OfReading := by
  cases fault <;> first | exact h | exact trivial

/-! ## Arithmetic -/

namespace Checked

theorem computes_fit (n : Nat) : FailsIn Fault.OfArithmetic (fit n) :=
  failsIn_ite (failsIn_ok n) (failsIn_error trivial)

theorem computes_toSigned (a : Nat) : FailsIn Fault.OfArithmetic (toSigned a) :=
  failsIn_ite (failsIn_ok _) (failsIn_error trivial)

theorem computes_prorate (a b d : Nat) : FailsIn Fault.OfArithmetic (prorate a b d) :=
  failsIn_ite (failsIn_error trivial) (computes_fit _)

theorem computes_powerOfTen (decimals : Nat) : FailsIn Fault.OfArithmetic (powerOfTen decimals) :=
  failsIn_ite (failsIn_ok _) (failsIn_error trivial)

theorem computes_ofSigned (i : Int) : FailsIn Fault.OfArithmetic (ofSigned i) :=
  failsIn_ite (failsIn_ok _) (failsIn_error trivial)

/-- An amount that fits in a signed number. -/
theorem toSigned_eq_ok {a : Nat} {i : Int} : toSigned a = .ok i ↔ i = a ∧ (a : Int) ≤ maxSigned := by
  have hlow : minSigned ≤ (a : Int) := by unfold minSigned; omega
  simp only [toSigned, fitSigned, require_eq_ok, Except.ok.injEq, hlow, true_and]
  rw [and_comm, eq_comm]

/-- Two amounts that fit in signed numbers have a signed difference. -/
theorem subSigned_of_amounts {a b : Nat} (ha : (a : Int) ≤ maxSigned) (hb : (b : Int) ≤ maxSigned) :
    subSigned a b = .ok ((a : Int) - b) := by
  refine require_eq_ok.2 ⟨?_, rfl⟩
  unfold minSigned maxSigned at *
  omega

end Checked

theorem computes_worth (amount price decimals : Nat) :
    FailsIn Fault.OfArithmetic (worth amount price decimals) :=
  failsIn_bind (Checked.computes_powerOfTen _) fun _ _ => Checked.computes_prorate _ _ _

theorem computes_unitsWorth (value price decimals : Nat) :
    FailsIn Fault.OfArithmetic (unitsWorth value price decimals) := by
  refine failsIn_ite (failsIn_error trivial) ?_
  exact failsIn_bind (Checked.computes_powerOfTen _) fun _ _ => Checked.computes_prorate _ _ _

theorem computes_rescale (amount source target : Nat) :
    FailsIn Fault.OfArithmetic (rescale amount source target) := by
  refine failsIn_ite (failsIn_ok _) (failsIn_ite ?_ ?_)
  · exact failsIn_bind (Checked.computes_powerOfTen _) fun _ _ => Checked.computes_fit _
  · exact failsIn_bind (Checked.computes_powerOfTen _) fun _ _ => failsIn_ok _

theorem computes_signedUnitsWorth (value : Int) (price decimals : Nat) :
    FailsIn Fault.OfArithmetic (signedUnitsWorth value price decimals) := by
  refine failsIn_ite (failsIn_error trivial) ?_
  refine failsIn_bind (Checked.computes_powerOfTen _) fun _ _ => ?_
  refine failsIn_bind (Checked.computes_prorate _ _ _) fun _ _ => ?_
  exact failsIn_ite (failsIn_ok _) (failsIn_error trivial)

theorem computes_metaDelta (amount price decimals tvl supply : Nat) :
    FailsIn Fault.OfArithmetic (metaDelta amount price decimals tvl supply) :=
  failsIn_bind (computes_worth _ _ _) fun _ _ =>
    failsIn_ite (Checked.computes_fit _) (Checked.computes_prorate _ _ _)

/-! ## Snapshots -/

theorem Snapshot.computes_totalValue (s : Snapshot) : FailsIn Fault.OfArithmetic s.totalValue :=
  failsIn_bind (computes_worth _ _ _) fun _ _ => Checked.computes_fit _

theorem computes_bootstrapMint (amount decimals : Nat) :
    FailsIn Fault.OfArithmetic (bootstrapMint amount decimals) :=
  failsIn_bind (computes_rescale _ _ _) fun _ _ => Checked.computes_fit _

theorem Snapshot.computes_sharesFor (s : Snapshot) (amount : Nat) :
    FailsIn Fault.OfArithmetic (s.sharesFor amount) := by
  refine failsIn_bind s.computes_totalValue fun _ _ => ?_
  refine failsIn_ite (computes_bootstrapMint _ _) ?_
  exact failsIn_bind (computes_worth _ _ _) fun _ _ => Checked.computes_prorate _ _ _

theorem Snapshot.computes_topUp (s : Snapshot) (percentage : Nat) :
    FailsIn Fault.OfArithmetic (s.topUp percentage) := by
  refine failsIn_bind s.computes_totalValue fun total _ => failsIn_ite (failsIn_ok 0) ?_
  refine failsIn_bind (Checked.computes_prorate _ _ _) fun part _ => ?_
  refine failsIn_bind (Checked.computes_toSigned _) fun target htarget => ?_
  refine failsIn_bind (computes_worth _ _ _) fun idle _ => ?_
  refine failsIn_bind (Checked.computes_toSigned _) fun idle' hidle => ?_
  obtain ⟨rfl, hpart⟩ := Checked.toSigned_eq_ok.1 htarget
  obtain ⟨rfl, hidle'⟩ := Checked.toSigned_eq_ok.1 hidle
  rw [Checked.subSigned_of_amounts hpart hidle']
  exact failsIn_bind (failsIn_ok _) fun gap _ => computes_signedUnitsWorth _ _ _

/-! ## Lookups -/

theorem TokenBook.reads_record (b : TokenBook) (token : Address) :
    FailsIn Fault.OfReading (b.record token) := by
  unfold record
  cases b.records.get? token with
  | some r => exact failsIn_ok r
  | none => exact failsIn_error trivial

theorem FeedBook.reads_latest (n : FeedBook) (source : Address) :
    FailsIn Fault.OfReading (n.latest source) := by
  unfold latest
  cases n.feeds.get? source with
  | some round => exact failsIn_ok round
  | none => exact failsIn_error trivial

/-! ## Readings -/

namespace Protocol

/-- Readings may fail with the faults of answers, and so may the lookups that they depend on. -/
structure Readable (S : Fault → Prop) (p : Protocol) : Prop where
  answers : ∀ fault, fault.OfAnswer → S fault
  tvlSource : FailsIn S (p.feeds.latest p.oracle.tvlSource)
  assetSource : ∀ asset source, p.oracle.assetSource asset = some source →
    FailsIn S (p.feeds.latest source)
  record : ∀ a s, p.pool a = .ok s → FailsIn S (p.tokens.record s.underlyer)

theorem readable (p : Protocol) : Readable Fault.OfReading p where
  answers _ := Fault.OfAnswer.ofReading
  tvlSource := p.feeds.reads_latest _
  assetSource _ source _ := p.feeds.reads_latest source
  record _ s _ := p.tokens.reads_record s.underlyer

namespace Readable

variable {S : Fault → Prop} {p : Protocol} {a source : Address} {s : Pool} (h : Readable S p)
include h

theorem computes {α : Type} {x : Except Fault α} (hx : FailsIn Fault.OfArithmetic x) : FailsIn S x :=
  hx.mono fun fault hfault => h.answers fault hfault.ofAnswer

theorem pool (a : Address) : FailsIn S (p.pool a) := by
  unfold Protocol.pool
  cases p.pools.get? a with
  | some s => exact failsIn_ok s
  | none => exact failsIn_error (h.answers _ trivial)

theorem poolAddresses (ids : List String) : FailsIn S (p.poolAddresses ids) := by
  refine failsIn_mapM fun id _ => failsIn_bind ?_ fun a _ => ?_
  · unfold address Registry.address
    cases p.registry.entries.get? id with
    | some a => exact failsIn_ok a
    | none => exact failsIn_error (h.answers _ trivial)
  · exact failsIn_bind (h.pool a) fun _ _ => failsIn_ok a

/-! ### Underlyers -/

theorem traits (hs : p.pool a = .ok s) : FailsIn S (p.tokens.traits s.underlyer) :=
  failsIn_bind (h.record a s hs) fun _ _ => failsIn_ok _

theorem decimals (hs : p.pool a = .ok s) : FailsIn S (p.tokens.decimals s.underlyer) :=
  failsIn_bind (h.traits hs) fun _ _ => failsIn_ok _

theorem balanceOf (hs : p.pool a = .ok s) (holder : Address) :
    FailsIn S (p.tokens.balanceOf s.underlyer holder) :=
  failsIn_bind (h.record a s hs) fun _ _ => failsIn_ok _

/-! ### The oracle -/

theorem requireUnlocked : FailsIn S (p.oracle.requireUnlocked p.clock) :=
  failsIn_ite (failsIn_error (h.answers _ trivial)) (failsIn_ok ())

theorem answerOf (hsource : FailsIn S (p.feeds.latest source)) :
    FailsIn S (p.oracle.answerOf p.clock p.feeds source) := by
  refine failsIn_bind hsource fun _ _ => ?_
  refine failsIn_bind (h.computes (Checked.computes_ofSigned _)) fun _ _ => ?_
  exact failsIn_ite (failsIn_error (h.answers _ trivial)) (failsIn_ok _)

theorem tvl : FailsIn S p.tvl := by
  refine failsIn_bind h.requireUnlocked fun _ _ => ?_
  cases p.oracle.activeTvlOverride p.clock with
  | some manual => exact h.computes (Checked.computes_ofSigned _)
  | none =>
    refine failsIn_bind (h.answerOf h.tvlSource) fun _ _ => ?_
    exact failsIn_ite (failsIn_error (h.answers _ trivial)) (failsIn_ok _)

theorem assetPrice (asset : Address) : FailsIn S (p.assetPrice asset) := by
  have hzero (price : Nat) :
      FailsIn S (if price = 0 then .error .missingAssetValue else .ok price) :=
    failsIn_ite (failsIn_error (h.answers _ trivial)) (failsIn_ok price)
  refine failsIn_bind h.requireUnlocked fun _ _ => ?_
  cases p.oracle.activeAssetOverride p.clock asset with
  | some manual =>
    exact failsIn_bind (h.computes (Checked.computes_ofSigned _)) fun price _ => hzero price
  | none =>
    cases hsource : p.oracle.assetSource asset with
    | some source =>
      exact failsIn_bind (h.answerOf (h.assetSource asset source hsource)) fun price _ => hzero price
    | none => exact failsIn_error (h.answers _ trivial)

/-! ### What a rebalance reads -/

theorem deployedValue (a : Address) : FailsIn S (p.deployedValue a) := by
  refine failsIn_ite (failsIn_ok 0) (failsIn_bind h.tvl fun tvl _ => ?_)
  exact failsIn_ite (failsIn_ok 0) (h.computes (Checked.computes_prorate _ _ _))

theorem snapshot (a : Address) : FailsIn S (p.snapshot a) := by
  refine failsIn_bind (h.pool a) fun s hs => ?_
  refine failsIn_bind (h.assetPrice _) fun _ _ => ?_
  refine failsIn_bind (h.decimals hs) fun _ _ => ?_
  refine failsIn_bind (h.balanceOf hs _) fun _ _ => ?_
  exact failsIn_bind (h.deployedValue a) fun _ _ => failsIn_ok _

theorem topUp (a : Address) : FailsIn S (p.topUp a) :=
  failsIn_bind (h.pool a) fun _ _ => failsIn_bind (h.snapshot a) fun s _ =>
    h.computes (s.computes_topUp _)

theorem rebalanceAmounts (ids : List String) : FailsIn S (p.rebalanceAmounts ids) :=
  failsIn_bind (h.poolAddresses ids) fun _ _ =>
    failsIn_bind (failsIn_mapM fun a _ => h.topUp a) fun _ _ => failsIn_ok _

theorem lpHoldings (pools : List Address) : FailsIn S (p.lpHoldings pools) :=
  failsIn_mapM fun a _ => failsIn_bind (h.pool a) fun _ hs => h.balanceOf hs _

theorem cappedShortfalls (topUps : List Int) (available : List Nat) :
    FailsIn S (cappedShortfalls topUps available) :=
  failsIn_ite (failsIn_error (h.answers _ trivial)) (failsIn_ok _)

theorem requirePools (pools : List Address) (amounts : List Nat) :
    FailsIn S (requirePools pools amounts p) :=
  failsIn_ite (failsIn_error (h.answers _ trivial))
    (failsIn_forM fun a _ => failsIn_bind (h.pool a) fun _ _ => failsIn_ok ())

theorem metaDeltas (pools : List Address) (amounts : List Nat) :
    FailsIn S (p.metaDeltas pools amounts) := by
  have hmoves (tvl : Nat) : FailsIn S ((pools.zip amounts).mapM (p.metaDeltaAt tvl)) := by
    refine failsIn_mapM fun move _ => failsIn_bind (h.pool _) fun _ hs => ?_
    refine failsIn_bind (h.assetPrice _) fun _ _ => failsIn_bind (h.decimals hs) fun _ _ => ?_
    exact h.computes (computes_metaDelta _ _ _ _ _)
  refine failsIn_ite (failsIn_error (h.answers _ trivial)) (failsIn_ite (hmoves 0) ?_)
  exact failsIn_bind h.tvl fun tvl _ => hmoves tvl

end Readable

end Protocol

end MetaPool
