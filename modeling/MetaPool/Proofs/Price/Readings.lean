import MetaPool.Proofs.Deployment.Completeness
import MetaPool.Proofs.Price.Lock

/-!
# What the oracle answers with

A successful reading has passed every check of the oracle: it is not locked, and the answer is the value
of an override in its window or the latest answer of the present source, neither negative nor older than
the stale period. A price is never zero, and a TVL that a feed gives is not zero while there are meta
shares.

    o.answerOf clock feeds source = .ok v ↔ o.Answers clock feeds source v           (answerOf_eq_ok)
    Reachable p → p.assetPrice asset = .ok price → PriceStands p asset price         (price_stands)
-/

namespace MetaPool

/-! ## Ages and windows -/

/-- An age is that of integers, up to the largest time. -/
theorem Round.toInt_age (r : Round) (c : Clock) :
    (r.age c).toInt = max 0 (min maxSignedWord (c.time.toInt - r.updatedAt.toInt)) := by
  have hrange : minSignedWord ≤ 0 := by decide
  have hrange' : 0 ≤ maxSignedWord := by decide
  have hsince := toInt_clampTime (c.time.toInt - r.updatedAt.toInt)
  unfold Round.age Clock.since
  dsimp only
  split
  next hneg =>
    rw [Int64.lt_iff_toInt_lt, Int64.toInt_zero, hsince] at hneg
    rw [Int64.toInt_zero]
    omega
  next hpos =>
    rw [Int64.lt_iff_toInt_lt, Int64.toInt_zero, hsince] at hpos
    rw [hsince]
    omega

theorem Round.age_nonneg (r : Round) (c : Clock) : 0 ≤ r.age c := by
  rw [Int64.le_iff_toInt_le, r.toInt_age, Int64.toInt_zero]
  exact Int.le_max_left _ _

/-- The window of an override, in heights that do not stop: from where it was set, for its duration. -/
def Override.Covers (m : Override) (height : UInt64) : Prop :=
  m.setAt.toNat ≤ height.toNat ∧ height.toNat < m.setAt.toNat + m.duration.toNat

/-- An override ends at a height, which is the largest one at the latest. -/
theorem Override.isActive_iff (m : Override) (height : UInt64) : m.isActive height = true ↔
    height.toNat < min (m.setAt.toNat + m.duration.toNat) maxWord := by
  rw [isActive, expiry, decide_eq_true_eq, UInt64.lt_iff_toNat_lt, toNat_addHeights]

theorem Override.covers_of_isActive {m : Override} {height : UInt64} (hset : m.setAt ≤ height)
    (h : m.isActive height = true) : m.Covers height := by
  have hbelow := (m.isActive_iff height).1 h
  exact ⟨UInt64.le_iff_toNat_le.1 hset, Nat.lt_of_lt_of_le hbelow (Nat.min_le_left _ _)⟩

theorem Checked.ofSigned_eq_ok {i : Int} {v : Nat} : ofSigned i = .ok v ↔ i = v := by
  unfold ofSigned
  rw [require_eq_ok, Except.ok.injEq]
  omega

/-! ## Readings of the oracle -/

namespace Oracle

variable {o o' : Oracle} {op : Operation} {clock : Clock} {feeds : FeedBook} {asset source : Address}
  {height height' : UInt64} {v supply : Nat}

/-- The latest answer of a source, if its age is at most the stale period. -/
def Answers (o : Oracle) (clock : Clock) (feeds : FeedBook) (source : Address) (v : Nat) : Prop :=
  ∃ round, feeds.latest source = .ok round ∧ round.answer = v ∧
    0 ≤ round.age clock ∧ round.age clock ≤ o.stalePeriod

theorem answerOf_eq_ok : o.answerOf clock feeds source = .ok v ↔ o.Answers clock feeds source v := by
  simp only [answerOf, Answers, except_bind_eq_ok, refuse_eq_ok, except_pure_eq_ok,
    Checked.ofSigned_eq_ok, Int64.not_lt, Round.age_nonneg, true_and]
  grind

theorem requireUnlocked_eq_ok : o.requireUnlocked clock = .ok () ↔ o.isLocked clock = false := by
  unfold requireUnlocked
  rw [refuse_eq_ok]
  simp

theorem tvl_eq_ok : o.tvl clock feeds supply = .ok v ↔ o.isLocked clock = false ∧
    ((∃ m, o.activeTvlOverride clock = some m ∧ m.value = v) ∨
      o.activeTvlOverride clock = none ∧ o.Answers clock feeds o.tvlSource v ∧
        ¬ (v = 0 ∧ 0 < supply)) := by
  unfold tvl
  rw [except_check_eq_ok, requireUnlocked_eq_ok]
  refine and_congr_right fun _ => ?_
  cases o.activeTvlOverride clock with
  | some m => simp [Checked.ofSigned_eq_ok]
  | none =>
    simp only [except_bind_eq_ok, refuse_eq_ok, except_pure_eq_ok, answerOf_eq_ok, reduceCtorEq,
      false_and, exists_false, true_and, false_or]
    grind

theorem assetPrice_eq_ok : o.assetPrice clock feeds asset = .ok v ↔ o.isLocked clock = false ∧ v ≠ 0 ∧
    ((∃ m, o.activeAssetOverride clock asset = some m ∧ m.value = v) ∨
      o.activeAssetOverride clock asset = none ∧
        ∃ source, o.assetSource asset = some source ∧ o.Answers clock feeds source v) := by
  unfold assetPrice
  rw [except_check_eq_ok, requireUnlocked_eq_ok]
  refine and_congr_right fun _ => ?_
  cases o.activeAssetOverride clock asset with
  | some m =>
    simp only [except_bind_eq_ok, refuse_eq_ok, except_pure_eq_ok, Checked.ofSigned_eq_ok]
    grind
  | none =>
    cases o.assetSource asset with
    | some source =>
      simp only [except_bind_eq_ok, refuse_eq_ok, except_pure_eq_ok, answerOf_eq_ok]
      grind
    | none => simp [bind, Except.bind]

/-! ## Overrides begin when they are set -/

/-- No override was set above the height. -/
structure Begun (o : Oracle) (height : UInt64) : Prop where
  tvl : ∀ m, o.tvlOverride = some m → m.setAt ≤ height
  assets : ∀ asset m, o.assetOverrides.get? asset = some m → m.setAt ≤ height

theorem Begun.mono (h : o.Begun height) (hle : height ≤ height') : o.Begun height' :=
  ⟨fun m hm => UInt64.le_trans (h.tvl m hm) hle,
    fun asset m hm => UInt64.le_trans (h.assets asset m hm) hle⟩

theorem Begun.change (h : o.Begun clock.height) (hchange : o.Change op clock feeds o') :
    o'.Begun clock.height := by
  cases hchange with
  | setTvl manual hset =>
    refine ⟨fun m hm => ?_, h.assets⟩
    obtain rfl := Option.some.inj hm
    exact UInt64.le_of_eq hset
  | unsetTvl => exact ⟨nofun, h.assets⟩
  | setAssetValue asset manual hset =>
    refine ⟨h.tvl, fun asset' m hm => ?_⟩
    rw [OrderedMap.get?_insert] at hm
    split at hm
    · obtain rfl := Option.some.inj hm
      exact UInt64.le_of_eq hset
    · exact h.assets asset' m hm
  | unsetAssetValue asset =>
    refine ⟨h.tvl, fun asset' m hm => ?_⟩
    rw [OrderedMap.get?_erase] at hm
    split at hm
    · cases hm
    · exact h.assets asset' m hm
  | _ => exact ⟨h.tvl, h.assets⟩

end Oracle

namespace Protocol

variable {p : Protocol} {asset : Address} {price tvl : Nat}

theorem Reachable.begun (h : Reachable p) : p.oracle.Begun p.clock.height := by
  refine h.invariant (I := fun p => p.oracle.Begun p.clock.height) ?_ ?_
  · intro plan clock p h
    simp only [Protocol.deploy, except_bind_eq_ok, except_pure_eq_ok] at h
    obtain ⟨⟨⟩, -, _, -, _, -, _, -, o, horacle, _, -, rfl⟩ := h
    obtain ⟨-, -, -, rfl⟩ := Plan.oracle_eq_ok.1 horacle
    refine ⟨fun m hm => ?_, fun asset m hm => ?_⟩ <;> cases hm
  · intro op out p q hp h
    have hheight : p.clock.height ≤ q.clock.height := after_of_ok h ▸ height_le_after p op
    rcases Operation.oracle_change h with horacle | hchange
    · rw [horacle]
      exact hp.mono hheight
    · exact (hp.change hchange).mono hheight

/-! ## What stands behind a reading -/

/-- Behind a price stands an override in its window or the latest answer of the asset's source. -/
def PriceStands (p : Protocol) (asset : Address) (price : Nat) : Prop :=
  (∃ m, p.oracle.assetOverrides.get? asset = some m ∧ m.value = price ∧ m.Covers p.clock.height) ∨
    ∃ source, p.oracle.assetSource asset = some source ∧
      p.oracle.Answers p.clock p.feeds source price

/-- Behind a TVL stands an override in its window or the latest answer of its source, other than zero. -/
def TvlStands (p : Protocol) (tvl : Nat) : Prop :=
  (∃ m, p.oracle.tvlOverride = some m ∧ m.value = tvl ∧ m.Covers p.clock.height) ∨
    0 < tvl ∧ p.oracle.Answers p.clock p.feeds p.oracle.tvlSource tvl

theorem price_stands (h : Reachable p) (hprice : p.assetPrice asset = .ok price) :
    p.isOracleLocked = false ∧ 0 < price ∧ PriceStands p asset price := by
  obtain ⟨hlock, hzero, hanswer⟩ := Oracle.assetPrice_eq_ok.1 hprice
  refine ⟨hlock, Nat.pos_of_ne_zero hzero, ?_⟩
  rcases hanswer with ⟨m, hm, hvalue⟩ | ⟨-, hanswer⟩
  · obtain ⟨hset, hactive⟩ := Option.filter_eq_some_iff.1 hm
    exact .inl ⟨m, hset, hvalue, Override.covers_of_isActive (h.begun.assets asset m hset) hactive⟩
  · exact .inr hanswer

theorem tvl_stands (h : Reachable p) (hsupply : 0 < p.metaToken.supply) (htvl : p.tvl = .ok tvl) :
    TvlStands p tvl := by
  obtain ⟨-, ⟨m, hm, hvalue⟩ | ⟨-, hanswer, hzero⟩⟩ := Oracle.tvl_eq_ok.1 htvl
  · obtain ⟨hset, hactive⟩ := Option.filter_eq_some_iff.1 hm
    exact .inl ⟨m, hset, hvalue, Override.covers_of_isActive (h.begun.tvl m hset) hactive⟩
  · exact .inr ⟨Nat.pos_of_ne_zero fun hnone => hzero ⟨hnone, hsupply⟩, hanswer⟩

end Protocol

end MetaPool
