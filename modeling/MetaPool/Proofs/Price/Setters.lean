import MetaPool.Price.Oracle
import MetaPool.Proofs.Action

/-!
# What a successful setter of the oracle says

A setter succeeds if its caller has the permission and its arguments pass its guards. It then writes
one field of the oracle; all others stay. One lemma per setter gives both.
-/

namespace MetaPool.Oracle

variable {o o' : Oracle} {u : Unit} {caller asset source : Address} {clock : Clock}
  {feeds : FeedBook}

theorem authorize_eq_ok {permission : Permission} : authorize caller permission o = .ok u o' ↔
    o.roles.authorize caller permission = .ok () ∧ o' = o := by
  unfold authorize
  cases o.roles.authorize caller permission <;> simp [eq_comm]

/-! ## The lock -/

/-- A lock ends no earlier than the one before it. -/
theorem lockFor_eq_ok {blocks : UInt64} : lockFor caller clock blocks o = .ok u o' ↔
    o.roles.authorize caller .lockOracle = .ok () ∧
      ¬ addHeights clock.height blocks < o.lockEnd ∧
      o' = { o with lockEnd := addHeights clock.height blocks } := by
  simp only [lockFor, bind_eq_ok, authorize_eq_ok, get_eq_ok, refuse_then_eq_ok, modify_eq_ok]
  grind

theorem lock_eq_ok : lock caller clock o = .ok u o' ↔
    o.roles.authorize caller .lockOracle = .ok () ∧
      ¬ addHeights clock.height o.lockPeriod < o.lockEnd ∧
      o' = { o with lockEnd := addHeights clock.height o.lockPeriod } := by
  simp only [lock, bind_eq_ok, get_eq_ok, lockFor_eq_ok]
  grind

theorem unlock_eq_ok : unlock caller clock o = .ok u o' ↔
    o.roles.authorize caller .unlockOracle = .ok () ∧
      o' = { o with lockEnd := clock.height } := by
  simp only [unlock, bind_eq_ok, authorize_eq_ok, modify_eq_ok]
  grind

/-! ## Overrides -/

theorem setTvl_eq_ok {value : Int} {duration : UInt64} {manual : Override} :
    setTvl caller clock value duration o = .ok manual o' ↔
      o.roles.authorize caller .setTvlOverride = .ok () ∧
        manual = ⟨value, clock.height, duration⟩ ∧ o' = { o with tvlOverride := some manual } := by
  simp only [setTvl, bind_eq_ok, authorize_eq_ok, modify_eq_ok, pure_eq_ok]
  grind

theorem unsetTvl_eq_ok : unsetTvl caller clock o = .ok u o' ↔
    o.roles.authorize caller .unsetTvlOverride = .ok () ∧ o.hasTvlOverride clock = true ∧
      o' = { o with tvlOverride := none } := by
  simp only [unsetTvl, bind_eq_ok, authorize_eq_ok, get_eq_ok, require_then_eq_ok, modify_eq_ok]
  grind

theorem setAssetValue_eq_ok {value : Int} {duration : UInt64} {manual : Override} :
    setAssetValue caller clock asset value duration o = .ok manual o' ↔
      o.roles.authorize caller .setAssetOverride = .ok () ∧ ¬ asset.isEmpty = true ∧
        manual = ⟨value, clock.height, duration⟩ ∧
        o' = { o with assetOverrides := o.assetOverrides.insert asset manual } := by
  simp only [setAssetValue, bind_eq_ok, authorize_eq_ok, refuse_then_eq_ok, modify_eq_ok,
    pure_eq_ok]
  grind

theorem unsetAssetValue_eq_ok : unsetAssetValue caller clock asset o = .ok u o' ↔
    o.roles.authorize caller .unsetAssetOverride = .ok () ∧
      o.hasAssetOverride clock asset = true ∧
      o' = { o with assetOverrides := o.assetOverrides.erase asset } := by
  simp only [unsetAssetValue, bind_eq_ok, authorize_eq_ok, get_eq_ok, require_then_eq_ok,
    modify_eq_ok]
  grind

/-! ## Sources and periods -/

theorem setTvlSource_eq_ok : setTvlSource caller feeds source o = .ok u o' ↔
    o.roles.authorize caller .setTvlSource = .ok () ∧ feeds.contains source = true ∧
      o' = { o with tvlSource := source } := by
  simp only [setTvlSource, bind_eq_ok, authorize_eq_ok, require_then_eq_ok, modify_eq_ok]
  grind

theorem pointAsset_eq_ok : pointAsset feeds asset source o = .ok u o' ↔
    ¬ asset.isEmpty = true ∧ feeds.contains source = true ∧
      o' = { o with assetSources := o.assetSources.insert asset source } := by
  simp only [pointAsset, refuse_then_eq_ok, require_then_eq_ok, modify_eq_ok]

theorem setAssetSource_eq_ok : setAssetSource caller feeds asset source o = .ok u o' ↔
    o.roles.authorize caller .setAssetSource = .ok () ∧ ¬ asset.isEmpty = true ∧
      feeds.contains source = true ∧
      o' = { o with assetSources := o.assetSources.insert asset source } := by
  simp only [setAssetSource, bind_eq_ok, authorize_eq_ok, pointAsset_eq_ok]
  grind

/-- The sources with each asset of a list pointed at the feed beside it, in order. -/
def pointed (sources : OrderedMap Address Address) (l : List (Address × Address)) :
    OrderedMap Address Address := l.foldl (fun m e => m.insert e.1 e.2) sources

theorem pointAssets_eq_ok {l : List (Address × Address)} :
    (l.forM fun e => pointAsset feeds e.1 e.2 : Setter Unit) o = .ok u o' ↔
      (∀ e ∈ l, ¬ e.1.isEmpty = true ∧ feeds.contains e.2 = true) ∧
        o' = { o with assetSources := pointed o.assetSources l } := by
  induction l generalizing o with
  | nil => exact pure_eq_ok.trans (by simp [pointed])
  | cons e l ih =>
    refine bind_eq_ok.trans ?_
    simp only [pointAsset_eq_ok, ih, List.forall_mem_cons, pointed, List.foldl_cons]
    grind

theorem setAssetSources_eq_ok {assets sources : List Address} :
    setAssetSources caller feeds assets sources o = .ok u o' ↔
      o.roles.authorize caller .setAssetSources = .ok () ∧ assets.length = sources.length ∧
        (∀ source ∈ sources, feeds.contains source = true) ∧
        (∀ e ∈ assets.zip sources, ¬ e.1.isEmpty = true ∧ feeds.contains e.2 = true) ∧
        o' = { o with assetSources := pointed o.assetSources (assets.zip sources) } := by
  simp only [setAssetSources, bind_eq_ok, authorize_eq_ok, refuse_then_eq_ok, pointAssets_eq_ok,
    List.any_eq_true, Bool.not_eq_eq_eq_not, Bool.not_true, not_exists, not_and,
    Bool.not_eq_false, ne_eq, Decidable.not_not]
  grind

theorem setStalePeriod_eq_ok {period : Int64} : setStalePeriod caller period o = .ok u o' ↔
    o.roles.authorize caller .setStalePeriod = .ok () ∧ ¬ period ≤ 0 ∧
      o' = { o with stalePeriod := period } := by
  simp only [setStalePeriod, bind_eq_ok, authorize_eq_ok, refuse_then_eq_ok, modify_eq_ok]
  grind

theorem setLockPeriod_eq_ok {blocks : UInt64} : setLockPeriod caller blocks o = .ok u o' ↔
    o.roles.authorize caller .setDefaultLockPeriod = .ok () ∧
      o' = { o with lockPeriod := blocks } := by
  simp only [setLockPeriod, bind_eq_ok, authorize_eq_ok, modify_eq_ok]
  grind

end MetaPool.Oracle
