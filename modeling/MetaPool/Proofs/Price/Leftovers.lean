import MetaPool.Proofs.Collection.Lookup
import MetaPool.Proofs.Failure
import MetaPool.Proofs.Price.Setters

/-!
# What a failed setter of the oracle leaves behind

A setter runs on the oracle in place, so a check that comes after a write comes too late. All setters
but one look before they write (`LooksFirst`). The exception is `setAssetSources`: the length of its
list and all its feeds are looked at first, the names of its assets only one by one on the way. An
asset without a name stops it, and the assets before that one stay pointed.

    s.perform caller clock feeds o = .error fault o' →
      o' = o.pointing (s.applied fault)                             (oracle_of_error)

Nothing of that is seen in the protocol, where every setter runs in a transaction.
-/

namespace MetaPool.Oracle

variable {α β : Type} {o o' : Oracle} {fault : Fault} {caller : Address}
  {permission : Permission} {feeds : FeedBook}

theorem authorize_eq_error : authorize caller permission o = .error fault o' ↔
    o.roles.holds permission.role caller = false ∧ fault = permission.role.lacking ∧ o' = o := by
  unfold authorize RoleTable.authorize RoleTable.require
  cases o.roles.holds permission.role caller <;> simp [eq_comm]

/-! ## Setters that look before they write -/

/-- A setter that fails leaves the oracle as it was. -/
def LooksFirst (x : Setter α) : Prop :=
  ∀ (o o' : Oracle) (fault : Fault), x o = .error fault o' → o' = o

theorem looksFirst_modify (g : Oracle → Oracle) : LooksFirst (modify g) := nofun

theorem looksFirst_modify_then (g : Oracle → Oracle) (a : α) :
    LooksFirst (do modify g; return a) := nofun

theorem looksFirst_discard {x : Setter α} (h : LooksFirst x) : LooksFirst (do let _ ← x) := by
  intro o o' fault hf
  rcases bind_eq_error.1 hf with hx | ⟨_, _, _, hf⟩
  · exact h o o' fault hx
  · cases hf

theorem looksFirst_get_bind {f : Oracle → Setter α} (h : ∀ o, LooksFirst (f o)) :
    LooksFirst (get >>= f) := fun o => h o o

theorem looksFirst_authorize_then {f : Unit → Setter α} (h : LooksFirst (f ())) :
    LooksFirst (authorize caller permission >>= f) := by
  intro o o' fault hf
  rcases bind_eq_error.1 hf with hcaller | ⟨⟨⟩, r, hcaller, hrest⟩
  · exact (authorize_eq_error.1 hcaller).2.2
  · obtain ⟨-, rfl⟩ := authorize_eq_ok.1 hcaller
    exact h r o' fault hrest

/-- A guard that throws writes nothing, whichever way round it is written. -/
theorem looksFirst_guard {c : Prop} [Decidable c] {fault : Fault} {f : β → Setter α}
    {y : Setter α} (hy : LooksFirst y) :
    LooksFirst (if c then throw fault >>= f else y) ∧
      LooksFirst (if c then y else throw fault >>= f) := by
  have hthrow : LooksFirst (throw fault >>= f) :=
    fun _ _ _ h => (EStateM.Result.error.inj h).2.symm
  constructor <;> split <;> assumption

theorem pointAsset_eq_error {asset source : Address} (hsource : feeds.contains source = true) :
    pointAsset feeds asset source o = .error fault o' ↔
      asset.isEmpty = true ∧ fault = .invalidAddress ∧ o' = o := by
  unfold pointAsset
  rw [refuse_then_eq_error, if_pos hsource]
  exact ⟨fun h => h.resolve_right fun hwrite => (nomatch hwrite.2), .inl⟩

theorem looksFirst_pointAsset (feeds : FeedBook) (asset source : Address) :
    LooksFirst (pointAsset feeds asset source) :=
  (looksFirst_guard (looksFirst_guard (looksFirst_modify _)).2).1

/-! ## Requests -/

/-- A request to change the oracle. -/
inductive Setting where
  | lock
  | lockFor (blocks : UInt64)
  | unlock
  | setTvl (value : Int) (duration : UInt64)
  | unsetTvl
  | setAssetValue (asset : Address) (value : Int) (duration : UInt64)
  | unsetAssetValue (asset : Address)
  | setTvlSource (source : Address)
  | setAssetSource (asset source : Address)
  | setAssetSources (assets sources : List Address)
  | setStalePeriod (period : Int64)
  | setLockPeriod (blocks : UInt64)

namespace Setting

/-- Carries a request out. -/
def perform (s : Setting) (caller : Address) (clock : Clock) (feeds : FeedBook) : Setter Unit :=
  match s with
  | lock => Oracle.lock caller clock
  | lockFor blocks => Oracle.lockFor caller clock blocks
  | unlock => Oracle.unlock caller clock
  | setTvl value duration => do let _ ← Oracle.setTvl caller clock value duration
  | unsetTvl => Oracle.unsetTvl caller clock
  | setAssetValue asset value duration => do
    let _ ← Oracle.setAssetValue caller clock asset value duration
  | unsetAssetValue asset => Oracle.unsetAssetValue caller clock asset
  | setTvlSource source => Oracle.setTvlSource caller feeds source
  | setAssetSource asset source => Oracle.setAssetSource caller feeds asset source
  | setAssetSources assets sources => Oracle.setAssetSources caller feeds assets sources
  | setStalePeriod period => Oracle.setStalePeriod caller period
  | setLockPeriod blocks => Oracle.setLockPeriod caller blocks

/-- The assets of a list of a request. -/
def listed : Setting → List Address
  | setAssetSources assets _ => assets
  | _ => []

/-- The pairs that a request has applied by the time it fails. -/
def applied : Setting → Fault → List (Address × Address)
  | setAssetSources assets sources, .invalidAddress =>
    (assets.zip sources).takeWhile fun e => !e.1.isEmpty
  | _, _ => []

/-- A request that is no list looks before it writes. -/
theorem looksFirst_perform (s : Setting) (caller : Address) (clock : Clock) (feeds : FeedBook)
    (hs : ∀ assets sources, s ≠ setAssetSources assets sources) :
    LooksFirst (s.perform caller clock feeds) := by
  cases s with
  | lock =>
    refine looksFirst_get_bind fun _ => looksFirst_authorize_then (looksFirst_get_bind fun _ => ?_)
    exact (looksFirst_guard (looksFirst_modify _)).1
  | lockFor =>
    refine looksFirst_authorize_then (looksFirst_get_bind fun _ => ?_)
    exact (looksFirst_guard (looksFirst_modify _)).1
  | unlock | setLockPeriod => exact looksFirst_authorize_then (looksFirst_modify _)
  | setTvl =>
    exact looksFirst_discard (looksFirst_authorize_then (looksFirst_modify_then _ _))
  | unsetTvl | unsetAssetValue =>
    refine looksFirst_authorize_then (looksFirst_get_bind fun _ => ?_)
    exact (looksFirst_guard (looksFirst_modify _)).2
  | setAssetValue =>
    refine looksFirst_discard (looksFirst_authorize_then (looksFirst_guard ?_).1)
    exact looksFirst_modify_then _ _
  | setTvlSource => exact looksFirst_authorize_then (looksFirst_guard (looksFirst_modify _)).2
  | setAssetSource => exact looksFirst_authorize_then (looksFirst_pointAsset _ _ _)
  | setAssetSources assets sources => exact absurd rfl (hs assets sources)
  | setStalePeriod => exact looksFirst_authorize_then (looksFirst_guard (looksFirst_modify _)).1

end Setting

/-! ## Lists -/

/-- The oracle with each asset of a list pointed at the feed beside it. -/
def pointing (o : Oracle) (l : List (Address × Address)) : Oracle :=
  { o with assetSources := pointed o.assetSources l }

/-- Of several pairs with one asset the last one counts. -/
theorem assetSource_pointing (o : Oracle) (l : List (Address × Address)) (asset : Address) :
    (o.pointing l).assetSource asset = (l.reverse.lookup asset).or (o.assetSource asset) := by
  induction l generalizing o with
  | nil => rfl
  | cons e l ih =>
    -- the first pair is written first, so any later one of its asset goes over it
    have hfirst : (o.pointing [e]).assetSource asset =
        ([e].lookup asset).or (o.assetSource asset) := by
      refine (OrderedMap.get?_insert _ _ _ _).trans ?_
      by_cases hasset : asset = e.1
      · simp [List.lookup, hasset]
      · simp [List.lookup, hasset, beq_false_of_ne, assetSource]
    rw [List.reverse_cons, List.lookup_append, Option.or_assoc, ← hfirst]
    exact ih (o.pointing [e])

/-- Pairs change nothing exactly if they are in force already. -/
theorem pointing_eq_self_iff {l : List (Address × Address)} : o.pointing l = o ↔
    ∀ asset source, l.reverse.lookup asset = some source → o.assetSource asset = some source := by
  constructor
  · intro h asset source hlast
    rw [← h, assetSource_pointing, hlast]
    rfl
  · intro h
    have hsources : pointed o.assetSources l = o.assetSources := by
      refine OrderedMap.ext_get? fun asset => ?_
      refine (assetSource_pointing o l asset).trans ?_
      cases hlast : l.reverse.lookup asset with
      | none => rfl
      | some source => exact (h asset source hlast).symm
    unfold pointing
    rw [hsources]

/-- A walk along pairs whose feeds are all there fails at the first asset without a name. The assets
before that one are pointed by then. -/
theorem pointAssets_of_error {l : List (Address × Address)}
    (hfeeds : ∀ e ∈ l, feeds.contains e.2 = true)
    (h : (l.forM fun e => pointAsset feeds e.1 e.2 : Setter Unit) o = .error fault o') :
    fault = .invalidAddress ∧ (∃ e ∈ l, e.1.isEmpty = true) ∧
      o' = o.pointing (l.takeWhile fun e => !e.1.isEmpty) := by
  induction l generalizing o with
  | nil => cases h
  | cons e l ih =>
    rw [List.forall_mem_cons] at hfeeds
    rcases bind_eq_error.1 h with h | ⟨⟨⟩, r, hfirst, h⟩
    · obtain ⟨hname, rfl, rfl⟩ := (pointAsset_eq_error hfeeds.1).1 h
      refine ⟨rfl, ⟨e, List.mem_cons_self, hname⟩, ?_⟩
      rw [List.takeWhile_cons_of_neg (by simp [hname])]
      rfl
    · obtain ⟨hname, -, rfl⟩ := pointAsset_eq_ok.1 hfirst
      obtain ⟨hfault, ⟨d, hd, hempty⟩, hleft⟩ := ih hfeeds.2 h
      refine ⟨hfault, ⟨d, List.mem_cons_of_mem e hd, hempty⟩, hleft.trans ?_⟩
      rw [List.takeWhile_cons_of_pos (by simp [hname])]
      rfl

/-- A list that is refused for its caller, its length or its feeds is not begun. -/
theorem setAssetSources_of_error {assets sources : List Address}
    (h : setAssetSources caller feeds assets sources o = .error fault o') :
    o' = o.pointing ((Setting.setAssetSources assets sources).applied fault) ∧
      ((∀ asset ∈ assets, asset.isEmpty = false) → o' = o) := by
  simp only [setAssetSources, bind_eq_error, authorize_eq_error, authorize_eq_ok,
    refuse_then_eq_error] at h
  -- the caller, the lengths and the feeds are looked at before the walk begins
  rcases h with ⟨-, rfl, rfl⟩ | ⟨-, _, ⟨-, rfl⟩, ⟨-, rfl, rfl⟩ | ⟨-, ⟨-, rfl, rfl⟩ | ⟨hknown, h⟩⟩⟩
  · exact ⟨rfl, fun _ => rfl⟩
  · exact ⟨rfl, fun _ => rfl⟩
  · exact ⟨rfl, fun _ => rfl⟩
  · have hfeeds : ∀ e ∈ assets.zip sources, feeds.contains e.2 = true := by
      intro e he
      have hsource := List.of_mem_zip he
      simp_all
    obtain ⟨rfl, ⟨e, he, hempty⟩, hleft⟩ := pointAssets_of_error hfeeds h
    refine ⟨hleft, fun hnames => ?_⟩
    have hname := hnames e.1 (List.of_mem_zip he).1
    simp [hname] at hempty

/-- What a request leaves behind that fails: the oracle as it was, but for the pairs of a list that
stand before its first asset without a name. That is the oracle as it was exactly if these pairs were in
force already, so for every list without such an asset and for every other request. -/
theorem oracle_of_error (o o' : Oracle) (clock : Clock) (feeds : FeedBook) (caller : Address)
    (s : Setting) (fault : Fault) (h : s.perform caller clock feeds o = .error fault o') :
    o' = o.pointing (s.applied fault) ∧
      (o' = o ↔ ∀ asset source, (s.applied fault).reverse.lookup asset = some source →
        o.assetSource asset = some source) ∧
      ((∀ asset ∈ s.listed, asset.isEmpty = false) → o' = o) := by
  have hleft : o' = o.pointing (s.applied fault) ∧
      ((∀ asset ∈ s.listed, asset.isEmpty = false) → o' = o) := by
    cases s with
    | setAssetSources assets sources => exact setAssetSources_of_error h
    | _ =>
      have hsame : o' = o := Setting.looksFirst_perform _ caller clock feeds (by simp) o o' fault h
      exact ⟨hsame, fun _ => hsame⟩
  refine ⟨hleft.1, ?_, hleft.2⟩
  rw [hleft.1]
  exact pointing_eq_self_iff

/-! ## A list with an asset without a name -/

/-- Two feeds. -/
def twoFeeds : FeedBook := ⟨.ofList [(⟨"aAgg"⟩, ⟨100000000, 0⟩), (⟨"bAgg"⟩, ⟨200000000, 0⟩)]⟩

/-- An oracle that has no asset pointed and one account for emergencies. -/
def unpointed : Oracle where
  roles := .ofGrants [(.emergency, ⟨"emergencySafe"⟩)]
  tvlSource := ⟨"aAgg"⟩
  assetSources := .empty
  stalePeriod := defaultStalePeriod
  lockPeriod := defaultLockPeriod
  lockEnd := 0
  tvlOverride := none
  assetOverrides := .empty

/-- Points one asset and then one without a name. -/
def secondNameless : Setting := .setAssetSources [⟨"DAI"⟩, ⟨""⟩] [⟨"aAgg"⟩, ⟨"bAgg"⟩]

/-- The check of the name comes after the first write. -/
theorem failed_list_leaves_pair : ∃ o',
    secondNameless.perform ⟨"emergencySafe"⟩ default twoFeeds unpointed =
      .error .invalidAddress o' ∧ o' ≠ unpointed ∧
      unpointed.assetSource ⟨"DAI"⟩ = none ∧ o'.assetSource ⟨"DAI"⟩ = some ⟨"aAgg"⟩ :=
  ⟨_, rfl, by decide +kernel, rfl, rfl⟩

theorem oracle_of_error_secondNameless : ∃ o',
    secondNameless.perform ⟨"emergencySafe"⟩ default twoFeeds unpointed =
      .error .invalidAddress o' ∧ o' = unpointed.pointing [(⟨"DAI"⟩, ⟨"aAgg"⟩)] ∧ o' ≠ unpointed := by
  obtain ⟨hleft, hsame, -⟩ := oracle_of_error unpointed _ default twoFeeds ⟨"emergencySafe"⟩
    secondNameless .invalidAddress rfl
  refine ⟨_, rfl, hleft, fun h => ?_⟩
  have hpointed : unpointed.assetSource ⟨"DAI"⟩ = some ⟨"aAgg"⟩ := hsame.1 h _ _ rfl
  cases hpointed

end MetaPool.Oracle
