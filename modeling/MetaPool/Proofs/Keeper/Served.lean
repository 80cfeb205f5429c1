import MetaPool.Proofs.Keeper.History
import MetaPool.Proofs.Price.Readings
import MetaPool.Proofs.Value.Faults

/-!
# What the oracle serves after a report

A report publishes the price of each token at the source of that token, in the order of the plan, and then
the TVL at its own feed. All of it is given at the present time, so none of it is stale. What the oracle
answers with is what was published last at the source it reads: the price of a token is its own, unless a
later token of another price is pointed at the same source (`report_served`). Sources can be shared and
moved, so that a token may have the price of another one (`served_after_migration`).
-/

namespace MetaPool

/-! ## Answers of the present time -/

namespace Oracle

variable {o : Oracle} {clock : Clock} {feeds : FeedBook} {asset source : Address} {v supply : Nat}

/-- An answer that is given now is not stale. -/
theorem answers_of_now (hstale : 0 < o.stalePeriod)
    (h : feeds.feeds.get? source = some ⟨v, clock.time⟩) : o.Answers clock feeds source v := by
  have hage : Round.age ⟨v, clock.time⟩ clock = 0 := by
    apply Int64.toInt_inj.1
    rw [Round.toInt_age, Int64.toInt_zero]
    have hrange : 0 ≤ maxSignedWord := by decide
    dsimp only
    omega
  refine ⟨⟨v, clock.time⟩, by rw [FeedBook.latest, h], rfl, Round.age_nonneg _ _, ?_⟩
  rw [hage]
  exact Int64.le_of_lt hstale

theorem tvl_of_answers (hunlocked : o.isLocked clock = false) (hnone : o.hasTvlOverride clock = false)
    (h : o.Answers clock feeds o.tvlSource v) :
    o.tvl clock feeds supply = if v = 0 ∧ 0 < supply then .error .zeroTvl else .ok v := by
  have hoverride : o.activeTvlOverride clock = none := by simpa [hasTvlOverride] using hnone
  simp only [tvl, requireUnlocked_eq_ok.2 hunlocked, hoverride, answerOf_eq_ok.2 h]
  rfl

theorem assetPrice_of_answers (hunlocked : o.isLocked clock = false)
    (hnone : o.hasAssetOverride clock asset = false) (hsource : o.assetSource asset = some source)
    (h : o.Answers clock feeds source v) :
    o.assetPrice clock feeds asset = if v = 0 then .error .missingAssetValue else .ok v := by
  have hoverride : o.activeAssetOverride clock asset = none := by simpa [hasAssetOverride] using hnone
  simp only [assetPrice, requireUnlocked_eq_ok.2 hunlocked, hoverride, hsource, answerOf_eq_ok.2 h]
  rfl

/-! ## The last token at a source -/

/-- The last of the tokens that are pointed at a source. -/
def lastAt (o : Oracle) (tokens : List TokenPlan) (source : Address) : Option TokenPlan :=
  (tokens.filter fun t => o.assetSource ⟨t.symbol⟩ = some source).getLast?

variable {t u : TokenPlan} {tokens : List TokenPlan}

theorem lastAt_cons : o.lastAt (t :: tokens) source =
    (o.lastAt tokens source).or (if o.assetSource ⟨t.symbol⟩ = some source then some t else none) := by
  unfold lastAt
  rw [List.filter_cons]
  by_cases ht : o.assetSource ⟨t.symbol⟩ = some source
  · simp only [ht, decide_true, if_true, List.getLast?_cons]
    cases (List.getLast? _) <;> rfl
  · simp [ht]

theorem lastAt_mem (h : o.lastAt tokens source = some u) :
    u ∈ tokens ∧ o.assetSource ⟨u.symbol⟩ = some source := by
  simpa using List.mem_filter.1 (List.mem_of_getLast? h)

theorem exists_lastAt (ht : t ∈ tokens) (hsource : o.assetSource ⟨t.symbol⟩ = some source) :
    ∃ u, o.lastAt tokens source = some u := by
  refine ⟨_, List.getLast?_eq_some_getLast (List.ne_nil_of_mem (a := t) ?_)⟩
  exact List.mem_filter.2 ⟨ht, decide_eq_true hsource⟩

end Oracle

namespace Keeper

variable {k k' : Keeper} {t : TokenPlan} {tokens : List TokenPlan} {sum sum' tvl : Nat}

/-! ## What a report writes -/

/-- The keeper after an answer of a feed that is given now. -/
def published (k : Keeper) (source : Address) (answer : Int) : Keeper :=
  { k with protocol := { k.protocol with
      feeds := ⟨k.protocol.feeds.feeds.insert source ⟨answer, k.protocol.clock.time⟩⟩ } }

theorem published_of_publish {source : Address} {answer : Int} {u : Unit}
    (h : act (Protocol.publish source answer) k = .ok u k') : k' = k.published source answer := by
  obtain ⟨p, hp, rfl⟩ := act_eq_ok.1 h
  obtain ⟨feeds, hfeeds, rfl⟩ := Protocol.publish_eq_ok.1 hp
  obtain ⟨-, rfl⟩ := FeedBook.publish_eq_ok.1 hfeeds
  rfl

/-- A report of a token publishes its price at its source, and does nothing else. -/
theorem published_of_reportToken (h : reportToken sum t k = .ok sum' k') : ∃ source,
    k.protocol.oracle.assetSource ⟨t.symbol⟩ = some source ∧ k' = k.published source t.price.toInt := by
  unfold reportToken at h
  rw [get_bind_eq_ok] at h
  cases hsource : k.protocol.oracle.assetSource ⟨t.symbol⟩ with
  | none =>
    rw [hsource] at h
    cases h
  | some source =>
    rw [hsource] at h
    obtain ⟨price, r₁, hprice, hrest⟩ := bind_eq_ok.1 h
    obtain ⟨-, hr₁⟩ := demand_eq_ok.1 hprice
    obtain ⟨_, r₂, hpublish, hrest⟩ := bind_eq_ok.1 hrest
    have hr₂ := published_of_publish hpublish
    obtain ⟨balance, r₃, hbalance, hrest⟩ := bind_eq_ok.1 (get_bind_eq_ok.1 hrest)
    obtain ⟨-, hr₃⟩ := ask_eq_ok.1 hbalance
    obtain ⟨value, r₄, hvalue, hrest⟩ := bind_eq_ok.1 hrest
    obtain ⟨-, hr₄⟩ := demand_eq_ok.1 hvalue
    obtain ⟨-, hk'⟩ := demand_eq_ok.1 hrest
    exact ⟨source, rfl, by rw [hk', hr₄, hr₃, hr₂, hr₁]⟩

/-- Along the tokens of a plan the last price at each source stands. -/
theorem feeds_of_reportTokens (h : tokens.foldlM reportToken sum k = .ok sum' k') :
    (∀ t ∈ tokens, ∃ source, k.protocol.oracle.assetSource ⟨t.symbol⟩ = some source) ∧
      ∃ feeds, k' = { k with protocol := { k.protocol with feeds } } ∧ ∀ source,
        feeds.feeds.get? source = ((k.protocol.oracle.lastAt tokens source).map
          fun t => ⟨t.price.toInt, k.protocol.clock.time⟩).or (k.protocol.feeds.feeds.get? source) := by
  induction tokens generalizing sum k with
  | nil =>
    obtain ⟨rfl, rfl⟩ := pure_eq_ok.1 h
    exact ⟨nofun, k'.protocol.feeds, rfl, fun source => rfl⟩
  | cons t tokens ih =>
    rw [List.foldlM_cons] at h
    obtain ⟨next, r, ht, h⟩ := bind_eq_ok.1 h
    obtain ⟨source, hsource, rfl⟩ := published_of_reportToken ht
    obtain ⟨hpointed, feeds, rfl, hfeeds⟩ := ih h
    refine ⟨fun u hu => ?_, feeds, rfl, fun source' => ?_⟩
    · rcases List.mem_cons.1 hu with rfl | hu
      · exact ⟨source, hsource⟩
      · exact hpointed u hu
    · -- the price of this token stands unless a later one is published at its source
      rw [hfeeds source', Oracle.lastAt_cons, hsource]
      dsimp only [published]
      rw [OrderedMap.get?_insert]
      by_cases hsame : source' = source
      · subst hsame
        simp
      · simp [hsame, Ne.symm hsame]

/-- What a report leaves at the feeds: the TVL at its own, and at every other source the price of the last
token there. -/
theorem feeds_of_report (h : reportToOracle k = .ok tvl k') :
    (∀ t ∈ k.config.plan.tokens, ∃ source, k.protocol.oracle.assetSource ⟨t.symbol⟩ = some source) ∧
      ∃ feeds, k' = { k with protocol := { k.protocol with feeds } } ∧
        feeds.feeds.get? tvlFeed = some ⟨tvl, k.protocol.clock.time⟩ ∧
        ∀ source t, source ≠ tvlFeed → k.protocol.oracle.lastAt k.config.plan.tokens source = some t →
          feeds.feeds.get? source = some ⟨t.price.toInt, k.protocol.clock.time⟩ := by
  obtain ⟨sum, r, htokens, hrest⟩ := bind_eq_ok.1 (get_bind_eq_ok.1 h)
  obtain ⟨hpointed, feeds, rfl, hfeeds⟩ := feeds_of_reportTokens htokens
  obtain ⟨answer, r', hanswer, hrest⟩ := bind_eq_ok.1 hrest
  obtain ⟨hsigned, rfl⟩ := demand_eq_ok.1 hanswer
  obtain ⟨rfl, -⟩ := Checked.toSigned_eq_ok.1 hsigned
  obtain ⟨_, r'', hpublish, hrest⟩ := bind_eq_ok.1 hrest
  obtain ⟨rfl, rfl⟩ := pure_eq_ok.1 hrest
  have hk' : k' = published _ tvlFeed tvl := published_of_publish hpublish
  refine ⟨hpointed, _, hk', ?_, fun source t hne hlast => ?_⟩
  · rw [OrderedMap.get?_insert, if_pos rfl]
  · rw [OrderedMap.get?_insert, if_neg hne, hfeeds source, hlast]
    rfl

/-! ## What is served -/

/-- The oracle answers with the planned price of a token. -/
def Quotes (p : Protocol) (asset : Address) (t : TokenPlan) : Prop :=
  ∃ price : Nat, p.assetPrice asset = .ok price ∧ t.price.toInt = price

/-- In every reachable state, after a report that leaves the oracle unlocked, the oracle serves what was
published last at the source that it reads, wherever no override is active. If the TVL is read at its own
feed, that is the reported TVL, except that a TVL of zero contradicts a supply of meta shares. The price of a
token is that of the last planned token with the same source, and so its own price if the tokens with that
source all have its price; at the feed of the TVL it is the TVL, other than zero. -/
theorem report_served (k k' : Keeper) (tvl : Nat) (hk : Reachable k) (h : reportToOracle k = .ok tvl k')
    (hunlocked : k'.protocol.isOracleLocked = false) :
    (k'.protocol.hasTvlOverride = false → k'.protocol.oracle.tvlSource = tvlFeed →
      k'.protocol.tvl =
        if tvl = 0 ∧ 0 < k'.protocol.metaToken.supply then .error .zeroTvl else .ok tvl) ∧
    ∀ t ∈ k'.config.plan.tokens, k'.protocol.hasAssetOverride ⟨t.symbol⟩ = false →
      ∃ source, k'.protocol.oracle.assetSource ⟨t.symbol⟩ = some source ∧
        (source = tvlFeed → k'.protocol.assetPrice ⟨t.symbol⟩ =
          if tvl = 0 then .error .missingAssetValue else .ok tvl) ∧
        (source ≠ tvlFeed → ∃ u, k'.protocol.oracle.lastAt k'.config.plan.tokens source = some u ∧
          Quotes k'.protocol ⟨t.symbol⟩ u) ∧
        (source ≠ tvlFeed → (∀ u ∈ k'.config.plan.tokens,
            k'.protocol.oracle.assetSource ⟨u.symbol⟩ = some source → u.price = t.price) →
          Quotes k'.protocol ⟨t.symbol⟩ t) := by
  obtain ⟨hplan, hwired⟩ := hk.founded.evolve (evolved_reportToOracle.of_ok h)
  obtain ⟨hpointed, feeds, rfl, htvl, hprices⟩ := feeds_of_report h
  have hstale := hwired.oracle.stalePeriod
  refine ⟨fun hnone hsource => ?_, fun t ht hnone => ?_⟩
  · refine Oracle.tvl_of_answers hunlocked hnone (Oracle.answers_of_now hstale ?_)
    rw [hsource]
    exact htvl
  obtain ⟨source, hsource⟩ := hpointed t ht
  have hquotes (hne : source ≠ tvlFeed) : ∃ u, k.protocol.oracle.lastAt k.config.plan.tokens source = some u ∧
      Quotes { k.protocol with feeds } ⟨t.symbol⟩ u := by
    obtain ⟨u, hu⟩ := Oracle.exists_lastAt ht hsource
    have hpositive : 0 < u.price.toInt := by
      have hprice := (hplan.tokens u (Oracle.lastAt_mem hu).1).price
      rwa [Int64.lt_iff_toInt_lt, Int64.toInt_zero] at hprice
    obtain ⟨price, hprice⟩ := Int.eq_ofNat_of_zero_le hpositive.le
    have hround := hprices source u hne hu
    rw [hprice] at hround
    refine ⟨u, hu, price, ?_, hprice⟩
    refine (Oracle.assetPrice_of_answers hunlocked hnone hsource (Oracle.answers_of_now hstale hround)).trans ?_
    rw [if_neg (by omega)]
  refine ⟨source, hsource, ?_, hquotes, fun hne hsame => ?_⟩
  · rintro rfl
    exact Oracle.assetPrice_of_answers hunlocked hnone hsource (Oracle.answers_of_now hstale htvl)
  · obtain ⟨u, hu, price, hserved, hprice⟩ := hquotes hne
    obtain ⟨hmem, hat⟩ := Oracle.lastAt_mem hu
    exact ⟨price, hserved, hsame u hmem hat ▸ hprice⟩

/-- The sample after its first cycle and the lock that it leaves, with USDT pointed at the feed of DAI. -/
def sharingKeeper : Keeper := (left sampleKeeper.cycle).meanwhile
  [.passBlocks 135, .setAssetSource ⟨"emergencySafe"⟩ ⟨"USDT"⟩ ⟨"dai-usd-agg"⟩]

/-- DAI and USDT have the same price, so each token is served its own. The TVL is the capital that the cycle
has sent out. -/
theorem report_served_sharing : ∃ k', reportToOracle sharingKeeper = .ok 38000000000000 k' ∧
    k'.protocol.tvl = .ok 38000000000000 ∧
    ∀ t ∈ k'.config.plan.tokens, Quotes k'.protocol ⟨t.symbol⟩ t := by
  have hanswer : (answer sharingKeeper.reportToOracle).map id = .ok 38000000000000 := by decide +kernel
  have hreachable : Reachable sharingKeeper := reachable_sampleKeeper.cycle.meanwhile _
  obtain ⟨_, hreport, rfl⟩ := eq_ok_of_answer hanswer
  obtain ⟨htvl, hprices⟩ := report_served sharingKeeper _ _ hreachable hreport (by decide +kernel)
  refine ⟨_, hreport, (htvl (by decide +kernel) (by decide +kernel)).trans (if_neg nofun), fun t ht => ?_⟩
  have hsame : ∀ t ∈ (left sharingKeeper.reportToOracle).config.plan.tokens,
      (left sharingKeeper.reportToOracle).protocol.hasAssetOverride ⟨t.symbol⟩ = false ∧
      (left sharingKeeper.reportToOracle).protocol.oracle.assetSource ⟨t.symbol⟩ ≠ some tvlFeed ∧
      ∀ u ∈ (left sharingKeeper.reportToOracle).config.plan.tokens, u.price = t.price := by
    decide +kernel
  obtain ⟨hnone, hfeed, hprice⟩ := hsame t ht
  obtain ⟨source, hsource, -, -, hown⟩ := hprices t ht hnone
  exact hown (fun h => hfeed (h ▸ hsource)) fun u hu _ => hprice u hu

/-- The default configuration, but for a price of USDC of 99 cents. -/
def offPegConfig : Config := { (default : Config) with plan := { (default : Plan) with
  tokens := [⟨"DAI", 18, 100000000⟩, ⟨"USDC", 6, 99000000⟩, ⟨"USDT", 6, 100000000⟩] } }

theorem start_offPeg_isSome : (start offPegConfig false).toOption.isSome := by decide +kernel

/-- DAI is pointed at the feed of USDC, and the TVL is read at a new feed. Only the kernel unfolds it. -/
@[irreducible] def migratedKeeper : Keeper :=
  ((start offPegConfig false).toOption.get start_offPeg_isSome).meanwhile
    [.setAssetSource ⟨"emergencySafe"⟩ ⟨"DAI"⟩ ⟨"usdc-usd-agg"⟩, .openFeed ⟨"new-tvl-agg"⟩ 7,
      .setTvlSource ⟨"emergencySafe"⟩ ⟨"new-tvl-agg"⟩]

/-- The report succeeds, the oracle is not locked and nothing is overridden. Yet DAI has the price of USDC,
and the TVL is not the reported one. -/
theorem served_after_migration : Reachable migratedKeeper ∧
    answer migratedKeeper.reportToOracle = .ok 0 ∧
    (left migratedKeeper.reportToOracle).protocol.isOracleLocked = false ∧
    (left migratedKeeper.reportToOracle).protocol.oracle.tvlOverride = none ∧
    (left migratedKeeper.reportToOracle).protocol.oracle.assetOverrides = .empty ∧
    ⟨"DAI", 18, 100000000⟩ ∈ migratedKeeper.config.plan.tokens ∧
    (left migratedKeeper.reportToOracle).protocol.assetPrice ⟨"DAI"⟩ = .ok 99000000 ∧
    (left migratedKeeper.reportToOracle).protocol.tvl = .ok 7 := by
  refine ⟨?_, by decide +kernel, by decide +kernel, by decide +kernel, by decide +kernel,
    by decide +kernel, by decide +kernel, by decide +kernel⟩
  unfold migratedKeeper
  exact (Reachable.start (eq_ok_of_toOption (Option.some_get _).symm)).meanwhile _

end Keeper

end MetaPool
