import MetaPool.Proofs.Account.Staff
import MetaPool.Proofs.Collection.Lookup
import MetaPool.Proofs.Deployment.Pools
import MetaPool.Proofs.Deployment.Validation

/-!
# Which plans deploy

The feed of a token is at an address that is made of its symbol in lower case, and the feed of the
TVL is at an address of its own. Validation compares the symbols and not these addresses, so that of
two tokens `DAI` and `dai`, or of a token `TVL`, it says nothing. Deployment stops there: the first
token whose feed is already open is refused (`addToken_of_clash`). Nothing else stops a plan that
validation accepts.

    plan.validate = .ok () → (plan deploys ↔ plan.FeedsApart)       (deploys_iff_feedsApart)
-/

namespace MetaPool

theorem TokenBook.register_eq_ok {b b' : TokenBook} {token : Address} {traits : TokenTraits} :
    b.register token traits = .ok b' ↔ ¬ token.isEmpty = true ∧ ¬ traits.decimals > maxDecimals ∧
      ¬ b.isRegistered token = true ∧ b' = ⟨b.records.insert token ⟨traits, 0, .empty, .empty⟩⟩ := by
  simp only [register, refuse_eq_ok, isRegistered, Except.ok.injEq, eq_comm (a := b')]

theorem FeedBook.add_eq_ok {n n' : FeedBook} {source : Address} {round : Round} :
    n.add source round = .ok n' ↔ ¬ source.isEmpty = true ∧ ¬ n.contains source = true ∧
      n' = ⟨n.feeds.insert source round⟩ := by
  simp only [add, refuse_eq_ok, Except.ok.injEq, eq_comm (a := n')]

theorem FeedBook.add_of_contains {n : FeedBook} {source : Address} {round : Round}
    (hnamed : ¬ source.isEmpty = true) (h : n.contains source = true) :
    n.add source round = .error (.alreadyRegistered source) := by
  unfold add
  rw [if_neg hnamed, if_pos h]

namespace Plan

variable {plan : Plan} {time : Int64} {state state' : TokenBook × FeedBook} {t : TokenPlan}
  {tokens done : List TokenPlan}

/-! ## The feeds of a plan -/

/-- The addresses of the feeds that a deployment opens, in order. -/
def feedLabels (tokens : List TokenPlan) : List String :=
  tvlFeed.label :: tokens.map (·.feedLabel)

/-- No two feeds of the plan are at one address. -/
def FeedsApart (plan : Plan) : Prop := (feedLabels plan.tokens).Nodup

instance (plan : Plan) : Decidable plan.FeedsApart := inferInstanceAs (Decidable (List.Nodup _))

theorem feedLabels_append (before after : List TokenPlan) :
    feedLabels (before ++ after) = feedLabels before ++ after.map (·.feedLabel) := by
  simp [feedLabels]

/-- Of feeds that are not apart, a first one is at the address of one before it. -/
theorem exists_clash (h : ¬ (feedLabels tokens).Nodup) : ∃ before t after,
    tokens = before ++ t :: after ∧ (feedLabels before).Nodup ∧
      t.feedLabel ∈ feedLabels before := by
  induction tokens using List.reverseRecOn with
  | nil => simp [feedLabels] at h
  | append_singleton tokens t ih =>
    by_cases htokens : (feedLabels tokens).Nodup
    · refine ⟨tokens, t, [], rfl, htokens, ?_⟩
      by_contra hnew
      rw [feedLabels_append, List.nodup_append] at h
      exact h ⟨htokens, List.nodup_singleton _, by grind⟩
    · obtain ⟨before, c, after, rfl, hbefore, hc⟩ := ih htokens
      exact ⟨before, c, after ++ [t], by simp, hbefore, hc⟩

/-! ## Opening the tokens -/

/-- Books with a record and a feed for each of the tokens, and the feed of the TVL. -/
structure Opened (done : List TokenPlan) (state : TokenBook × FeedBook) : Prop where
  records : ∀ a, state.1.isRegistered a = true ↔ a.label ∈ done.map (·.symbol)
  feeds : ∀ a, state.2.contains a = true ↔ a.label ∈ feedLabels done

theorem feedLabel_nonempty (t : TokenPlan) :
    ¬ (⟨t.feedLabel⟩ : Address).isEmpty = true := by
  simp [Address.isEmpty, TokenPlan.feedLabel]

theorem addToken_eq_ok : addToken time state t = .ok state' ↔
    ∃ tokens feeds, state.1.register ⟨t.symbol⟩ ⟨t.symbol, t.decimals⟩ = .ok tokens ∧
      state.2.add ⟨t.feedLabel⟩ ⟨t.price.toInt, time⟩ = .ok feeds ∧ state' = (tokens, feeds) := by
  simp only [addToken, except_bind_eq_ok, except_pure_eq_ok]
  grind

theorem Opened.addToken (h : Opened done state) (hadd : addToken time state t = .ok state') :
    Opened (done ++ [t]) state' := by
  obtain ⟨tokens, feeds, hregister, hfeed, rfl⟩ := addToken_eq_ok.1 hadd
  obtain ⟨-, -, -, rfl⟩ := TokenBook.register_eq_ok.1 hregister
  obtain ⟨-, -, rfl⟩ := FeedBook.add_eq_ok.1 hfeed
  constructor
  · intro a
    have ha := h.records a
    simp only [TokenBook.isRegistered, OrderedMap.contains_insert] at ha ⊢
    obtain ⟨label⟩ := a
    rw [ha]
    simp [or_comm]
  · intro a
    have ha := h.feeds a
    simp only [FeedBook.contains, OrderedMap.contains_insert] at ha ⊢
    obtain ⟨label⟩ := a
    rw [ha, feedLabels_append]
    simp [or_comm]

theorem Opened.addTokens (h : Opened done state)
    (hadd : tokens.foldlM (Plan.addToken time) state = .ok state') :
    Opened (done ++ tokens) state' := by
  induction tokens generalizing done state with
  | nil =>
    obtain rfl := except_pure_eq_ok.1 hadd
    simpa using h
  | cons t tokens ih =>
    obtain ⟨r, ht, hrest⟩ := except_bind_eq_ok.1 hadd
    simpa using ih (h.addToken ht) hrest

theorem Opened.exists_register (h : Opened done state) (ht : t.WellFormed)
    (hnew : t.symbol ∉ done.map (·.symbol)) :
    ∃ tokens, state.1.register ⟨t.symbol⟩ ⟨t.symbol, t.decimals⟩ = .ok tokens :=
  ⟨_, TokenBook.register_eq_ok.2 ⟨ht.symbol, Nat.not_lt.2 ht.decimals, mt (h.records _).1 hnew, rfl⟩⟩

theorem Opened.exists_addToken (h : Opened done state) (ht : t.WellFormed)
    (hnew : t.symbol ∉ done.map (·.symbol)) (hapart : t.feedLabel ∉ feedLabels done) :
    ∃ state', Plan.addToken time state t = .ok state' := by
  obtain ⟨tokens, hregister⟩ := h.exists_register ht hnew
  obtain ⟨feeds, hfeed⟩ : ∃ feeds, state.2.add ⟨t.feedLabel⟩ ⟨t.price.toInt, time⟩ = .ok feeds :=
    ⟨_, FeedBook.add_eq_ok.2 ⟨feedLabel_nonempty t, mt (h.feeds _).1 hapart, rfl⟩⟩
  exact ⟨(tokens, feeds), addToken_eq_ok.2 ⟨tokens, feeds, hregister, hfeed, rfl⟩⟩

/-- A token whose feed is open already is refused, although its symbol is new. -/
theorem Opened.addToken_of_clash (h : Opened done state) (ht : t.WellFormed)
    (hnew : t.symbol ∉ done.map (·.symbol)) (hclash : t.feedLabel ∈ feedLabels done) :
    Plan.addToken time state t = .error (.alreadyRegistered ⟨t.feedLabel⟩) := by
  obtain ⟨tokens, hregister⟩ := h.exists_register ht hnew
  unfold Plan.addToken
  rw [hregister]
  refine except_bind_eq_error.2 (.inr ⟨tokens, rfl, except_bind_eq_error.2 (.inl ?_)⟩)
  exact FeedBook.add_of_contains (feedLabel_nonempty t) ((h.feeds _).2 hclash)

/-- Tokens that are well formed, new and with feeds apart open one after the other. -/
theorem Opened.exists_addTokens (h : Opened done state) (htokens : ∀ t ∈ tokens, t.WellFormed)
    (hsymbols : ((done ++ tokens).map (·.symbol)).Nodup)
    (hlabels : (feedLabels (done ++ tokens)).Nodup) :
    ∃ state', tokens.foldlM (Plan.addToken time) state = .ok state' := by
  induction tokens generalizing done state with
  | nil => exact ⟨state, rfl⟩
  | cons t tokens ih =>
    rw [List.forall_mem_cons] at htokens
    rw [List.append_cons] at hsymbols hlabels
    have hnew : t.symbol ∉ done.map (·.symbol) := by
      simp only [List.map_append, List.nodup_append] at hsymbols
      grind
    have hapart : t.feedLabel ∉ feedLabels done := by
      simp only [feedLabels_append, List.nodup_append] at hlabels
      grind
    obtain ⟨r, ht⟩ := h.exists_addToken htokens.1 hnew hapart
    obtain ⟨state', hrest⟩ := ih (h.addToken ht) htokens.2 hsymbols hlabels
    exact ⟨state', except_bind_eq_ok.2 ⟨r, ht, hrest⟩⟩

/-! ## The other stages -/

/-- The setter that points the oracle returns nothing, so that it is its final state that counts. -/
theorem oracle_eq_ok_of_setter {feeds : FeedBook} {o : Oracle} : plan.oracle feeds = .ok o ↔
    ∃ blank, Oracle.new (plan.operators [⟨metaTokenId⟩, ⟨tvlManagerId⟩]) feeds tvlFeed
        plan.stalePeriod plan.lockPeriod = .ok blank ∧
      Oracle.setAssetSources ⟨plan.emergencySafe⟩ feeds (plan.tokens.map fun t => ⟨t.symbol⟩)
        (plan.tokens.map fun t => ⟨t.feedLabel⟩) blank = .ok () o := by
  unfold oracle
  rw [except_bind_eq_ok]
  refine exists_congr fun blank => and_congr_right fun _ => ?_
  dsimp only
  split <;> simp_all

theorem oracle_eq_ok {feeds : FeedBook} {o : Oracle} : plan.oracle feeds = .ok o ↔
    feeds.contains tvlFeed = true ∧ 0 < plan.stalePeriod ∧
      (∀ t ∈ plan.tokens, ¬ t.symbol.isEmpty = true ∧ feeds.contains ⟨t.feedLabel⟩ = true) ∧
      o = { roles := plan.operators [⟨metaTokenId⟩, ⟨tvlManagerId⟩], tvlSource := tvlFeed,
            assetSources := Oracle.pointed .empty
              (plan.tokens.map fun t => (⟨t.symbol⟩, ⟨t.feedLabel⟩))
            stalePeriod := plan.stalePeriod, lockPeriod := plan.lockPeriod, lockEnd := 0,
            tvlOverride := none, assetOverrides := .empty } := by
  have hemergency : (plan.operators [⟨metaTokenId⟩, ⟨tvlManagerId⟩]).authorize
      ⟨plan.emergencySafe⟩ .setAssetSources = .ok () := by
    rw [RoleTable.authorize_eq_ok, holds_operators]
    simp [Permission.role]
  simp only [oracle_eq_ok_of_setter, Oracle.new, refuse_eq_ok, Except.ok.injEq,
    Oracle.setAssetSources_eq_ok, Int64.not_le, List.zip_map', List.length_map, List.forall_mem_map]
  constructor
  · rintro ⟨blank, ⟨htvl, hstale, rfl⟩, -, -, -, hsources, rfl⟩
    exact ⟨by simpa using htvl, hstale, hsources, rfl⟩
  · rintro ⟨htvl, hstale, hsources, rfl⟩
    exact ⟨_, ⟨by simpa using htvl, hstale, rfl⟩, hemergency, trivial, fun t ht => (hsources t ht).2,
      hsources, rfl⟩

theorem exists_baseRegistry (h : plan.WellFormed) : ∃ r, plan.baseRegistry = .ok r := by
  have hnamed : ∀ e ∈ [(metaTokenId, metaTokenId), (lpAccountId, lpAccountId), (oracleId, oracleId),
      (tvlManagerId, tvlManagerId), (adminSafeId, plan.adminSafe),
      (emergencySafeId, plan.emergencySafe), (lpSafeId, plan.lpSafe)],
      ¬ (⟨e.2⟩ : Address).isEmpty = true := by
    simp only [List.forall_mem_cons]
    exact ⟨by decide, by decide, by decide, by decide, h.adminSafe, h.emergencySafe, h.lpSafe, nofun⟩
  unfold baseRegistry
  exact foldlM_succeeds (fun e he _ => ⟨_, Registry.register_eq_ok.2 ⟨hnamed e he, rfl⟩⟩) _

theorem exists_addPools {symbols : List String} {pools : List PoolPlan} {roles : RoleTable}
    (state : OrderedMap Address Pool × Registry) (hsymbols : ∀ s ∈ symbols, ¬ s.isEmpty = true)
    (hpools : ∀ pool ∈ pools, pool.WellFormed symbols) :
    ∃ state', pools.foldlM (addPool roles) state = .ok state' := by
  refine foldlM_succeeds (fun pool hpool state => ?_) state
  have hwell := hpools pool hpool
  have hnamed := hsymbols _ hwell.underlyer
  exact ⟨_, addPool_eq_ok.2 ⟨_, _, Pool.new_eq_ok.2 ⟨hwell.id, hnamed, hwell.terms, rfl⟩,
    Registry.register_eq_ok.2 ⟨hwell.id, rfl⟩, rfl⟩⟩

end Plan

/-! ## Deployment -/

namespace Protocol

variable {plan : Plan} {clock : Clock}

/-- The feed of the TVL alone. -/
theorem opened_tvl {feeds : FeedBook} {round : Round} (h : FeedBook.empty.add tvlFeed round = .ok feeds) :
    Plan.Opened [] (.empty, feeds) := by
  obtain ⟨-, -, rfl⟩ := FeedBook.add_eq_ok.1 h
  constructor
  · intro a
    simp [TokenBook.isRegistered, TokenBook.empty, OrderedMap.contains]
  · rintro ⟨label⟩
    unfold FeedBook.contains
    rw [OrderedMap.contains_insert]
    simp [FeedBook.empty, Plan.feedLabels, OrderedMap.contains, tvlFeed]

theorem exists_tvlFeed (clock : Clock) :
    ∃ feeds, FeedBook.empty.add tvlFeed ⟨0, clock.time⟩ = .ok feeds :=
  ⟨_, FeedBook.add_eq_ok.2 ⟨by decide, by decide, rfl⟩⟩

theorem deploy_of_feedsApart (h : plan.validate = .ok ()) (hapart : plan.FeedsApart) (clock : Clock) :
    ∃ p, Protocol.deploy plan clock = .ok p := by
  have hwell := Plan.validate_eq_ok.1 h
  obtain ⟨base, hbase⟩ := Plan.exists_baseRegistry hwell
  obtain ⟨feeds, hfeeds⟩ := exists_tvlFeed clock
  have hopened := opened_tvl hfeeds
  obtain ⟨⟨tokens, feeds'⟩, htokens⟩ : ∃ state,
      plan.tokens.foldlM (Plan.addToken clock.time) (.empty, feeds) = .ok state :=
    hopened.exists_addTokens hwell.tokens hwell.symbols hapart
  have hall := hopened.addTokens htokens
  obtain ⟨o, horacle⟩ : ∃ o, plan.oracle feeds' = .ok o := by
    refine ⟨_, Plan.oracle_eq_ok.2 ⟨?_, hwell.stalePeriod, fun t ht => ⟨(hwell.tokens t ht).symbol, ?_⟩,
      rfl⟩⟩
    · exact (hall.feeds _).2 List.mem_cons_self
    · exact (hall.feeds _).2 (List.mem_cons_of_mem _ (List.mem_map_of_mem ht))
  have hsymbols : ∀ s ∈ plan.tokens.map (·.symbol), ¬ s.isEmpty = true :=
    List.forall_mem_map.2 fun t ht => (hwell.tokens t ht).symbol
  obtain ⟨⟨pools, registry⟩, hpools⟩ : ∃ state, plan.pools.foldlM
      (Plan.addPool (plan.operators [⟨metaTokenId⟩])) (.empty, base) = .ok state :=
    Plan.exists_addPools _ hsymbols hwell.pools
  simp only [Protocol.deploy, except_bind_eq_ok, except_pure_eq_ok]
  exact ⟨_, (), h, base, hbase, feeds, hfeeds, (tokens, feeds'), htokens, o, horacle,
    (pools, registry), hpools, rfl⟩

theorem deploy_of_clash (h : plan.validate = .ok ()) {before after : List TokenPlan} {t : TokenPlan}
    (hplan : plan.tokens = before ++ t :: after) (hbefore : (Plan.feedLabels before).Nodup)
    (hclash : t.feedLabel ∈ Plan.feedLabels before) (clock : Clock) :
    Protocol.deploy plan clock = .error (.alreadyRegistered ⟨t.feedLabel⟩) := by
  have hwell := Plan.validate_eq_ok.1 h
  have htokens := hwell.tokens
  have hsymbols := hwell.symbols
  rw [hplan, List.forall_mem_append, List.forall_mem_cons] at htokens
  rw [hplan, List.map_append, List.nodup_append, List.map_cons] at hsymbols
  obtain ⟨base, hbase⟩ := Plan.exists_baseRegistry hwell
  obtain ⟨feeds, hfeeds⟩ := exists_tvlFeed clock
  have hopened := opened_tvl hfeeds
  obtain ⟨state, hstate⟩ : ∃ state,
      before.foldlM (Plan.addToken clock.time) (.empty, feeds) = .ok state :=
    hopened.exists_addTokens htokens.1 hsymbols.1 hbefore
  have hnew : t.symbol ∉ before.map (·.symbol) := fun hmem =>
    hsymbols.2.2 _ hmem _ List.mem_cons_self rfl
  have hstop : plan.tokens.foldlM (Plan.addToken clock.time) (.empty, feeds) =
      .error (.alreadyRegistered ⟨t.feedLabel⟩) := by
    rw [hplan, List.foldlM_append, hstate]
    exact except_bind_eq_error.2 (.inr ⟨state, rfl, except_bind_eq_error.2
      (.inl ((hopened.addTokens hstate).addToken_of_clash htokens.2.1 hnew hclash))⟩)
  unfold Protocol.deploy
  rw [h, hbase, hfeeds]
  exact except_bind_eq_error.2 (.inr ⟨(), rfl, except_bind_eq_error.2 (.inr ⟨base, rfl,
    except_bind_eq_error.2 (.inr ⟨feeds, rfl, except_bind_eq_error.2 (.inl hstop)⟩)⟩)⟩)

/-- A plan that validation accepts deploys just if its feeds are apart. Otherwise the first token
whose feed is at an address that is taken is the one that deployment reports. -/
theorem deploys_iff_feedsApart (h : plan.validate = .ok ()) (clock : Clock) :
    ((∃ p, Protocol.deploy plan clock = .ok p) ↔ plan.FeedsApart) ∧
      ∀ fault, Protocol.deploy plan clock = .error fault ↔ ∃ before t after,
        plan.tokens = before ++ t :: after ∧ (Plan.feedLabels before).Nodup ∧
          t.feedLabel ∈ Plan.feedLabels before ∧ fault = .alreadyRegistered ⟨t.feedLabel⟩ := by
  by_cases hapart : plan.FeedsApart
  · obtain ⟨p, hp⟩ := deploy_of_feedsApart h hapart clock
    refine ⟨iff_of_true ⟨p, hp⟩ hapart, fun fault => ⟨fun herror => ?_, ?_⟩⟩
    · rw [hp] at herror
      cases herror
    · rintro ⟨before, t, after, hplan, hbefore, hclash, rfl⟩
      exact deploy_of_clash h hplan hbefore hclash clock
  · obtain ⟨before, t, after, hplan, hbefore, hclash⟩ := Plan.exists_clash hapart
    have hstop := deploy_of_clash h hplan hbefore hclash clock
    refine ⟨iff_of_false ?_ hapart, fun fault => ⟨fun herror => ?_, ?_⟩⟩
    · rintro ⟨p, hp⟩
      rw [hp] at hstop
      cases hstop
    · rw [hstop] at herror
      exact ⟨before, t, after, hplan, hbefore, hclash, (Except.error.inj herror).symm⟩
    · rintro ⟨before', t', after', hplan', hbefore', hclash', rfl⟩
      exact deploy_of_clash h hplan' hbefore' hclash' clock

theorem deploys_iff_feedsApart_default : (default : Plan).validate = .ok () ∧
    ∃ p, Protocol.deploy default default = .ok p := by
  have hvalid : (default : Plan).validate = .ok () := by rfl
  exact ⟨hvalid, (deploys_iff_feedsApart hvalid default).1.2 (by decide +kernel)⟩

/-- The default plan with a second dollar token, whose symbol is that of the first in lower case. -/
def twinSymbols : Plan :=
  { (default : Plan) with tokens := (default : Plan).tokens ++ [⟨"dai", 18, 100000000⟩] }

/-- A plan that validation accepts and deployment refuses. -/
theorem accepted_not_deployed : twinSymbols.validate = .ok () ∧
    Protocol.deploy twinSymbols default = .error (.alreadyRegistered ⟨"dai-usd-agg"⟩) := by
  constructor
  · decide +kernel
  · decide +kernel

end Protocol

end MetaPool
