import MetaPool.Proofs.Capital.Deployed
import MetaPool.Proofs.Capital.Leg
import MetaPool.Proofs.Deployment.Completeness
import MetaPool.Proofs.Ledger.Conservation

/-!
# References between components

The components refer to one another by address: a pool to its underlyer, the oracle to assets and to
feeds, the allocation to tokens. `Wired` says that each of these references leads to an entry that is
there, and that the parameters that go with them are in range. A deployment is wired by its
validation, and afterwards nothing is taken away, while each setter looks before it writes.

    Reachable p → Wired p                                           (Reachable.wired)
-/

namespace MetaPool

/-! ## The sources of the oracle -/

namespace Oracle

variable {op : Operation} {clock : Clock} {feeds feeds' : FeedBook} {o o' : Oracle}
  {sources : OrderedMap Address Address} {l : List (Address × Address)} {asset source : Address}

/-- A source of a pointed asset is the one it had or comes from the list. -/
theorem mem_of_pointed (h : (pointed sources l).get? asset = some source) :
    sources.get? asset = some source ∨ ∃ e ∈ l, e.2 = source := by
  induction l generalizing sources with
  | nil => exact .inl h
  | cons e l ih =>
    rcases ih h with h | ⟨e', he', hsource⟩
    · rw [OrderedMap.get?_insert] at h
      split at h
      · exact .inr ⟨e, List.mem_cons_self, Option.some.inj h⟩
      · exact .inl h
    · exact .inr ⟨e', List.mem_cons_of_mem _ he', hsource⟩

theorem isSome_pointed (h : (sources.get? asset).isSome = true ∨ ∃ e ∈ l, e.1 = asset) :
    ((pointed sources l).get? asset).isSome = true := by
  induction l generalizing sources with
  | nil => simpa [pointed] using h
  | cons e l ih =>
    refine ih ?_
    rw [OrderedMap.get?_insert]
    by_cases ha : asset = e.1
    · simp [ha]
    · rw [if_neg ha]
      refine h.imp_right ?_
      rintro ⟨e', he', rfl⟩
      rcases List.mem_cons.1 he' with rfl | he'
      · exact absurd rfl ha
      · exact ⟨e', he', rfl⟩

/-- The oracle reads deployed feeds alone, and some answers are young enough for it. -/
structure Wired (feeds : FeedBook) (o : Oracle) : Prop where
  stalePeriod : 0 < o.stalePeriod
  tvlSource : feeds.contains o.tvlSource = true
  assetSources : ∀ asset source, o.assetSource asset = some source → feeds.contains source = true

theorem Wired.mono (h : o.Wired feeds)
    (hfeeds : ∀ source, feeds.contains source = true → feeds'.contains source = true) :
    o.Wired feeds' :=
  ⟨h.stalePeriod, hfeeds _ h.tvlSource, fun asset source hs => hfeeds _ (h.assetSources asset source hs)⟩

theorem Wired.change (h : o.Wired feeds) (hchange : o.Change op clock feeds o') :
    o'.Wired feeds := by
  cases hchange with
  | setTvlSource source hsource => exact ⟨h.stalePeriod, hsource, h.assetSources⟩
  | setAssetSources l hl =>
    refine ⟨h.stalePeriod, h.tvlSource, fun asset source hsource => ?_⟩
    rcases mem_of_pointed hsource with hsource | ⟨e, he, rfl⟩
    · exact h.assetSources asset source hsource
    · exact hl e he
  | setStalePeriod period hperiod => exact ⟨hperiod, h.tvlSource, h.assetSources⟩
  | _ => exact ⟨h.stalePeriod, h.tvlSource, h.assetSources⟩

/-- No asset loses its source. -/
theorem isSome_of_change (hchange : o.Change op clock feeds o')
    (h : (o.assetSource asset).isSome = true) : (o'.assetSource asset).isSome = true := by
  cases hchange with
  | setAssetSources l hl => exact isSome_pointed (.inl h)
  | _ => exact h

end Oracle

/-! ## The feeds -/

theorem FeedBook.publish_eq_ok {n n' : FeedBook} {source : Address} {round : Round} :
    n.publish source round = .ok n' ↔
      n.contains source = true ∧ n' = ⟨n.feeds.insert source round⟩ := by
  simp only [publish, require_eq_ok, Except.ok.injEq, eq_comm (a := n')]

/-- A new round replaces the one before it. -/
theorem FeedBook.contains_insert {n : FeedBook} {source source' : Address} {round : Round}
    (h : n.contains source = true) :
    FeedBook.contains ⟨n.feeds.insert source' round⟩ source = true :=
  (OrderedMap.contains_insert _ _ _ _).2 (.inr h)

/-- No operation closes a feed. -/
theorem Operation.contains_of_ok {op : Operation} {p q : Protocol} {out : Outcome}
    (h : op.perform p = .ok out q) (source : Address) (hs : p.feeds.contains source = true) :
    q.feeds.contains source = true := by
  have hpublish {source' : Address} {answer : Int}
      (h : Protocol.publish source' answer p = .ok () q) : q.feeds.contains source = true := by
    obtain ⟨feeds, hfeeds, rfl⟩ := Protocol.publish_eq_ok.1 h
    obtain ⟨-, rfl⟩ := FeedBook.publish_eq_ok.1 hfeeds
    exact FeedBook.contains_insert hs
  by_cases hw : .feeds ∈ op.writes
  · cases op with
    | publish | publishTvl => exact hpublish (complete_eq_ok.1 h).2
    | publishPrice =>
      obtain ⟨_, -, h⟩ := Protocol.publishPrice_eq_ok.1 (complete_eq_ok.1 h).2
      exact hpublish h
    | openFeed =>
      obtain ⟨feeds, hfeeds, rfl⟩ := Protocol.openFeed_eq_ok.1 (complete_eq_ok.1 h).2
      obtain ⟨-, -, rfl⟩ := FeedBook.add_eq_ok.1 hfeeds
      exact FeedBook.contains_insert hs
    | _ => simp [writes, Protocol.batchWrites] at hw
  · have hfeeds : q.feeds = p.feeds := frame_of_ok h .feeds hw
    rwa [hfeeds]

/-! ## The allocation -/

theorem TokenBook.isRegistered_iff {b : TokenBook} {token : Address} :
    b.isRegistered token = true ↔ ∃ x, b.traits token = .ok x := by
  simp only [traits_eq_ok, isRegistered, OrderedMap.contains, Option.isSome_iff_exists]
  constructor
  · rintro ⟨r, hr⟩
    exact ⟨r.traits, r, hr, rfl⟩
  · rintro ⟨_, r, hr, -⟩
    exact ⟨r, hr⟩

namespace Protocol

variable {p q : Protocol} {op : Operation} {out : Outcome} {plan : Plan} {clock : Clock}

/-- Every entry of the allocation says of its token what the token book says. -/
def Listed (p : Protocol) : Prop :=
  ∀ token data, p.allocation.tokens.get? token = some data →
    data.token = token ∧ p.tokens.traits token = .ok ⟨data.symbol, data.decimals⟩

theorem Listed.congr (h : Listed p) (hallocation : q.allocation = p.allocation)
    (htraits : ∀ t, q.tokens.traits t = p.tokens.traits t) : Listed q := by
  intro token data hdata
  rw [hallocation] at hdata
  rw [htraits]
  exact h token data hdata

theorem listed_registerUnderlyer {a : Address} (hp : Listed p)
    (h : registerUnderlyer a p = .ok () q) : Listed q := by
  obtain ⟨s, -, ⟨-, rfl⟩ | ⟨-, info, allocation, hinfo, hregister, rfl⟩⟩ := registerUnderlyer_eq_ok.1 h
  · exact hp
  · obtain ⟨-, -, -, rfl⟩ := Allocation.register_eq_ok.1 hregister
    intro token data hdata
    rw [OrderedMap.get?_insert] at hdata
    split at hdata
    next htoken =>
      obtain rfl := Option.some.inj hdata
      subst htoken
      exact ⟨rfl, hinfo⟩
    next => exact hp token data hdata

theorem listed_leg (kind : LegKind) {a : Address} {shares amount : Nat} (hp : Listed p)
    (h : kind.leg a shares amount p = .ok () q) : Listed q := by
  obtain ⟨-, rfl⟩ | ⟨-, _, s, tokens, -, -, -, ht, rfl⟩ := LegKind.leg_eq_ok.1 h
  · exact hp
  · exact hp.congr rfl (TokenBook.moved_of_transfer ht).traits

theorem listed_of_ok (hp : Listed p) (h : op.perform p = .ok out q) : Listed q := by
  by_cases hop : op.isRebalance = true
  · have hlock : ∀ p q, Listed p → lockAfterMove p = .ok () q → Listed q := by
      intro p q hp hlock
      obtain ⟨o, -, rfl⟩ := lockAfterMove_eq_ok.1 hlock
      exact hp
    obtain ⟨pools, amounts, hbatch | hbatch⟩ := Operation.batch_of_ok hop h
    · exact hbatch.walk (fun _ _ _ => listed_registerUnderlyer)
        (fun _ _ _ _ _ => listed_leg .sends) hlock hp
    · exact hbatch.walk (fun _ _ _ => listed_registerUnderlyer)
        (fun _ _ _ _ _ => listed_leg .recalls) hlock hp
  · have hallocation : q.allocation = p.allocation := Operation.frame_of_ok h .allocation
      (by cases op <;> simp [Operation.writes, Operation.isRebalance] at hop ⊢)
    exact hp.congr hallocation (traits_of_ok h)

/-! ## The whole protocol -/

/-- Every reference leads to an entry that is there, and every parameter is in range. -/
structure Wired (p : Protocol) : Prop where
  deployed : ∀ a s, p.pool a = .ok s → Deployed p a s
  lpAccount : ¬ p.lpAccount.address.isEmpty = true
  registered : ∀ a s, p.pool a = .ok s → p.tokens.isRegistered s.underlyer = true
  pointed : ∀ a s, p.pool a = .ok s → (p.oracle.assetSource s.underlyer).isSome = true
  oracle : p.oracle.Wired p.feeds
  listed : Listed p

theorem wired_of_deploy (h : Protocol.deploy plan clock = .ok p) : Wired p := by
  have hdeployed : ∀ a s, p.pool a = .ok s → Deployed p a s := deployed_of_deploy h
  have hplanned : ∀ a s, p.pool a = .ok s → ∃ pool ∈ plan.pools, s.underlyer = ⟨pool.underlyer⟩ := by
    intro a s hs
    obtain ⟨pool, hpool, -, hnew⟩ := pool_of_deploy h hs
    obtain ⟨-, -, -, rfl⟩ := Pool.new_eq_ok.1 hnew
    exact ⟨pool, hpool, rfl⟩
  simp only [Protocol.deploy, except_bind_eq_ok, except_pure_eq_ok] at h
  obtain ⟨⟨⟩, hvalid, base, -, feeds, hfeeds, ⟨tokens, feeds'⟩, htokens, o, horacle, _, -, rfl⟩ := h
  have hwell := Plan.validate_eq_ok.1 hvalid
  have hopened : Plan.Opened plan.tokens (tokens, feeds') := (opened_tvl hfeeds).addTokens htokens
  obtain ⟨htvl, hstale, hsources, rfl⟩ := Plan.oracle_eq_ok.1 horacle
  refine ⟨hdeployed, show ¬ (⟨lpAccountId⟩ : Address).isEmpty = true by decide,
    fun a s hs => ?_, fun a s hs => ?_, ⟨hstale, htvl, fun asset source hsource => ?_⟩,
    fun token data hdata => by cases hdata⟩
  · obtain ⟨pool, hpool, hunderlyer⟩ := hplanned a s hs
    rw [hunderlyer]
    exact (hopened.records _).2 (hwell.pools pool hpool).underlyer
  · obtain ⟨pool, hpool, hunderlyer⟩ := hplanned a s hs
    obtain ⟨t, ht, hsymbol⟩ := List.mem_map.1 (hwell.pools pool hpool).underlyer
    rw [hunderlyer, ← hsymbol]
    exact Oracle.isSome_pointed (.inr ⟨_, List.mem_map_of_mem ht, rfl⟩)
  · rcases Oracle.mem_of_pointed hsource with hsource | ⟨e, he, rfl⟩
    · cases hsource
    · obtain ⟨t, ht, rfl⟩ := List.mem_map.1 he
      exact (hsources t ht).2

theorem wired_of_ok (hp : Wired p) (h : op.perform p = .ok out q) : Wired q := by
  -- every pool of `q` has the underlyer that it had in `p`
  have hsame : ∀ a t, q.pool a = .ok t → ∃ s, p.pool a = .ok s ∧ t.underlyer = s.underlyer := by
    intro a t ht
    have hunderlyer := underlyer_of_ok h a
    rw [ht] at hunderlyer
    cases hs : p.pool a with
    | error fault => simp [hs, Except.map] at hunderlyer
    | ok s =>
      simp only [hs, Except.map, Except.ok.injEq] at hunderlyer
      exact ⟨s, rfl, hunderlyer⟩
  have hfeeds := Operation.contains_of_ok h
  have hlp : q.lpAccount = p.lpAccount := after_of_ok h ▸ Operation.lpAccount_after p op
  refine ⟨deployed_of_ok hp.deployed h, hlp ▸ hp.lpAccount, fun a t ht => ?_, fun a t ht => ?_, ?_,
    listed_of_ok hp.listed h⟩
  · obtain ⟨s, hs, heq⟩ := hsame a t ht
    have hregistered := hp.registered a s hs
    rw [TokenBook.isRegistered_iff] at hregistered ⊢
    rwa [heq, traits_of_ok h]
  · obtain ⟨s, hs, heq⟩ := hsame a t ht
    rw [heq]
    rcases Operation.oracle_change h with horacle | hchange
    · rw [horacle]
      exact hp.pointed a s hs
    · exact Oracle.isSome_of_change hchange (hp.pointed a s hs)
  · rcases Operation.oracle_change h with horacle | hchange
    · rw [horacle]
      exact hp.oracle.mono hfeeds
    · exact (hp.oracle.change hchange).mono hfeeds

theorem Reachable.wired (h : Reachable p) : Wired p :=
  h.invariant (fun _ _ _ => wired_of_deploy) fun _ _ _ _ => wired_of_ok

end Protocol

end MetaPool
