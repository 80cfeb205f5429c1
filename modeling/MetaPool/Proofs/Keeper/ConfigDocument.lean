import MetaPool.Keeper.ConfigFile
import MetaPool.Proofs.Keeper.Validation
import MetaPool.Proofs.Toml.Records

/-!
# Documents of configurations

The fields of a configuration are a document with tables in tables. If the configuration is valid, the document
has no integers but signed words exactly if the words of the configuration are such (`Config.Writable`). All
that is alike to the document reads back as the configuration.

    Document 2 c.fields                                                     (document_fields)
    c.WellFormed → (c.toToml.Signed ↔ c.Writable)                           (signed_toToml)
    c.WellFormed → c.toToml.Alike v → Config.ofToml? v = some c             (ofToml?_alike)
-/

namespace MetaPool.Keeper

open Toml

variable {c : Config} {v : Value}

/-! ## Fields -/

abbrev configNames : List String :=
  ["seconds_per_block", "blocks_per_cycle", "rebalance_threshold_bps", "protocol", "deposits"]

abbrev planNames : List String :=
  ["stale_period", "default_lock_period", "admin_safe", "emergency_safe", "lp_safe", "tokens", "pools"]

abbrev tokenNames : List String := ["symbol", "decimals", "price"]

abbrev poolNames : List String :=
  ["id", "underlyer", "reserve_percentage", "withdraw_fee_bps", "arbitrage_fee_bps", "arbitrage_fee_period"]

abbrev depositNames : List String := ["depositor", "pool", "amount"]

theorem fields_distinct (c : Config) : (c.fields.map Prod.fst).Nodup := by
  show configNames.Nodup
  decide

theorem planFields_distinct (p : Plan) : ((planFields p).map Prod.fst).Nodup := by
  show planNames.Nodup
  decide

theorem flat_tokenFields (t : TokenPlan) : Flat (tokenFields t) where
  scalars := by
    simp only [tokenFields, List.forall_mem_cons]
    exact ⟨.string _, .integer _, .integer _, List.forall_mem_nil _⟩
  distinct := by
    show tokenNames.Nodup
    decide

theorem flat_poolFields (p : PoolPlan) : Flat (poolFields p) where
  scalars := by
    simp only [poolFields, List.forall_mem_cons]
    exact ⟨.string _, .string _, .integer _, .integer _, .integer _, .integer _, List.forall_mem_nil _⟩
  distinct := by
    show poolNames.Nodup
    decide

theorem flat_depositFields (d : Deposit) : Flat (depositFields d) where
  scalars := by
    simp only [depositFields, List.forall_mem_cons]
    exact ⟨.string _, .string _, .integer _, List.forall_mem_nil _⟩
  distinct := by
    show depositNames.Nodup
    decide

/-! ## Fields are documents -/

theorem document_planFields (p : Plan) : Document 1 (planFields p) := by
  have hpools : Document 1 [("pools", tablesValue (p.pools.map poolFields))] :=
    .tables nofun (List.forall_mem_map.2 fun pool _ => (flat_poolFields pool).document 0) (.nil 1)
  have htokens : Document 1 [("tokens", tablesValue (p.tokens.map tokenFields)),
      ("pools", tablesValue (p.pools.map poolFields))] :=
    .tables (by simp) (List.forall_mem_map.2 fun t _ => (flat_tokenFields t).document 0) hpools
  exact .scalar (by simp) (.integer _) <| .scalar (by simp) (.integer _) <|
    .scalar (by simp) (.string _) <| .scalar (by simp) (.string _) <| .scalar (by simp) (.string _) htokens

theorem document_fields (c : Config) : Document 2 c.fields := by
  have hdeposits : Document 2 [("deposits", tablesValue (c.deposits.map depositFields))] :=
    .tables nofun (List.forall_mem_map.2 fun d _ => (flat_depositFields d).document 1) (.nil 2)
  exact .scalar (by simp) (.integer _) <| .scalar (by simp) (.integer _) <|
    .scalar (by simp) (.integer _) <| .table (by simp) (document_planFields c.plan) hdeposits

/-! ## Integers that are signed words -/

/-- The words that the document of a configuration has to hold. -/
def Config.words (c : Config) : List UInt64 :=
  c.blocksPerCycle :: c.plan.lockPeriod :: c.deposits.map (·.amount)

/-- All words of a configuration are integers of documents. -/
def Config.Writable (c : Config) : Prop := ∀ w ∈ c.words, (w.toNat : Int) ≤ maxSignedWord

theorem not_writable_iff : ¬c.Writable ↔ ∃ w ∈ c.words, maxSignedWord < w.toNat := by
  simp [Config.Writable]

theorem signed_ofNat {n : Nat} : (Value.integer n).Signed ↔ (n : Int) ≤ maxSignedWord := by
  rw [signed_integer]
  unfold minSignedWord
  omega

theorem signed_ofBps {n : Nat} (h : n ≤ wholeBps) : (Value.integer n).Signed := by
  rw [signed_ofNat]
  unfold wholeBps at h
  unfold maxSignedWord
  omega

theorem signed_toInt (w : Int64) : (Value.integer w.toInt).Signed := signed_integer.2 (toInt_range w)

theorem bounds_of_terms {terms : PoolTerms} (h : terms.validate = .ok ()) :
    terms.reservePercentage ≤ wholePercent ∧ terms.withdrawFeeBps ≤ wholeBps ∧
      terms.arbitrageFeeBps ≤ wholeBps := by
  simp only [PoolTerms.validate, refuse_eq_ok, not_or, Nat.not_lt] at h
  exact ⟨h.1, h.2.1⟩

theorem signed_tokenFields {t : TokenPlan} (h : t.WellFormed) : (Value.table (tokenFields t)).Signed := by
  have hdecimals : t.decimals ≤ wholeBps := Nat.le_trans h.decimals (by decide)
  simp only [tokenFields, signed_table_cons]
  exact ⟨signed_string _, signed_ofBps hdecimals, signed_toInt _, signed_table_nil⟩

theorem signed_poolFields {p : PoolPlan} (h : p.terms.validate = .ok ()) :
    (Value.table (poolFields p)).Signed := by
  obtain ⟨hreserve, hwithdraw, harbitrage⟩ := bounds_of_terms h
  have hpercent : p.terms.reservePercentage ≤ wholeBps := Nat.le_trans hreserve (by decide)
  simp only [poolFields, signed_table_cons]
  exact ⟨signed_string _, signed_string _, signed_ofBps hpercent, signed_ofBps hwithdraw,
    signed_ofBps harbitrage, signed_toInt _, signed_table_nil⟩

theorem signed_depositFields {d : Deposit} :
    (Value.table (depositFields d)).Signed ↔ (d.amount.toNat : Int) ≤ maxSignedWord := by
  simp only [depositFields, signed_table_cons, signed_ofNat, signed_string, signed_table_nil, true_and, and_true]

theorem signed_planFields {p : Plan} (h : p.WellFormed) :
    (Value.table (planFields p)).Signed ↔ (p.lockPeriod.toNat : Int) ≤ maxSignedWord := by
  have htokens : (tablesValue (p.tokens.map tokenFields)).Signed :=
    signed_tables.2 (List.forall_mem_map.2 fun t ht => signed_tokenFields (h.tokens t ht))
  have hpools : (tablesValue (p.pools.map poolFields)).Signed :=
    signed_tables.2 (List.forall_mem_map.2 fun pool hpool => signed_poolFields (h.pools pool hpool).terms)
  simp only [planFields, signed_table_cons, signed_toInt, signed_ofNat, signed_string, htokens, hpools,
    signed_table_nil, true_and, and_true]

/-- The document of a valid configuration has no integers but signed words exactly if the configuration has no
larger words. -/
theorem signed_toToml (h : c.WellFormed) : c.toToml.Signed ↔ c.Writable := by
  have hdeposits : (tablesValue (c.deposits.map depositFields)).Signed ↔
      ∀ d ∈ c.deposits, (d.amount.toNat : Int) ≤ maxSignedWord := by
    rw [tablesValue, signed_tables, List.forall_mem_map]
    exact forall₂_congr fun _ _ => signed_depositFields
  simp only [Config.toToml, Config.fields, signed_table_cons, signed_toInt, signed_ofBps h.threshold,
    signed_ofNat, signed_planFields h.plan, hdeposits, signed_table_nil, true_and, and_true, Config.Writable,
    Config.words, List.forall_mem_cons, List.forall_mem_map]

/-! ## Documents are read back -/

theorem tokenOf?_alike {t : TokenPlan} (h : t.WellFormed) (hv : (Value.table (tokenFields t)).Alike v) :
    tokenOf? v = some t := by
  have hdecimals := natUpTo?_integer (Nat.le_trans h.decimals (show maxDecimals ≤ maxPercentage by decide))
  rw [tokenOf?, show v.record? tokenNames = _ from (flat_tokenFields _).record? hv]
  simp [tokenFields, Value.string?, hdecimals, int64?_integer]

theorem poolOf?_alike {p : PoolPlan} (h : p.terms.validate = .ok ())
    (hv : (Value.table (poolFields p)).Alike v) : poolOf? v = some p := by
  obtain ⟨hreserve, hwithdraw, harbitrage⟩ := bounds_of_terms h
  have hreserve' := natUpTo?_integer (Nat.le_trans hreserve (show wholePercent ≤ maxPercentage by decide))
  have hwithdraw' := natUpTo?_integer (Nat.le_trans hwithdraw (show wholeBps ≤ maxBps by decide))
  have harbitrage' := natUpTo?_integer (Nat.le_trans harbitrage (show wholeBps ≤ maxBps by decide))
  rw [poolOf?, show v.record? poolNames = _ from (flat_poolFields _).record? hv]
  simp [poolFields, Value.string?, optional, hreserve', hwithdraw', harbitrage', int64?_integer]

theorem depositOf?_alike {d : Deposit} (hv : (Value.table (depositFields d)).Alike v) :
    depositOf? v = some d := by
  rw [depositOf?, show v.record? depositNames = _ from (flat_depositFields _).record? hv]
  simp [depositFields, Value.string?, uint64?_integer]

theorem planOf?_alike {p : Plan} (h : p.WellFormed) (hv : (Value.table (planFields p)).Alike v) :
    planOf? v = some p := by
  obtain ⟨values, hrecord, hvalues⟩ := hv.record? (planFields_distinct p)
  simp only [planFields, List.map_cons, List.map_nil, List.forall₂_cons_left_iff, List.forall₂_nil_left_iff,
    alike_string, alike_integer] at hvalues
  obtain ⟨_, _, rfl, ⟨_, _, rfl, ⟨_, _, rfl, ⟨_, _, rfl, ⟨_, _, rfl, ⟨tokens, _, hvtokens,
    ⟨pools, _, hvpools, rfl, rfl⟩, rfl⟩, rfl⟩, rfl⟩, rfl⟩, rfl⟩, rfl⟩ := hvalues
  have htokens : tokens.list? tokenOf? = some p.tokens :=
    list?_alike (fun t ht _ hv => tokenOf?_alike (h.tokens t ht) hv) hvtokens
  have hpools : pools.list? poolOf? = some p.pools :=
    list?_alike (fun pool hpool _ hv => poolOf?_alike (h.pools pool hpool).terms hv) hvpools
  rw [planOf?, show v.record? planNames = _ from hrecord]
  -- from the outside in, as else every read is simplified once for each one before it
  simp only [List.map_cons, List.map_nil, ↓Option.bind_eq_bind, ↓Option.bind_some, Option.pure_def,
    Value.string?, int64?_integer, uint64?_integer, htokens, hpools]

/-- What is alike to the document of a valid configuration is read as the configuration. -/
theorem ofToml?_alike (h : c.WellFormed) (hv : c.toToml.Alike v) : Config.ofToml? v = some c := by
  have hthreshold := natUpTo?_integer (Nat.le_trans h.threshold (show wholeBps ≤ maxBps by decide))
  obtain ⟨values, hrecord, hvalues⟩ := hv.record? (fields_distinct c)
  simp only [Config.fields, List.map_cons, List.map_nil, List.forall₂_cons_left_iff,
    List.forall₂_nil_left_iff, alike_integer] at hvalues
  obtain ⟨_, _, rfl, ⟨_, _, rfl, ⟨_, _, rfl, ⟨plan, _, hvplan, ⟨deposits, _, hvdeposits, rfl, rfl⟩, rfl⟩,
    rfl⟩, rfl⟩, rfl⟩ := hvalues
  have hplan : planOf? plan = some c.plan := planOf?_alike h.plan hvplan
  have hdeposits : deposits.list? depositOf? = some c.deposits :=
    list?_alike (fun d _ _ hv => depositOf?_alike hv) hvdeposits
  rw [Config.ofToml?, show v.record? configNames = _ from hrecord]
  simp only [List.map_cons, List.map_nil, ↓Option.bind_eq_bind, ↓Option.bind_some, Option.pure_def, optional,
    int64?_integer, uint64?_integer, hthreshold, hplan, hdeposits]

end MetaPool.Keeper
