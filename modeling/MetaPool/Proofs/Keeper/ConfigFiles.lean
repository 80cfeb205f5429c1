import MetaPool.Proofs.Keeper.ConfigDocument
import MetaPool.Proofs.Toml.Documents

/-!
# Configuration files

With a codec that is faithful to tables in tables, a valid configuration is written to a file unless a word of it
is no integer of a document, and the file is loaded as the configuration. Whatever a file holds, and whatever the
codec reads in it, only a valid configuration is loaded from it. A document may leave out the deposits and the
terms of pools, and is then read as with the default ones (`fillConfig`).

    c.validate = .ok () → c.Writable →
      ∃ text, c.print codec = .ok text ∧ Config.parse text codec = .ok c  (parse_of_print)
    Config.parse text codec = .ok c → c.validate = .ok ()                 (parse_eq_ok)
    Config.ofToml? (fillConfig v) = Config.ofToml? v                      (ofToml?_fillConfig)

All of it together is `load_of_print`.
-/

namespace MetaPool.Keeper

open Toml

variable {c : Config} {v : Value} {codec : Codec}

/-! ## Files are loaded as they were written -/

theorem print_eq_error_iff (h : c.validate = .ok ()) (hcodec : codec.Faithful 2) :
    c.print codec = .error .unwritableConfig ↔ ¬c.Writable := by
  have hprinted := hcodec.isSome_print? _ (document_fields c)
  rw [← Config.toToml, signed_toToml (Config.validate_eq_ok.1 h)] at hprinted
  rw [← hprinted, Config.print]
  cases codec.print? c.toToml <;> simp

theorem parse_of_print (h : c.validate = .ok ()) (hcodec : codec.Faithful 2) (hwritable : c.Writable) :
    ∃ text, c.print codec = .ok text ∧ Config.parse text codec = .ok c := by
  have hwell := Config.validate_eq_ok.1 h
  obtain ⟨text, hprint⟩ := Option.isSome_iff_exists.1
    ((hcodec.isSome_print? _ (document_fields c)).2 ((signed_toToml hwell).2 hwritable))
  obtain ⟨v, hread, halike⟩ := hcodec.read?_print? _ _ (document_fields c) hprint
  refine ⟨text, ?_, ?_⟩
  · rw [Config.print, Config.toToml, hprint]
  · have hdocument : (codec.read? text >>= Config.ofToml?) = some c := by
      rw [hread, Option.bind_eq_bind, Option.bind_some, ofToml?_alike hwell halike]
    rw [Config.parse, hdocument]
    simp only [h]
    rfl

/-- What is parsed is what the document says, and valid. -/
theorem parse_eq_ok {text : String} : Config.parse text codec = .ok c ↔
    ∃ v, codec.read? text = some v ∧ Config.ofToml? v = some c ∧ c.validate = .ok () := by
  have hconfig : (∃ v, codec.read? text = some v ∧ Config.ofToml? v = some c ∧ c.validate = .ok ()) ↔
      (codec.read? text >>= Config.ofToml?) = some c ∧ c.validate = .ok () := by
    rw [Option.bind_eq_bind, Option.bind_eq_some_iff]
    exact ⟨fun ⟨v, hread, hv, hvalid⟩ => ⟨⟨v, hread, hv⟩, hvalid⟩,
      fun ⟨⟨v, hread, hv⟩, hvalid⟩ => ⟨v, hread, hv, hvalid⟩⟩
  rw [hconfig, Config.parse]
  cases codec.read? text >>= Config.ofToml? with
  | none => simp
  | some config =>
    cases hvalid : config.validate with
    | ok =>
      simp only [hvalid, bind, Except.bind, pure, Except.pure, Except.ok.injEq, Option.some.injEq, iff_self_and]
      rintro rfl
      exact hvalid
    | error =>
      simp only [hvalid, bind, Except.bind, reduceCtorEq, Option.some.injEq, false_iff, not_and]
      rintro rfl hok
      rw [hvalid] at hok
      cases hok

theorem load_eq_ok {file : Option ByteArray} : Config.load file codec = .ok c ↔
    ∃ text, file >>= String.fromUTF8? = some text ∧ Config.parse text codec = .ok c := by
  unfold Config.load
  cases file >>= String.fromUTF8? <;> simp

theorem fromUTF8?_toUTF8 (text : String) : String.fromUTF8? text.toUTF8 = some text := by
  have hvalid : text.toUTF8.IsValidUTF8 := text.isValidUTF8
  rw [String.fromUTF8?, dif_pos hvalid]
  rfl

/-! ## What is left out is read as the default -/

/-- A pool has the default terms for those that a value leaves out. -/
structure DefaultsPool (v : Value) (p : PoolPlan) : Prop where
  reserve : v.field? poolNames "reserve_percentage" = none →
    p.terms.reservePercentage = (default : PoolTerms).reservePercentage
  withdrawFee : v.field? poolNames "withdraw_fee_bps" = none →
    p.terms.withdrawFeeBps = (default : PoolTerms).withdrawFeeBps
  arbitrageFee : v.field? poolNames "arbitrage_fee_bps" = none →
    p.terms.arbitrageFeeBps = (default : PoolTerms).arbitrageFeeBps
  arbitragePeriod : v.field? poolNames "arbitrage_fee_period" = none →
    p.terms.arbitragePeriod = (default : PoolTerms).arbitragePeriod

/-- A configuration has no deposits where a document leaves them out, and default terms for those that it
leaves out in its pools. -/
structure DefaultsConfig (v : Value) (c : Config) : Prop where
  deposits : v.field? configNames "deposits" = none → c.deposits = []
  pools : ∃ plan pools, v.field? configNames "protocol" = some plan ∧
    plan.field? planNames "pools" = some (.array pools) ∧ List.Forall₂ DefaultsPool pools c.plan.pools

theorem optional_none {α : Type} {otherwise a : α} {read : Value → Option α} {field : Option Value}
    (h : optional otherwise read field = some a) (hnone : field = none) : a = otherwise := by
  subst hnone
  exact (Option.some.inj h).symm

theorem defaults_of_poolOf? {p : PoolPlan} (h : poolOf? v = some p) : DefaultsPool v p := by
  unfold poolOf? at h
  obtain ⟨fields, hfields, h⟩ := Option.bind_eq_some_iff.1 h
  obtain rfl := record?_eq_some (by decide) hfields
  simp only [List.map_cons, List.map_nil, Option.bind_eq_bind, Option.bind_eq_some_iff, Option.pure_def,
    Option.some.injEq] at h
  obtain ⟨_, -, _, -, _, -, _, -, _, hreserve, _, hwithdraw, _, harbitrage, _, hperiod, rfl⟩ := h
  exact ⟨optional_none hreserve, optional_none hwithdraw, optional_none harbitrage, optional_none hperiod⟩

theorem defaults_of_planOf? {p : Plan} (h : planOf? v = some p) :
    ∃ pools, v.field? planNames "pools" = some (.array pools) ∧ List.Forall₂ DefaultsPool pools p.pools := by
  unfold planOf? at h
  obtain ⟨fields, hfields, h⟩ := Option.bind_eq_some_iff.1 h
  obtain rfl := record?_eq_some (by decide) hfields
  simp only [List.map_cons, List.map_nil, ↓Option.bind_eq_bind, ↓Option.bind_eq_some_iff, Option.pure_def,
    Option.some.injEq] at h
  obtain ⟨_, -, _, -, _, -, _, -, _, -, _, -, _, -, _, -, _, -, _, -, _, -, _, -, value, hvalue, pools, hpools,
    rfl⟩ := h
  obtain ⟨elements, rfl, hread⟩ := list?_eq_some hpools
  exact ⟨elements, hvalue, hread.imp fun _ _ => defaults_of_poolOf?⟩

theorem defaults_of_ofToml? (h : Config.ofToml? v = some c) : DefaultsConfig v c := by
  unfold Config.ofToml? at h
  obtain ⟨fields, hfields, h⟩ := Option.bind_eq_some_iff.1 h
  obtain rfl := record?_eq_some (by decide) hfields
  simp only [List.map_cons, List.map_nil, Option.bind_eq_bind, Option.bind_eq_some_iff, Option.pure_def,
    Option.some.injEq] at h
  obtain ⟨_, -, _, -, _, -, _, -, _, -, _, -, plan, hplan, _, hread, deposits, hdeposits, rfl⟩ := h
  obtain ⟨pools, hpools, hdefaults⟩ := defaults_of_planOf? hread
  exact ⟨optional_none hdeposits, plan, pools, hplan, hpools, hdefaults⟩

/-! ## Documents with the defaults filled in -/

/-- The terms of a pool on default terms. -/
def defaultTerms : List (String × Value) := (poolFields ⟨"", "", default⟩).drop 2

/-- A pool with the default terms filled in. -/
def fillPool : Value → Value
  | .table entries => .table (withDefaults defaultTerms entries)
  | v => v

def fillPools : Value → Value
  | .array pools => .array (pools.map fillPool)
  | v => v

/-- A plan with the default terms filled in at its pools. -/
def fillPlan : Value → Value
  | .table entries => .table (changeEntry "pools" fillPools entries)
  | v => v

/-- A document with the default terms and deposits filled in. -/
def fillConfig : Value → Value
  | .table entries =>
    .table (withDefaults [("deposits", .array [])] (changeEntry "protocol" fillPlan entries))
  | v => v

theorem optional_getD {α : Type} {otherwise : α} {read : Value → Option α} {field : Option Value}
    (h : read v = some otherwise) :
    optional otherwise read (some (field.getD v)) = optional otherwise read field := by
  cases field with
  | none => exact h
  | some _ => rfl

theorem poolOf?_fillPool (v : Value) : poolOf? (fillPool v) = poolOf? v := by
  cases v with
  | table entries =>
    have hreserve := natUpTo?_integer (show (default : PoolTerms).reservePercentage ≤ maxPercentage by decide)
    have hwithdraw := natUpTo?_integer (show (default : PoolTerms).withdrawFeeBps ≤ maxBps by decide)
    have harbitrage := natUpTo?_integer (show (default : PoolTerms).arbitrageFeeBps ≤ maxBps by decide)
    have hperiod := int64?_integer (default : PoolTerms).arbitragePeriod
    have hfilled : (fillPool (.table entries)).record? poolNames = some [entries.lookup "id",
        entries.lookup "underlyer",
        some ((entries.lookup "reserve_percentage").getD (.integer (default : PoolTerms).reservePercentage)),
        some ((entries.lookup "withdraw_fee_bps").getD (.integer (default : PoolTerms).withdrawFeeBps)),
        some ((entries.lookup "arbitrage_fee_bps").getD (.integer (default : PoolTerms).arbitrageFeeBps)),
        some ((entries.lookup "arbitrage_fee_period").getD
          (.integer (default : PoolTerms).arbitragePeriod.toInt))] := by
      simp [fillPool, Value.record?, lookup_withDefaults, defaultTerms, poolFields, List.lookup_cons]
    rw [poolOf?, hfilled]
    simp only [poolOf?, Value.record?, List.map_cons, List.map_nil, ↓Option.bind_eq_bind, ↓Option.bind_some,
      optional_getD hreserve, optional_getD hwithdraw, optional_getD harbitrage, optional_getD hperiod]
  | _ => rfl

theorem list?_fillPools (v : Value) : (fillPools v).list? poolOf? = v.list? poolOf? := by
  cases v with
  | array pools =>
    have hpools : (fun v => poolOf? (fillPool v)) = poolOf? := funext poolOf?_fillPool
    rw [fillPools, Value.list?, Value.list?, List.mapM_map]
    exact congrArg pools.mapM hpools
  | _ => rfl

theorem planOf?_fillPlan (v : Value) : planOf? (fillPlan v) = planOf? v := by
  cases v with
  | table entries =>
    have hplain : (Value.table entries).record? planNames = some [entries.lookup "stale_period",
        entries.lookup "default_lock_period", entries.lookup "admin_safe", entries.lookup "emergency_safe",
        entries.lookup "lp_safe", entries.lookup "tokens", entries.lookup "pools"] := rfl
    have hfilled : (fillPlan (.table entries)).record? planNames = some [entries.lookup "stale_period",
        entries.lookup "default_lock_period", entries.lookup "admin_safe", entries.lookup "emergency_safe",
        entries.lookup "lp_safe", entries.lookup "tokens", (entries.lookup "pools").map fillPools] := by
      simp [fillPlan, Value.record?, lookup_changeEntry]
    rw [planOf?, hfilled, planOf?, hplain, Option.bind_eq_bind, Option.bind_some, Option.bind_some]
    -- the six fields before the pools are looked up and read alike
    iterate 12 refine bind_congr fun _ => ?_
    rw [Option.bind_eq_bind, Option.bind_map]
    refine Option.bind_congr fun pools _ => ?_
    rw [Function.comp, list?_fillPools]
  | _ => rfl

theorem ofToml?_fillConfig (v : Value) : Config.ofToml? (fillConfig v) = Config.ofToml? v := by
  cases v with
  | table entries =>
    have hdeposits : (Value.array []).list? depositOf? = some [] := rfl
    simp [Config.ofToml?, fillConfig, Value.record?, lookup_withDefaults, lookup_changeEntry, List.lookup_cons,
      Option.bind_map, planOf?_fillPlan, optional_getD hdeposits]
  | _ => rfl

/-! ## Files -/

/-- Let a codec be faithful to documents with tables in tables. A valid configuration is not written exactly if
a word of it is no integer of a document, and else the file that is written is loaded as the configuration.
Whatever is loaded from a file is valid and has the defaults for what the file leaves out, and leaving these out
is the same as writing them. -/
theorem load_of_print (codec : Codec) (hcodec : codec.Faithful 2) :
    (∀ c : Config, c.validate = .ok () →
      (c.print codec = .error .unwritableConfig ↔ ∃ w ∈ c.words, maxSignedWord < w.toNat) ∧
      (c.print codec = .error .unwritableConfig ∨
        ∃ text, c.print codec = .ok text ∧ Config.load (some text.toUTF8) codec = .ok c)) ∧
    (∀ file c, Config.load file codec = .ok c → c.validate = .ok () ∧ ∃ text v,
      file >>= String.fromUTF8? = some text ∧ codec.read? text = some v ∧ DefaultsConfig v c) ∧
    ∀ v, Config.ofToml? (fillConfig v) = Config.ofToml? v := by
  refine ⟨fun c hvalid => ?_, fun file c hload => ?_, ofToml?_fillConfig⟩
  · have herror := print_eq_error_iff hvalid hcodec
    refine ⟨herror.trans not_writable_iff, ?_⟩
    by_cases hwritable : c.Writable
    · obtain ⟨text, hprint, hparse⟩ := parse_of_print hvalid hcodec hwritable
      exact .inr ⟨text, hprint, load_eq_ok.2 ⟨text, fromUTF8?_toUTF8 text, hparse⟩⟩
    · exact .inl (herror.2 hwritable)
  · obtain ⟨text, htext, hparse⟩ := load_eq_ok.1 hload
    obtain ⟨v, hread, hv, hvalid⟩ := parse_eq_ok.1 hparse
    exact ⟨hvalid, text, v, htext, hread, defaults_of_ofToml? hv⟩

/-- The sample with names that need escapes, and terms of its own. -/
def quotedConfig : Config :=
  { Config.sample with
    plan := { (default : Plan) with
      adminSafe := "safe \"of\" the 'admin'\n"
      lpSafe := "C:\\safe\t\u0001 \u00e9"
      pools := [⟨"daiPool", "DAI", ⟨100, 0, 10000, 0⟩⟩, ⟨"usdcPool", "USDC", default⟩,
        ⟨"usdtPool", "USDT", default⟩] } }

/-- The same with a cycle of 2^63 blocks, which are too many for a document. -/
def endlessConfig : Config := { quotedConfig with blocksPerCycle := 9223372036854775808 }

/-- The codec of this library is faithful, so what it prints of a configuration it loads. -/
theorem load_of_print_quotedConfig :
    Codec.pretty.Faithful 2 ∧
    (∃ text v, quotedConfig.print .pretty = .ok text ∧
      Config.load (some text.toUTF8) .pretty = .ok quotedConfig ∧
      Codec.pretty.read? text = some v ∧ DefaultsConfig v quotedConfig) ∧
    endlessConfig.print .pretty = .error .unwritableConfig := by
  have hcodec : Codec.pretty.Faithful 2 := pretty_faithful (by decide)
  obtain ⟨hwritten, hloaded, -⟩ := load_of_print .pretty hcodec
  have hvalid : quotedConfig.validate = .ok () := by decide +kernel
  have hvalid' : endlessConfig.validate = .ok () := by decide +kernel
  have hwords : ¬∃ w ∈ quotedConfig.words, maxSignedWord < w.toNat := by decide
  have hwords' : ∃ w ∈ endlessConfig.words, maxSignedWord < w.toNat :=
    ⟨9223372036854775808, List.mem_cons_self, by decide⟩
  obtain ⟨herror, hfails | ⟨text, hprint, hload⟩⟩ := hwritten quotedConfig hvalid
  · exact absurd (herror.1 hfails) hwords
  · obtain ⟨-, text', v, htext, hread, hdefaults⟩ := hloaded _ _ hload
    obtain rfl : text = text' := Option.some.inj ((fromUTF8?_toUTF8 text).symm.trans htext)
    exact ⟨hcodec, ⟨text, v, hprint, hload, hread, hdefaults⟩, (hwritten _ hvalid').1.2 hwords'⟩

end MetaPool.Keeper
