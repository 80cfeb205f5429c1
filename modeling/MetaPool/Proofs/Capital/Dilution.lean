import MetaPool.Proofs.Capital.Footprint
import MetaPool.Proofs.Capital.Returned
import MetaPool.Proofs.Value.Apportion

/-!
# Who pays for the rounding

The meta shares of every leg are rounded down, whichever way it moves. A send mints at most its part, so
that what stands behind each meta share never falls, and splitting an entry up mints no more. A recall burns
at most its part, so that what stands behind each remaining meta share can fall: together they lose less
than one meta share's worth for each leg that moves (`recall_dilutes_below_one_each`), and they do lose
where a leg is rounded (`recalled_and_diluted`).

With TVL `T`, supply `S` and value `V`, and `n` legs that move with `D` meta shares together:

    D * T ≤ S * V ∧ S * V + n ≤ (D + n) * T                         (bounds_of_prorated)
    op.isSend = true → T * (S + D) ≤ (T + V) * S                    (send_never_dilutes)
    op.isSend = false → T * (S - D) + n ≤ (T - V) * S + n * T       (recall_dilutes_below_one_each)
-/

namespace MetaPool

/-! ## The legs of a rebalance -/

namespace Operation

open Protocol

/-- The legs of a rebalance: its entries with the meta shares for them. -/
def legs (op : Operation) (p : Protocol) : Except Fault (List Leg) := do
  let entries ← op.entries p
  let deltas ← p.metaDeltas (entries.map (·.1)) (entries.map (·.2))
  return entries.zip deltas

variable {p q : Protocol} {op : Operation} {out : Outcome}

theorem legs_eq_ok {legs : List Leg} : op.legs p = .ok legs ↔ ∃ entries deltas,
    op.entries p = .ok entries ∧
      p.metaDeltas (entries.map (·.1)) (entries.map (·.2)) = .ok deltas ∧ legs = entries.zip deltas := by
  simp only [Operation.legs, except_bind_eq_ok, except_pure_eq_ok]
  grind

/-- A successful rebalance sends its legs, or recalls them. They are for the pools that it names. -/
theorem legs_of_ok (hop : op.isRebalance = true) (h : op.perform p = .ok out q) :
    ∃ legs, op.legs p = .ok legs ∧ op.listed p = .ok (legs.map (·.1.1)) ∧
      (op.isSend = true ∧ Sent legs p q ∨ op.isSend = false ∧ Sent legs q p) := by
  obtain ⟨pools, amounts, hlisted, hentries, hbatch⟩ := batch_of_rebalance hop h
  have hlegs {deltas : List Nat} (hdeltas : p.metaDeltas pools amounts = .ok deltas) :
      op.legs p = .ok ((pools.zip amounts).zip deltas) ∧
        op.listed p = .ok (((pools.zip amounts).zip deltas).map (·.1.1)) := by
    have hlength := (metaDeltas_eq_ok.1 hdeltas).1
    refine ⟨legs_eq_ok.2 ⟨_, deltas, hentries, ?_, rfl⟩, ?_⟩
    · rw [List.map_fst_zip hlength.le, List.map_snd_zip hlength.ge, hdeltas]
    · rw [pools_of_metaDeltas hdeltas, hlisted]
  rcases hbatch with ⟨hsend, hbatch⟩ | ⟨hrecall, hbatch⟩
  · obtain ⟨deltas, hdeltas, hsent⟩ := sent_of_sendBatch hbatch
    exact ⟨_, (hlegs hdeltas).1, (hlegs hdeltas).2, .inl ⟨hsend, hsent⟩⟩
  · obtain ⟨deltas, hdeltas, hsent⟩ := sent_of_recallBatch hbatch
    exact ⟨_, (hlegs hdeltas).1, (hlegs hdeltas).2, .inr ⟨hrecall, hsent⟩⟩

theorem isRebalance_of_isSend (hsend : op.isSend = true) : op.isRebalance = true := by
  cases op <;> first | rfl | cases hsend

theorem sent_of_send (hsend : op.isSend = true) (h : op.perform p = .ok out q) :
    ∃ legs, op.legs p = .ok legs ∧ Sent legs p q := by
  obtain ⟨legs, hlegs, -, ⟨-, hsent⟩ | ⟨hrecall, -⟩⟩ := legs_of_ok (isRebalance_of_isSend hsend) h
  · exact ⟨legs, hlegs, hsent⟩
  · exact absurd (hsend.symm.trans hrecall) nofun

/-- A recall takes its legs back: what it leaves behind is what sending them would start from. -/
theorem sent_of_recall (hop : op.isRebalance = true) (hrecall : op.isSend = false)
    (h : op.perform p = .ok out q) : ∃ legs, op.legs p = .ok legs ∧ Sent legs q p := by
  obtain ⟨legs, hlegs, -, ⟨hsend, -⟩ | ⟨-, hsent⟩⟩ := legs_of_ok hop h
  · exact absurd (hrecall.symm.trans hsend) nofun
  · exact ⟨legs, hlegs, hsent⟩

end Operation

namespace Protocol

variable {p q : Protocol} {a : Address} {tvl : Nat} {legs : List Leg}

/-! ## The value that moves -/

/-- The worth of amounts of the underlyers of pools, each on its own, at the prices of now. -/
def worthOf (p : Protocol) (moves : List (Address × Nat)) : Except Fault Nat := do
  return (← moves.mapM fun move => p.underlyerValue move.1 move.2).sum

/-- The worth of what a leg moves. -/
def movedValue (p : Protocol) (leg : Leg) : Nat := shown (p.underlyerValue leg.move.1 leg.move.2)

/-- The meta shares of a leg are the part of the supply, rounded down, that what it moves is of the TVL. -/
structure Prorated (p : Protocol) (tvl : Nat) (leg : Leg) : Prop where
  value : p.underlyerValue leg.move.1 leg.move.2 = .ok (p.movedValue leg)
  delta : leg.2 = p.metaToken.supply * p.movedValue leg / tvl
  skipped : leg.2 = 0 → p.movedValue leg = 0

/-- A leg that is skipped moves nothing, and any other its amount. -/
theorem prorated_of_delta {leg : Leg} {v : Nat} (hvalue : p.underlyerValue leg.1.1 leg.1.2 = .ok v)
    (hdelta : Checked.prorate p.metaToken.supply v tvl = .ok leg.2) : Prorated p tvl leg := by
  by_cases hskip : leg.2 = 0
  · have hmove : p.underlyerValue leg.move.1 leg.move.2 = .ok 0 := by
      simp only [Leg.move, movedFor, hskip, ↓reduceIte, underlyerValue]
    have hmoved : p.movedValue leg = 0 := by rw [movedValue, hmove, shown_ok]
    exact ⟨by rw [hmoved, hmove], by simp [hskip, hmoved], fun _ => hmoved⟩
  · have hmove : p.underlyerValue leg.move.1 leg.move.2 = .ok v := by
      simp only [Leg.move, movedFor, hskip, ↓reduceIte, hvalue]
    have hmoved : p.movedValue leg = v := by rw [movedValue, hmove, shown_ok]
    refine ⟨by rw [hmoved, hmove], ?_, fun hnone => absurd hnone hskip⟩
    rw [hmoved]
    exact (Checked.prorate_eq_ok.1 hdelta).2.1

theorem Prorated.moves_iff {leg : Leg} (h : Prorated p tvl leg) : leg.2 ≠ 0 ↔ 0 < p.movedValue leg := by
  constructor
  · intro hmoves
    refine Nat.pos_of_ne_zero fun hnone => hmoves ?_
    rw [h.delta, hnone, Nat.mul_zero, Nat.zero_div]
  · intro hworth hskip
    rw [h.skipped hskip] at hworth
    exact Nat.lt_irrefl 0 hworth

/-- The legs of a rebalance are those of its entries, which have all read the same TVL. -/
theorem read_of_legs {op : Operation} (h : op.legs p = .ok legs) :
    op.entries p = .ok (legs.map (·.1)) ∧
      ∃ tvl, (if p.metaToken.supply = 0 then .ok 0 else p.tvl) = .ok tvl ∧
        ∀ leg ∈ legs, p.metaDeltaAt tvl leg.1 = .ok leg.2 := by
  obtain ⟨entries, deltas, hentries, hdeltas, rfl⟩ := Operation.legs_eq_ok.1 h
  obtain ⟨-, tvl, htvl, hdeltas⟩ := metaDeltas_eq_ok.1 hdeltas
  simp only [List.zip_map', Prod.mk.eta, List.map_id'] at hdeltas
  have hread := forall₂_of_mapM hdeltas
  rw [List.map_fst_zip hread.length_eq.le]
  exact ⟨hentries, tvl, htvl, fun leg hleg => List.forall₂_zip hread hleg⟩

/-- While there are meta shares and a TVL, all legs have their parts of the supply. -/
theorem rate_of_legs {op : Operation} (h : op.legs p = .ok legs) (htvl : p.tvl = .ok tvl)
    (hpos : tvl ≠ 0) (hsupply : p.metaToken.supply ≠ 0) :
    ∀ leg ∈ legs, ∃ v, p.underlyerValue leg.1.1 leg.1.2 = .ok v ∧
      Checked.prorate p.metaToken.supply v tvl = .ok leg.2 := by
  obtain ⟨-, tvl', htvl', hread⟩ := read_of_legs h
  rw [if_neg hsupply] at htvl'
  obtain rfl : tvl = tvl' := ok_unique htvl htvl'
  intro leg hleg
  obtain ⟨s, price, decimals, hs, hprice, hdecimals, hdelta⟩ := metaDeltaAt_eq_ok.1 (hread leg hleg)
  obtain ⟨v, hworth, hrate⟩ := metaDelta_eq_ok.1 hdelta
  rw [if_neg (not_or.2 ⟨hpos, hsupply⟩)] at hrate
  exact ⟨v, underlyerValue_of_worth hs hprice hdecimals hworth, hrate⟩

theorem prorated_of_legs {op : Operation} (h : op.legs p = .ok legs) (htvl : p.tvl = .ok tvl)
    (hpos : tvl ≠ 0) (hsupply : p.metaToken.supply ≠ 0) : ∀ leg ∈ legs, Prorated p tvl leg := by
  intro leg hleg
  obtain ⟨v, hvalue, hdelta⟩ := rate_of_legs h htvl hpos hsupply leg hleg
  exact prorated_of_delta hvalue hdelta

theorem worthOf_of_prorated (h : ∀ leg ∈ legs, Prorated p tvl leg) :
    p.worthOf (legs.map Leg.move) = .ok (legs.map p.movedValue).sum := by
  refine except_bind_eq_ok.2 ⟨legs.map p.movedValue, ?_, rfl⟩
  rw [List.mapM_map]
  exact mapM_eq_ok fun leg hleg => (h leg hleg).value

/-- All meta shares of a batch are worth at most what it moves, and less by less than one meta share for
each leg that moves. -/
theorem bounds_of_prorated (hpos : 0 < tvl) (h : ∀ leg ∈ legs, Prorated p tvl leg) :
    (legs.map (·.2)).sum * tvl ≤ p.metaToken.supply * (legs.map p.movedValue).sum ∧
      p.metaToken.supply * (legs.map p.movedValue).sum + legs.countP (·.2 ≠ 0) ≤
        ((legs.map (·.2)).sum + legs.countP (·.2 ≠ 0)) * tvl ∧
      ((legs.map (·.2)).sum * tvl = p.metaToken.supply * (legs.map p.movedValue).sum ↔
        ∀ leg ∈ legs, tvl ∣ p.metaToken.supply * p.movedValue leg) := by
  have hdeltas : legs.map (·.2) =
      (legs.map p.movedValue).map fun v => p.metaToken.supply * v / tvl := by
    rw [List.map_map]
    exact List.map_congr_left fun leg hleg => (h leg hleg).delta
  have hcount : legs.countP (·.2 ≠ 0) = (legs.map p.movedValue).countP (0 < ·) := by
    rw [List.countP_map]
    refine List.countP_congr fun leg hleg => ?_
    simpa using (h leg hleg).moves_iff
  rw [hcount, hdeltas]
  refine ⟨sum_floor_mul_le _ _ _, mul_sum_add_count_le _ hpos _, ?_⟩
  rw [sum_floor_mul_eq_iff, List.forall_mem_map]

/-! ## Recalls -/

/-- A recall that succeeds while there are meta shares and a TVL moves `V` out of the LP account and burns
the meta shares of its legs. What then stands behind the remaining ones has fallen by less than one meta
share for each leg that moves, and not at all exactly if no leg is rounded. -/
theorem recall_dilutes_below_one_each (p : Protocol) (op : Operation) (hop : op.isRebalance = true)
    (hrecall : op.isSend = false) (out : Outcome) (q : Protocol) (hok : op.perform p = .ok out q) (T : Nat)
    (htvl : p.tvl = .ok T) (hpos : T ≠ 0) (hsupply : p.metaToken.supply ≠ 0) :
    ∃ legs V, op.legs p = .ok legs ∧ Sent legs q p ∧ p.worthOf (legs.map Leg.move) = .ok V ∧
      (V ≤ T →
        T * q.metaToken.supply + legs.countP (·.2 ≠ 0) ≤
          (T - V) * p.metaToken.supply + legs.countP (·.2 ≠ 0) * T ∧
        (T * q.metaToken.supply ≤ (T - V) * p.metaToken.supply ↔
          ∀ leg ∈ legs, ∀ v, p.underlyerValue leg.move.1 leg.move.2 = .ok v →
            T ∣ p.metaToken.supply * v)) := by
  obtain ⟨legs, hlegs, hsent⟩ := Operation.sent_of_recall hop hrecall hok
  have hprorated := prorated_of_legs hlegs htvl hpos hsupply
  obtain ⟨hle, hlt, hexact⟩ := bounds_of_prorated (Nat.pos_of_ne_zero hpos) hprorated
  refine ⟨legs, _, hlegs, hsent, worthOf_of_prorated hprorated, fun hV => ?_⟩
  generalize (legs.map p.movedValue).sum = V at hV hle hlt hexact
  have hbehind : (T - V) * p.metaToken.supply + p.metaToken.supply * V =
      T * q.metaToken.supply + (legs.map (·.2)).sum * T := by
    calc (T - V) * p.metaToken.supply + p.metaToken.supply * V
        = T * p.metaToken.supply := by
          rw [Nat.mul_comm p.metaToken.supply, ← Nat.add_mul, Nat.sub_add_cancel hV]
      _ = T * q.metaToken.supply + (legs.map (·.2)).sum * T := by
          rw [hsent.metaSupply, Nat.mul_add, Nat.mul_comm (legs.map (·.2)).sum]
  have hvalues : (∀ leg ∈ legs, T ∣ p.metaToken.supply * p.movedValue leg) ↔ ∀ leg ∈ legs, ∀ v,
      p.underlyerValue leg.move.1 leg.move.2 = .ok v → T ∣ p.metaToken.supply * v := by
    refine forall₂_congr fun leg hleg => ⟨fun hdvd v hv => ?_, fun hdvd => ?_⟩
    · rwa [← ok_unique (hprorated leg hleg).value hv]
    · exact hdvd _ (hprorated leg hleg).value
  rw [Nat.add_mul] at hlt
  refine ⟨by omega, ?_⟩
  rw [← hvalues, ← hexact]
  omega

/-- Two pools have a hundred thousand meta shares each, and the LP account is said to hold two thousand
dollars. -/
def twoHalves : Protocol :=
  initial.run [.mintTokens ⟨"USDC"⟩ ⟨"usdcPool"⟩ 1, .mintTokens ⟨"USDT"⟩ ⟨"usdtPool"⟩ 1,
    .sendByHand ⟨"emergencySafe"⟩ [⟨"usdcPool"⟩, ⟨"usdtPool"⟩] [1, 1], .passBlocks 135,
    .mintTokens ⟨"USDC"⟩ ⟨"lpAccount"⟩ 999995000, .publishTvl 200000000000]

/-- Takes back what is worth all meta shares of one of the pools but half a share. -/
def recallToHalfShare : Operation := .recallByHand ⟨"emergencySafe"⟩ [⟨"usdcPool"⟩] [999995000]

theorem read_twoHalves : recallToHalfShare.fails twoHalves = false ∧
    twoHalves.tvl.toOption = some 200000000000 ∧ twoHalves.metaToken.supply = 200000 ∧
    (twoHalves.worthOf [(⟨"usdcPool"⟩, 999995000)]).toOption = some 99999500000 ∧
    (recallToHalfShare.legs twoHalves).toOption = some [((⟨"usdcPool"⟩, 999995000), 99999)] := by
  decide +kernel

theorem recall_dilutes_below_one_each_twoHalves :
    ∃ out q, recallToHalfShare.perform twoHalves = .ok out q ∧
      twoHalves.worthOf [(⟨"usdcPool"⟩, 999995000)] = .ok 99999500000 ∧
      200000000000 * q.metaToken.supply + 1 ≤
        (200000000000 - 99999500000) * twoHalves.metaToken.supply + 1 * 200000000000 := by
  obtain ⟨hruns, htvl, hsupply, hworth, hlegs⟩ := read_twoHalves
  obtain ⟨out, hok⟩ := perform_of_not_fails hruns
  obtain ⟨legs, V, hlegs', -, hV, hbound⟩ := recall_dilutes_below_one_each twoHalves recallToHalfShare rfl
    rfl out _ hok 200000000000 (eq_ok_of_toOption htvl) (by decide) (by rw [hsupply]; decide)
  obtain rfl := ok_unique hlegs' (eq_ok_of_toOption hlegs)
  obtain rfl : V = 99999500000 := ok_unique hV (eq_ok_of_toOption hworth)
  have hcount : List.countP (·.2 ≠ 0) [(((⟨"usdcPool"⟩, 999995000), 99999) : Leg)] = 1 := by decide
  obtain ⟨hbehind, -⟩ := hbound (by decide)
  simp only [hcount] at hbehind
  exact ⟨out, _, hok, eq_ok_of_toOption hworth, hbehind⟩

/-- The recall burns half a meta share less than what it takes back is worth, and what stands behind each
remaining meta share falls. -/
theorem recalled_and_diluted :
    Reachable twoHalves ∧ twoHalves.tvl = .ok 200000000000 ∧ twoHalves.metaToken.supply = 200000 ∧
      ∃ out q, recallToHalfShare.perform twoHalves = .ok out q ∧
        twoHalves.worthOf [(⟨"usdcPool"⟩, 999995000)] = .ok 99999500000 ∧
        q.tokens.held ⟨"USDC"⟩ ⟨"usdcPool"⟩ = 999995000 ∧
        ¬ 200000000000 * q.metaToken.supply ≤
          (200000000000 - 99999500000) * twoHalves.metaToken.supply := by
  obtain ⟨hruns, htvl, hsupply, hworth, -⟩ := read_twoHalves
  obtain ⟨out, q, hok⟩ : ∃ out q, recallToHalfShare.perform twoHalves = .ok out q :=
    ⟨_, _, (perform_of_not_fails hruns).choose_spec⟩
  obtain ⟨hheld, hsupply'⟩ : q.tokens.held ⟨"USDC"⟩ ⟨"usdcPool"⟩ = 999995000 ∧
      q.metaToken.supply = 100001 := by
    rw [← after_of_ok hok]
    decide +kernel
  refine ⟨reachable_initial.run _, eq_ok_of_toOption htvl, hsupply, out, q, hok, eq_ok_of_toOption hworth,
    hheld, ?_⟩
  rw [hsupply', hsupply]
  decide

/-! ## Sends -/

/-- A leg has the most meta shares that are worth no more than its amount. -/
theorem isGreatest_of_prorate {supply v d : Nat} (h : Checked.prorate supply v tvl = .ok d) :
    IsGreatest {x | x * tvl ≤ supply * v} d := by
  obtain ⟨hle, hlt⟩ := Checked.prorate_bounds h
  refine ⟨hle, fun x hx => Nat.lt_succ_iff.1 (Nat.lt_of_mul_lt_mul_right (Nat.lt_of_le_of_lt hx hlt))⟩

theorem metaDeltaAt_split {parts : List Nat} {g : Nat → Nat} {v : Nat}
    (hparts : ∀ m ∈ parts, p.metaDeltaAt tvl (a, m) = .ok (g m))
    (h : p.metaDeltaAt tvl (a, parts.sum) = .ok v) : (parts.map g).sum ≤ v := by
  obtain ⟨s, price, decimals, hs, hprice, hdecimals, hdelta⟩ := metaDeltaAt_eq_ok.1 h
  refine metaDelta_split (fun m hm => ?_) hdelta
  obtain ⟨s', price', decimals', hs', hprice', hdecimals', hpart⟩ := metaDeltaAt_eq_ok.1 (hparts m hm)
  obtain rfl : s = s' := ok_unique hs hs'
  obtain rfl : price = price' := ok_unique hprice hprice'
  obtain rfl : decimals = decimals' := ok_unique hdecimals hdecimals'
  exact hpart

/-- Splitting an entry up does not raise the sum of all meta shares. -/
theorem sum_deltas_split {legs' : List Leg} {before after : List (Address × Nat)} {parts : List Nat}
    (hlegs : ∀ leg ∈ legs, p.metaDeltaAt tvl leg.1 = .ok leg.2)
    (hlegs' : ∀ leg ∈ legs', p.metaDeltaAt tvl leg.1 = .ok leg.2)
    (hwhole : legs.map (·.1) = before ++ (a, parts.sum) :: after)
    (hsplit : legs'.map (·.1) = before ++ parts.map (a, ·) ++ after) :
    (legs'.map (·.2)).sum ≤ (legs.map (·.2)).sum := by
  have hshown {l : List Leg} (hl : ∀ leg ∈ l, p.metaDeltaAt tvl leg.1 = .ok leg.2) :
      (∀ move ∈ l.map (·.1), p.metaDeltaAt tvl move = .ok (shown (p.metaDeltaAt tvl move))) ∧
        l.map (·.2) = (l.map (·.1)).map fun move => shown (p.metaDeltaAt tvl move) := by
    refine ⟨List.forall_mem_map.2 fun leg hleg => by rw [hl leg hleg, shown_ok], ?_⟩
    rw [List.map_map]
    exact List.map_congr_left fun leg hleg => by simp [hl leg hleg]
  obtain ⟨hread, hsum⟩ := hshown hlegs
  obtain ⟨hread', hsum'⟩ := hshown hlegs'
  have hparts : (parts.map fun m => shown (p.metaDeltaAt tvl (a, m))).sum ≤
      shown (p.metaDeltaAt tvl (a, parts.sum)) := by
    refine metaDeltaAt_split (fun m hm => hread' _ ?_) (hread _ ?_)
    · rw [hsplit]
      simp [hm]
    · simp [hwhole]
  rw [hsum, hsum', hwhole, hsplit]
  simp only [List.map_append, List.map_cons, List.sum_append, List.sum_cons, List.map_map,
    Function.comp_def]
  omega

/-- Sends the amounts of given entries by hand. -/
def sendEntries (caller : Address) (entries : List (Address × Nat)) : Operation :=
  .sendByHand caller (entries.map (·.1)) (entries.map (·.2))

/-- A send of the same entries, but for one that is split up, does not raise the supply any further. -/
theorem supply_of_split {op : Operation} {before after : List (Address × Nat)} {parts : List Nat}
    {caller : Address} (hlegs : op.legs p = .ok legs) (hsent : Sent legs p q)
    (hwhole : op.entries p = .ok (before ++ (a, parts.sum) :: after)) :
    (p.after (sendEntries caller (before ++ parts.map (a, ·) ++ after))).metaToken.supply ≤
      q.metaToken.supply := by
  rcases ok_or_unchanged p (sendEntries caller (before ++ parts.map (a, ·) ++ after))
    with ⟨out, hok⟩ | ⟨-, hsame⟩
  · obtain ⟨legs', hlegs', hsent'⟩ := Operation.sent_of_send rfl hok
    obtain ⟨hentries, tvl, htvl, hread⟩ := read_of_legs hlegs
    obtain ⟨hentries', tvl', htvl', hread'⟩ := read_of_legs hlegs'
    obtain rfl : tvl = tvl' := ok_unique htvl htvl'
    have hsplit : legs'.map (·.1) = before ++ parts.map (a, ·) ++ after := by
      have hgiven := Except.ok.inj hentries'
      rw [← hgiven, List.zip_map']
      simp
    rw [hsent.metaSupply, hsent'.metaSupply]
    exact Nat.add_le_add_left (sum_deltas_split hread hread' (ok_unique hentries hwhole) hsplit) _
  · rw [hsame, hsent.metaSupply]
    exact Nat.le_add_right _ _

/-- A send that succeeds mints the meta shares of its legs. While there are meta shares and a TVL, it moves
`V` into the LP account, what stands behind each meta share does not fall, and each leg has the most meta
shares that are worth no more than its amount. With or without them, splitting an entry up mints no more. -/
theorem send_never_dilutes (p : Protocol) (op : Operation) (hop : op.isSend = true) (out : Outcome)
    (q : Protocol) (hok : op.perform p = .ok out q) :
    ∃ legs, op.legs p = .ok legs ∧ Sent legs p q ∧
      (∀ T, p.tvl = .ok T → T ≠ 0 → p.metaToken.supply ≠ 0 →
        (∃ V, p.worthOf (legs.map Leg.move) = .ok V ∧
          T * q.metaToken.supply ≤ (T + V) * p.metaToken.supply) ∧
        ∀ leg ∈ legs, ∃ v, p.underlyerValue leg.1.1 leg.1.2 = .ok v ∧
          IsGreatest {d | d * T ≤ p.metaToken.supply * v} leg.2) ∧
      ∀ (before after : List (Address × Nat)) (a : Address) (parts : List Nat) (caller : Address),
        op.entries p = .ok (before ++ (a, parts.sum) :: after) →
        (p.after (sendEntries caller (before ++ parts.map (a, ·) ++ after))).metaToken.supply ≤
          q.metaToken.supply := by
  obtain ⟨legs, hlegs, hsent⟩ := Operation.sent_of_send hop hok
  refine ⟨legs, hlegs, hsent, fun T htvl hpos hsupply => ?_, ?_⟩
  · have hprorated := prorated_of_legs hlegs htvl hpos hsupply
    obtain ⟨hle, -, -⟩ := bounds_of_prorated (Nat.pos_of_ne_zero hpos) hprorated
    refine ⟨⟨_, worthOf_of_prorated hprorated, ?_⟩, fun leg hleg => ?_⟩
    · calc T * q.metaToken.supply
          = T * p.metaToken.supply + (legs.map (·.2)).sum * T := by
            rw [hsent.metaSupply, Nat.mul_add, Nat.mul_comm T (legs.map (·.2)).sum]
        _ ≤ T * p.metaToken.supply + p.metaToken.supply * (legs.map p.movedValue).sum :=
            Nat.add_le_add_left hle _
        _ = (T + (legs.map p.movedValue).sum) * p.metaToken.supply := by
            rw [Nat.add_mul, Nat.mul_comm p.metaToken.supply]
    · obtain ⟨v, hvalue, hdelta⟩ := rate_of_legs hlegs htvl hpos hsupply leg hleg
      exact ⟨v, hvalue, isGreatest_of_prorate hdelta⟩
  · exact fun before after a parts caller hwhole => supply_of_split hlegs hsent hwhole

/-- Sends seven units more after a loss. -/
def sendSeven : Operation := .sendByHand ⟨"emergencySafe"⟩ [⟨"usdcPool"⟩] [7]

theorem send_never_dilutes_sendSeven :
    ∃ out q, sendSeven.perform afterLoss = .ok out q ∧
      33333 * q.metaToken.supply ≤ (33333 + 700) * afterLoss.metaToken.supply ∧
      (afterLoss.after (sendEntries ⟨"emergencySafe"⟩ [(⟨"usdcPool"⟩, 1), (⟨"usdcPool"⟩, 1),
        (⟨"usdcPool"⟩, 5)])).metaToken.supply ≤ q.metaToken.supply := by
  have hread : sendSeven.fails afterLoss = false ∧ afterLoss.tvl.toOption = some 33333 ∧
      afterLoss.metaToken.supply ≠ 0 ∧ (afterLoss.worthOf [(⟨"usdcPool"⟩, 7)]).toOption = some 700 ∧
      (sendSeven.legs afterLoss).toOption = some [((⟨"usdcPool"⟩, 7), 1050010)] := by decide +kernel
  obtain ⟨hruns, htvl, hsupply, hworth, hlegs⟩ := hread
  obtain ⟨out, hok⟩ := perform_of_not_fails hruns
  obtain ⟨legs, hlegs', -, hbehind, hsplit⟩ := send_never_dilutes afterLoss sendSeven rfl out _ hok
  obtain ⟨⟨V, hV, hle⟩, -⟩ := hbehind 33333 (eq_ok_of_toOption htvl) (by decide) hsupply
  obtain rfl := ok_unique hlegs' (eq_ok_of_toOption hlegs)
  obtain rfl : V = 700 := ok_unique hV (eq_ok_of_toOption hworth)
  have hparts := hsplit [] [] ⟨"usdcPool"⟩ [1, 1, 5] ⟨"emergencySafe"⟩ rfl
  simp only [List.nil_append, List.append_nil, List.map_cons, List.map_nil] at hparts
  exact ⟨out, _, hok, hle, hparts⟩

end Protocol

end MetaPool
