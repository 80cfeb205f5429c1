import MetaPool.Proofs.Capital.RoundTrip
import MetaPool.Proofs.Price.Readings

/-!
# Round trips under reported TVLs

A report sets the TVL to what the LP account holds, token by token and each worth rounded down. Capital
that is sent between two reports is in the second one with the worth of all that is there of its token,
which is the sum of the two worths or one more.

    tvl' = tvl + value ∨ tvl' = tvl + value + 1                     (Reported.grown)

Where the floors add up, a recall undoes the send. Where they do not, it is priced against a TVL that is
one too high, and takes fewer meta shares than the send has minted. How many fewer depends on how fine
meta shares are against units of the TVL (`kept`); only for the last meta share of all may it take none,
and then it moves nothing either.

    (S + δ) * v / (T + v + 1) = δ - kept S v T                      (prorate_return)
    (S + δ) * v / (T + v + 1) = 0 ↔ S * v = T                       (prorate_return_eq_zero_iff)

Here `S` and `T` are the supply and the TVL before the send, `v` is the value of the capital and `δ` is
the delta of the send, `S * v / T`.
-/

namespace MetaPool

/-! ## Against a TVL that is one too high -/

/-- What a recall leaves of the meta shares of a send, if the TVL has grown by the value and one more: the
part of the delta that the remainder of its division does not cover, in units of the new TVL, rounded up. -/
def kept (supply value tvl : Nat) : Nat :=
  (supply * value / tvl - supply * value % tvl + (tvl + value)) / (tvl + value + 1)

variable {supply value tvl n : Nat}

theorem kept_le_iff : kept supply value tvl ≤ n ↔
    supply * value / tvl ≤ n * (tvl + value + 1) + supply * value % tvl := by
  have hpos : 0 < tvl + value + 1 := Nat.succ_pos _
  unfold kept
  rw [← Nat.lt_succ_iff, Nat.div_lt_iff_lt_mul hpos, Nat.succ_mul]
  omega

theorem kept_le_delta (supply value tvl : Nat) : kept supply value tvl ≤ supply * value / tvl :=
  kept_le_iff.2 ((Nat.le_mul_of_pos_right _ (Nat.succ_pos _)).trans (Nat.le_add_right _ _))

/-- One meta share fewer would not cover the delta. -/
theorem delta_lt_kept (supply value : Nat) (htvl : 0 < tvl) :
    kept supply value tvl * (tvl + value + 1) + supply * value % tvl <
      supply * value / tvl + (tvl + value + 1) := by
  have hrest : supply * value % tvl < tvl := Nat.mod_lt _ htvl
  cases hkept : kept supply value tvl with
  | zero =>
    generalize supply * value / tvl = delta
    omega
  | succ n =>
    have hmore : ¬ kept supply value tvl ≤ n := by omega
    rw [kept_le_iff] at hmore
    rw [Nat.succ_mul]
    omega

/-- The value at the grown supply is the delta at the new TVL, but for the delta itself and the remainder
of its division. -/
theorem grown_mul (supply value tvl : Nat) :
    (supply + supply * value / tvl) * value + supply * value / tvl =
      supply * value / tvl * (tvl + value + 1) + supply * value % tvl := by
  have hsplit := Nat.div_add_mod (supply * value) tvl
  rw [Nat.add_mul, Nat.mul_succ, Nat.mul_add, Nat.mul_comm _ tvl]
  omega

theorem prorate_return (htvl : 0 < tvl) :
    (supply + supply * value / tvl) * value / (tvl + value + 1) =
      supply * value / tvl - kept supply value tvl := by
  have hgrown := grown_mul supply value tvl
  have hcovers := kept_le_iff.1 (Nat.le_refl (kept supply value tvl))
  have hleast := delta_lt_kept supply value htvl
  obtain ⟨burned, hburned⟩ := Nat.exists_eq_add_of_le (kept_le_delta supply value tvl)
  rw [hburned] at hgrown hcovers hleast ⊢
  rw [Nat.add_sub_cancel_left]
  generalize kept supply value tvl = k at hgrown hcovers hleast ⊢
  generalize tvl + value + 1 = tvl' at hgrown hcovers hleast ⊢
  rw [Nat.add_mul k burned tvl'] at hgrown
  refine Nat.div_eq_of_lt_le ?_ ?_
  · omega
  · rw [Nat.succ_mul]
    omega

/-- A send that has minted something is recalled for nothing only if it has minted one, exactly. -/
theorem prorate_return_eq_zero_iff (htvl : 0 < tvl) (hsome : 0 < supply * value / tvl) :
    (supply + supply * value / tvl) * value / (tvl + value + 1) = 0 ↔ supply * value = tvl := by
  have hpos : 0 < tvl + value + 1 := Nat.succ_pos _
  rw [Nat.div_eq_zero_iff_lt hpos]
  constructor
  · intro hlt
    have hdelta : 1 * value ≤ supply * value / tvl * value := Nat.mul_le_mul_right _ hsome
    have hle : tvl ≤ supply * value := (Nat.div_pos_iff.1 hsome).2
    rw [Nat.add_mul] at hlt
    omega
  · intro hone
    rw [hone, Nat.div_self htvl, Nat.add_mul, hone]
    omega

/-- The deltas of a send and of its recall, when the TVL is read as `tvl` and as `tvl'`. -/
structure TripDeltas (supply value tvl tvl' minted burned : Nat) : Prop where
  tvl_pos : 0 < tvl
  minted_eq : minted = supply * value / tvl
  burned_eq : burned = (supply + minted) * value / tvl'
  grown : minted = 0 ∧ tvl' = tvl ∨ tvl' = tvl + value ∨ tvl' = tvl + value + 1

namespace TripDeltas

variable {tvl' minted burned : Nat}

/-- A recall takes what the send has minted, unless the TVL has grown by one more than the value. -/
theorem kept_eq (h : TripDeltas supply value tvl tvl' minted burned) : burned ≤ minted ∧
    minted - burned = if tvl' = tvl + value + 1 then kept supply value tvl else 0 := by
  obtain ⟨htvl, hminted, hburned, hgrown⟩ := h
  split
  next hmore =>
    have hle := kept_le_delta supply value tvl
    rw [hminted, hmore, prorate_return htvl] at hburned
    omega
  next hmore =>
    have hsame : burned = minted := by
      rcases hgrown with ⟨hnone, rfl⟩ | rfl | hgrown
      · rw [hburned, hnone, Nat.add_zero, ← hminted, hnone]
      · rw [hburned, hminted, prorate_roundTrip htvl]
      · exact absurd hgrown hmore
    omega

/-- It takes nothing for something only in the case of `prorate_return_eq_zero_iff`. -/
theorem skipped_iff (h : TripDeltas supply value tvl tvl' minted burned) :
    burned = 0 ∧ minted ≠ 0 ↔ tvl' = tvl + value + 1 ∧ supply * value = tvl := by
  obtain ⟨hle, hkept⟩ := h.kept_eq
  by_cases hmore : tvl' = tvl + value + 1
  · obtain ⟨htvl, rfl, rfl, -⟩ := h
    subst hmore
    simp only [true_and]
    by_cases hsome : 0 < supply * value / tvl
    · rw [prorate_return_eq_zero_iff htvl hsome]
      exact and_iff_left (Nat.pos_iff_ne_zero.1 hsome)
    · refine ⟨fun h => absurd (Nat.pos_of_ne_zero h.2) hsome, fun hone => ?_⟩
      rw [hone, Nat.div_self htvl] at hsome
      exact absurd Nat.one_pos hsome
  · rw [if_neg hmore] at hkept
    simp only [hmore, false_and, iff_false]
    omega

end TripDeltas

/-! ## Sums of readings -/

/-- A checked sum of readings is the sum of what they show. -/
theorem Checked.sum_of_foldlM {ι : Type} {l : List ι} {reading : ι → Except Fault Nat} {n m : Nat}
    (h : l.foldlM (fun sum i => do add sum (← reading i)) n = .ok m) :
    (∀ i ∈ l, ∃ v, reading i = .ok v) ∧ m = n + (l.map fun i => shown (reading i)).sum := by
  induction l generalizing n with
  | nil => exact ⟨nofun, (except_pure_eq_ok.1 h)⟩
  | cons i l ih =>
    rw [List.foldlM_cons] at h
    obtain ⟨sum, hsum, h⟩ := except_bind_eq_ok.1 h
    obtain ⟨v, hv, hsum⟩ := except_bind_eq_ok.1 hsum
    obtain ⟨rfl, -⟩ := add_eq_ok.1 hsum
    obtain ⟨hread, rfl⟩ := ih h
    refine ⟨List.forall_mem_cons.2 ⟨⟨v, hv⟩, hread⟩, ?_⟩
    rw [List.map_cons, List.sum_cons, hv, shown_ok, Nat.add_assoc]

/-- Sums that differ at one place differ as much as there. -/
theorem sum_map_add_of_eq_off {ι : Type} [DecidableEq ι] {l : List ι} {f g : ι → Nat} {i : ι}
    (hl : l.Nodup) (hi : i ∈ l) (h : ∀ j ∈ l, j ≠ i → f j = g j) :
    (l.map f).sum + g i = (l.map g).sum + f i := by
  have hrest : (l.erase i).map f = (l.erase i).map g := by
    refine List.map_congr_left fun j hj => ?_
    obtain ⟨hne, hj⟩ := hl.mem_erase_iff.1 hj
    exact h j hj hne
  have hf := List.sum_map_erase f hi
  have hg := List.sum_map_erase g hi
  rw [hrest] at hf
  omega

namespace TokenBook

variable {b b' : TokenBook} {t : Address}

theorem mem_tokens : t ∈ b.tokens ↔ ∃ x, b.traits t = .ok x := by
  simp only [tokens, OrderedMap.mem_keys, traits_eq_ok]
  grind

theorem mem_tokens_of_decimals {d : Nat} (h : b.decimals t = .ok d) : t ∈ b.tokens := by
  obtain ⟨x, hx, -⟩ := except_bind_eq_ok.1 h
  exact mem_tokens.2 ⟨x, hx⟩

theorem tokens_nodup (b : TokenBook) : b.tokens.Nodup := b.records.keys_nodup

/-- Books that know the same tokens list them in some order. -/
theorem tokens_perm (h : ∀ t, b'.traits t = b.traits t) : b'.tokens.Perm b.tokens :=
  (List.perm_ext_iff_of_nodup b'.tokens_nodup b.tokens_nodup).2 fun t => by
    rw [mem_tokens, mem_tokens, h]

end TokenBook

/-! ## Reports -/

namespace Protocol

variable {p q r : Protocol} {pool token : Address} {amount shares value tvl tvl' : Nat} {s : Pool}

/-- The worth of what the LP account holds of a token, at its present price. -/
def lpWorth (p : Protocol) (token : Address) : Except Fault Nat := do
  let balance ← p.tokens.balanceOf token p.lpAccount.address
  let price ← p.assetPrice token
  let decimals ← p.tokens.decimals token
  worth balance price decimals

/-- The worth of all that the LP account holds, token by token. -/
def lpTotal (p : Protocol) : Except Fault Nat :=
  p.tokens.tokens.foldlM (fun sum token => do Checked.add sum (← p.lpWorth token)) 0

/-- The feed of the TVL has just answered with what the LP account holds, and no override is active. -/
structure Reported (p : Protocol) (tvl : Nat) : Prop where
  total : p.lpTotal = .ok tvl
  answer : p.feeds.latest p.oracle.tvlSource = .ok ⟨tvl, p.clock.time⟩
  noTvlOverride : p.hasTvlOverride = false
  noAssetOverride : ∀ t ∈ p.tokens.tokens, p.hasAssetOverride t = false

instance (p : Protocol) (tvl : Nat) : Decidable (Reported p tvl) :=
  decidable_of_iff (p.lpTotal = .ok tvl ∧ p.feeds.latest p.oracle.tvlSource = .ok ⟨tvl, p.clock.time⟩ ∧
      p.hasTvlOverride = false ∧ ∀ t ∈ p.tokens.tokens, p.hasAssetOverride t = false)
    ⟨fun ⟨htotal, hanswer, htvl, hassets⟩ => ⟨htotal, hanswer, htvl, hassets⟩,
      fun ⟨htotal, hanswer, htvl, hassets⟩ => ⟨htotal, hanswer, htvl, hassets⟩⟩

/-- A TVL that can be read is the one that was reported, and above zero if there are meta shares. -/
theorem Reported.of_tvl {v : Nat} (h : Reported p tvl) (hread : p.tvl = .ok v) :
    v = tvl ∧ (0 < p.metaToken.supply → 0 < tvl) := by
  obtain ⟨-, ⟨m, hm, -⟩ | ⟨-, hanswer, hzero⟩⟩ := Oracle.tvl_eq_ok.1 hread
  · have hnone := h.noTvlOverride
    simp [hasTvlOverride, Oracle.hasTvlOverride, hm] at hnone
  · obtain ⟨round, hround, hvalue, -⟩ := hanswer
    obtain rfl := ok_unique h.answer hround
    obtain rfl : tvl = v := Int.ofNat.inj hvalue
    exact ⟨rfl, fun hsupply => Nat.pos_of_ne_zero fun hnone => hzero ⟨hnone, hsupply⟩⟩

theorem lpWorth_eq_ok {v : Nat} : p.lpWorth token = .ok v ↔ ∃ price decimals,
    p.assetPrice token = .ok price ∧ p.tokens.decimals token = .ok decimals ∧
      worth (p.tokens.held token p.lpAccount.address) price decimals = .ok v := by
  simp only [lpWorth, except_bind_eq_ok]
  constructor
  · rintro ⟨balance, hbalance, price, hprice, decimals, hdecimals, hworth⟩
    obtain ⟨-, rfl⟩ := TokenBook.balanceOf_eq_ok.1 hbalance
    exact ⟨price, decimals, hprice, hdecimals, hworth⟩
  · rintro ⟨price, decimals, hprice, hdecimals, hworth⟩
    obtain ⟨traits, htraits, -⟩ := except_bind_eq_ok.1 hdecimals
    exact ⟨_, TokenBook.balanceOf_eq_ok.2 ⟨⟨traits, htraits⟩, rfl⟩, price, hprice, decimals, hdecimals,
      hworth⟩

/-- What a token is reported with depends on what the LP account holds of it, on its price and on its
decimals. -/
theorem lpWorth_congr (hlp : q.lpAccount = p.lpAccount)
    (htraits : ∀ t, q.tokens.traits t = p.tokens.traits t)
    (hprice : q.assetPrice token = p.assetPrice token)
    (hheld : q.tokens.held token p.lpAccount.address = p.tokens.held token p.lpAccount.address) :
    q.lpWorth token = p.lpWorth token := by
  simp only [lpWorth, TokenBook.balanceOf_eq_map, TokenBook.decimals, htraits, hprice, hlp, hheld]

/-- A report after some units of one token have reached the LP account is the one before, but for the worth
of that token. -/
theorem Reported.total_eq {price decimals moved : Nat} (hp : Reported p tvl) (hq : Reported q tvl')
    (hlp : q.lpAccount = p.lpAccount) (htraits : ∀ t, q.tokens.traits t = p.tokens.traits t)
    (hprices : ∀ t ∈ p.tokens.tokens, q.assetPrice t = p.assetPrice t)
    (hheld : ∀ t, q.tokens.held t p.lpAccount.address =
      p.tokens.held t p.lpAccount.address + if t = token then moved else 0)
    (hprice : p.assetPrice token = .ok price) (hdecimals : p.tokens.decimals token = .ok decimals) :
    tvl' + p.tokens.held token p.lpAccount.address * price / 10 ^ decimals =
      tvl + (p.tokens.held token p.lpAccount.address + moved) * price / 10 ^ decimals := by
  obtain ⟨hread, htotal⟩ := Checked.sum_of_foldlM hp.total
  obtain ⟨hread', htotal'⟩ := Checked.sum_of_foldlM hq.total
  have hperm := TokenBook.tokens_perm htraits
  have htoken := TokenBook.mem_tokens_of_decimals hdecimals
  -- the two sums run over the same tokens, and only `token` has another worth in the second
  rw [(hperm.map _).sum_eq] at htotal'
  have hsame : ∀ t ∈ p.tokens.tokens, t ≠ token → shown (q.lpWorth t) = shown (p.lpWorth t) := by
    intro t ht hne
    rw [lpWorth_congr hlp htraits (hprices t ht) (by rw [hheld, if_neg hne, Nat.add_zero])]
  have hsums := sum_map_add_of_eq_off p.tokens.tokens_nodup htoken hsame
  obtain ⟨v, hv⟩ := hread token htoken
  obtain ⟨v', hv'⟩ := hread' token (hperm.mem_iff.2 htoken)
  obtain ⟨price₁, decimals₁, hprice₁, hdecimals₁, hworth⟩ := lpWorth_eq_ok.1 hv
  obtain ⟨price₂, decimals₂, hprice₂, hdecimals₂, hworth'⟩ := lpWorth_eq_ok.1 hv'
  obtain rfl : price = price₁ := ok_unique hprice hprice₁
  obtain rfl : decimals = decimals₁ := ok_unique hdecimals hdecimals₁
  rw [hprices token htoken] at hprice₂
  obtain rfl : price = price₂ := ok_unique hprice hprice₂
  rw [TokenBook.decimals, htraits] at hdecimals₂
  obtain rfl : decimals = decimals₂ := ok_unique hdecimals hdecimals₂
  obtain ⟨-, rfl, -⟩ := worth_eq_ok.1 hworth
  obtain ⟨-, rfl, -⟩ := worth_eq_ok.1 hworth'
  simp only [hv, hv', shown_ok, hlp, hheld, if_pos] at hsums
  omega

/-- So the TVL has grown by the worth of the units or by one more. -/
theorem Reported.grown {price decimals moved : Nat} (hp : Reported p tvl) (hq : Reported q tvl')
    (hlp : q.lpAccount = p.lpAccount) (htraits : ∀ t, q.tokens.traits t = p.tokens.traits t)
    (hprices : ∀ t ∈ p.tokens.tokens, q.assetPrice t = p.assetPrice t)
    (hheld : ∀ t, q.tokens.held t p.lpAccount.address =
      p.tokens.held t p.lpAccount.address + if t = token then moved else 0)
    (hprice : p.assetPrice token = .ok price) (hdecimals : p.tokens.decimals token = .ok decimals)
    (hworth : worth moved price decimals = .ok value) :
    tvl' = tvl + value ∨ tvl' = tvl + value + 1 := by
  have htotal := hp.total_eq hq hlp htraits hprices hheld hprice hdecimals
  obtain ⟨-, rfl, -⟩ := worth_eq_ok.1 hworth
  rw [Nat.add_mul] at htotal
  generalize p.tokens.held token p.lpAccount.address * price = before at htotal
  have hle : before / 10 ^ decimals + moved * price / 10 ^ decimals ≤
      (before + moved * price) / 10 ^ decimals := Nat.div_add_div_le_add_div
  have hlt : (before + moved * price) / 10 ^ decimals ≤
      before / 10 ^ decimals + moved * price / 10 ^ decimals + 1 := Nat.add_div_le_div_add_div_add_one _ _ _
  omega

/-! ## There and back -/

/-- Capital of one pool is sent by hand and recalled by hand. The TVL has been reported before either, and
prices and holdings stay in between. -/
structure ReportedTrip (p q q' r : Protocol) (pool : Address) (amount tvl tvl' : Nat) : Prop where
  reachable : Reachable p
  supply : 0 < p.metaToken.supply
  reported : Reported p tvl
  sent : ∃ caller, sendByHand caller [pool] [amount] p = .ok () q
  later : ∃ ops, q' = q.run ops
  holdings : SameHoldings q q'
  prices : ∀ t ∈ p.tokens.tokens, q'.assetPrice t = p.assetPrice t
  reportedAgain : Reported q' tvl'
  recalled : ∃ caller, recallByHand caller [pool] [amount] q' = .ok () r

/-- While there are meta shares, a delta is in proportion to what was reported. -/
theorem Reported.delta_eq {price decimals reading : Nat} (h : Reported p tvl)
    (hsupply : 0 < p.metaToken.supply) (hs : p.pool pool = .ok s)
    (hprice : p.assetPrice s.underlyer = .ok price)
    (hdecimals : p.tokens.decimals s.underlyer = .ok decimals)
    (hworth : worth amount price decimals = .ok value)
    (hreading : (if p.metaToken.supply = 0 then .ok 0 else p.tvl) = .ok reading)
    (hdelta : p.metaDeltaAt reading (pool, amount) = .ok shares) :
    0 < tvl ∧ shares = p.metaToken.supply * value / tvl := by
  rw [if_neg (Nat.pos_iff_ne_zero.1 hsupply)] at hreading
  obtain ⟨rfl, hpos⟩ := h.of_tvl hreading
  obtain ⟨s₁, price₁, decimals₁, hs₁, hprice₁, hdecimals₁, hmeta⟩ := metaDeltaAt_eq_ok.1 hdelta
  obtain rfl : s = s₁ := ok_unique hs hs₁
  obtain rfl : price = price₁ := ok_unique hprice hprice₁
  obtain rfl : decimals = decimals₁ := ok_unique hdecimals hdecimals₁
  obtain ⟨value₁, hworth₁, hrate⟩ := metaDelta_eq_ok.1 hmeta
  obtain rfl : value = value₁ := ok_unique hworth hworth₁
  rw [if_neg (by omega)] at hrate
  exact ⟨hpos hsupply, (Checked.prorate_eq_ok.1 hrate).2.1⟩

namespace ReportedTrip

variable {q' : Protocol}

/-- What no operation changes is the same at both reports. -/
theorem stays (h : ReportedTrip p q q' r pool amount tvl tvl') (hs : p.pool pool = .ok s) :
    q'.lpAccount = p.lpAccount ∧ (∀ t, q'.tokens.traits t = p.tokens.traits t) ∧
      ∃ s', q'.pool pool = .ok s' ∧ s'.underlyer = s.underlyer := by
  obtain ⟨caller, hsend⟩ := h.sent
  obtain ⟨ops, rfl⟩ := h.later
  have hperform : (Operation.sendByHand caller [pool] [amount]).perform p = .ok .done q :=
    Operation.complete_eq_ok.2 ⟨rfl, hsend⟩
  have hrun : q.run ops = p.run (.sendByHand caller [pool] [amount] :: ops) := by
    rw [← after_of_ok hperform]
    rfl
  rw [hrun]
  exact ⟨lpAccount_run p _, traits_run p _, pool_of_run hs _⟩

/-- The deltas of both ways, and what the TVL has grown by between the reports. -/
theorem deltas (h : ReportedTrip p q q' r pool amount tvl tvl') : ∃ s value minted burned,
    p.pool pool = .ok s ∧ p.underlyerValue pool amount = .ok value ∧
      TripDeltas p.metaToken.supply value tvl tvl' minted burned ∧
      Lent p q pool s.underlyer (movedFor minted amount) minted ∧
      Lent r q' pool s.underlyer (movedFor burned amount) burned := by
  obtain ⟨caller, hsend⟩ := h.sent
  obtain ⟨recaller, hrecall⟩ := h.recalled
  obtain ⟨s, reading, minted, hs, hreading, hdelta, hlent⟩ := lent_of_send hsend
  obtain ⟨s', reading', burned, hs', hreading', hdelta', hlent'⟩ := lent_of_recall hrecall
  obtain ⟨s₁, price, decimals, hs₁, hprice, hdecimals, hmeta⟩ := metaDeltaAt_eq_ok.1 hdelta
  obtain rfl : s = s₁ := ok_unique hs hs₁
  obtain ⟨value, hworth, -⟩ := metaDelta_eq_ok.1 hmeta
  obtain ⟨hlp, htraits, s₂, hs₂, hunderlyer⟩ := h.stays hs
  obtain rfl : s' = s₂ := ok_unique hs' hs₂
  have hsupply : q'.metaToken.supply = p.metaToken.supply + minted :=
    h.holdings.metaSupply.trans hlent.metaSupply
  have hsome : 0 < q'.metaToken.supply := hsupply ▸ Nat.add_pos_left h.supply _
  have hprice' : q'.assetPrice s'.underlyer = .ok price := by
    rw [hunderlyer, h.prices _ (TokenBook.mem_tokens_of_decimals hdecimals), hprice]
  have hdecimals' : q'.tokens.decimals s'.underlyer = .ok decimals := by
    rw [hunderlyer, TokenBook.decimals, htraits]
    exact hdecimals
  obtain ⟨htvl, hminted⟩ := h.reported.delta_eq h.supply hs hprice hdecimals hworth hreading hdelta
  obtain ⟨-, hburned⟩ :=
    h.reportedAgain.delta_eq hsome hs' hprice' hdecimals' hworth hreading' hdelta'
  have hheld (t : Address) : q'.tokens.held t p.lpAccount.address =
      p.tokens.held t p.lpAccount.address + if t = s.underlyer then movedFor minted amount else 0 := by
    have hmoved := hlent.tokens t p.lpAccount.address
    have hapart := (h.reachable.deployed hs).apart.symm
    simpa [hapart, h.holdings.held] using hmoved
  refine ⟨s, value, minted, burned, hs, underlyerValue_of_worth hs hprice hdecimals hworth,
    ⟨htvl, hminted, hsupply ▸ hburned, ?_⟩, hlent, hunderlyer ▸ hlent'⟩
  by_cases hnone : minted = 0
  · have htotal := h.reported.total_eq h.reportedAgain hlp htraits h.prices hheld hprice hdecimals
    simp only [movedFor, hnone, ↓reduceIte, Nat.add_zero] at htotal
    exact .inl ⟨hnone, Nat.add_right_cancel htotal⟩
  · simp only [movedFor, hnone, ↓reduceIte] at hheld
    exact .inr (h.reported.grown h.reportedAgain hlp htraits h.prices hheld hprice hdecimals hworth)

end ReportedTrip

/-- Capital that is sent by hand and recalled by hand, with the TVL reported before either as the worth of
what the LP account holds, leaves the pool with at least the meta shares it had, and with its underlyer.
Both are exactly what they were, as is all that anybody holds, unless the second report is one above the
first and the value of the capital. Then the pool keeps some of the meta shares of the send, at most two if
the send has minted at most twice the TVL; and if the send has minted a single one without a remainder, it
keeps that one and does not get its capital back. -/
theorem roundTrip_reported (p q q' r : Protocol) (pool : Address) (amount tvl tvl' : Nat)
    (h : ReportedTrip p q q' r pool amount tvl tvl') :
    ∃ s value short excess, p.pool pool = .ok s ∧ p.underlyerValue pool amount = .ok value ∧
      r.tokens.held s.underlyer pool + short = p.tokens.held s.underlyer pool ∧
      r.metaToken.balanceOf pool = p.metaToken.balanceOf pool + excess ∧
      Lent p r pool s.underlyer short excess ∧
      (tvl' ≠ tvl + value + 1 → SameHoldings p r) ∧
      excess = (if tvl' = tvl + value + 1 then kept p.metaToken.supply value tvl else 0) ∧
      (p.metaToken.supply * value / tvl ≤ 2 * tvl' → excess ≤ 2) ∧
      short = (if tvl' = tvl + value + 1 ∧ p.metaToken.supply * value = tvl then amount else 0) := by
  obtain ⟨s, value, minted, burned, hs, hvalue, hdeltas, hlent, hlent'⟩ := h.deltas
  obtain ⟨hlp, htraits, -⟩ := h.stays hs
  obtain ⟨hle, hexcess⟩ := hdeltas.kept_eq
  have hskipped := hdeltas.skipped_iff
  have hrest : Lent p r pool s.underlyer (movedFor minted amount - movedFor burned amount)
      (minted - burned) := by
    refine hlent.rest hlent' (hlp.trans hlent.lpAccount.symm)
      (fun t => (htraits t).trans (hlent.traits t).symm) h.holdings ?_ hle
    unfold movedFor
    split_ifs <;> omega
  have hshort : movedFor minted amount - movedFor burned amount =
      if tvl' = tvl + value + 1 ∧ p.metaToken.supply * value = tvl then amount else 0 := by
    unfold movedFor
    split_ifs <;> grind
  refine ⟨s, value, _, _, hs, hvalue, ?_, ?_, hrest, fun hne => ?_, hexcess, fun htwice => ?_, hshort⟩
  · have hheld := hrest.tokens s.underlyer pool
    have hapart := (h.reachable.deployed hs).apart
    simpa [hapart] using hheld
  · simpa using hrest.metaShares pool
  · rw [hexcess, hshort, if_neg hne, if_neg fun hboth => hne hboth.1] at hrest
    exact hrest.sameHoldings
  · rw [hexcess]
    split
    next hmore =>
      rw [hmore] at htwice
      exact kept_le_iff.2 (Nat.le_add_right_of_le htwice)
    next => exact Nat.zero_le _

/-- The LP account holds one and a half units of the TVL, and a unit stands for a thousand meta shares. -/
def coarse : Protocol :=
  initial.run [.mintTokens ⟨"DAI"⟩ ⟨"daiPool"⟩ 100000000000,
    .sendByHand ⟨"emergencySafe"⟩ [⟨"daiPool"⟩] [15000000000], .passBlocks 135, .publishTvl 1]

/-- One and a half units more make three. -/
def coarseAgain : Protocol :=
  (coarse.after (.sendByHand ⟨"emergencySafe"⟩ [⟨"daiPool"⟩] [15000000000])).run
    [.passBlocks 135, .publishTvl 3]

theorem coarse_trip : ReportedTrip coarse
    (coarse.after (.sendByHand ⟨"emergencySafe"⟩ [⟨"daiPool"⟩] [15000000000])) coarseAgain
    (coarseAgain.after (.recallByHand ⟨"emergencySafe"⟩ [⟨"daiPool"⟩] [15000000000]))
    ⟨"daiPool"⟩ 15000000000 1 3 where
  reachable := reachable_initial.run _
  supply := by decide +kernel
  reported := by decide +kernel
  sent := ⟨⟨"emergencySafe"⟩, by rfl⟩
  later := ⟨_, rfl⟩
  holdings := sameHoldings_run (by decide)
  prices := by decide +kernel
  reportedAgain := by decide +kernel
  recalled := ⟨⟨"emergencySafe"⟩, by rfl⟩

/-- The send has minted a thousand, and the recall takes two thirds of these. -/
theorem roundTrip_reported_coarse :
    coarse.metaToken.balanceOf ⟨"daiPool"⟩ = 1000 ∧
      (coarseAgain.after (.recallByHand ⟨"emergencySafe"⟩ [⟨"daiPool"⟩] [15000000000])).metaToken.balanceOf
        ⟨"daiPool"⟩ = 1000 + 334 := by
  have hbefore : coarse.metaToken.balanceOf ⟨"daiPool"⟩ = 1000 := by decide +kernel
  have hone : coarse.underlyerValue ⟨"daiPool"⟩ 15000000000 = .ok 1 := by decide +kernel
  have hsupply : coarse.metaToken.supply = 1000 := by decide +kernel
  obtain ⟨s, value, short, excess, -, hvalue, -, hmeta, -, -, hexcess, -, -⟩ :=
    roundTrip_reported coarse _ _ _ _ _ _ _ coarse_trip
  obtain rfl : value = 1 := ok_unique hvalue hone
  rw [hsupply] at hexcess
  rw [hmeta, hexcess, hbefore]
  exact ⟨rfl, by decide⟩

/-- The LP account holds a thousand and a half units of the TVL, of which there are as many as meta
shares. -/
def single : Protocol :=
  initial.run [.mintTokens ⟨"DAI"⟩ ⟨"daiPool"⟩ 100000000000,
    .sendByHand ⟨"emergencySafe"⟩ [⟨"daiPool"⟩] [10000000000],
    .mintTokens ⟨"DAI"⟩ ⟨"lpAccount"⟩ 9995000000000, .passBlocks 135, .publishTvl 1000]

def singleAgain : Protocol :=
  (single.after (.sendByHand ⟨"emergencySafe"⟩ [⟨"daiPool"⟩] [15000000000])).run
    [.passBlocks 135, .publishTvl 1002]

theorem single_trip : ReportedTrip single
    (single.after (.sendByHand ⟨"emergencySafe"⟩ [⟨"daiPool"⟩] [15000000000])) singleAgain
    (singleAgain.after (.recallByHand ⟨"emergencySafe"⟩ [⟨"daiPool"⟩] [15000000000]))
    ⟨"daiPool"⟩ 15000000000 1000 1002 where
  reachable := reachable_initial.run _
  supply := by decide +kernel
  reported := by decide +kernel
  sent := ⟨⟨"emergencySafe"⟩, by rfl⟩
  later := ⟨_, rfl⟩
  holdings := sameHoldings_run (by decide)
  prices := by decide +kernel
  reportedAgain := by decide +kernel
  recalled := ⟨⟨"emergencySafe"⟩, by rfl⟩

/-- A round trip under reported TVLs may leave a pool with more than two meta shares too many, and it may
leave it without what was sent. -/
theorem reported_trips_differ :
    (∃ q q' r, ReportedTrip coarse q q' r ⟨"daiPool"⟩ 15000000000 1 3 ∧
        r.metaToken.balanceOf ⟨"daiPool"⟩ = coarse.metaToken.balanceOf ⟨"daiPool"⟩ + 334) ∧
      ∃ q q' r, ReportedTrip single q q' r ⟨"daiPool"⟩ 15000000000 1000 1002 ∧
        (single.pool ⟨"daiPool"⟩).toOption.map Pool.underlyer = some ⟨"DAI"⟩ ∧
        r.tokens.held ⟨"DAI"⟩ ⟨"daiPool"⟩ + 15000000000 = single.tokens.held ⟨"DAI"⟩ ⟨"daiPool"⟩ :=
  ⟨⟨_, _, _, coarse_trip, by decide +kernel⟩,
    _, _, _, single_trip, by decide +kernel, by decide +kernel⟩

end Protocol

end MetaPool
