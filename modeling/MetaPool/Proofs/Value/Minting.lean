import MetaPool.Proofs.Ledger.Deposit
import MetaPool.Proofs.Value.Delta
import MetaPool.Proofs.Value.Exchange

/-!
# What a deposit earns

Shares for a deposit are rounded down, and nothing keeps them from being rounded down to none. Whoever
holds the only share of a pool and gives the pool underlyer makes it dear: a deposit that is worth less
than one share is taken, and its caller gets nothing for it (`deposit_mints_nothing`). At the bootstrap
rate only an underlyer of more decimals than shares have can be deposited for nothing.

    a share is worth at most the deposit ↔ the deposit earns one    (deposit_mints_iff)
-/

namespace MetaPool

variable {amount decimals m : Nat}

/-- Rescaled to fewer decimals, an amount below one unit of these is nothing. -/
theorem rescale_pos_iff {source target : Nat} (h : rescale amount source target = .ok m)
    (hamount : amount ≠ 0) : 0 < m ↔ 10 ^ (source - target) ≤ amount := by
  have hpos : 1 ≤ amount := Nat.pos_of_ne_zero hamount
  unfold rescale at h
  split at h
  next hsame =>
    obtain rfl := Except.ok.inj h
    rw [hsame, Nat.sub_self, pow_zero]
    exact Iff.rfl
  next =>
    split at h
    next hless =>
      obtain ⟨scale, hscale, h⟩ := except_bind_eq_ok.1 h
      obtain ⟨-, rfl⟩ := Checked.powerOfTen_eq_ok.1 hscale
      obtain ⟨rfl, -⟩ := Checked.mul_eq_ok.1 h
      rw [Nat.sub_eq_zero_of_le hless.le, pow_zero]
      exact ⟨fun _ => hpos, fun _ => Nat.mul_pos hpos (by positivity)⟩
    next =>
      obtain ⟨scale, hscale, h⟩ := except_bind_eq_ok.1 h
      obtain ⟨-, rfl⟩ := Checked.powerOfTen_eq_ok.1 hscale
      obtain rfl := except_pure_eq_ok.1 h
      rw [Nat.div_pos_iff]
      exact and_iff_right (by positivity)

theorem bootstrapMint_pos_iff (h : bootstrapMint amount decimals = .ok m) (hamount : amount ≠ 0) :
    0 < m ↔ 10 ^ (decimals - shareDecimals) ≤ amount := by
  obtain ⟨rescaled, hrescaled, h⟩ := except_bind_eq_ok.1 h
  obtain ⟨rfl, -⟩ := Checked.mul_eq_ok.1 h
  rw [← rescale_pos_iff hrescaled hamount]
  unfold bootstrapShares
  omega

/-- What a deposit earns, in proportion or at the bootstrap rate. -/
theorem Snapshot.sharesFor_pos_iff {s : Snapshot} {value : Nat} (h : s.sharesFor amount = .ok m)
    (hamount : amount ≠ 0) (hvalue : s.worthOf amount = .ok value) :
    0 < m ↔ if s.shareSupply = 0 ∨ s.value = 0 then 10 ^ (s.decimals - shareDecimals) ≤ amount
      else s.value ≤ s.shareSupply * value := by
  obtain ⟨total, htotal, h⟩ := except_bind_eq_ok.1 h
  obtain ⟨-, rfl, -⟩ := totalValue_eq_ok.1 htotal
  split at h
  next hbootstrap => rw [if_pos hbootstrap, bootstrapMint_pos_iff h hamount]
  next hshare =>
    obtain ⟨worth, hworth, h⟩ := except_bind_eq_ok.1 h
    obtain rfl := ok_unique hvalue hworth
    obtain ⟨-, rfl, -⟩ := Checked.prorate_eq_ok.1 h
    rw [if_neg hshare, Nat.div_pos_iff]
    exact and_iff_right (by omega)

namespace Protocol

variable {p q : Protocol} {caller pool : Address} {shares : Nat}

/-- A deposit does not lower what its pool holds, also if the pool itself is the caller. -/
theorem held_le_of_deposit (h : deposit caller pool amount p = .ok shares q) (t : Address) :
    p.tokens.held t pool ≤ q.tokens.held t pool := by
  obtain ⟨s, _, tokens, _, -, -, -, -, -, htokens, -, -, rfl⟩ := deposit_eq_ok.1 h
  have hheld := (TokenBook.moved_of_transferFrom htokens).held t pool
  show p.tokens.held t pool ≤ tokens.held t pool
  by_cases ht : t = s.underlyer <;> by_cases hcaller : pool = caller
  all_goals
    simp only [ht, hcaller, and_true, and_false, if_true, if_false] at hheld ⊢
    omega

/-- A pool that can be valued after a deposit could be valued before it. -/
theorem valued_of_deposit (h : deposit caller pool amount p = .ok shares q) :
    ∃ snap, p.snapshot pool = .ok snap ∧ snap.totalValue = .ok snap.value := by
  obtain ⟨-, s, s', _, _, hdeposited⟩ := deposited_of_deposit h
  obtain ⟨value, hvalue, -⟩ := hdeposited.log
  obtain ⟨after, hafter, htotal⟩ := poolValue_eq_ok.1 hvalue
  have hunderlyer : s.underlyer = s'.underlyer := by rw [hdeposited.rest]
  refine ⟨_, (exchange_of_deposit h).symm.snapshot_eq hdeposited.after.1 hdeposited.before.1 hunderlyer
    hafter, Snapshot.totalValue_of_le htotal ?_⟩
  obtain ⟨s₁, hs₁, -, -, hidle, -, -⟩ := snapshot_eq_ok.1 hafter
  obtain rfl : s' = s₁ := ok_unique hdeposited.after.1 hs₁
  rw [(TokenBook.balanceOf_eq_ok.1 hidle).2]
  exact held_le_of_deposit h s'.underlyer

/-- A deposit credits its caller with what it mints. That is something exactly if the deposit is worth at
least one share; of a pool without shares or without value, if it is at least one unit of the decimals of
shares. -/
theorem deposit_mints_iff (p q : Protocol) (caller pool : Address) (amount shares value : Nat)
    (h : deposit caller pool amount p = .ok shares q)
    (hvalue : p.underlyerValue pool amount = .ok value) :
    ∃ s s' decimals total, p.pool pool = .ok s ∧ q.pool pool = .ok s' ∧
      p.tokens.decimals s.underlyer = .ok decimals ∧ p.poolValue pool = .ok total ∧
      s'.shares.balanceOf caller = s.shares.balanceOf caller + shares ∧
      (0 < shares ↔
        if s.shares.supply = 0 ∨ total = 0 then 10 ^ (decimals - shareDecimals) ≤ amount
        else total ≤ s.shares.supply * value) := by
  obtain ⟨hamount, s, s', _, _, hdeposited⟩ := deposited_of_deposit h
  obtain ⟨_, _, _, _, -, -, -, -, hmint, -⟩ := deposit_eq_ok.1 h
  obtain ⟨snap, hsnap, htotal⟩ := valued_of_deposit h
  obtain ⟨s₁, hs₁, hprice, hdecimals, -, -, hsupply⟩ := snapshot_eq_ok.1 hsnap
  obtain rfl : s = s₁ := ok_unique hdeposited.before.1 hs₁
  have hcredited := hdeposited.balance caller
  rw [if_pos rfl] at hcredited
  refine ⟨s, s', snap.decimals, snap.value, hs₁, hdeposited.after.1, hdecimals,
    poolValue_eq_ok.2 ⟨snap, hsnap, htotal⟩, hcredited, ?_⟩
  obtain ⟨s₂, hs₂, hmint⟩ := except_bind_eq_ok.1 hmint
  obtain rfl : s = s₂ := ok_unique hs₁ hs₂
  split at hmint
  next hnone =>
    obtain ⟨decimals, hdecimals', hmint⟩ := except_bind_eq_ok.1 hmint
    obtain rfl : snap.decimals = decimals := ok_unique hdecimals hdecimals'
    rw [if_pos (.inl hnone), bootstrapMint_pos_iff hmint hamount]
  next =>
    obtain ⟨snap₁, hsnap₁, hmint⟩ := except_bind_eq_ok.1 hmint
    obtain rfl : snap = snap₁ := ok_unique hsnap hsnap₁
    have hworth : snap.worthOf amount = .ok value := by
      unfold underlyerValue at hvalue
      rw [if_neg hamount] at hvalue
      obtain ⟨s₃, hs₃, hvalue⟩ := except_bind_eq_ok.1 hvalue
      obtain rfl : s = s₃ := ok_unique hs₁ hs₃
      obtain ⟨decimals, hdecimals', hvalue⟩ := except_bind_eq_ok.1 hvalue
      obtain rfl : snap.decimals = decimals := ok_unique hdecimals hdecimals'
      obtain ⟨price, hprice', hvalue⟩ := except_bind_eq_ok.1 hvalue
      obtain rfl : snap.price = price := ok_unique hprice hprice'
      exact hvalue
    rw [← hsupply]
    exact Snapshot.sharesFor_pos_iff hmint hamount hworth

/-- One share is left of a pool, and the pool has been given a whole token. -/
def oneShare : Protocol :=
  initial.run [.mintTokens ⟨"USDC"⟩ ⟨"alice"⟩ 1, .approve ⟨"USDC"⟩ ⟨"alice"⟩ ⟨"usdcPool"⟩ 1,
    .deposit ⟨"alice"⟩ ⟨"usdcPool"⟩ 1, .redeem ⟨"alice"⟩ ⟨"usdcPool"⟩ 999999999999999,
    .mintTokens ⟨"USDC"⟩ ⟨"usdcPool"⟩ 1000000, .mintTokens ⟨"USDC"⟩ ⟨"bob"⟩ 2000000,
    .approve ⟨"USDC"⟩ ⟨"bob"⟩ ⟨"usdcPool"⟩ 2000000]

/-- One unit more than a whole token is worth as much as the share, and earns one. -/
theorem deposit_mints_iff_oneShare :
    ∃ shares q, deposit ⟨"bob"⟩ ⟨"usdcPool"⟩ 1000001 oneShare = .ok shares q ∧ 0 < shares := by
  have hok : (Operation.deposit ⟨"bob"⟩ ⟨"usdcPool"⟩ 1000001).fails oneShare = false := by decide +kernel
  obtain ⟨_, h⟩ := perform_of_not_fails hok
  obtain ⟨shares, -, h⟩ := Operation.reply_eq_ok.1 h
  have hvalue : oneShare.underlyerValue ⟨"usdcPool"⟩ 1000001 = .ok 100000100 :=
    eq_ok_of_toOption (by decide +kernel)
  obtain ⟨s, _, _, total, hs, -, -, htotal, -, hiff⟩ := deposit_mints_iff _ _ _ _ _ _ _ h hvalue
  have htotal' : oneShare.poolValue ⟨"usdcPool"⟩ = .ok 100000100 :=
    eq_ok_of_toOption (by decide +kernel)
  obtain rfl := ok_unique htotal htotal'
  have hsupply : s.shares.supply = 1 := by
    have hread : oneShare.shareSupply ⟨"usdcPool"⟩ = 1 := by decide +kernel
    simpa only [shareSupply, hs] using hread
  refine ⟨shares, _, h, hiff.2 ?_⟩
  rw [hsupply, if_neg (by decide)]

/-- A whole token is worth less than the share. It is taken, and earns none. -/
theorem deposit_mints_nothing :
    Reachable oneShare ∧ oneShare.underlyerValue ⟨"usdcPool"⟩ 1000000 = .ok 100000000 ∧
      ∃ q, deposit ⟨"bob"⟩ ⟨"usdcPool"⟩ 1000000 oneShare = .ok 0 q ∧
        oneShare.tokens.held ⟨"USDC"⟩ ⟨"bob"⟩ = 2000000 ∧ q.tokens.held ⟨"USDC"⟩ ⟨"bob"⟩ = 1000000 := by
  refine ⟨reachable_initial.run _, eq_ok_of_toOption (by decide +kernel),
    oneShare.after (.deposit ⟨"bob"⟩ ⟨"usdcPool"⟩ 1000000), by rfl, by decide +kernel,
    by decide +kernel⟩

end Protocol

end MetaPool
