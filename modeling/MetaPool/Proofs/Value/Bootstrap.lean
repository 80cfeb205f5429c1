import MetaPool.Proofs.Step.History
import MetaPool.Proofs.Value.Faults

/-!
# The first mint

A pool without shares mints at the bootstrap rate, which depends on nothing but the deposit. The view of
the protocol does not even look at the pool then. A snapshot does: it values itself before it asks for
its supply, so that a pool too rich to be valued mints nothing by its snapshot (`sharesFor_of_no_supply`)
and yet mints by the view.

    the view mints as the snapshot does ↔ there are shares, or the total value is an amount,
                                          or the bootstrap mint is out of range as well
                                                                   (bootstrap_ignores_state_iff)
-/

namespace MetaPool

/-! ## Results that are too large -/

/-- The fault of a result that is too large. -/
abbrev Fault.IsOverflow (fault : Fault) : Prop := fault = .overflow

namespace Checked

theorem overflows_fit (n : Nat) : FailsIn Fault.IsOverflow (fit n) :=
  failsIn_ite (failsIn_ok n) (failsIn_error rfl)

theorem overflows_powerOfTen (decimals : Nat) : FailsIn Fault.IsOverflow (powerOfTen decimals) :=
  failsIn_ite (failsIn_ok _) (failsIn_error rfl)

end Checked

/-- A power of ten is no zero divisor. -/
theorem overflows_worth (amount price decimals : Nat) :
    FailsIn Fault.IsOverflow (worth amount price decimals) := by
  refine failsIn_bind (Checked.overflows_powerOfTen _) fun scale hscale => ?_
  obtain ⟨-, rfl⟩ := Checked.powerOfTen_eq_ok.1 hscale
  unfold Checked.prorate
  rw [if_neg (by positivity)]
  exact Checked.overflows_fit _

/-! ## Snapshots -/

namespace Snapshot

/-- The worth of the idle balance and the deployed value together are an amount. -/
def Valued (s : Snapshot) : Prop := s.decimals ≤ maxDecimals ∧ s.value ≤ maxAmount

instance (s : Snapshot) : Decidable s.Valued := inferInstanceAs (Decidable (_ ∧ _))

theorem totalValue_eq (s : Snapshot) :
    s.totalValue = if s.Valued then .ok s.value else .error .overflow := by
  split
  next hvalued => exact totalValue_eq_ok.2 ⟨hvalued.1, rfl, hvalued.2⟩
  next hvalued =>
    have hfails : FailsIn Fault.IsOverflow s.totalValue :=
      failsIn_bind (overflows_worth _ _ _) fun _ _ => Checked.overflows_fit _
    cases hv : s.totalValue with
    | ok v =>
      obtain ⟨hdecimals, -, hfits⟩ := totalValue_eq_ok.1 hv
      exact absurd ⟨hdecimals, hfits⟩ hvalued
    | error fault => rw [hfails fault hv]

/-- Without shares a snapshot mints at the bootstrap rate, but only if it can be valued. -/
theorem sharesFor_of_no_supply {s : Snapshot} (hsupply : s.shareSupply = 0) (amount : Nat) :
    s.sharesFor amount =
      if s.Valued then bootstrapMint amount s.decimals else .error .overflow := by
  unfold sharesFor
  rw [totalValue_eq]
  split
  next => exact if_pos (.inl hsupply)
  next => rfl

theorem sharesFor_eq_bootstrapMint_iff {s : Snapshot} (hsupply : s.shareSupply = 0)
    (amount : Nat) : s.sharesFor amount = bootstrapMint amount s.decimals ↔
      s.Valued ∨ bootstrapMint amount s.decimals = .error .overflow := by
  rw [sharesFor_of_no_supply hsupply]
  split <;> simp_all [eq_comm]

end Snapshot

/-! ## The view -/

namespace Protocol

variable {p : Protocol} {pool : Address} {s : Snapshot}

theorem mintAmount_of_snapshot (h : p.snapshot pool = .ok s) (amount : Nat) :
    p.mintAmount pool amount =
      if s.shareSupply = 0 then bootstrapMint amount s.decimals else s.sharesFor amount := by
  obtain ⟨state, hpool, -, hdecimals, -, -, hsupply⟩ := snapshot_eq_ok.1 h
  unfold mintAmount
  rw [hpool, hsupply]
  show (if state.shares.supply = 0 then _ else _) = _
  split
  next => rw [hdecimals]; rfl
  next => rw [h]; rfl

/-- When the bootstrap rate ignores the pool. A snapshot without shares mints at that rate, whatever its
price, balance and deployed value, exactly if its total value is an amount or the mint is out of range
anyway; else the mint is out of range by the snapshot alone. The view, which values nothing, differs from
the snapshot exactly there. -/
theorem bootstrap_ignores_state_iff (s : Snapshot) (amount : Nat) :
    (s.shareSupply = 0 →
      (s.sharesFor amount = bootstrapMint amount s.decimals ↔
        s.Valued ∨ bootstrapMint amount s.decimals = .error .overflow) ∧
      (¬ s.Valued → s.sharesFor amount = .error .overflow)) ∧
    ∀ (p : Protocol) (pool : Address), p.snapshot pool = .ok s →
      (p.mintAmount pool amount = s.sharesFor amount ↔
        s.shareSupply ≠ 0 ∨ s.Valued ∨ bootstrapMint amount s.decimals = .error .overflow) := by
  refine ⟨fun hsupply => ⟨Snapshot.sharesFor_eq_bootstrapMint_iff hsupply amount, ?_⟩, ?_⟩
  · intro hvalued
    rw [Snapshot.sharesFor_of_no_supply hsupply, if_neg hvalued]
  · intro p pool h
    rw [mintAmount_of_snapshot h]
    by_cases hsupply : s.shareSupply = 0
    · rw [if_pos hsupply, eq_comm, Snapshot.sharesFor_eq_bootstrapMint_iff hsupply]
      simp [hsupply]
    · simp [hsupply]

/-! ## A pool too rich to be valued -/

/-- A pool without shares that was given as many units as there can be. -/
def overfull : Protocol := initial.run [.mintTokens ⟨"USDC"⟩ ⟨"usdcPool"⟩ maxAmount]

/-- The worth of the units is out of range, and the bootstrap mint of one unit is not. -/
theorem bootstrap_depends_on_balance : Reachable overfull ∧
    ∃ s, overfull.snapshot ⟨"usdcPool"⟩ = .ok s ∧ s.shareSupply = 0 ∧
      bootstrapMint 1 s.decimals = .ok 1000000000000000 ∧
      overfull.mintAmount ⟨"usdcPool"⟩ 1 = .ok 1000000000000000 ∧
      s.sharesFor 1 = .error .overflow := by
  refine ⟨reachable_initial.run _, ⟨100000000, 6, maxAmount, 0, 0⟩, ?_, rfl, by rfl, ?_, by rfl⟩
  · exact eq_ok_of_toOption (by decide +kernel)
  · exact eq_ok_of_toOption (by decide +kernel)

theorem bootstrap_ignores_state_iff_overfull : ∃ s,
    overfull.snapshot ⟨"usdcPool"⟩ = .ok s ∧ s.shareSupply = 0 ∧ ¬ s.Valued ∧
      s.sharesFor 1 ≠ bootstrapMint 1 s.decimals ∧ s.sharesFor 1 = .error .overflow ∧
      overfull.mintAmount ⟨"usdcPool"⟩ 1 ≠ s.sharesFor 1 := by
  have h : overfull.snapshot ⟨"usdcPool"⟩ = .ok ⟨100000000, 6, maxAmount, 0, 0⟩ :=
    eq_ok_of_toOption (by decide +kernel)
  have hvalued : ¬ Snapshot.Valued ⟨100000000, 6, maxAmount, 0, 0⟩ := by decide
  have hmint : bootstrapMint 1 6 ≠ .error .overflow := nofun
  obtain ⟨hrate, hview⟩ := bootstrap_ignores_state_iff ⟨100000000, 6, maxAmount, 0, 0⟩ 1
  obtain ⟨hrate, hoverflow⟩ := hrate rfl
  refine ⟨_, h, rfl, hvalued, fun heq => ?_, hoverflow hvalued, fun heq => ?_⟩
  · exact (hrate.1 heq).elim hvalued hmint
  · rcases (hview overfull _ h).1 heq with hsupply | hfits | hfails
    · exact hsupply rfl
    · exact hvalued hfits
    · exact hmint hfails

end Protocol

end MetaPool
