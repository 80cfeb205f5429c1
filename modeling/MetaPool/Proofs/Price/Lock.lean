import MetaPool.Proofs.Account.Gates
import MetaPool.Proofs.Quantity.Clock
import MetaPool.Proofs.Value.Views

/-!
# The lock freezes the share books

While the oracle is locked, nothing can be valued. Some operations do without a value on part of
their way (a first deposit, a batch while there are no meta shares, an empty batch), but whatever
would change a share book reads the oracle before it ends, so that it is undone.

    p locked → SameShares p (p.after op)                            (sameShares_after)
    no unlock → p.oracle.lockEnd ≤ (p.after op).oracle.lockEnd      (lockEnd_le_after)

A batch locks the oracle until its lock period from now. With the lock end never going back and the
height never going back, the books stay frozen until then (`frozen_run`).
-/

namespace MetaPool

namespace Protocol

variable {p q r : Protocol} {op : Operation} {out : Outcome} {u : Unit}

/-! ## Nothing can be valued -/

theorem requireUnlocked_of_locked (h : p.isOracleLocked = true) :
    p.oracle.requireUnlocked p.clock = .error .locked := if_pos h

theorem tvl_of_locked (h : p.isOracleLocked = true) : p.tvl = .error .locked := by
  simp only [tvl, Oracle.tvl, requireUnlocked_of_locked h]
  rfl

theorem assetPrice_of_locked (h : p.isOracleLocked = true) (asset : Address) :
    p.assetPrice asset = .error .locked := by
  simp only [assetPrice, Oracle.assetPrice, requireUnlocked_of_locked h]
  rfl

theorem isOracleLocked_congr (hclock : q.clock = p.clock) (horacle : q.oracle = p.oracle) :
    q.isOracleLocked = p.isOracleLocked := by
  simp only [isOracleLocked, hclock, horacle]

theorem not_locked_of_poolValue {a : Address} {v : Nat} (h : p.poolValue a = .ok v) :
    ¬ p.isOracleLocked = true := by
  intro hlocked
  obtain ⟨s, hsnap, -⟩ := poolValue_eq_ok.1 h
  obtain ⟨state, -, hprice, -⟩ := snapshot_eq_ok.1 hsnap
  rw [assetPrice_of_locked hlocked] at hprice
  cases hprice

/-- While the oracle is locked, deltas can only be computed for no pool at all. -/
theorem zip_of_metaDeltas {pools : List Address} {amounts deltas : List Nat}
    (hlocked : p.isOracleLocked = true) (h : p.metaDeltas pools amounts = .ok deltas) :
    pools.zip amounts = [] := by
  obtain ⟨-, tvl, -, h⟩ := metaDeltas_eq_ok.1 h
  cases hzip : pools.zip amounts with
  | nil => rfl
  | cons move moves =>
    rw [hzip, List.mapM_cons] at h
    obtain ⟨delta, hdelta, -⟩ := except_bind_eq_ok.1 h
    obtain ⟨state, price, decimals, -, hprice, -⟩ := metaDeltaAt_eq_ok.1 hdelta
    rw [assetPrice_of_locked hlocked] at hprice
    cases hprice

/-! ## The share books -/

/-- The meta shares and the shares of every pool are the same. -/
structure SameShares (p q : Protocol) : Prop where
  metaShares : q.metaToken.shares = p.metaToken.shares
  poolShares : ∀ a, (q.pool a).map (·.shares) = (p.pool a).map (·.shares)

theorem SameShares.refl (p : Protocol) : SameShares p p := ⟨rfl, fun _ => rfl⟩

theorem SameShares.trans (h : SameShares p q) (h' : SameShares q r) : SameShares p r :=
  ⟨h'.metaShares.trans h.metaShares, fun a => (h'.poolShares a).trans (h.poolShares a)⟩

/-- A batch that finds the oracle locked has no legs. -/
theorem metaToken_of_locked_batch {leg : Address → Nat → Nat → Action Unit} {pools : List Address}
    {amounts : List Nat} (hlocked : p.isOracleLocked = true) (h : Batch leg pools amounts p q) :
    q.metaToken = p.metaToken := by
  obtain ⟨r, hlisted, hmove⟩ := h
  obtain ⟨deltas, s, hdeltas, hlegs, hlock⟩ := moveBatch_eq_ok.1 hmove
  have hr : Frame [.allocation] p r :=
    (within_forM fun pool => within_registerUnderlyer (by decide) pool).frame hlisted
  have hs : Frame [.oracle] s q := (within_lockAfterMove (by decide)).frame hlock
  have hempty := zip_of_metaDeltas
    (by rwa [isOracleLocked_congr (hr .clock (by decide)) (hr .oracle (by decide))]) hdeltas
  rw [hempty] at hlegs
  obtain ⟨-, rfl⟩ := pure_eq_ok.1 hlegs
  exact (hs .metaToken (by decide)).trans (hr .metaToken (by decide))

/-- Neither a deposit nor a redemption ends without a value of its pool. -/
theorem not_locked_of_exchange {caller a : Address} {n : Nat} (h : op.perform p = .ok out q)
    (hop : op = .deposit caller a n ∨ op = .redeem caller a n) : ¬ p.isOracleLocked = true := by
  rcases hop with rfl | rfl
  · obtain ⟨_, -, h⟩ := Operation.reply_eq_ok.1 h
    obtain ⟨_, _, _, _, -, -, -, -, -, -, -, hv, -⟩ := deposit_eq_ok.1 h
    exact fun hlocked => not_locked_of_poolValue hv hlocked
  · obtain ⟨_, -, h⟩ := Operation.reply_eq_ok.1 h
    obtain ⟨_, _, _, _, _, _, -, -, -, -, -, -, -, -, -, -, hv, -⟩ := redeem_eq_ok.1 h
    exact fun hlocked => not_locked_of_poolValue hv hlocked

theorem poolShares_of_locked (hlocked : p.isOracleLocked = true) (h : op.perform p = .ok out q)
    (a : Address) : (q.pool a).map (·.shares) = (p.pool a).map (·.shares) := by
  refine (Operation.pools_of_ok h).map_eq (fun b s s' hchange => ?_) a
  cases hchange with
  | deposit caller amount shares time hop =>
    exact absurd hlocked (not_locked_of_exchange h (.inl hop))
  | redeem caller shares hop => exact absurd hlocked (not_locked_of_exchange h (.inr hop))
  | control hcontrol => exact hcontrol.shares

theorem metaToken_of_locked (hlocked : p.isOracleLocked = true) (h : op.perform p = .ok out q) :
    q.metaToken = p.metaToken := by
  by_cases hop : op.isRebalance = true
  · obtain ⟨pools, amounts, hbatch | hbatch⟩ := Operation.batch_of_ok hop h
    · exact metaToken_of_locked_batch hlocked hbatch
    · exact metaToken_of_locked_batch hlocked hbatch
  · exact Operation.frame_of_ok h .metaToken (mt Operation.metaToken_mem_writes.1 hop)

theorem sameShares_after (hlocked : p.isOracleLocked = true) (op : Operation) :
    SameShares p (p.after op) := by
  rcases ok_or_unchanged p op with ⟨out, h⟩ | ⟨-, hsame⟩
  · exact ⟨congrArg _ (metaToken_of_locked hlocked h), poolShares_of_locked hlocked h⟩
  · rw [hsame]
    exact .refl p

/-! ## The end of the lock -/

/-- A rebalance locks the oracle for its lock period, which is no earlier than the lock before. -/
theorem lockEnd_of_rebalance (hop : op.isRebalance = true) (h : op.perform p = .ok out q) :
    q.oracle.lockEnd = addHeights p.clock.height p.oracle.lockPeriod ∧
      p.oracle.lockEnd ≤ q.oracle.lockEnd := by
  obtain ⟨hle, horacle⟩ := Operation.oracle_of_rebalance hop h
  rw [horacle]
  exact ⟨rfl, hle⟩

theorem lockEnd_le_of_ok (hop : ∀ caller, op ≠ .unlockOracle caller)
    (h : op.perform p = .ok out q) : p.oracle.lockEnd ≤ q.oracle.lockEnd := by
  rcases Operation.oracle_change h with hsame | hchange
  · exact UInt64.le_of_eq (congrArg _ hsame).symm
  · generalize q.oracle = o at hchange
    cases hchange with
    | lock lockEnd hle => exact hle
    | unlock caller hunlock => exact absurd hunlock (hop caller)
    | _ => exact UInt64.le_refl _

theorem lockEnd_le_after (hop : op.liftsLock p = false) :
    p.oracle.lockEnd ≤ (p.after op).oracle.lockEnd := by
  rcases ok_or_unchanged p op with ⟨out, h⟩ | ⟨-, hsame⟩
  · refine lockEnd_le_of_ok ?_ h
    rintro caller rfl
    simp [Operation.liftsLock, Operation.fails, h] at hop
  · rw [hsame]
    exact UInt64.le_refl _

/-! ## Histories under the lock -/

/-- No operation runs the height back. -/
theorem height_le_after (p : Protocol) (op : Operation) :
    p.clock.height ≤ (p.after op).clock.height := by
  by_cases hw : .clock ∈ op.writes
  · cases op with
    | passBlocks blocks => exact p.clock.height_le_passBlocks blocks
    | passTime => exact UInt64.le_refl _
    | mine blocks spacing => exact p.clock.height_le_mine blocks spacing
    | _ => simp [Operation.writes, batchWrites] at hw
  · exact UInt64.le_of_eq (congrArg _ (Operation.frame_after p op .clock hw)).symm

theorem height_le_run (p : Protocol) (ops : List Operation) :
    p.clock.height ≤ (p.run ops).clock.height := by
  induction ops generalizing p with
  | nil => exact UInt64.le_refl _
  | cons op ops ih => exact UInt64.le_trans (height_le_after p op) (ih (p.after op))

/-- Whether no unlock of a history succeeds. -/
def keepsLock (p : Protocol) : List Operation → Bool
  | [] => true
  | op :: ops => !op.liftsLock p && (p.after op).keepsLock ops

/-- Up to the end of a lock that is not lifted, the oracle stays locked and the share books stay
what they are. -/
theorem frozen_run {height : UInt64} {ops : List Operation} (hend : height ≤ p.oracle.lockEnd)
    (hkeeps : p.keepsLock ops = true) (hbelow : (p.run ops).clock.height < height) :
    (p.run ops).isOracleLocked = true ∧ SameShares p (p.run ops) := by
  induction ops generalizing p with
  | nil => exact ⟨decide_eq_true (UInt64.lt_of_lt_of_le hbelow hend), .refl p⟩
  | cons op ops ih =>
    simp only [keepsLock, Bool.and_eq_true, Bool.not_eq_true'] at hkeeps
    obtain ⟨hop, hops⟩ := hkeeps
    -- the height never goes back, so the step is taken under the lock as well
    have hnow : p.clock.height < height :=
      UInt64.lt_of_le_of_lt (height_le_run p (op :: ops)) hbelow
    have hlocked : p.isOracleLocked = true := decide_eq_true (UInt64.lt_of_lt_of_le hnow hend)
    obtain ⟨hlocked', hshares⟩ := ih (UInt64.le_trans hend (lockEnd_le_after hop)) hops hbelow
    exact ⟨hlocked', (sameShares_after hlocked op).trans hshares⟩

/-- While the oracle is locked it answers nothing and no operation changes a share book; nothing but
an unlock moves the end of the lock back; and after a rebalance, the oracle stays locked and the
share books stay what they are for the whole lock period, unless an unlock succeeds. -/
theorem frozen_while_locked (p : Protocol) :
    (p.isOracleLocked = true →
      p.tvl = .error .locked ∧ (∀ asset, p.assetPrice asset = .error .locked) ∧
        ∀ op, SameShares p (p.after op)) ∧
    (∀ op, op.liftsLock p = false → p.oracle.lockEnd ≤ (p.after op).oracle.lockEnd) ∧
    ∀ (op : Operation) out q ops, op.isRebalance = true → op.perform p = .ok out q →
      q.keepsLock ops = true →
      (q.run ops).clock.height.toNat <
        min (p.clock.height.toNat + p.oracle.lockPeriod.toNat) maxWord →
      (q.run ops).isOracleLocked = true ∧ SameShares q (q.run ops) := by
  refine ⟨fun hlocked => ?_, fun op => lockEnd_le_after, ?_⟩
  · exact ⟨tvl_of_locked hlocked, assetPrice_of_locked hlocked, sameShares_after hlocked⟩
  · intro op out q ops hop hok hkeeps hbelow
    have hend := (lockEnd_of_rebalance hop hok).1
    rw [← toNat_addHeights, ← hend] at hbelow
    exact frozen_run (UInt64.le_refl _) hkeeps (UInt64.lt_iff_toNat_lt.2 hbelow)

/-- A pool with a deposit. -/
def beforeSend : Protocol :=
  initial.run [.mintTokens ⟨"USDC"⟩ ⟨"alice"⟩ 1000, .approve ⟨"USDC"⟩ ⟨"alice"⟩ ⟨"usdcPool"⟩ 1000,
    .deposit ⟨"alice"⟩ ⟨"usdcPool"⟩ 600]

/-- Sends from the pool, and so locks the oracle until height 136. -/
def sendFromPool : Operation := .sendByHand ⟨"emergencySafe"⟩ [⟨"usdcPool"⟩] [400]

/-- A hundred blocks, in which the lock period is set to none, nobody manages to unlock the oracle
and a deposit and a redemption fail. -/
def underLock : List Operation :=
  [.setLockPeriod ⟨"adminSafe"⟩ 0, .unlockOracle ⟨"alice"⟩, .passBlocks 100,
    .deposit ⟨"alice"⟩ ⟨"usdcPool"⟩ 400, .redeem ⟨"alice"⟩ ⟨"usdcPool"⟩ 1]

theorem frozen_afterSend :
    (beforeSend.after sendFromPool).tvl = .error .locked ∧
      ((beforeSend.after sendFromPool).run underLock).oracle.lockPeriod = 0 ∧
      ((beforeSend.after sendFromPool).run underLock).isOracleLocked = true ∧
      SameShares (beforeSend.after sendFromPool)
        ((beforeSend.after sendFromPool).run underLock) := by
  have hsucceeds : sendFromPool.fails beforeSend = false := by decide +kernel
  obtain ⟨out, hok⟩ := perform_of_not_fails hsucceeds
  have hlocked : (beforeSend.after sendFromPool).isOracleLocked = true := by decide +kernel
  refine ⟨((frozen_while_locked _).1 hlocked).1, by decide +kernel, ?_⟩
  exact (frozen_while_locked beforeSend).2.2 sendFromPool out _ underLock rfl hok (by decide +kernel)
    (by decide +kernel)

end Protocol

end MetaPool
