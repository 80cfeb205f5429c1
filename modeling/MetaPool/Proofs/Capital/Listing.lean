import MetaPool.Proofs.Account.Staff
import MetaPool.Proofs.Capital.Deployed
import MetaPool.Proofs.Step.Failure

/-!
# Listing never stops a batch

A batch lists the underlyers of its pools before it moves anything. That succeeds for deployed pools
with a known underlyer (`exists_listed`), and what a batch reads afterwards it could have read before
(`metaDeltas_of_listed`).
-/

namespace MetaPool.Protocol

variable {p q : Protocol} {a : Address} {s : Pool} {pools : List Address} {u : Unit}

theorem registerUnderlyer_not_stops {x : TokenTraits} (hp : Linked p) (hs : p.pool a = .ok s)
    (hnamed : ¬ s.underlyer.isEmpty = true) (hx : p.tokens.traits s.underlyer = .ok x)
    (fault : Fault) : ¬ Stops (registerUnderlyer a) p fault := by
  intro h
  rcases registerUnderlyer_stops.1 h with h | ⟨s', hs', hlisted, h | ⟨info, -, h⟩⟩
  · rw [hs] at h
    cases h
  · obtain rfl : s = s' := ok_unique hs hs'
    rw [hx] at h
    cases h
  · obtain rfl : s = s' := ok_unique hs hs'
    have hok := hp.authorize .allocation .registerToken nofun rfl rfl
    rcases Allocation.fault_of_register hok h with ⟨hempty, -⟩ | ⟨hdouble, -⟩
    · exact hnamed hempty
    · exact hlisted hdouble

theorem frame_of_listed (h : pools.forM registerUnderlyer p = .ok u q) : Frame [.allocation] p q :=
  (within_forM fun a => within_registerUnderlyer (by decide) a).frame h

theorem sameRoles_of_listed (h : pools.forM registerUnderlyer p = .ok u q) : SameRoles p q :=
  forM_preserves (fun _ _ _ _ hI h => hI.trans (sameRoles_registerUnderlyer h)) (.refl p) h

/-- The underlyers of deployed pools can be listed, if they are known. -/
theorem exists_listed (h : Reachable p)
    (hpools : ∀ a ∈ pools, ∃ s x, p.pool a = .ok s ∧ p.tokens.traits s.underlyer = .ok x) :
    ∃ q, pools.forM registerUnderlyer p = .ok () q := by
  suffices hnot : ∀ fault, ¬ Stops (pools.forM registerUnderlyer) p fault by
    obtain ⟨⟨⟩, q, hq⟩ := exists_ok_of_not_stops hnot
    exact ⟨q, hq⟩
  intro fault hstop
  obtain ⟨before, a, after, q, rfl, hlisted, hstop⟩ := stops_forM.1 hstop
  have hframe := frame_of_listed hlisted
  have htokens : q.tokens = p.tokens := hframe .tokens (by decide)
  obtain ⟨s, x, hs, hx⟩ := hpools a (by simp)
  have hs' : q.pool a = .ok s := by rw [pool_of_eq (hframe .pools (by decide)), hs]
  have hlinked : Linked q := h.linked.congr (sameRoles_of_listed hlisted)
  have hx' : q.tokens.traits s.underlyer = .ok x := by rw [htokens, hx]
  exact registerUnderlyer_not_stops hlinked hs' (h.deployed hs).underlyer hx' fault hstop

theorem metaDeltas_of_listed {moved : List Address} {amounts : List Nat}
    (h : pools.forM registerUnderlyer p = .ok u q) :
    q.metaDeltas moved amounts = p.metaDeltas moved amounts := by
  have hframe := frame_of_listed h
  have hclock : q.clock = p.clock := hframe .clock (by decide)
  have hfeeds : q.feeds = p.feeds := hframe .feeds (by decide)
  have htokens : q.tokens = p.tokens := hframe .tokens (by decide)
  have horacle : q.oracle = p.oracle := hframe .oracle (by decide)
  have hpools : q.pools = p.pools := hframe .pools (by decide)
  have hmeta : q.metaToken = p.metaToken := hframe .metaToken (by decide)
  simp only [metaDeltas, tvl, assetPrice, pool, hclock, hfeeds, htokens, horacle, hpools, hmeta]

end MetaPool.Protocol
