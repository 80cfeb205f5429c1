import MetaPool.Proofs.Step.History

/-!
# What an operation leaves alone

`Operation.writes` lists the components that an operation may write. All others it leaves as they
are, whether it succeeds or fails. To leave the log alone is to add to it at most: everybody logs,
but only `takeLog` takes anything away.

    Frame op.writes p (left (op.perform p))                         (within_perform)

The rules for `Within` follow the constructors of an action, so that each operation is one walk
along its body.
-/

namespace MetaPool

/-- A part of the protocol. -/
inductive Component where
  | clock
  | feeds
  | tokens
  | registry
  | oracle
  | pools
  | metaToken
  | lpAccount
  | allocation
  | log
deriving DecidableEq

/-- The component is left alone on the way from one state to another. -/
def Component.Kept : Component → Protocol → Protocol → Prop
  | clock, p, q => q.clock = p.clock
  | feeds, p, q => q.feeds = p.feeds
  | tokens, p, q => q.tokens = p.tokens
  | registry, p, q => q.registry = p.registry
  | oracle, p, q => q.oracle = p.oracle
  | pools, p, q => q.pools = p.pools
  | metaToken, p, q => q.metaToken = p.metaToken
  | lpAccount, p, q => q.lpAccount = p.lpAccount
  | allocation, p, q => q.allocation = p.allocation
  | log, p, q => p.log <+: q.log

theorem Component.kept_refl (c : Component) (p : Protocol) : c.Kept p p := by
  cases c <;> first | rfl | exact List.prefix_refl _

theorem Component.kept_trans {c : Component} {p q r : Protocol} (h : c.Kept p q)
    (h' : c.Kept q r) : c.Kept p r := by
  cases c with
  | log => exact List.IsPrefix.trans h h'
  | _ => exact Eq.trans h' h

/-- A rollback keeps what was logged before, as long as the failed step did. -/
theorem Component.kept_rollback {c : Component} {p q : Protocol} (h : c.Kept p q) :
    c.Kept p (p.rollback q) := by
  cases c with
  | log => exact List.prefix_take_iff.2 ⟨h, Nat.le_refl _⟩
  | _ => rfl

namespace Protocol

variable {α β γ : Type} {ws : List Component}

/-- Every component but the given ones is left alone. -/
def Frame (ws : List Component) (p q : Protocol) : Prop := ∀ c, c ∉ ws → c.Kept p q

theorem Frame.refl (p : Protocol) : Frame ws p p := fun c _ => c.kept_refl p

theorem Frame.trans {p q r : Protocol} (h : Frame ws p q) (h' : Frame ws q r) : Frame ws p r :=
  fun c hc => Component.kept_trans (h c hc) (h' c hc)

theorem Frame.rollback {p q : Protocol} (h : Frame ws p q) : Frame ws p (p.rollback q) :=
  fun c hc => Component.kept_rollback (h c hc)

/-- The state that an action leaves, whether it succeeds or fails. -/
def left : EStateM.Result Fault Protocol α → Protocol
  | .ok _ q => q
  | .error _ q => q

/-- Whatever the action does, and also where it fails half-way, it writes only the given
components. -/
def Within (ws : List Component) (x : Action α) : Prop := ∀ p, Frame ws p (left (x p))

theorem Within.frame {x : Action α} {a : α} {p q : Protocol} (h : Within ws x)
    (hx : x p = .ok a q) : Frame ws p q := by
  have hp := h p
  rw [hx] at hp
  exact hp

/-! ## Actions within given components -/

theorem within_pure (a : α) : Within ws (pure a) := fun _ => .refl _

theorem within_get : Within ws (get : Action Protocol) := fun _ => .refl _

theorem within_throw (fault : Fault) : Within ws (throw fault : Action α) := fun _ => .refl _

theorem within_demand (x : Except Fault α) : Within ws (demand x) := by
  intro p
  cases x <;> exact .refl _

theorem within_ask (view : Protocol → Except Fault α) : Within ws (ask view) :=
  fun p => within_demand (view p) p

theorem within_bind {x : Action α} {f : α → Action β} (hx : Within ws x)
    (hf : ∀ a, Within ws (f a)) : Within ws (x >>= f) := by
  intro p
  have h := hx p
  show Frame ws p (left (EStateM.bind x f p))
  unfold EStateM.bind
  cases hxp : x p with
  | ok a q =>
    rw [hxp] at h
    exact h.trans (hf a q)
  | error fault q =>
    rw [hxp] at h
    exact h

theorem within_ite {c : Prop} [Decidable c] {x y : Action α} (hx : Within ws x)
    (hy : Within ws y) : Within ws (if c then x else y) := by
  split
  · exact hx
  · exact hy

/-- A guard that throws does nothing else. -/
theorem within_refuse {c : Prop} [Decidable c] {fault : Fault} {f : α → Action β} {y : Action β}
    (hy : Within ws y) : Within ws (if c then throw fault >>= f else y) :=
  within_ite (fun _ => .refl _) hy

theorem within_forM {l : List γ} {f : γ → Action Unit} (h : ∀ c, Within ws (f c)) :
    Within ws (l.forM f) := by
  induction l with
  | nil => exact within_pure ()
  | cons c l ih => exact within_bind (h c) fun _ => ih

theorem within_atomically {x : Action α} (hx : Within ws x) : Within ws (atomically x) := by
  intro p
  have h := hx p
  unfold atomically
  cases hxp : x p with
  | ok a q => rw [hxp] at h; exact h
  | error fault q => rw [hxp] at h; exact h.rollback

/-! ## Writes of one component -/

/-- A write of one component leaves the others alone. -/
theorem within_modify {c : Component} (hc : c ∈ ws) (f : Protocol → Protocol)
    (h : ∀ d p, d ≠ c → d.Kept p (f p)) : Within ws (modify f) := by
  intro p d hd
  exact h d p fun e => hd (e ▸ hc)

theorem within_onTokens (h : .tokens ∈ ws) (change : TokenBook → Except Fault TokenBook) :
    Within ws (onTokens change) := by
  refine within_bind (within_ask _) fun _ => within_modify h _ ?_
  intro d p hd
  cases d <;> first | rfl | exact List.prefix_refl _ | exact absurd rfl hd

theorem within_onFeeds (h : .feeds ∈ ws) (change : FeedBook → Except Fault FeedBook) :
    Within ws (onFeeds change) := by
  refine within_bind (within_ask _) fun _ => within_modify h _ ?_
  intro d p hd
  cases d <;> first | rfl | exact List.prefix_refl _ | exact absurd rfl hd

theorem within_onMetaToken (h : .metaToken ∈ ws) (change : MetaToken → Except Fault MetaToken) :
    Within ws (onMetaToken change) := by
  refine within_bind (within_ask _) fun _ => within_modify h _ ?_
  intro d p hd
  cases d <;> first | rfl | exact List.prefix_refl _ | exact absurd rfl hd

theorem within_onPool (h : .pools ∈ ws) (pool : Address) (change : Pool → Except Fault Pool) :
    Within ws (onPool pool change) := by
  refine within_bind (within_ask _) fun _ => within_modify h _ ?_
  intro d p hd
  cases d <;> first | rfl | exact List.prefix_refl _ | exact absurd rfl hd

/-- A failed setter may have written as well. -/
theorem within_onOracle (h : .oracle ∈ ws) (setter : Clock → FeedBook → Oracle.Setter α) :
    Within ws (onOracle setter) := by
  intro p d hd
  have hne : d ≠ .oracle := fun e => hd (e ▸ h)
  unfold onOracle
  cases setter p.clock p.feeds p.oracle <;> cases d <;>
    first | rfl | exact List.prefix_refl _ | exact absurd rfl hne

theorem within_logEvent (event : Event) : Within ws (logEvent event) := by
  intro p d _
  cases d with
  | log => exact List.prefix_append _ _
  | _ => rfl

theorem within_clock (h : .clock ∈ ws) (f : Clock → Clock) :
    Within ws (modify fun p => { p with clock := f p.clock }) := by
  apply within_modify h
  intro d p hd
  cases d <;> first | rfl | exact List.prefix_refl _ | exact absurd rfl hd

/-! ## The bodies of the operations -/

theorem within_publish (h : .feeds ∈ ws) (source : Address) (answer : Int) :
    Within ws (publish source answer) :=
  within_bind within_get fun _ => within_onFeeds h _

theorem within_publishPrice (h : .feeds ∈ ws) (asset : Address) (answer : Int) :
    Within ws (publishPrice asset answer) := by
  refine within_bind within_get fun p => ?_
  cases p.oracle.assetSource asset with
  | some source => exact within_publish h source answer
  | none => exact within_throw _

theorem within_openFeed (h : .feeds ∈ ws) (source : Address) (answer : Int) :
    Within ws (openFeed source answer) :=
  within_bind within_get fun _ => within_onFeeds h _

theorem within_takeLog (h : .log ∈ ws) : Within ws takeLog := by
  intro p d hd
  cases d with
  | log => exact absurd h hd
  | _ => rfl

theorem within_deposit (ht : .tokens ∈ ws) (hp : .pools ∈ ws) (caller pool : Address)
    (amount : Nat) : Within ws (deposit caller pool amount) := by
  refine within_atomically (within_bind (within_ask _) fun state => ?_)
  refine within_bind (within_demand _) fun _ => within_refuse ?_
  refine within_bind (within_ask _) fun allowed => within_refuse ?_
  refine within_bind (within_ask _) fun shares => ?_
  refine within_bind (within_onTokens ht _) fun _ => within_bind within_get fun _ => ?_
  refine within_bind (within_onPool hp _ _) fun _ => within_bind (within_ask _) fun value => ?_
  exact within_bind (within_logEvent _) fun _ => within_pure _

theorem within_redeem (ht : .tokens ∈ ws) (hp : .pools ∈ ws) (caller pool : Address)
    (shares : Nat) : Within ws (redeem caller pool shares) := by
  refine within_atomically (within_bind (within_ask _) fun state => ?_)
  refine within_bind (within_demand _) fun _ => within_refuse (within_refuse ?_)
  refine within_bind (within_ask _) fun quote => within_bind (within_ask _) fun available => ?_
  refine within_refuse (within_bind (within_onPool hp _ _) fun _ => ?_)
  refine within_bind (within_onTokens ht _) fun _ => within_bind (within_ask _) fun value => ?_
  exact within_bind (within_logEvent _) fun _ => within_pure _

theorem within_sendToLpAccount (h : .tokens ∈ ws) (caller pool : Address) (amount : Nat) :
    Within ws (sendToLpAccount caller pool amount) := by
  refine within_atomically (within_bind (within_ask _) fun state => ?_)
  refine within_bind (within_demand _) fun _ => within_bind within_get fun _ => ?_
  exact within_bind (within_onTokens h _) fun _ => within_logEvent _

theorem within_returnToPool (h : .tokens ∈ ws) (caller pool : Address) (amount : Nat) :
    Within ws (returnToPool caller pool amount) := by
  refine within_atomically (within_bind within_get fun _ => ?_)
  refine within_bind (within_demand _) fun _ => within_bind (within_ask _) fun state => ?_
  exact within_bind (within_onTokens h _) fun _ => within_logEvent _

/-- The shape of every control of a pool. -/
theorem within_controlPool (h : .pools ∈ ws) (pool : Address) (change : Pool → Except Fault Pool)
    (event : Event) : Within ws (atomically do onPool pool change; logEvent event) :=
  within_atomically (within_bind (within_onPool h _ _) fun _ => within_logEvent _)

/-- The shape of most controls of the oracle. -/
theorem within_controlOracle (h : .oracle ∈ ws) (setter : Clock → FeedBook → Oracle.Setter α)
    (event : α → Event) : Within ws (atomically do let a ← onOracle setter; logEvent (event a)) :=
  within_atomically (within_bind (within_onOracle h _) fun _ => within_logEvent _)

/-- The shape of a lock of the oracle, which logs the end of the lock as it is afterwards. -/
theorem within_lock (h : .oracle ∈ ws) (setter : Clock → FeedBook → Oracle.Setter Unit) :
    Within ws (do onOracle setter; logEvent (.oracleLocked (← get).oracle.lockEnd)) :=
  within_bind (within_onOracle h _) fun _ => within_bind within_get fun _ => within_logEvent _

theorem within_setAssetSources (h : .oracle ∈ ws) (caller : Address)
    (assets sources : List Address) : Within ws (setAssetSources caller assets sources) := by
  refine within_atomically (within_bind (within_onOracle h _) fun _ => ?_)
  exact within_forM fun _ => within_logEvent _

/-! ## The bodies of the batches -/

theorem within_registerUnderlyer (h : .allocation ∈ ws) (pool : Address) :
    Within ws (registerUnderlyer pool) := by
  refine within_bind (within_ask _) fun state => within_bind within_get fun _ => ?_
  refine within_ite (within_pure _) (within_bind (within_ask _) fun info => ?_)
  refine within_bind within_get fun _ => within_bind (within_ask _) fun allocation => ?_
  refine within_bind (within_modify h _ ?_) fun _ => within_logEvent _
  intro d p hd
  cases d <;> first | rfl | exact List.prefix_refl _ | exact absurd rfl hd

theorem within_mintAndSend (hm : .metaToken ∈ ws) (ht : .tokens ∈ ws) (pool : Address)
    (shares amount : Nat) : Within ws (mintAndSend pool shares amount) := by
  refine within_ite (within_pure _) (within_bind (within_onMetaToken hm _) fun _ => ?_)
  refine within_bind (within_logEvent _) fun _ => within_bind within_get fun _ => ?_
  exact within_sendToLpAccount ht _ _ _

theorem within_burnAndReturn (hm : .metaToken ∈ ws) (ht : .tokens ∈ ws) (pool : Address)
    (shares amount : Nat) : Within ws (burnAndReturn pool shares amount) := by
  refine within_ite (within_pure _) (within_bind (within_onMetaToken hm _) fun _ => ?_)
  refine within_bind (within_logEvent _) fun _ => within_bind within_get fun _ => ?_
  exact within_returnToPool ht _ _ _

theorem within_lockAfterMove (h : .oracle ∈ ws) : Within ws lockAfterMove :=
  within_bind within_get fun _ => within_lock h _

theorem within_moveBatch (ho : .oracle ∈ ws) {leg : Address → Nat → Nat → Action Unit}
    (hleg : ∀ pool shares amount, Within ws (leg pool shares amount)) (pools : List Address)
    (amounts : List Nat) : Within ws (moveBatch leg pools amounts) := by
  refine within_bind (within_ask _) fun deltas => ?_
  exact within_bind (within_forM fun _ => hleg _ _ _) fun _ => within_lockAfterMove ho

/-- The components that a batch may write. -/
def batchWrites : List Component := [.tokens, .oracle, .metaToken, .allocation]

/-- The shape of every batch: the underlyers are listed, then the legs walked. -/
theorem within_batch {leg : Address → Nat → Nat → Action Unit}
    (hleg : ∀ pool shares amount, Within batchWrites (leg pool shares amount))
    (pools : List Address) (amounts : List Nat) :
    Within batchWrites (do pools.forM registerUnderlyer; moveBatch leg pools amounts) := by
  refine within_bind (within_forM fun _ => within_registerUnderlyer (by decide) _) fun _ => ?_
  exact within_moveBatch (by decide) hleg _ _

theorem within_sendSurplus (caller : Address) (ids : List String) :
    Within batchWrites (sendSurplus caller ids) := by
  refine within_atomically (within_bind (within_ask _) fun _ => ?_)
  refine within_bind (within_ask _) fun amounts => ?_
  refine within_bind (within_forM fun _ => within_registerUnderlyer (by decide) _) fun _ => ?_
  refine within_bind ?_ fun _ => within_pure _
  exact within_moveBatch (by decide) (within_mintAndSend (by decide) (by decide)) _ _

theorem within_recallShortfall (caller : Address) (ids : List String) :
    Within batchWrites (recallShortfall caller ids) := by
  refine within_atomically (within_bind (within_ask _) fun _ => ?_)
  refine within_bind (within_ask _) fun topUps => within_bind (within_ask _) fun available => ?_
  refine within_bind (within_demand _) fun amounts => ?_
  refine within_bind (within_forM fun _ => within_registerUnderlyer (by decide) _) fun _ => ?_
  refine within_bind ?_ fun _ => within_pure _
  exact within_moveBatch (by decide) (within_burnAndReturn (by decide) (by decide)) _ _

theorem within_sendByHand (caller : Address) (pools : List Address) (amounts : List Nat) :
    Within batchWrites (sendByHand caller pools amounts) := by
  refine within_atomically (within_bind (within_ask _) fun _ => ?_)
  refine within_bind (within_ask _) fun _ => ?_
  exact within_batch (within_mintAndSend (by decide) (by decide)) pools amounts

theorem within_recallByHand (caller : Address) (pools : List Address) (amounts : List Nat) :
    Within batchWrites (recallByHand caller pools amounts) := by
  refine within_atomically (within_bind (within_ask _) fun _ => ?_)
  refine within_bind (within_ask _) fun _ => ?_
  exact within_batch (within_burnAndReturn (by decide) (by decide)) pools amounts

end Protocol

namespace Operation

open Protocol

/-- The components that an operation may write, the log only if it takes from it. -/
def writes : Operation → List Component
  | passBlocks _ | passTime _ | mine _ _ => [.clock]
  | publish _ _ | publishTvl _ | publishPrice _ _ | openFeed _ _ => [.feeds]
  | mintTokens _ _ _ | approve _ _ _ _ => [.tokens]
  | takeLog => [.log]
  | deposit _ _ _ | redeem _ _ _ => [.tokens, .pools]
  | sendToLpAccount _ _ _ | returnToPool _ _ _ => [.tokens]
  | setPoolPaused _ _ _ | setDepositLock _ _ _ | setRedemptionLock _ _ _
  | setReservePercentage _ _ _ | setWithdrawFee _ _ _ | setArbitrageFee _ _ _ _ => [.pools]
  | sendSurplus _ _ | recallShortfall _ _ | sendByHand _ _ _ | recallByHand _ _ _ => batchWrites
  | lockOracle _ | lockOracleFor _ _ | unlockOracle _ | setTvlOverride _ _ _ | unsetTvlOverride _
  | setAssetOverride _ _ _ _ | unsetAssetOverride _ _ | setTvlSource _ _ | setAssetSource _ _ _
  | setAssetSources _ _ _ | setStalePeriod _ _ | setLockPeriod _ _ => [.oracle]

/-- Only rebalances write meta shares. -/
theorem metaToken_mem_writes {op : Operation} : .metaToken ∈ op.writes ↔ op.isRebalance = true := by
  cases op <;> simp [writes, batchWrites, isRebalance]

theorem within_reply {α : Type} {ws : List Component} {x : Action α} (reply : α → Outcome)
    (h : Within ws x) : Within ws (do return reply (← x)) := within_bind h fun _ => within_pure _

theorem within_complete {ws : List Component} {x : Action Unit} (h : Within ws x) :
    Within ws (complete x) := within_reply (fun _ => .done) h

theorem within_perform (op : Operation) : Within op.writes op.perform := by
  cases op with
  | passBlocks blocks =>
    exact within_complete (within_clock List.mem_cons_self (·.passBlocks blocks))
  | passTime seconds => exact within_complete (within_clock List.mem_cons_self (·.passTime seconds))
  | mine blocks spacing =>
    exact within_complete (within_clock List.mem_cons_self (·.mine blocks spacing))
  | publish | publishTvl => exact within_complete (within_publish List.mem_cons_self _ _)
  | publishPrice => exact within_complete (within_publishPrice List.mem_cons_self _ _)
  | openFeed => exact within_complete (within_openFeed List.mem_cons_self _ _)
  | mintTokens | approve => exact within_complete (within_onTokens List.mem_cons_self _)
  | takeLog => exact within_reply _ (within_takeLog List.mem_cons_self)
  | deposit =>
    exact within_reply _ (within_deposit List.mem_cons_self (.tail _ List.mem_cons_self) _ _ _)
  | redeem =>
    exact within_reply _ (within_redeem List.mem_cons_self (.tail _ List.mem_cons_self) _ _ _)
  | sendToLpAccount => exact within_complete (within_sendToLpAccount List.mem_cons_self _ _ _)
  | returnToPool => exact within_complete (within_returnToPool List.mem_cons_self _ _ _)
  | setPoolPaused | setDepositLock | setRedemptionLock | setReservePercentage | setWithdrawFee
  | setArbitrageFee => exact within_complete (within_controlPool List.mem_cons_self _ _ _)
  | sendSurplus => exact within_reply _ (within_sendSurplus _ _)
  | recallShortfall => exact within_reply _ (within_recallShortfall _ _)
  | sendByHand => exact within_complete (within_sendByHand _ _ _)
  | recallByHand => exact within_complete (within_recallByHand _ _ _)
  | lockOracle | lockOracleFor =>
    exact within_complete (within_atomically (within_lock List.mem_cons_self _))
  | setAssetSources => exact within_complete (within_setAssetSources List.mem_cons_self _ _ _)
  | unlockOracle | setTvlOverride | unsetTvlOverride | setAssetOverride | unsetAssetOverride
  | setTvlSource | setAssetSource | setStalePeriod | setLockPeriod =>
    exact within_complete (within_controlOracle List.mem_cons_self _ _)

/-- An operation leaves alone what it does not write, whether it succeeds or fails. -/
theorem frame_after (p : Protocol) (op : Operation) : Frame op.writes p (p.after op) := by
  have h := within_perform op p
  unfold after
  cases hop : op.perform p with
  | ok out q => rw [hop] at h; exact h
  | error fault q => rw [hop] at h; exact h

/-- The LP account is the same for ever. -/
theorem lpAccount_after (p : Protocol) (op : Operation) : (p.after op).lpAccount = p.lpAccount :=
  frame_after p op .lpAccount (by cases op <;> simp [writes, batchWrites])

end Operation

end MetaPool
