import CoinBot.App.BotTraffic
import CoinBot.Engine.Isolation

/- A worker and the answers that the exchange gave it.

   The worker of a market shares the store and the ledger with the others, and they all ask
   one exchange. Here a turn is run a second time: on a context that agrees with the first
   on what is the market's own (`Alike`), and with the journal of the first run in place of
   the exchange (`OrderApi.replay`). The second turn leaves the same journal, call by call,
   ends alike, and the first one has left alone what is not the market's own
   (`replays_turn`). -/
namespace CoinBot

open Json (Bytes Data)
open MarketEngines (OwnedBy)

variable {σ : Type}

/-- An exchange that gives the answers of a journal, one after the other. Asked for anything else,
    it fails. -/
def OrderApi.replay : OrderApi (List ApiCall) where
  postOrder req calls := match calls with
    | .postOrder req' answer :: rest => if req = req' then (answer, rest) else (.error {}, calls)
    | _ => (.error {}, calls)
  getOrder orderUuid calls := match calls with
    | .getOrder orderUuid' answer :: rest =>
      if orderUuid = orderUuid' then (answer, rest) else (.error {}, calls)
    | _ => (.error {}, calls)
  getMyAccount calls := match calls with
    | .getMyAccount answer :: rest => (answer, rest)
    | _ => (.error {}, calls)

/-- The same surroundings with the answers of a journal for the exchange; what is asked is written
    down in a new one. -/
def ManagerEnv.replay (env : ManagerEnv σ) : ManagerEnv (List ApiCall × List ApiCall) where
  strategy := env.strategy
  api := OrderApi.replay.recorded
  pendingTimeout := env.pendingTimeout

def MyOrderEvent.orderUuid : MyOrderEvent → String
  | .order o => o.id
  | .trade t => t.orderUuid

/-- The uuid of an answer is one of the market that was asked for. -/
def Faithful (owner : String → Option String) : ApiCall → Prop
  | .postOrder req (.ok uuid) => owner uuid = some req.market
  | .getOrder orderUuid (.ok o) => owner o.id = owner orderUuid
  | _ => True

/-! The engine. -/

namespace MarketEngine

variable {owned : String → Prop} {e e' : MarketEngine}

theorem Alike.reconciled (cfg : AppConfig ℚ) (h : Alike owned e e') {s : Order}
    (hown : owned s.id) :
    (e.reconcileFromSnapshot cfg s).1 = (e'.reconcileFromSnapshot cfg s).1 := by
  have hforMarket := h.forMarket s.market
  unfold reconcileFromSnapshot
  rw [← h.store s.id hown]
  by_cases hm : e.forMarket s.market
  · have hm' := hforMarket.mp hm
    simp only [hm, hm', not_true_eq_false, if_false]
    cases e.store.get s.id with
    | none => rfl
    | some prev =>
      rcases isolated_settleDelta h prev s with ⟨hnone, hnone'⟩ | ⟨_, _, hsome, hsome', -⟩
      · simp only [hnone, hnone']
      · simp only [hsome, hsome']
  · have hm' := (not_congr hforMarket).mp hm
    simp only [hm, hm', not_false_eq_true, if_true]

theorem submit_eq (cfg : AppConfig ℚ) {τ : Type}
    (postOrder : OrderRequest ℚ → τ → Except RestError String × τ) (e : MarketEngine)
    (req : OrderRequest ℚ) (s : τ) :
    e.submit cfg postOrder req s = (e.submitReply cfg req (postOrder req s).1,
      if (e.beforePost cfg req).1 = none then (postOrder req s).2 else s) := by
  unfold submitReply submit
  generalize e.beforePost cfg req = before
  obtain ⟨result, e₁⟩ := before
  cases result with
  | none => rfl
  | some result => rfl

theorem Alike.submitted (cfg : AppConfig ℚ) (h : Alike owned e e') (req : OrderRequest ℚ)
    (reply : Except RestError String) :
    (e.submitReply cfg req reply).1 = (e'.submitReply cfg req reply).1 := by
  have hresult := (isolated_beforePost cfg h req).1
  unfold submitReply submit
  generalize e.beforePost cfg req = before at hresult ⊢
  generalize e'.beforePost cfg req = before' at hresult ⊢
  obtain ⟨result, e₁⟩ := before
  obtain ⟨result', e₁'⟩ := before'
  obtain rfl : result = result' := hresult
  cases result with
  | some result => rfl
  | none =>
    cases reply with
    | error err => rfl
    | ok uuid => rfl

theorem submitReply_unposted (cfg : AppConfig ℚ) {req : OrderRequest ℚ}
    (h : (e.beforePost cfg req).1 ≠ none) (reply reply' : Except RestError String) :
    e.submitReply cfg req reply = e.submitReply cfg req reply' := by
  unfold submitReply submit
  generalize e.beforePost cfg req = before at h ⊢
  obtain ⟨result, e₁⟩ := before
  cases result with
  | some result => rfl
  | none => exact absurd rfl h

end MarketEngine

/-! The context. -/

namespace MarketContext

/-- The contexts are of the market, and agree on all that is its own, but for the database. -/
structure Alike (owner : String → Option String) (market : String) (ctx ctx' : MarketContext) :
    Prop where
  context : ctx.market = market
  home : ctx.engine.market = market
  engine : ctx.engine.Alike (OwnedBy owner market) ctx'.engine
  notes : ctx' = { ctx with engine := ctx'.engine, db := ctx'.db }

/-- After a part of the program two such contexts still agree, and the first has left alone what
    is not the market's own. -/
structure Isolated (owner : String → Option String) (market : String)
    (ctx ctx₁ ctx₁' : MarketContext) : Prop where
  alike : Alike owner market ctx₁ ctx₁'
  budgets : ∀ m, m ≠ market →
    ctx₁.engine.accountMgr.getBudget m = ctx.engine.accountMgr.getBudget m
  orders : ∀ id, ¬ OwnedBy owner market id → ctx₁.engine.store.get id = ctx.engine.store.get id

/-- The part of the program with the result `r` writes entries of the journal, and `f` is the
    same part on the answers that they have: it uses them up, and writes the same. -/
def Replays (owner : String → Option String) (market : String) (ctx : MarketContext)
    (st : σ × List ApiCall) (r : MarketContext × (σ × List ApiCall))
    (f : MarketContext → List ApiCall × List ApiCall →
      MarketContext × (List ApiCall × List ApiCall)) : Prop :=
  ∃ new, r.2.2 = st.2 ++ new ∧ ∀ ctx', Alike owner market ctx ctx' →
    (∀ c ∈ new, Faithful owner c) → ∀ rest log,
      (f ctx' (new ++ rest, log)).2 = (rest, log ++ new) ∧
        Isolated owner market ctx r.1 (f ctx' (new ++ rest, log)).1

variable {owner : String → Option String} {market : String}
  {ctx ctx' ctx₁ ctx₁' ctx₂ ctx₂' : MarketContext} {st : σ × List ApiCall}
  {r r₁ r₂ : MarketContext × (σ × List ApiCall)}
  {f g : MarketContext → List ApiCall × List ApiCall →
    MarketContext × (List ApiCall × List ApiCall)}

theorem Alike.eq (h : Alike owner market ctx ctx') :
    ∃ engine db, ctx' = { ctx with engine := engine, db := db } := ⟨_, _, h.notes⟩

theorem Alike.isolated (h : Alike owner market ctx ctx') :
    Isolated owner market ctx ctx ctx' := ⟨h, fun _ _ => rfl, fun _ _ => rfl⟩

theorem Isolated.trans (h : Isolated owner market ctx ctx₁ ctx₁')
    (h' : Isolated owner market ctx₁ ctx₂ ctx₂') : Isolated owner market ctx ctx₂ ctx₂' where
  alike := h'.alike
  budgets m hm := (h'.budgets m hm).trans (h.budgets m hm)
  orders id hid := (h'.orders id hid).trans (h.orders id hid)

/-- What the engine does alone. -/
theorem Alike.run (h : Alike owner market ctx ctx')
    (hengine : MarketEngine.Isolated (OwnedBy owner market) ctx.engine ctx₁.engine ctx₁'.engine)
    (hmarket : ctx₁.market = ctx.market)
    (hnotes : ctx₁' = { ctx₁ with engine := ctx₁'.engine, db := ctx₁'.db }) :
    Isolated owner market ctx ctx₁ ctx₁' where
  alike := ⟨hmarket.trans h.context, hengine.market.trans h.home, hengine.alike, hnotes⟩
  budgets m hm := hengine.budgets m (h.home ▸ hm)
  orders := hengine.orders

theorem Alike.noted (h : Alike owner market ctx ctx') (hengine : ctx₁.engine = ctx.engine)
    (hengine' : ctx₁'.engine = ctx'.engine) (hmarket : ctx₁.market = ctx.market)
    (hnotes : ctx₁' = { ctx₁ with engine := ctx₁'.engine, db := ctx₁'.db }) :
    Isolated owner market ctx ctx₁ ctx₁' := by
  refine h.run ?_ hmarket hnotes
  rw [hengine, hengine']
  exact h.engine.isolated

theorem Replays.trans (h : Replays owner market ctx st r₁ f)
    (h' : Replays owner market r₁.1 r₁.2 r₂ g) :
    Replays owner market ctx st r₂ (fun ctx' calls => g (f ctx' calls).1 (f ctx' calls).2) := by
  obtain ⟨new, hnew, hrun⟩ := h
  obtain ⟨new', hnew', hrun'⟩ := h'
  refine ⟨new ++ new', ?_, fun ctx' hlike hfaithful rest log => ?_⟩
  · rw [hnew', hnew, List.append_assoc]
  · obtain ⟨hrest, hisolated⟩ := hrun ctx' hlike
      (fun c hc => hfaithful c (List.mem_append_left _ hc)) (new' ++ rest) log
    obtain ⟨hrest', hisolated'⟩ := hrun' _ hisolated.alike
      (fun c hc => hfaithful c (List.mem_append_right _ hc)) rest (log ++ new)
    rw [List.append_assoc, ← List.append_assoc log]
    show (g _ (f ctx' (new ++ (new' ++ rest), log)).2).2 = (rest, _) ∧ _
    simp only [hrest]
    exact ⟨hrest', hisolated.trans hisolated'⟩

theorem Replays.congr (h : Replays owner market ctx st r f)
    (hfg : ∀ ctx', Alike owner market ctx ctx' → g ctx' = f ctx') :
    Replays owner market ctx st r g := by
  obtain ⟨new, hnew, hrun⟩ := h
  refine ⟨new, hnew, fun ctx' hlike hfaithful rest log => ?_⟩
  rw [hfg ctx' hlike]
  exact hrun ctx' hlike hfaithful rest log

theorem replays_alone (st : σ × List ApiCall) {F : MarketContext → MarketContext}
    (h : ∀ ctx', Alike owner market ctx ctx' → Isolated owner market ctx (F ctx) (F ctx')) :
    Replays owner market ctx st (F ctx, st) (fun ctx' calls => (F ctx', calls)) :=
  ⟨[], (List.append_nil _).symm, fun ctx' hlike _ rest log =>
    ⟨congrArg (Prod.mk rest) (List.append_nil log).symm, h ctx' hlike⟩⟩

/-! Order messages. -/

/-- A closed order is inserted, or the reconciliation failed. -/
theorem isolated_reconciled (cfg : AppConfig ℚ) (h : Alike owner market ctx ctx') {o : Order}
    (hown : OwnedBy owner market o.id) :
    Isolated owner market ctx { ctx with engine := (ctx.engine.reconcileFromSnapshot cfg o).2 }
      { ctx' with engine := (ctx'.engine.reconcileFromSnapshot cfg o).2 } := by
  obtain ⟨engine, db, rfl⟩ := h.eq
  exact h.run (MarketEngine.isolated_reconcile cfg h.engine hown) rfl rfl

theorem isolated_handleOrderEvent (cfg : AppConfig ℚ) (h : Alike owner market ctx ctx')
    (hasTrade : Bool) {ev : MyOrderEvent} (hown : OwnedBy owner market ev.orderUuid) :
    Isolated owner market ctx (ctx.handleOrderEvent cfg hasTrade ev)
      (ctx'.handleOrderEvent cfg hasTrade ev) := by
  cases ev with
  | trade t =>
    obtain ⟨engine, db, rfl⟩ := h.eq
    exact h.run (MarketEngine.isolated_onMyTrade cfg h.engine hown) rfl rfl
  | order o =>
    have hreconciled := isolated_reconciled cfg h hown
    have hsame := h.engine.reconciled cfg hown
    have hsnapshot := MarketEngine.isolated_onOrderSnapshot cfg h.engine hown
    obtain ⟨engine, db, rfl⟩ := h.eq
    simp only at hsame
    unfold handleOrderEvent
    simp only [← hsame]
    split
    · split
      · exact hreconciled.trans (hreconciled.alike.noted rfl rfl rfl rfl)
      · exact hreconciled.trans (hreconciled.alike.noted rfl rfl rfl rfl)
    · have hshot : Isolated owner market ctx
          { ctx with engine := ctx.engine.onOrderSnapshot cfg o }
          { ctx with engine := engine.onOrderSnapshot cfg o, db := db } :=
        h.run hsnapshot rfl rfl
      split
      · exact hshot.trans (hshot.alike.noted rfl rfl rfl rfl)
      · exact hshot

theorem isolated_handleMyOrder_ (cfg : AppConfig ℚ) (h : Alike owner market ctx ctx')
    {events : List MyOrderEvent} (hown : ∀ ev ∈ events, OwnedBy owner market ev.orderUuid) :
    Isolated owner market ctx (ctx.handleMyOrder_ cfg events) (ctx'.handleMyOrder_ cfg events) := by
  unfold handleMyOrder_
  generalize events.any isTrade = hasTrade
  induction events generalizing ctx ctx' with
  | nil => exact h.isolated
  | cons ev events ih =>
    have hone := isolated_handleOrderEvent cfg h hasTrade (hown ev List.mem_cons_self)
    exact hone.trans (ih hone.alike (fun ev' hev' => hown ev' (List.mem_cons_of_mem _ hev')))

/-! Recovery. -/

/-- The queries are written down, and an order among the answers is the one that is returned. -/
theorem replay_query (api : IOrderApi σ) (orderUuid : String) (retries : Nat)
    (st : σ × List ApiCall) :
    let r := queryOrderWithRetry_ api.recorded.toOrderApi orderUuid retries st
    ∃ new, r.2.2 = st.2 ++ new ∧ (∀ o, r.1 = some o → ApiCall.getOrder orderUuid (.ok o) ∈ new) ∧
      ∀ rest log, queryOrderWithRetry_ OrderApi.replay.recorded orderUuid retries
        (new ++ rest, log) = (r.1, rest, log ++ new) := by
  induction retries generalizing st with
  | zero =>
    refine ⟨[], (List.append_nil _).symm, fun o ho => ?_, fun rest log => ?_⟩
    · exact absurd ho (by simp [queryOrderWithRetry_])
    · rw [List.append_nil]
      rfl
  | succ retries ih =>
    unfold queryOrderWithRetry_
    cases hanswer : (api.getOrder orderUuid st.1).1 with
    | ok o =>
      have hrecorded : api.recorded.toOrderApi.getOrder orderUuid st =
          (.ok o, (api.getOrder orderUuid st.1).2, st.2 ++ [.getOrder orderUuid (.ok o)]) := by
        show (_, _, _) = _
        rw [hanswer]
      simp only [hrecorded]
      refine ⟨[.getOrder orderUuid (.ok o)], rfl, fun o' ho' => ?_, fun rest log => ?_⟩
      · obtain rfl := Option.some.inj ho'
        exact List.mem_singleton.mpr rfl
      · simp [OrderApi.replay, OrderApi.recorded]
    | error err =>
      have hrecorded : api.recorded.toOrderApi.getOrder orderUuid st =
          (.error err, (api.getOrder orderUuid st.1).2,
            st.2 ++ [.getOrder orderUuid (.error err)]) := by
        show (_, _, _) = _
        rw [hanswer]
      simp only [hrecorded]
      obtain ⟨new, hnew, hreturned, hrun⟩ := ih ((api.getOrder orderUuid st.1).2,
        st.2 ++ [.getOrder orderUuid (.error err)])
      refine ⟨.getOrder orderUuid (.error err) :: new, ?_, fun o ho => ?_, fun rest log => ?_⟩
      · rw [hnew, List.append_assoc]
        rfl
      · exact List.mem_cons_of_mem _ (hreturned o ho)
      · have hreplayed : OrderApi.replay.recorded.getOrder orderUuid
            (.getOrder orderUuid (.error err) :: (new ++ rest), log) =
              (.error err, new ++ rest, log ++ [.getOrder orderUuid (.error err)]) := by
          simp [OrderApi.replay, OrderApi.recorded]
        simp only [List.cons_append, hreplayed]
        rw [hrun rest, List.append_assoc]
        rfl

/-- What the answer of a query does. -/
def recovered (cfg : AppConfig ℚ) (ctx : MarketContext) : Option Order → MarketContext
  | none => ctx
  | some o =>
    if o.status.isTerminal && (ctx.engine.reconcileFromSnapshot cfg o).1 then
      { ctx with engine := (ctx.engine.reconcileFromSnapshot cfg o).2 }.insertOrder o
    else { ctx with engine := (ctx.engine.reconcileFromSnapshot cfg o).2 }

/-- The account is asked for where no query had an answer. -/
def diagnosed {τ : Type} (api : OrderApi τ) : Option Order × τ → τ
  | (none, s) => (api.getMyAccount s).2
  | (some _, s) => s

theorem diagnosed_some {τ : Type} {api : OrderApi τ} {answered : Option Order × τ} {o : Order}
    (h : answered.1 = some o) : diagnosed api answered = answered.2 := by
  obtain ⟨answer, s⟩ := answered
  obtain rfl : answer = some o := h
  rfl

theorem recoverOrder_asked (cfg : AppConfig ℚ) {τ : Type} (api : OrderApi τ) (ctx : MarketContext)
    (s : τ) {orderUuid : String} (hne : orderUuid ≠ "") :
    recoverOrder cfg api (ctx, s) orderUuid =
      (ctx.recovered cfg (queryOrderWithRetry_ api orderUuid 3 s).1,
        diagnosed api (queryOrderWithRetry_ api orderUuid 3 s)) := by
  unfold recoverOrder
  simp only [if_neg hne]
  generalize queryOrderWithRetry_ api orderUuid 3 s = answered
  obtain ⟨answer, s'⟩ := answered
  cases answer with
  | none => rfl
  | some o => rfl

theorem isolated_recovered (cfg : AppConfig ℚ) (h : Alike owner market ctx ctx')
    (answer : Option Order) (hown : ∀ o, answer = some o → OwnedBy owner market o.id) :
    Isolated owner market ctx (ctx.recovered cfg answer) (ctx'.recovered cfg answer) := by
  cases answer with
  | none => exact h.isolated
  | some o =>
    have hreconciled := isolated_reconciled cfg h (hown o rfl)
    have hsame := h.engine.reconciled cfg (hown o rfl)
    unfold recovered
    simp only [← hsame]
    split
    · refine hreconciled.trans (hreconciled.alike.noted rfl rfl rfl ?_)
      rw [h.notes]
      rfl
    · exact hreconciled

theorem replays_recoverOrder (cfg : AppConfig ℚ) (api : IOrderApi σ) (ctx : MarketContext)
    (st : σ × List ApiCall) {orderUuid : String} (hown : OwnedBy owner market orderUuid) :
    Replays owner market ctx st (recoverOrder cfg api.recorded.toOrderApi (ctx, st) orderUuid)
      (fun ctx' calls => recoverOrder cfg OrderApi.replay.recorded (ctx', calls) orderUuid) := by
  by_cases hempty : orderUuid = ""
  · subst hempty
    exact replays_alone st (F := fun ctx => ctx) (fun ctx' hlike => hlike.isolated)
  · obtain ⟨new, hnew, hreturned, hrun⟩ := replay_query api orderUuid 3 st
    simp only [recoverOrder_asked cfg _ _ _ hempty]
    generalize queryOrderWithRetry_ api.recorded.toOrderApi orderUuid 3 st = answered
      at hnew hreturned hrun
    obtain ⟨answer, st'⟩ := answered
    cases answer with
    | none =>
      refine ⟨new ++ [.getMyAccount (api.getMyAccount st'.1).1], ?_,
        fun ctx' hlike hfaithful rest log => ?_⟩
      · show st'.2 ++ _ = _
        rw [hnew, List.append_assoc]
      · rw [List.append_assoc]
        simp only [hrun]
        exact ⟨congrArg (Prod.mk rest) (List.append_assoc log new _), hlike.isolated⟩
    | some o =>
      refine ⟨new, hnew, fun ctx' hlike hfaithful rest log => ?_⟩
      simp only [hrun]
      refine ⟨rfl, isolated_recovered cfg hlike _ (fun o' ho' => .inr ?_)⟩
      have hsame : owner o'.id = owner orderUuid := hfaithful _ (hreturned o' ho')
      exact hsame.trans (hown.resolve_left hempty)

theorem replays_runRecovery_ (cfg : AppConfig ℚ) (api : IOrderApi σ) (ctx : MarketContext)
    (st : σ × List ApiCall)
    (hactive : ∀ side, OwnedBy owner market (ctx.engine.activeUuid side)) :
    Replays owner market ctx st (ctx.runRecovery_ cfg api.recorded.toOrderApi st)
      (fun ctx' calls => ctx'.runRecovery_ cfg OrderApi.replay.recorded calls) := by
  have hstop : ∀ (ctx : MarketContext) (st : σ × List ApiCall), Replays owner market ctx st
      (ctx.stopTracking, st) (fun ctx' calls => (ctx'.stopTracking, calls)) := by
    refine fun ctx st => replays_alone st (F := stopTracking) (fun ctx' hlike => ?_)
    obtain ⟨engine, db, rfl⟩ := hlike.eq
    exact hlike.noted rfl rfl rfl rfl
  have hids : ∀ ctx', Alike owner market ctx ctx' →
      ctx'.engine.activePendingIds = ctx.engine.activePendingIds := by
    intro ctx' hlike
    exact Prod.ext hlike.engine.buy.symm hlike.engine.sell.symm
  by_cases hnone : ctx.engine.activePendingIds.1 = "" ∧ ctx.engine.activePendingIds.2 = ""
  · have heq : ctx.runRecovery_ cfg api.recorded.toOrderApi st = (ctx.stopTracking, st) := by
      unfold runRecovery_
      simp only [if_pos hnone]
    rw [heq]
    refine (hstop ctx st).congr (fun ctx' hlike => ?_)
    funext calls
    unfold runRecovery_
    simp only [hids ctx' hlike, if_pos hnone]
  · have hbuy := replays_recoverOrder cfg api ctx st (hactive .bid)
    have hsell := replays_recoverOrder cfg api
      (recoverOrder cfg api.recorded.toOrderApi (ctx, st) (ctx.engine.activeUuid .bid)).1
      (recoverOrder cfg api.recorded.toOrderApi (ctx, st) (ctx.engine.activeUuid .bid)).2
      (hactive .ask)
    have heq : ctx.runRecovery_ cfg api.recorded.toOrderApi st =
        ((recoverOrder cfg api.recorded.toOrderApi (recoverOrder cfg api.recorded.toOrderApi
            (ctx, st) (ctx.engine.activeUuid .bid)) (ctx.engine.activeUuid .ask)).1.stopTracking,
          (recoverOrder cfg api.recorded.toOrderApi (recoverOrder cfg api.recorded.toOrderApi
            (ctx, st) (ctx.engine.activeUuid .bid)) (ctx.engine.activeUuid .ask)).2) := by
      unfold runRecovery_
      simp only [if_neg hnone]
      rfl
    rw [heq]
    refine ((hbuy.trans hsell).trans (hstop _ _)).congr (fun ctx' hlike => ?_)
    funext calls
    unfold runRecovery_
    simp only [hids ctx' hlike, if_neg hnone]
    rfl

/-! Orders. -/

/-- What the result of a submission does. -/
def submitted (ctx : MarketContext) (r : EngineResult × MarketEngine) : MarketContext :=
  if r.1.success then { ctx with engine := r.2 }
  else { ctx with engine := r.2, strategy := ctx.strategy.onSubmitFailed }

theorem submitOrder_eq {τ : Type} (env : ManagerEnv τ) (ctx : MarketContext)
    (req : OrderRequest ℚ) (s : τ) :
    let r := ctx.engine.submitReply env.cfg req (env.api.postOrder req s).1
    ctx.submitOrder env req s = (r.1.success, ctx.submitted r,
      if (ctx.engine.beforePost env.cfg req).1 = none then (env.api.postOrder req s).2 else s) := by
  intro r
  unfold submitOrder submitted
  rw [MarketEngine.submit_eq]
  simp only
  split
  · next hok => rw [hok]
  · next hfailed => rw [Bool.eq_false_iff.mpr hfailed]

theorem isolated_submitted (cfg : AppConfig ℚ) (h : Alike owner market ctx ctx')
    (req : OrderRequest ℚ) {reply : Except RestError String}
    (hown : ∀ uuid, reply = .ok uuid → OwnedBy owner market uuid) :
    Isolated owner market ctx (ctx.submitted (ctx.engine.submitReply cfg req reply))
      (ctx'.submitted (ctx'.engine.submitReply cfg req reply)) := by
  have hengine := MarketEngine.isolated_submitReply cfg h.engine req hown
  have hresult := h.engine.submitted cfg req reply
  obtain ⟨engine, db, rfl⟩ := h.eq
  unfold submitted
  simp only at hresult hengine ⊢
  rw [← hresult]
  split
  · exact h.run hengine rfl rfl
  · exact h.run hengine rfl rfl

/-- An order is submitted, and its success matters to what comes next. -/
theorem replays_submitOrder {env : ManagerEnv (σ × List ApiCall)} {api : IOrderApi σ}
    (henv : env.api = api.recorded.toOrderApi) (ctx : MarketContext) (req : OrderRequest ℚ)
    (st : σ × List ApiCall) {next : Bool → MarketContext → MarketContext}
    (hnext : ∀ ok ctx ctx', Alike owner market ctx ctx' →
      Isolated owner market ctx (next ok ctx) (next ok ctx')) :
    Replays owner market ctx st
      (next (ctx.submitOrder env req st).1 (ctx.submitOrder env req st).2.1,
        (ctx.submitOrder env req st).2.2)
      (fun ctx' calls => (next (ctx'.submitOrder env.replay req calls).1
        (ctx'.submitOrder env.replay req calls).2.1,
          (ctx'.submitOrder env.replay req calls).2.2)) := by
  have hchecked : ∀ ctx', Alike owner market ctx ctx' →
      (ctx'.engine.beforePost env.cfg req).1 = (ctx.engine.beforePost env.cfg req).1 :=
    fun ctx' hlike => (MarketEngine.isolated_beforePost env.cfg hlike.engine req).1.symm
  -- Once the answer is known, the rest does not ask.
  have hrest : ∀ ctx', Alike owner market ctx ctx' → ∀ reply : Except RestError String,
      (∀ uuid, reply = .ok uuid → OwnedBy owner market uuid) →
        Isolated owner market ctx
          (next (ctx.engine.submitReply env.cfg req reply).1.success
            (ctx.submitted (ctx.engine.submitReply env.cfg req reply)))
          (next (ctx'.engine.submitReply env.cfg req reply).1.success
            (ctx'.submitted (ctx'.engine.submitReply env.cfg req reply))) := by
    intro ctx' hlike reply hown
    have hsubmitted := isolated_submitted env.cfg hlike req hown
    rw [← hlike.engine.submitted env.cfg req reply]
    exact hsubmitted.trans (hnext _ _ _ hsubmitted.alike)
  simp only [submitOrder_eq]
  by_cases hpost : (ctx.engine.beforePost env.cfg req).1 = none
  · set reply := (api.postOrder req st.1).1 with hreply
    have hrecorded : env.api.postOrder req st =
        (reply, (api.postOrder req st.1).2, st.2 ++ [.postOrder req reply]) := by
      rw [henv]
      rfl
    rw [hrecorded, if_pos hpost]
    refine ⟨[.postOrder req reply], rfl, fun ctx' hlike hfaithful rest log => ?_⟩
    have hreplayed : env.replay.api.postOrder req ([.postOrder req reply] ++ rest, log) =
        (reply, rest, log ++ [.postOrder req reply]) := by
      simp [ManagerEnv.replay, OrderApi.replay, OrderApi.recorded]
    have hpost' : (ctx'.engine.beforePost env.replay.cfg req).1 = none :=
      (hchecked ctx' hlike).trans hpost
    simp only [hreplayed, if_pos hpost']
    refine ⟨trivial, hrest ctx' hlike reply (fun uuid huuid => ?_)⟩
    have hmarket : req.market = market := by
      rcases ctx.engine.beforePost_cases env.cfg req with ⟨code, message, hfail⟩ | ⟨message, hfail⟩ |
        ⟨-, hmkt, -⟩ | ⟨-, hmkt, -⟩
      · rw [hfail] at hpost
        cases hpost
      · rw [hfail] at hpost
        cases hpost
      · exact hmkt.trans hlike.home
      · exact hmkt.trans hlike.home
    have hone := hfaithful _ (List.mem_singleton.mpr rfl)
    rw [huuid] at hone
    exact .inr (hmarket ▸ hone)
  · rw [if_neg hpost]
    refine ⟨[], (List.append_nil _).symm, fun ctx' hlike _ rest log => ?_⟩
    have hpost' : (ctx'.engine.beforePost env.replay.cfg req).1 ≠ none := by
      intro hnone
      exact hpost ((hchecked ctx' hlike).symm.trans hnone)
    simp only [if_neg hpost']
    refine ⟨congrArg (Prod.mk rest) (List.append_nil log).symm, ?_⟩
    rw [MarketEngine.submitReply_unposted env.cfg hpost _ (.error {}),
      MarketEngine.submitReply_unposted env.replay.cfg hpost' _ (.error {})]
    exact hrest ctx' hlike (.error {}) (fun uuid huuid => nomatch huuid)

/-! Candles. -/

theorem Alike.snapshot (h : Alike owner market ctx ctx') :
    ctx'.buildAccountSnapshot_ = ctx.buildAccountSnapshot_ := by
  have hbudget := h.engine.budget
  rw [h.home, ← h.context] at hbudget
  obtain ⟨engine, db, rfl⟩ := h.eq
  unfold buildAccountSnapshot_
  simp only at hbudget ⊢
  rw [hbudget]

/-- A decision is submitted if it is an order, and then `next` is done. -/
def submitDecided {τ : Type} (env : ManagerEnv τ) (next : Bool → MarketContext → MarketContext)
    (decided : Decision ℚ × RsiMeanReversionStrategy ℚ) (ctx : MarketContext) (s : τ) :
    MarketContext × τ :=
  match decided.1.order with
  | none => ({ ctx with strategy := decided.2 }, s)
  | some req =>
    let r := { ctx with strategy := decided.2 }.submitOrder env req s
    (next r.1 r.2.1, r.2.2)

theorem replays_submitDecided {env : ManagerEnv (σ × List ApiCall)} {api : IOrderApi σ}
    (henv : env.api = api.recorded.toOrderApi) (ctx : MarketContext)
    (decided : Decision ℚ × RsiMeanReversionStrategy ℚ) (st : σ × List ApiCall)
    {next : Bool → MarketContext → MarketContext}
    (hnext : ∀ ok ctx ctx', Alike owner market ctx ctx' →
      Isolated owner market ctx (next ok ctx) (next ok ctx')) :
    Replays owner market ctx st (submitDecided env next decided ctx st)
      (submitDecided env.replay next decided) := by
  have hdecided : Replays owner market ctx st ({ ctx with strategy := decided.2 }, st)
      (fun ctx' calls => ({ ctx' with strategy := decided.2 }, calls)) := by
    refine replays_alone st (F := fun ctx => { ctx with strategy := decided.2 })
      (fun ctx' hlike => ?_)
    obtain ⟨engine, db, rfl⟩ := hlike.eq
    exact hlike.noted rfl rfl rfl rfl
  cases horder : decided.1.order with
  | none =>
    have heq : ∀ {τ : Type} (env : ManagerEnv τ) (ctx : MarketContext) (s : τ),
        submitDecided env next decided ctx s = ({ ctx with strategy := decided.2 }, s) := by
      intro τ env ctx s
      unfold submitDecided
      rw [horder]
    rw [heq]
    exact hdecided.congr (fun ctx' _ => funext (heq env.replay ctx'))
  | some req =>
    have heq : ∀ {τ : Type} (env : ManagerEnv τ) (ctx : MarketContext) (s : τ),
        submitDecided env next decided ctx s =
          let r := { ctx with strategy := decided.2 }.submitOrder env req s
          (next r.1 r.2.1, r.2.2) := by
      intro τ env ctx s
      unfold submitDecided
      rw [horder]
    rw [heq]
    exact (hdecided.trans (replays_submitOrder henv _ req st hnext)).congr
      (fun ctx' _ => funext (heq env.replay ctx'))

/-- A failed intrabar exit is noted with its candle. -/
def noteFailure (ok : Bool) (ctx : MarketContext) : MarketContext :=
  if ok then ctx
  else match ctx.pendingCandle with
    | some candle => { ctx with intrabarFailTs := some candle.startTimestamp }
    | none => ctx

theorem isolated_noteFailure (ok : Bool) (h : Alike owner market ctx ctx') :
    Isolated owner market ctx (noteFailure ok ctx) (noteFailure ok ctx') := by
  obtain ⟨engine, db, rfl⟩ := h.eq
  unfold noteFailure
  cases ok with
  | true => exact h.isolated
  | false =>
    simp only [Bool.false_eq_true, if_false]
    split
    · exact h.noted rfl rfl rfl rfl
    · exact h.isolated

/-- Whether the strategy is asked about the candle that is not closed yet. -/
def checksIntrabar (ctx : MarketContext) : Prop :=
  ctx.exitFailed = false ∧ ctx.strategy.state = .inPosition

theorem doIntrabarCheck_eq {τ : Type} (env : ManagerEnv τ) (ctx : MarketContext) (close : Price)
    (s : τ) :
    let marked := { ctx with engine := ctx.engine.setMarkPrice close }
    (¬ ctx.checksIntrabar → ctx.doIntrabarCheck env close s = (marked, s)) ∧
    (ctx.checksIntrabar → ctx.doIntrabarCheck env close s =
      submitDecided env noteFailure
        (ctx.strategy.onIntrabarCandle env.strategy close marked.buildAccountSnapshot_)
        marked s) := by
  intro marked
  have hexit : marked.exitFailed = ctx.exitFailed := rfl
  constructor
  · intro hno
    unfold doIntrabarCheck
    simp only
    split
    · rfl
    · next hclear =>
      rw [if_pos]
      intro hstate
      exact hno ⟨Bool.eq_false_iff.mpr hclear, hstate⟩
  · rintro ⟨hclear, hstate⟩
    rw [← hexit] at hclear
    unfold doIntrabarCheck
    simp only [marked] at hclear ⊢
    simp only [hclear, hstate, Bool.false_eq_true, if_false, ne_eq, not_true_eq_false]
    unfold submitDecided
    cases horder : (ctx.strategy.onIntrabarCandle env.strategy close
      ({ ctx with engine := ctx.engine.setMarkPrice close } :
        MarketContext).buildAccountSnapshot_).1.order with
    | none => rfl
    | some req =>
      simp only
      generalize MarketContext.submitOrder _ _ _ _ = submitted
      obtain ⟨ok, ctx₁, s₁⟩ := submitted
      cases ok with
      | true => rfl
      | false => rfl

theorem replays_decides {env : ManagerEnv (σ × List ApiCall)} {api : IOrderApi σ}
    (henv : env.api = api.recorded.toOrderApi) (st : σ × List ApiCall)
    {F : MarketContext → MarketContext}
    {D : MarketContext → Decision ℚ × RsiMeanReversionStrategy ℚ}
    {next : Bool → MarketContext → MarketContext}
    (hnext : ∀ ok ctx ctx', Alike owner market ctx ctx' →
      Isolated owner market ctx (next ok ctx) (next ok ctx'))
    (hF : ∀ ctx', Alike owner market ctx ctx' →
      Isolated owner market ctx (F ctx) (F ctx') ∧ D ctx' = D ctx) :
    Replays owner market ctx st (submitDecided env next (D ctx) (F ctx) st)
      (fun ctx' calls => submitDecided env.replay next (D ctx') (F ctx') calls) := by
  have hfirst : Replays owner market ctx st (F ctx, st) (fun ctx' calls => (F ctx', calls)) :=
    replays_alone st (fun ctx' hlike => (hF ctx' hlike).1)
  refine (hfirst.trans (replays_submitDecided henv (F ctx) (D ctx) st hnext)).congr
    (fun ctx' hlike => ?_)
  rw [(hF ctx' hlike).2]

theorem isolated_setMarkPrice (h : Alike owner market ctx ctx') (p : Price) :
    Isolated owner market ctx { ctx with engine := ctx.engine.setMarkPrice p }
      { ctx' with engine := ctx'.engine.setMarkPrice p } := by
  have hengine : MarketEngine.Isolated (OwnedBy owner market) ctx.engine
      (ctx.engine.setMarkPrice p) (ctx'.engine.setMarkPrice p) :=
    MarketEngine.isolated_call (.standard ℚ) h.engine (c := .setMarkPrice p) trivial
  obtain ⟨engine, db, rfl⟩ := h.eq
  exact h.run hengine rfl rfl

theorem replays_doIntrabarCheck {env : ManagerEnv (σ × List ApiCall)} {api : IOrderApi σ}
    (henv : env.api = api.recorded.toOrderApi) (ctx : MarketContext) (close : Price)
    (st : σ × List ApiCall) :
    Replays owner market ctx st (ctx.doIntrabarCheck env close st)
      (fun ctx' calls => ctx'.doIntrabarCheck env.replay close calls) := by
  have hmark : ∀ ctx', Alike owner market ctx ctx' → Isolated owner market ctx
      { ctx with engine := ctx.engine.setMarkPrice close }
      { ctx' with engine := ctx'.engine.setMarkPrice close } :=
    fun ctx' hlike => isolated_setMarkPrice hlike close
  have hsame : ∀ ctx', Alike owner market ctx ctx' →
      (ctx'.checksIntrabar ↔ ctx.checksIntrabar) ∧ ctx'.strategy = ctx.strategy := by
    intro ctx' hlike
    obtain ⟨engine, db, rfl⟩ := hlike.eq
    exact ⟨Iff.rfl, rfl⟩
  by_cases hchecks : ctx.checksIntrabar
  · rw [(ctx.doIntrabarCheck_eq env close st).2 hchecks]
    have hdecides := replays_decides henv st
      (F := fun ctx => { ctx with engine := ctx.engine.setMarkPrice close })
      (D := fun ctx => ctx.strategy.onIntrabarCandle env.strategy close
        ({ ctx with engine := ctx.engine.setMarkPrice close } :
          MarketContext).buildAccountSnapshot_)
      (fun ok _ _ hlike => isolated_noteFailure ok hlike)
      (fun ctx' hlike => ⟨hmark ctx' hlike, by
        rw [(hmark ctx' hlike).alike.snapshot, (hsame ctx' hlike).2]⟩)
    refine hdecides.congr (fun ctx' hlike => ?_)
    funext calls
    exact (ctx'.doIntrabarCheck_eq env.replay close calls).2 ((hsame ctx' hlike).1.mpr hchecks)
  · rw [(ctx.doIntrabarCheck_eq env close st).1 hchecks]
    refine (replays_alone st (F := fun ctx => { ctx with engine := ctx.engine.setMarkPrice close })
      hmark).congr (fun ctx' hlike => ?_)
    funext calls
    exact (ctx'.doIntrabarCheck_eq env.replay close calls).1
      ((not_congr (hsame ctx' hlike).1).mpr hchecks)

theorem confirmCandle_eq {τ : Type} (env : ManagerEnv τ) (ctx : MarketContext) (candle : Candle ℚ)
    (liveUnit : Int) (s : τ) :
    let marked := { ctx.insertCandle candle liveUnit with
      engine := ctx.engine.setMarkPrice candle.closePrice }
    ctx.confirmCandle env candle liveUnit s = submitDecided env (fun _ ctx => ctx)
      (ctx.strategy.onCandle env.strategy candle marked.buildAccountSnapshot_) marked s := rfl

theorem replays_confirmCandle {env : ManagerEnv (σ × List ApiCall)} {api : IOrderApi σ}
    (henv : env.api = api.recorded.toOrderApi) (ctx : MarketContext) (candle : Candle ℚ)
    (liveUnit : Int) (st : σ × List ApiCall) :
    Replays owner market ctx st (ctx.confirmCandle env candle liveUnit st)
      (fun ctx' calls => ctx'.confirmCandle env.replay candle liveUnit calls) := by
  have hmark : ∀ ctx', Alike owner market ctx ctx' → Isolated owner market ctx
      { ctx.insertCandle candle liveUnit with
        engine := ctx.engine.setMarkPrice candle.closePrice }
      { ctx'.insertCandle candle liveUnit with
        engine := ctx'.engine.setMarkPrice candle.closePrice } := by
    intro ctx' hlike
    have hmarked := isolated_setMarkPrice hlike candle.closePrice
    refine hmarked.trans (hmarked.alike.noted rfl rfl rfl ?_)
    obtain ⟨engine, db, rfl⟩ := hlike.eq
    rfl
  simp only [confirmCandle_eq]
  exact replays_decides henv st
    (F := fun ctx => { ctx.insertCandle candle liveUnit with
      engine := ctx.engine.setMarkPrice candle.closePrice })
    (D := fun ctx => ctx.strategy.onCandle env.strategy candle
      ({ ctx.insertCandle candle liveUnit with
        engine := ctx.engine.setMarkPrice candle.closePrice } :
          MarketContext).buildAccountSnapshot_)
    (fun _ _ _ hlike => hlike.isolated)
    (fun ctx' hlike => ⟨hmark ctx' hlike, by
      rw [(hmark ctx' hlike).alike.snapshot]
      obtain ⟨engine, db, rfl⟩ := hlike.eq
      rfl⟩)

theorem replays_handleMarketData_ {env : ManagerEnv (σ × List ApiCall)} {api : IOrderApi σ}
    (henv : env.api = api.recorded.toOrderApi) (ctx : MarketContext) (incoming : Candle ℚ)
    (liveUnit : Int) (st : σ × List ApiCall) :
    Replays owner market ctx st (ctx.handleMarketData_ env incoming liveUnit st)
      (fun ctx' calls => ctx'.handleMarketData_ env.replay incoming liveUnit calls) := by
  have hheld : Replays owner market ctx st ({ ctx with pendingCandle := some incoming }, st)
      (fun ctx' calls => ({ ctx' with pendingCandle := some incoming }, calls)) := by
    refine replays_alone st (F := fun ctx => { ctx with pendingCandle := some incoming })
      (fun ctx' hlike => ?_)
    obtain ⟨engine, db, rfl⟩ := hlike.eq
    exact hlike.noted rfl rfl rfl rfl
  have hpending : ∀ ctx', Alike owner market ctx ctx' →
      ctx'.pendingCandle = ctx.pendingCandle := by
    intro ctx' hlike
    obtain ⟨engine, db, rfl⟩ := hlike.eq
    rfl
  have hchecked := hheld.trans (replays_doIntrabarCheck henv _ incoming.closePrice _)
  cases hcandle : ctx.pendingCandle with
  | none =>
    have heq : ∀ {τ : Type} (env : ManagerEnv τ) (ctx : MarketContext) (s : τ),
        ctx.pendingCandle = none → ctx.handleMarketData_ env incoming liveUnit s =
          { ctx with pendingCandle := some incoming }.doIntrabarCheck env incoming.closePrice s := by
      intro τ env ctx s hnone
      unfold handleMarketData_
      rw [hnone]
    rw [heq env ctx st hcandle]
    refine hchecked.congr (fun ctx' hlike => funext (fun calls => ?_))
    exact heq env.replay ctx' calls ((hpending ctx' hlike).trans hcandle)
  | some candle =>
    by_cases hts : candle.startTimestamp = incoming.startTimestamp
    · have heq : ∀ {τ : Type} (env : ManagerEnv τ) (ctx : MarketContext) (s : τ),
          ctx.pendingCandle = some candle → ctx.handleMarketData_ env incoming liveUnit s =
            { ctx with pendingCandle := some incoming }.doIntrabarCheck env
              incoming.closePrice s := by
        intro τ env ctx s hsome
        unfold handleMarketData_
        rw [hsome]
        exact if_pos hts
      rw [heq env ctx st hcandle]
      refine hchecked.congr (fun ctx' hlike => funext (fun calls => ?_))
      exact heq env.replay ctx' calls ((hpending ctx' hlike).trans hcandle)
    · have heq : ∀ {τ : Type} (env : ManagerEnv τ) (ctx : MarketContext) (s : τ),
          ctx.pendingCandle = some candle → ctx.handleMarketData_ env incoming liveUnit s =
            let r := { ctx with pendingCandle := some incoming }.confirmCandle env candle liveUnit s
            r.1.doIntrabarCheck env incoming.closePrice r.2 := by
        intro τ env ctx s hsome
        unfold handleMarketData_
        rw [hsome]
        exact if_neg hts
      rw [heq env ctx st hcandle]
      have hconfirmed := (hheld.trans (replays_confirmCandle henv _ candle liveUnit _)).trans
        (replays_doIntrabarCheck henv _ incoming.closePrice _)
      refine hconfirmed.congr (fun ctx' hlike => funext (fun calls => ?_))
      exact heq env.replay ctx' calls ((hpending ctx' hlike).trans hcandle)

/-! Engine events. -/

theorem isolated_deliverEvents (h : Alike owner market ctx ctx') (nowMs : Int) :
    Isolated owner market ctx (ctx.deliverEvents nowMs) (ctx'.deliverEvents nowMs) := by
  have hpolled : Isolated owner market ctx { ctx with engine := ctx.engine.pollEvents.2 }
      { ctx' with engine := ctx'.engine.pollEvents.2 } := by
    have hengine : MarketEngine.Isolated (OwnedBy owner market) ctx.engine
        ctx.engine.pollEvents.2 ctx'.engine.pollEvents.2 :=
      MarketEngine.isolated_call (.standard ℚ) h.engine (c := .pollEvents) trivial
    obtain ⟨engine, db, rfl⟩ := h.eq
    exact h.run hengine rfl rfl
  have hevents : ctx'.engine.pollEvents.1 = ctx.engine.pollEvents.1 := h.engine.events.symm
  have hfold : ∀ (evs : List EngineEvent) {ctx ctx' : MarketContext},
      Alike owner market ctx ctx' → Isolated owner market ctx
        (ctx.handleEngineEvents_ nowMs evs) (ctx'.handleEngineEvents_ nowMs evs) := by
    intro evs
    induction evs with
    | nil => exact fun hlike => hlike.isolated
    | cons ev evs ih =>
      intro ctx ctx' hlike
      have hone : Isolated owner market ctx (ctx.handleEngineEvent nowMs ev)
          (ctx'.handleEngineEvent nowMs ev) := by
        obtain ⟨engine, db, rfl⟩ := hlike.eq
        cases ev with
        | fill ev => exact hlike.noted rfl rfl rfl rfl
        | status ev => exact hlike.noted rfl rfl rfl rfl
      exact hone.trans (ih hone.alike)
  have hrest := hfold ctx.engine.pollEvents.1 hpolled.alike
  unfold deliverEvents
  simp only [hevents]
  exact hpolled.trans hrest

/-! The worker. -/

/-- What is noted of the active orders at a check. -/
def markPending (ctx : MarketContext) (now : Int) : MarketContext :=
  let isPending := ctx.engine.activePendingIds.1 ≠ "" ∨ ctx.engine.activePendingIds.2 ≠ ""
  let ctx := { ctx with hasActivePending := decide isPending }
  if isPending ∧ ctx.trackingPending = false then
    { ctx with trackingPending := true, pendingEnteredAt := now, pendingTimeoutFired := false }
  else ctx

theorem engine_markPending (ctx : MarketContext) (now : Int) : (ctx.markPending now).engine = ctx.engine := by
  unfold markPending
  simp only
  split
  · rfl
  · rfl

theorem checkPendingTimeout_marked {τ : Type} (env : ManagerEnv τ) (ctx : MarketContext) (now : Int)
    (s : τ) :
    ctx.checkPendingTimeout_ env now s =
      if ¬ (ctx.engine.activePendingIds.1 ≠ "" ∨ ctx.engine.activePendingIds.2 ≠ "") then
        ((ctx.markPending now).stopTracking, s)
      else if (ctx.markPending now).pendingTimeoutFired then (ctx.markPending now, s)
      else if env.pendingTimeout ≤ now - (ctx.markPending now).pendingEnteredAt then
        { ctx.markPending now with pendingTimeoutFired := true }.runRecovery_ env.cfg env.api s
      else (ctx.markPending now, s) := rfl

theorem isolated_markPending (h : Alike owner market ctx ctx') (now : Int) :
    Isolated owner market ctx (ctx.markPending now) (ctx'.markPending now) := by
  have hids : ctx'.engine.activePendingIds = ctx.engine.activePendingIds :=
    Prod.ext h.engine.buy.symm h.engine.sell.symm
  obtain ⟨engine, db, rfl⟩ := h.eq
  simp only at hids
  unfold markPending
  simp only [hids]
  split
  · exact h.noted rfl rfl rfl rfl
  · exact h.noted rfl rfl rfl rfl

theorem replays_checkPendingTimeout_ {env : ManagerEnv (σ × List ApiCall)} {api : IOrderApi σ}
    (henv : env.api = api.recorded.toOrderApi) (ctx : MarketContext) (now : Int)
    (st : σ × List ApiCall)
    (hactive : ∀ side, OwnedBy owner market (ctx.engine.activeUuid side)) :
    Replays owner market ctx st (ctx.checkPendingTimeout_ env now st)
      (fun ctx' calls => ctx'.checkPendingTimeout_ env.replay now calls) := by
  have hmark : Replays owner market ctx st (ctx.markPending now, st)
      (fun ctx' calls => (ctx'.markPending now, calls)) :=
    replays_alone st (F := fun ctx => ctx.markPending now) (fun ctx' hlike => isolated_markPending hlike now)
  have hsame : ∀ ctx', Alike owner market ctx ctx' →
      ctx'.engine.activePendingIds = ctx.engine.activePendingIds ∧
        (ctx'.markPending now).pendingTimeoutFired = (ctx.markPending now).pendingTimeoutFired ∧
        (ctx'.markPending now).pendingEnteredAt = (ctx.markPending now).pendingEnteredAt := by
    intro ctx' hlike
    have hmarked := (isolated_markPending hlike now).alike.notes
    exact ⟨Prod.ext hlike.engine.buy.symm hlike.engine.sell.symm,
      by rw [hmarked], by rw [hmarked]⟩
  simp only [checkPendingTimeout_marked]
  split
  · next hidle =>
    have hstopped : Replays owner market (ctx.markPending now) st ((ctx.markPending now).stopTracking, st)
        (fun ctx' calls => (ctx'.stopTracking, calls)) := by
      refine replays_alone st (F := stopTracking) (fun ctx' hlike => ?_)
      obtain ⟨engine, db, hnotes⟩ := hlike.eq
      rw [hnotes] at hlike ⊢
      exact hlike.noted rfl rfl rfl rfl
    refine (hmark.trans hstopped).congr (fun ctx' hlike => ?_)
    funext calls
    simp only [(hsame ctx' hlike).1, if_pos hidle]
  · next hpending =>
    split
    · next hfired =>
      refine hmark.congr (fun ctx' hlike => ?_)
      obtain ⟨hids, hfired', -⟩ := hsame ctx' hlike
      funext calls
      simp only [hids, if_neg hpending, hfired', hfired, if_true]
    · next hquiet =>
      split
      · next hlate =>
        have hfire : Replays owner market (ctx.markPending now) st
            ({ ctx.markPending now with pendingTimeoutFired := true }, st)
            (fun ctx' calls => ({ ctx' with pendingTimeoutFired := true }, calls)) := by
          refine replays_alone st (F := fun ctx => { ctx with pendingTimeoutFired := true })
            (fun ctx' hlike => ?_)
          obtain ⟨engine, db, hnotes⟩ := hlike.eq
          rw [hnotes] at hlike ⊢
          exact hlike.noted rfl rfl rfl rfl
        have hrecovered := replays_runRecovery_ env.cfg api
          { ctx.markPending now with pendingTimeoutFired := true } st
          (fun side => by
            show OwnedBy owner market ((ctx.markPending now).engine.activeUuid side)
            rw [engine_markPending]
            exact hactive side)
        rw [henv]
        refine ((hmark.trans hfire).trans hrecovered).congr (fun ctx' hlike => ?_)
        obtain ⟨hids, hfired', hentered⟩ := hsame ctx' hlike
        have hlate' : env.replay.pendingTimeout ≤ now - (ctx.markPending now).pendingEnteredAt := hlate
        funext calls
        simp only [hids, if_neg hpending, hfired', hquiet, hentered, if_pos hlate']
        rfl
      · next hearly =>
        refine hmark.congr (fun ctx' hlike => ?_)
        obtain ⟨hids, hfired', hentered⟩ := hsame ctx' hlike
        have hearly' : ¬ env.replay.pendingTimeout ≤ now - (ctx.markPending now).pendingEnteredAt :=
          hearly
        funext calls
        simp only [hids, if_neg hpending, hfired', hquiet, hentered, if_neg hearly']
        rfl

theorem replays_takeRecovery {env : ManagerEnv (σ × List ApiCall)} {api : IOrderApi σ}
    (henv : env.api = api.recorded.toOrderApi) (ctx : MarketContext) (st : σ × List ApiCall)
    (hactive : ∀ side, OwnedBy owner market (ctx.engine.activeUuid side)) :
    Replays owner market ctx st (ctx.takeRecovery env st)
      (fun ctx' calls => ctx'.takeRecovery env.replay calls) := by
  have hsame : ∀ ctx', Alike owner market ctx ctx' →
      ctx'.recoveryRequested = ctx.recoveryRequested := by
    intro ctx' hlike
    rw [hlike.notes]
  cases hrequested : ctx.recoveryRequested with
  | true =>
    have htaken : Replays owner market ctx st ({ ctx with recoveryRequested := false }, st)
        (fun ctx' calls => ({ ctx' with recoveryRequested := false }, calls)) := by
      refine replays_alone st (F := fun ctx => { ctx with recoveryRequested := false })
        (fun ctx' hlike => ?_)
      obtain ⟨engine, db, rfl⟩ := hlike.eq
      exact hlike.noted rfl rfl rfl rfl
    have heq : ∀ {τ : Type} (env : ManagerEnv τ) (ctx : MarketContext) (s : τ),
        ctx.recoveryRequested = true → ctx.takeRecovery env s =
          { ctx with recoveryRequested := false }.runRecovery_ env.cfg env.api s := by
      intro τ env ctx s hreq
      unfold takeRecovery
      rw [if_pos hreq]
    rw [heq env ctx st hrequested, henv]
    have hrecovered := replays_runRecovery_ env.cfg api
      { ctx with recoveryRequested := false } st hactive
    refine (htaken.trans hrecovered).congr (fun ctx' hlike => funext (fun calls => ?_))
    exact heq env.replay ctx' calls ((hsame ctx' hlike).trans hrequested)
  | false =>
    have heq : ∀ {τ : Type} (env : ManagerEnv τ) (ctx : MarketContext) (s : τ),
        ctx.recoveryRequested = false → ctx.takeRecovery env s = (ctx, s) := by
      intro τ env ctx s hreq
      unfold takeRecovery
      rw [if_neg (by rw [hreq]; exact Bool.false_ne_true)]
    rw [heq env ctx st hrequested]
    refine (replays_alone st (F := fun ctx => ctx) (fun ctx' hlike => hlike.isolated)).congr
      (fun ctx' hlike => funext (fun calls => ?_))
    exact heq env.replay ctx' calls ((hsame ctx' hlike).trans hrequested)

/-- The messages of the queue are about orders of the market. -/
def OwnMessages (parse : Bytes → Option Data) (cfg : AppConfig ℚ)
    (owner : String → Option String) (market : String) (w : Worker) : Prop :=
  ∀ json, EventRouter.RawInput.myOrderRaw json ∈ w.eventQueue.items →
    ∀ ev ∈ WsMessageParser.parseMyOrder cfg parse json, OwnedBy owner market ev.orderUuid

/-- A turn asks for the same. -/
theorem replays_turn (parse : Bytes → Option Data) {env : ManagerEnv (σ × List ApiCall)}
    {api : IOrderApi σ} (henv : env.api = api.recorded.toOrderApi) (w : Worker)
    (st : σ × List ApiCall) (t : Turn)
    (hactive : ∀ side, OwnedBy owner market (w.ctx.engine.activeUuid side))
    (hqueue : OwnMessages parse env.cfg owner market w) :
    Replays owner market w.ctx st ((w.turn parse env st t).1.ctx, (w.turn parse env st t).2)
      (fun ctx' calls =>
        ((({ w with ctx := ctx' } : Worker).turn parse env.replay calls t).1.ctx,
          (({ w with ctx := ctx' } : Worker).turn parse env.replay calls t).2)) := by
  cases t with
  | takeRecovery => exact replays_takeRecovery henv w.ctx st hactive
  | checkTimeout now => exact replays_checkPendingTimeout_ henv w.ctx now st hactive
  | deliverEvents nowMs =>
    exact replays_alone st (F := fun ctx => ctx.deliverEvents nowMs)
      (fun ctx' hlike => isolated_deliverEvents hlike nowMs)
  | handleNext =>
    show Replays owner market w.ctx st ((w.handleNext parse env st).1.ctx,
      (w.handleNext parse env st).2) (fun ctx' calls =>
        ((({ w with ctx := ctx' } : Worker).handleNext parse env.replay calls).1.ctx,
          (({ w with ctx := ctx' } : Worker).handleNext parse env.replay calls).2))
    have hidle : Replays owner market w.ctx st (w.ctx, st) (fun ctx' calls => (ctx', calls)) :=
      replays_alone st (F := fun ctx => ctx) (fun ctx' hlike => hlike.isolated)
    unfold Worker.handleNext
    simp only
    cases hpop : w.eventQueue.popFor with
    | mk raw queue =>
      cases raw with
      | none => exact hidle
      | some raw =>
        have hmem : raw ∈ w.eventQueue.items := List.mem_of_mem_head? (congrArg Prod.fst hpop)
        cases raw with
        | myOrderRaw json =>
          exact replays_alone st (F := fun ctx =>
            ctx.handleMyOrder_ env.cfg (WsMessageParser.parseMyOrder env.cfg parse json))
            (fun ctx' hlike => isolated_handleMyOrder_ env.cfg hlike (hqueue json hmem))
        | marketDataRaw json =>
          have hcfg : env.replay.cfg = env.cfg := rfl
          simp only [handleRaw, hcfg]
          cases WsMessageParser.parseCandle parse env.cfg.bot.liveCandleUnitMinutes json with
          | error thrown => exact hidle
          | ok candle =>
            cases candle with
            | none => exact hidle
            | some candle => exact replays_handleMarketData_ henv w.ctx candle.1 candle.2 st

end MarketContext
end CoinBot
