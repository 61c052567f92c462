import CoinBot.App.Signals

/- One order of a market at a time.

   The strategy of a market waits for the order that it has decided on until its terminal
   status event comes, and decides on nothing else before. The engine announces that event
   only when it closes the order, and the worker asks the database in the same move to insert
   the closed order. So, as long as SQLite does its inserts, the orders that the exchange has
   accepted in a market and that are not recorded as closed are one at most
   (`Bot.one_open_order`). -/
namespace CoinBot

open Journal (Grows)
open Json (Bytes Data)

variable {σ : Type}

/-! The engine. -/

namespace MarketEngine

/-- A snapshot announces nothing but its own order, and only when it closes it. -/
theorem statuses_onOrderSnapshot (cfg : AppConfig ℚ) {e : MarketEngine} {s : Order}
    {ev : EngineOrderStatusEvent} (h : ev ∈ (e.onOrderSnapshot cfg s).statuses) :
    ev ∈ e.statuses ∨ ev.orderUuid = s.id ∧ s.status.isTerminal = true := by
  by_cases hskip : ¬ e.forMarket s.market ∨ e.store.get s.id = none
  · rw [onOrderSnapshot_skip hskip] at h
    exact .inl h
  · rw [not_or, not_not] at hskip
    obtain ⟨old, hold⟩ := Option.ne_none_iff_exists'.mp hskip.2
    obtain ⟨store, hevents⟩ := events_onOrderSnapshot cfg hskip.1 hold
    unfold statuses at h
    rw [hevents, List.filterMap_append, List.mem_append] at h
    refine h.imp_right (fun hnew => ?_)
    split at hnew
    · next hclosed =>
      refine ⟨?_, hclosed.1⟩
      unfold statusEvents at hnew
      split at hnew
      · split at hnew
        · cases hnew
        · obtain rfl := List.mem_singleton.mp hnew
          show (mergeSnapshot old s).id = s.id
          rw [id_mergeSnapshot, OrderStore.id_of_get hold]
      · cases hnew
    · cases hnew

theorem statuses_reconcile (cfg : AppConfig ℚ) {e : MarketEngine} {s : Order}
    {ev : EngineOrderStatusEvent} (h : ev ∈ (e.reconcileFromSnapshot cfg s).2.statuses) :
    ev ∈ e.statuses ∨ (e.reconcileFromSnapshot cfg s).1 = true ∧ ev.orderUuid = s.id ∧
      s.status.isTerminal = true := by
  rcases e.reconcileFromSnapshot_cases cfg s with hskip | ⟨prev, settled, -, -, hdelta, heq⟩
  · rw [hskip] at h
    exact .inl h
  · rw [heq] at h ⊢
    refine (statuses_onOrderSnapshot cfg h).imp (fun hold => ?_) (And.intro rfl)
    unfold statuses at hold
    rw [(onlySettles_settleDelta hdelta).events] at hold
    exact hold

theorem success_submit (cfg : AppConfig ℚ) (api : IOrderApi σ) (e : MarketEngine)
    (req : OrderRequest ℚ) (st : σ × List ApiCall) {req' : OrderRequest ℚ} {uuid : String}
    (h : ApiCall.postOrder req' (.ok uuid) ∈ (e.submit cfg api.recorded.postOrder req st).2.2) :
    .postOrder req' (.ok uuid) ∈ st.2 ∨
      req' = req ∧ (e.submit cfg api.recorded.postOrder req st).1.1.success = true := by
  have hafter : ∀ e' : MarketEngine,
      ApiCall.postOrder req' (.ok uuid) ∈ (api.recorded.postOrder req st).2.2 →
        .postOrder req' (.ok uuid) ∈ st.2 ∨
          req' = req ∧ (e'.afterPost req (api.recorded.postOrder req st).1).1.success = true := by
    intro e' hmem
    refine (List.mem_append.mp hmem).imp_right (fun hnew => ?_)
    obtain ⟨rfl, hanswer⟩ := ApiCall.postOrder.inj (List.mem_singleton.mp hnew)
    refine ⟨rfl, ?_⟩
    have hok : (api.recorded.postOrder req' st).1 = .ok uuid := hanswer.symm
    rw [hok]
    rfl
  unfold submit at h ⊢
  split at h
  · exact .inl h
  · exact hafter _ h

end MarketEngine

/-! The worker. -/

/-- No identifier was posted twice. -/
def Unrepeated (log : List ApiCall) : Prop :=
  ∀ req answer req' answer', ApiCall.postOrder req answer ∈ log →
    ApiCall.postOrder req' answer' ∈ log → req.identifier = req'.identifier →
      req = req' ∧ answer = answer'

namespace MarketContext

/-- The accepted orders of the market are filed, but for the one that the strategy waits for. -/
structure Files (market : String) (state : MarketContext × (σ × List ApiCall)) : Prop where
  connected : state.1.db.isSome = true
  once : Unrepeated state.2.2
  announced : ∀ ev ∈ state.1.engine.statuses, Database.Filed state.1.db ev.orderUuid
  accepted : ∀ req uuid, ApiCall.postOrder req (.ok uuid) ∈ state.2.2 → req.market = market →
    Database.Filed state.1.db uuid ∨ state.1.strategy.pendingClientId = some req.identifier

variable {strategy : StrategyEnv ℚ} {market : String} {ctx ctx' ctx'' : MarketContext}
  {st st' : σ × List ApiCall} {env : ManagerEnv (σ × List ApiCall)} {api : IOrderApi σ}

/-- The engine announces only what the database is given. -/
structure Announces (ctx ctx' : MarketContext) : Prop where
  strategy : ctx'.strategy = ctx.strategy
  connected : ctx'.db.isSome = ctx.db.isSome
  filed : ∀ uuid, Database.Filed ctx.db uuid → Database.Filed ctx'.db uuid
  announced : ctx.db.isSome = true → ∀ ev ∈ ctx'.engine.statuses,
    ev ∈ ctx.engine.statuses ∨ Database.Filed ctx'.db ev.orderUuid

theorem Announces.trans (h : Announces ctx ctx') (h' : Announces ctx' ctx'') :
    Announces ctx ctx'' := by
  refine ⟨h'.strategy.trans h.strategy, h'.connected.trans h.connected,
    fun uuid hfiled => h'.filed uuid (h.filed uuid hfiled), fun hdb ev hev => ?_⟩
  rcases h'.announced (h.connected.trans hdb) ev hev with hold | hfiled
  · exact (h.announced hdb ev hold).imp_right (h'.filed ev.orderUuid)
  · exact .inr hfiled

theorem announces_stay (hstrategy : ctx'.strategy = ctx.strategy)
    (hdb : ctx'.db.map (·.orders) = ctx.db.map (·.orders))
    (hevents : ctx'.engine.events = ctx.engine.events) : Announces ctx ctx' := by
  refine ⟨hstrategy, ?_, fun uuid hfiled => Database.filed_of_orders hdb hfiled, fun _ ev hev => .inl ?_⟩
  · rw [← Option.isSome_map (f := fun d : Database => d.orders), hdb, Option.isSome_map]
  · unfold MarketEngine.statuses at hev ⊢
    rw [hevents] at hev
    exact hev

theorem announces_insertOrder {engine : MarketEngine} (o : Order)
    (hclosed : o.status.isTerminal = true)
    (h : ∀ ev ∈ engine.statuses, ev ∈ ctx.engine.statuses ∨ ev.orderUuid = o.id) :
    Announces ctx (({ ctx with engine := engine } : MarketContext).insertOrder o) := by
  refine ⟨rfl, Option.isSome_map, fun uuid hfiled => Custody.filed_insert _ o hfiled,
    fun hdb ev hev => (h ev hev).imp_right (fun hid => ?_)⟩
  rw [hid]
  exact Custody.filed_new _ hdb hclosed

theorem announces_engine {engine : MarketEngine} {requested : Bool}
    (h : ∀ ev ∈ engine.statuses, ev ∈ ctx.engine.statuses) :
    Announces ctx { ctx with engine := engine, recoveryRequested := requested } :=
  ⟨rfl, rfl, fun _ hfiled => hfiled, fun _ ev hev => .inl (h ev hev)⟩

theorem announces_handleOrderEvent (cfg : AppConfig ℚ) (ctx : MarketContext) (hasTrade : Bool)
    (ev : MyOrderEvent) : Announces ctx (ctx.handleOrderEvent cfg hasTrade ev) := by
  cases ev with
  | trade t =>
    refine announces_engine (fun ev hev => ?_)
    rw [MarketEngine.statuses_onMyTrade cfg ctx.engine t] at hev
    exact hev
  | order o =>
    unfold handleOrderEvent
    simp only
    split
    · next hterminal =>
      rw [Bool.and_eq_true] at hterminal
      split
      · exact announces_insertOrder o hterminal.2 (fun ev hev =>
          (MarketEngine.statuses_reconcile cfg hev).imp_right (fun hnew => hnew.2.1))
      · next hrefused =>
        refine announces_engine (fun ev hev => ?_)
        exact (MarketEngine.statuses_reconcile cfg hev).resolve_right
          (fun hnew => hrefused hnew.1)
    · split
      · next hterminal =>
        exact announces_insertOrder o hterminal (fun ev hev =>
          (MarketEngine.statuses_onOrderSnapshot cfg hev).imp_right And.left)
      · next hopen =>
        refine announces_engine (fun ev hev => ?_)
        exact (MarketEngine.statuses_onOrderSnapshot cfg hev).resolve_right
          (fun hnew => hopen hnew.2)

theorem announces_recoverOrder {τ : Type} (cfg : AppConfig ℚ) (api : OrderApi τ)
    (ctx : MarketContext) (s : τ) (orderUuid : String) :
    Announces ctx (recoverOrder cfg api (ctx, s) orderUuid).1 := by
  unfold recoverOrder
  simp only
  split
  · exact announces_stay rfl rfl rfl
  · split
    · exact announces_stay rfl rfl rfl
    · next o _ _ =>
      split
      · next hterminal =>
        rw [Bool.and_eq_true] at hterminal
        exact announces_insertOrder o hterminal.1 (fun ev hev =>
          (MarketEngine.statuses_reconcile cfg hev).imp_right (fun hnew => hnew.2.1))
      · next hrefused =>
        refine announces_engine (fun ev hev => ?_)
        refine (MarketEngine.statuses_reconcile cfg hev).resolve_right (fun hnew => hrefused ?_)
        rw [hnew.2.2, hnew.1]
        rfl

theorem announces_runRecovery_ {τ : Type} (cfg : AppConfig ℚ) (api : OrderApi τ)
    (ctx : MarketContext) (s : τ) : Announces ctx (ctx.runRecovery_ cfg api s).1 := by
  unfold runRecovery_
  simp only
  split
  · exact announces_stay rfl rfl rfl
  · exact ((announces_recoverOrder cfg api ctx s _).trans
      (announces_recoverOrder cfg api _ _ _)).trans (announces_stay rfl rfl rfl)

theorem Files.announce (h : Files market (ctx, st)) (hann : Announces ctx ctx')
    (hposts : ∀ req answer, ApiCall.postOrder req answer ∈ st'.2 → .postOrder req answer ∈ st.2) :
    Files market (ctx', st') := by
  obtain ⟨hdb, honce, hannounced, haccepted⟩ := h
  refine ⟨hann.connected.trans hdb, fun req answer req' answer' hmem hmem' =>
      honce req answer req' answer' (hposts req answer hmem) (hposts req' answer' hmem'),
    fun ev hev => ?_, fun req uuid hmem hmarket => ?_⟩
  · rcases hann.announced hdb ev hev with hold | hfiled
    · exact hann.filed _ (hannounced ev hold)
    · exact hfiled
  · simp only [hann.strategy]
    exact (haccepted req uuid (hposts req _ hmem) hmarket).imp_left (hann.filed uuid)

/-- The event of an accepted order ends the wait only for an order that is filed. -/
theorem Files.status (h : Files market (ctx, st)) {ev : EngineOrderStatusEvent}
    (hposted : Posted st.2 ev.orderUuid ev.identifier)
    (hfiled : Database.Filed ctx.db ev.orderUuid) (nowMs : Int) :
    Files market (ctx.handleEngineEvent nowMs (.status ev), st) := by
  obtain ⟨hdb, honce, hannounced, haccepted⟩ := h
  have hkeep : ∀ uuid, Database.Filed ctx.db uuid →
      Database.Filed (ctx.handleEngineEvent nowMs (.status ev)).db uuid :=
    fun uuid => Database.filed_of_orders (ctx.orders_handleEngineEvent nowMs (.status ev))
  refine ⟨?_, honce, fun ev' hev' => hkeep _ (hannounced ev' hev'), fun req uuid hmem hmarket => ?_⟩
  · show (Option.map _ ctx.db).isSome = true
    rw [Option.isSome_map]
    exact hdb
  · rcases haccepted req uuid hmem hmarket with hdone | hpending
    · exact .inl (hkeep uuid hdone)
    · by_cases hid : ev.identifier = req.identifier
      · obtain ⟨req', hmem', hident⟩ := hposted
        obtain ⟨-, hsame⟩ := honce req' _ req _ hmem' hmem (hident.trans hid)
        obtain rfl := Except.ok.inj hsame
        exact .inl (hkeep _ hfiled)
      · right
        unfold handleEngineEvent
        simp only
        rw [RsiMeanReversionStrategy.onOrderUpdate_other]
        · exact hpending
        · intro hother
          exact hid (Option.some.inj (hpending.symm.trans hother)).symm

theorem Files.deliverEvents (h : Files market (ctx, st))
    (hposted : ∀ ev ∈ ctx.engine.statuses, Posted st.2 ev.orderUuid ev.identifier) (nowMs : Int) :
    Files market (ctx.deliverEvents nowMs, st) := by
  have hpolled : Files market ({ ctx with engine := ctx.engine.pollEvents.2 }, st) :=
    ⟨h.connected, h.once, fun ev hev => absurd hev List.not_mem_nil, h.accepted⟩
  have hevents : ∀ ev, EngineEvent.status ev ∈ ctx.engine.events →
      Posted st.2 ev.orderUuid ev.identifier ∧
        Database.Filed ({ ctx with engine := ctx.engine.pollEvents.2 } : MarketContext).db
          ev.orderUuid := by
    intro ev hev
    have hmem : ev ∈ ctx.engine.statuses := List.mem_filterMap.mpr ⟨.status ev, hev, rfl⟩
    exact ⟨hposted ev hmem, h.announced ev hmem⟩
  show Files market (handleEngineEvents_ nowMs
    { ctx with engine := ctx.engine.pollEvents.2 } ctx.engine.events, st)
  unfold handleEngineEvents_
  generalize { ctx with engine := ctx.engine.pollEvents.2 } = polled at hpolled hevents ⊢
  generalize ctx.engine.events = events at hevents ⊢
  induction events generalizing polled with
  | nil => exact hpolled
  | cons ev evs ih =>
    cases ev with
    | fill ev =>
      refine ih _ ?_ (fun ev' hev' => hevents ev' (List.mem_cons_of_mem _ hev'))
      refine ⟨hpolled.connected, hpolled.once, hpolled.announced,
        fun req uuid hmem hmarket => (hpolled.accepted req uuid hmem hmarket).imp_right ?_⟩
      exact (polled.strategy.onFill_frame _).1.trans
    | status ev =>
      obtain ⟨hown, hfiled⟩ := hevents ev List.mem_cons_self
      refine ih _ (hpolled.status hown hfiled nowMs) (fun ev' hev' => ?_)
      refine (hevents ev' (List.mem_cons_of_mem _ hev')).imp_right ?_
      exact Database.filed_of_orders (polled.orders_handleEngineEvent nowMs (.status ev))

/-- An order is decided on only when all accepted ones are filed. -/
theorem Files.submitOrder (henv : env.api = api.recorded.toOrderApi)
    {decided : Decision ℚ × RsiMeanReversionStrategy ℚ} {req : OrderRequest ℚ}
    (h : Files market (ctx, st)) (hwaits : ctx.strategy.Waits)
    (hdecided : Decides env.strategy ctx decided) (horder : decided.1.order = some req)
    (hfresh : ∀ req' answer, ApiCall.postOrder req' answer ∈ st.2 →
      req'.identifier ≠ req.identifier) :
    Files market ({ ctx with strategy := decided.2 }.submitOrder env req st).2 := by
  obtain ⟨hdb, honce, hannounced, haccepted⟩ := h
  obtain ⟨-, hdecides, hwaitsOn⟩ := hdecided.waitsOn hwaits
  have hidle : ctx.strategy.pendingClientId = none := by
    unfold RsiMeanReversionStrategy.Decides at hdecides
    rw [horder] at hdecides
    exact hwaits.idle_iff.mp hdecides.1
  have hfiled : ∀ req' uuid, ApiCall.postOrder req' (.ok uuid) ∈ st.2 → req'.market = market →
      Database.Filed ctx.db uuid := by
    intro req' uuid hmem hmarket
    refine (haccepted req' uuid hmem hmarket).resolve_right (fun hpending => ?_)
    exact absurd (hidle.symm.trans hpending) (by simp)
  have hpending := (hwaitsOn.order req horder).pending
  obtain ⟨hevents, hcases⟩ := ctx.engine.submit_store env.cfg api req st
  have hsuccess := fun req' uuid =>
    @MarketEngine.success_submit σ env.cfg api ctx.engine req st req' uuid
  have hposted : ∀ req' answer, ApiCall.postOrder req' answer ∈
      (ctx.engine.submit env.cfg api.recorded.postOrder req st).2.2 →
        .postOrder req' answer ∈ st.2 ∨ req' = req ∧ answer = (api.postOrder req st.1).1 := by
    intro req' answer hmem
    rcases hcases with ⟨hsame, -⟩ | ⟨happend, -⟩
    · exact .inl (hsame ▸ hmem)
    · rw [happend] at hmem
      refine (List.mem_append.mp hmem).imp_right (fun hnew => ?_)
      exact ApiCall.postOrder.inj (List.mem_singleton.mp hnew)
  have honce' : Unrepeated (ctx.engine.submit env.cfg api.recorded.postOrder req st).2.2 := by
    intro req₁ answer₁ req₂ answer₂ hmem₁ hmem₂ hsame
    rcases hposted req₁ answer₁ hmem₁ with hold₁ | ⟨rfl, rfl⟩
    · rcases hposted req₂ answer₂ hmem₂ with hold₂ | ⟨rfl, rfl⟩
      · exact honce req₁ answer₁ req₂ answer₂ hold₁ hold₂ hsame
      · exact absurd hsame (hfresh req₁ answer₁ hold₁)
    · rcases hposted req₂ answer₂ hmem₂ with hold₂ | ⟨rfl, rfl⟩
      · exact absurd hsame.symm (hfresh req₂ answer₂ hold₂)
      · exact ⟨rfl, rfl⟩
  have hannounced' : ∀ ev ∈ (ctx.engine.submit env.cfg api.recorded.postOrder req st).1.2.statuses,
      Database.Filed ctx.db ev.orderUuid := by
    unfold MarketEngine.statuses
    rw [hevents]
    exact hannounced
  unfold MarketContext.submitOrder
  rw [henv]
  simp only
  split
  · refine ⟨hdb, honce', hannounced', fun req' uuid hmem hmarket => ?_⟩
    rcases hsuccess req' uuid hmem with hold | ⟨rfl, -⟩
    · exact .inl (hfiled req' uuid hold hmarket)
    · exact .inr hpending
  · next hfailed =>
    refine ⟨hdb, honce', hannounced', fun req' uuid hmem hmarket => .inl ?_⟩
    exact hfiled req' uuid ((hsuccess req' uuid hmem).resolve_right
      (fun hok => hfailed hok.2)) hmarket

theorem files_move (henv : env.api = api.recorded.toOrderApi)
    (huuid : Function.Injective env.strategy.uuid) (hcolon : ':' ∉ market.toList)
    {state state' : MarketContext × (σ × List ApiCall)} (hmove : Move env state state')
    (htold : Told env.strategy market state) (h : Files market state) : Files market state' := by
  cases hmove with
  | note _ hengine hstrategy hdb =>
    exact h.announce (announces_stay hstrategy (by rw [hdb]) (by rw [hengine])) (fun _ _ => id)
  | insertCandle ctx st candle unit =>
    exact h.announce (announces_stay rfl (orders_map ctx.db (fun _ => rfl)) rfl) (fun _ _ => id)
  | setMarkPrice ctx st p => exact h.announce (announces_stay rfl rfl rfl) (fun _ _ => id)
  | handleOrderEvent ctx st hasTrade ev =>
    exact h.announce (announces_handleOrderEvent env.cfg ctx hasTrade ev) (fun _ _ => id)
  | runRecovery_ ctx st =>
    refine h.announce (announces_runRecovery_ env.cfg env.api ctx st) (fun req answer hmem => ?_)
    rw [henv] at hmem
    exact posts_runRecovery_ env.cfg api ctx st req answer hmem
  | deliverEvents ctx st nowMs => exact h.deliverEvents htold.tells.announced nowMs
  | decide st hdecided hnone =>
    refine ⟨h.connected, h.once, h.announced,
      fun req uuid hmem hmarket => (h.accepted req uuid hmem hmarket).imp_right ?_⟩
    obtain ⟨-, hdecides, -⟩ := hdecided.waitsOn htold.tells.waits
    unfold RsiMeanReversionStrategy.Decides at hdecides
    rw [hnone] at hdecides
    exact hdecides.1.trans
  | submitOrder st hdecided horder =>
    exact h.submitOrder henv htold.tells.waits hdecided horder
      (htold.fresh huuid hcolon hdecided horder)

theorem filed_move {τ : Type} {env : ManagerEnv τ} {state state' : MarketContext × τ}
    (hmove : Move env state state') {uuid : String} (h : Database.Filed state.1.db uuid) :
    Database.Filed state'.1.db uuid := by
  cases hmove with
  | note _ _ _ hdb => exact hdb ▸ h
  | insertCandle ctx s candle unit =>
    exact Database.filed_of_orders (orders_map ctx.db (fun _ => rfl)) h
  | setMarkPrice ctx s p => exact h
  | handleOrderEvent ctx s hasTrade ev =>
    exact (announces_handleOrderEvent env.cfg ctx hasTrade ev).filed uuid h
  | runRecovery_ ctx s => exact (announces_runRecovery_ env.cfg env.api ctx s).filed uuid h
  | deliverEvents ctx s nowMs => exact Database.filed_of_orders (ctx.orders_deliverEvents nowMs) h
  | decide s _ _ => exact h
  | submitOrder s _ _ =>
    unfold MarketContext.submitOrder
    simp only
    split
    · exact h
    · exact h

theorem files_moves (henv : env.api = api.recorded.toOrderApi)
    (huuid : Function.Injective env.strategy.uuid) (hcolon : ':' ∉ market.toList)
    {state state' : MarketContext × (σ × List ApiCall)} (hmoves : Moves env state state')
    (htold : Told env.strategy market state) (h : Files market state) :
    Files market state' ∧
      ∀ uuid, Database.Filed state.1.db uuid → Database.Filed state'.1.db uuid := by
  have hkept := hmoves.keeps
    (P := fun reached => Told env.strategy market reached ∧ Files market reached ∧
      ∀ uuid, Database.Filed state.1.db uuid → Database.Filed reached.1.db uuid)
    (fun _ _ hmove hkept => ⟨(told_move henv huuid hcolon hmove hkept.1).1,
      files_move henv huuid hcolon hmove hkept.1 hkept.2.1,
      fun uuid hfiled => filed_move hmove (hkept.2.2 uuid hfiled)⟩)
    ⟨htold, h, fun _ hfiled => hfiled⟩
  exact hkept.2

/-- What the worker of another market does is nothing to this context, but for the database. -/
theorem Files.other {market' : String} (h : Files market' (ctx, st)) (hne : market' ≠ market)
    (hgrows : Grows (Asked strategy market) st.2 st'.2) (honce : Unrepeated st'.2)
    (hstrategy : ctx'.strategy = ctx.strategy) (hevents : ctx'.engine.events = ctx.engine.events)
    (hdb : ctx'.db.isSome = true)
    (hfiled : ∀ uuid, Database.Filed ctx.db uuid → Database.Filed ctx'.db uuid) :
    Files market' (ctx', st') := by
  refine ⟨hdb, honce, fun ev hev => ?_, fun req uuid hmem hmarket => ?_⟩
  · unfold MarketEngine.statuses at hev
    rw [hevents] at hev
    exact hfiled _ (h.announced ev hev)
  · simp only [hstrategy]
    exact (h.accepted req uuid (posts_other hgrows hmem (hmarket ▸ hne)) hmarket).imp_left
      (hfiled uuid)

end MarketContext

/-! The bot. -/

namespace Bot

variable (parse : Bytes → Option Data)

/-- Every context files the orders of its market, and every post was for a market with a
    context. -/
structure Filing (b : Bot) (st : σ × List ApiCall) : Prop where
  files : ∀ m w, b.manager.contexts.lookup m = some w →
    MarketContext.Files m ((b.manager.worker w).ctx, st)
  posted : ∀ req answer, ApiCall.postOrder req answer ∈ st.2 →
    (b.manager.contexts.lookup req.market).isSome = true

variable {env : ManagerEnv (σ × List ApiCall)} {api : IOrderApi σ}

theorem Filing.step (henv : env.api = api.recorded.toOrderApi)
    (huuid : Function.Injective env.strategy.uuid) (state : Bot × (σ × List ApiCall)) (a : BotStep)
    (hinformed : Informed env.strategy state.1 state.2.2) (h : Filing state.1 state.2) :
    Filing (Bot.step parse env state a).1 (Bot.step parse env state a).2 := by
  rcases step_cases parse env state a with ⟨f, hf, hmanager, hsame⟩ |
    ⟨m, t, w, -, hw, hmanager, hasked⟩
  · rw [hsame]
    refine ⟨fun m w hw => ?_, fun req answer hmem => ?_⟩
    · rw [hmanager] at hw ⊢
      simp only [KeyMap.lookup_mapVal, Option.map_eq_some_iff] at hw
      obtain ⟨w, hw, rfl⟩ := hw
      obtain ⟨hdb, honce, hannounced, haccepted⟩ := h.files m w hw
      have hkept : (f m w).ctx.strategy = w.ctx.strategy ∧
          (f m w).ctx.engine = w.ctx.engine := by
        rcases hf m w with heq | heq
        · rw [heq]
          exact ⟨rfl, rfl⟩
        · rw [heq]
          exact ⟨w.ctx.strategy_requestRecovery, w.ctx.engine_requestRecovery⟩
      refine ⟨hdb, honce, fun ev hev => hannounced ev ?_, fun req uuid hmem hmarket => ?_⟩
      · have hev' : ev ∈ (f m w).ctx.engine.statuses := hev
        rw [hkept.2] at hev'
        exact hev'
      · refine (haccepted req uuid hmem hmarket).imp_right (fun hpending => ?_)
        exact (congrArg RsiMeanReversionStrategy.pendingClientId hkept.1).trans hpending
    · rw [hmanager]
      simp only [KeyMap.lookup_mapVal, Option.isSome_map]
      exact h.posted req answer hmem
  · obtain ⟨hcolon, htells⟩ := hinformed.tells m w hw
    have htold : MarketContext.Told env.strategy m ((state.1.manager.worker w).ctx, state.2) :=
      ⟨hinformed.book, htells.frame (state.1.manager.quiets_worker w) rfl rfl⟩
    have hmoves := MarketContext.moves_turn parse env (state.1.manager.worker w) state.2 t
    obtain ⟨hfiles, hfiled⟩ := MarketContext.files_moves henv huuid hcolon hmoves htold
      (h.files m w hw)
    have hgrows := (MarketContext.walks_moves henv hmoves htold.tells.traced).grows
    rw [hasked]
    refine ⟨fun m' w' hw' => ?_, fun req answer hmem => ?_⟩
    · rw [hmanager] at hw' ⊢
      by_cases hne : m' = m
      · subst hne
        rw [MarketEngineManager.lookup_put_self] at hw'
        obtain rfl := Option.some.inj hw'
        exact hfiles
      · rw [MarketEngineManager.lookup_put_ne _ _ hne] at hw'
        exact (h.files m' w' hw').other hne hgrows hfiles.once rfl rfl hfiles.connected hfiled
    · rw [hmanager]
      by_cases hne : req.market = m
      · rw [hne, MarketEngineManager.lookup_put_self]
        rfl
      · rw [MarketEngineManager.lookup_put_ne _ _ hne]
        exact h.posted req answer (MarketContext.posts_other hgrows hmem hne)

/-- **One order at a time.** Start the bot with a database over any file, let no insert fail, and
    run the bot in any way, whatever the exchange answers and whatever messages come: of the orders
    that the exchange has accepted in a market, all are recorded as closed but the one that the
    strategy of the market waits for; so there are never two of a market that are not. The generator
    never repeats itself, and no market has a colon. -/
theorem one_open_order {τ δ : Type} (parse : Bytes → Option Data) (strategy : StrategyEnv ℚ)
    (huuid : Function.Injective strategy.uuid) (api : IOrderApi σ) (pendingTimeout : Int)
    (cfg : AccountConfig) (startApi : IOrderApi τ) (mgr : AccountManager) (markets : List String)
    (hcolon : ∀ m ∈ markets, ':' ∉ m.toList) (mcfg : MarketManagerConfig) (t : τ)
    {manager : MarketEngineManager}
    (hcreate : (MarketEngineManager.create cfg startApi .empty mgr markets mcfg (some {}) t).1 =
      .ok manager) {sqlite : Database.Sqlite δ} (hsqlite : sqlite.Documented) (file : δ) (s : σ)
    (steps : List BotStep) :
    let final := Machine.run
      (step parse
        { strategy := strategy, api := api.recorded.toOrderApi, pendingTimeout := pendingTimeout })
      (assemble manager, (s, [])) steps
    let accepted := fun (req : OrderRequest ℚ) uuid => ApiCall.postOrder req (.ok uuid) ∈ final.2.2
    ∃ d, final.1.manager.db = some d ∧
      ∀ js after, Database.Session sqlite file js (some after) → js.map (·.1) = d.orders →
        (∀ j ∈ js, j.2 = true) →
        let closed := Database.Recorded (sqlite.orders file) (sqlite.orders after)
        (∀ req uuid, accepted req uuid → closed uuid ∨
          ∃ w, final.1.manager.contexts.lookup req.market = some w ∧
            w.ctx.strategy.pendingClientId = some req.identifier) ∧
        ∀ req uuid req' uuid', accepted req uuid → accepted req' uuid' → req.market = req'.market →
          closed uuid ∨ closed uuid' ∨ req = req' ∧ uuid = uuid' := by
  have hstarted := MarketEngineManager.started_create hcreate
  have hinformed := informed_started hstarted hcolon strategy
  have hfiling : Filing (assemble manager) (s, []) := by
    have hdb : (assemble manager).manager.db = some {} := hstarted.sameDb
    refine ⟨fun m w hw => ⟨?_, fun req answer req' answer' hmem => absurd hmem List.not_mem_nil,
      fun ev hev => ?_, fun req uuid hmem => absurd hmem List.not_mem_nil⟩,
      fun req answer hmem => absurd hmem List.not_mem_nil⟩
    · exact Option.isSome_iff_exists.mpr ⟨_, hdb⟩
    · obtain ⟨first, hnew⟩ := hstarted.contexts
      obtain ⟨pos, -, rfl⟩ := hnew m w hw
      exact absurd hev List.not_mem_nil
  set env : ManagerEnv (σ × List ApiCall) :=
    { strategy := strategy, api := api.recorded.toOrderApi, pendingTimeout := pendingTimeout }
  have henv : env.api = api.recorded.toOrderApi := rfl
  intro final accepted
  obtain ⟨-, hfiling'⟩ : Informed strategy final.1 final.2.2 ∧ Filing final.1 final.2 := by
    exact Machine.run_keeps
      (P := fun st : Bot × (σ × List ApiCall) => Informed strategy st.1 st.2.2 ∧ Filing st.1 st.2)
      (fun st a h => ⟨h.1.step parse henv huuid st a, h.2.step parse henv huuid st a h.1⟩)
      ⟨hinformed, hfiling⟩ steps
  have hcustody : Custody final.2.2 final.1.manager.store final.1.manager.db :=
    custody_run parse henv hcreate s steps
  obtain ⟨d, hd⟩ := Option.isSome_iff_exists.mp hcustody.connected
  refine ⟨d, hd, fun js after hsession hjs hok => ?_⟩
  intro closed
  -- What the database was asked to insert is in the table, for no insert has failed.
  have hinserted : ∀ uuid, Database.Filed final.1.manager.db uuid → closed uuid := by
    rintro uuid ⟨d', hd', o, ho, hid, -⟩
    obtain rfl := Option.some.inj (hd.symm.trans hd')
    have hterminal : ∀ j ∈ js, j.1.status.isTerminal = true :=
      fun j hj => hcustody.closed d hd j.1 (hjs ▸ List.mem_map_of_mem hj)
    refine (hsession.recorded hsqlite hterminal uuid).resolve_right (fun hfailed => ?_)
    rw [← hjs] at ho
    obtain ⟨j, hj, rfl⟩ := List.mem_map.mp ho
    exact Bool.false_ne_true ((hfailed j hj hid).symm.trans (hok j hj))
  have hone : ∀ req uuid, accepted req uuid → closed uuid ∨
      ∃ w, final.1.manager.contexts.lookup req.market = some w ∧
        w.ctx.strategy.pendingClientId = some req.identifier := by
    intro req uuid hmem
    obtain ⟨w, hw⟩ := Option.isSome_iff_exists.mp (hfiling'.posted req _ hmem)
    exact ((hfiling'.files _ w hw).accepted req uuid hmem rfl).imp (hinserted uuid)
      (fun hpending => ⟨w, hw, hpending⟩)
  refine ⟨hone, fun req uuid req' uuid' hmem hmem' hmarket => ?_⟩
  rcases hone req uuid hmem with hclosed | ⟨w, hw, hpending⟩
  · exact .inl hclosed
  · rcases hone req' uuid' hmem' with hclosed' | ⟨w', hw', hpending'⟩
    · exact .inr (.inl hclosed')
    · rw [← hmarket, hw] at hw'
      obtain rfl := Option.some.inj hw'
      obtain ⟨hreq, hanswer⟩ := (hfiling'.files _ w hw).once req _ req' _ hmem hmem'
        (Option.some.inj (hpending.symm.trans hpending'))
      exact .inr (.inr ⟨hreq, Except.ok.inj hanswer⟩)

/-- The first sale is closed, and the strategy of the other market waits for its own. -/
theorem one_open_order_book :
    Database.Recorded .empty bookTable (bookUuid "KRW-BTC") ∧
      ∃ w, bookFinal.1.manager.contexts.lookup "KRW-ETH" = some w ∧
        w.ctx.strategy.pendingClientId = some (bookSale "KRW-ETH").identifier := by
  have hopen := one_open_order bookParse bookStrategy unaryUuid_injective bookApi 120
    (AppConfig.standard ℚ).account bookApi bookLedger bookMarkets (by decide +kernel) bookConfig []
    created_book Database.documented_memory .empty [] bookSteps
  simp only [run_book, calls_book] at hopen
  obtain ⟨d, hd, hall⟩ := hopen
  have horders := filed_book
  rw [hd] at horders
  obtain ⟨hone, -⟩ := hall _ _ session_book (Option.some.inj horders).symm
    (fun j hj => congrArg Prod.snd (List.mem_singleton.mp hj))
  refine ⟨?_, ?_⟩
  · refine (hone (bookSale "KRW-BTC") (bookUuid "KRW-BTC") (by decide)).resolve_right ?_
    rintro ⟨w, hw, hpending⟩
    have hidle : (bookFinal.1.manager.contexts.lookup "KRW-BTC").map
        (·.ctx.strategy.pendingClientId) = some none := by decide +kernel
    rw [show (bookSale "KRW-BTC").market = "KRW-BTC" from rfl] at hw
    rw [hw, Option.map_some, hpending] at hidle
    cases hidle
  · refine (hone (bookSale "KRW-ETH") (bookUuid "KRW-ETH") (by decide)).resolve_left ?_
    rintro ⟨row, hrow, hkey, -⟩
    obtain rfl : row = .of bookClosed := List.mem_singleton.mp hrow
    revert hkey
    decide +kernel

end Bot
end CoinBot
