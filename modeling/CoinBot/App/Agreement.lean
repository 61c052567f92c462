import CoinBot.Allocation.Startup
import CoinBot.App.OrderMessages
import CoinBot.Engine.Outstanding
import CoinBot.Trading.StrategyState

/- The strategy and the engine agree on the outstanding order.

   The strategy waits for an order by its identifier, the engine for its uuid, and the
   status event that ends the wait goes through the engine's queue. `Linked` says how the
   two fit between two steps of the worker; every step keeps it (`synced_step`). -/
namespace CoinBot

/-- The sides the exchange has its orders under: `sides s uuid` in the state `s` of the exchange.
    An accepted request gets a uuid under which it has its side, the exchange never changes the
    side of an order, and an answer about an order has that side. -/
structure KeepsSides {σ : Type} (api : OrderApi σ) (sides : σ → String → Option OrderPosition) :
    Prop where
  posted : ∀ req s uuid, (api.postOrder req s).1 = .ok uuid →
    uuid ≠ "" ∧ sides (api.postOrder req s).2 uuid = some req.position
  kept_postOrder : ∀ req s uuid p, sides s uuid = some p →
    sides (api.postOrder req s).2 uuid = some p
  kept_getOrder : ∀ orderUuid s uuid p, sides s uuid = some p →
    sides (api.getOrder orderUuid s).2 uuid = some p
  kept_getMyAccount : ∀ s uuid p, sides s uuid = some p →
    sides (api.getMyAccount s).2 uuid = some p
  answered : ∀ orderUuid s o p, (api.getOrder orderUuid s).1 = .ok o → sides s o.id = some p →
    o.position = p

namespace MarketEngine

variable {σ : Type} {cfg : AppConfig ℚ} {e : MarketEngine}

theorem submit_reply (postOrder : OrderRequest ℚ → σ → Except RestError String × σ)
    (e : MarketEngine) (req : OrderRequest ℚ) (s : σ) :
    (e.submit cfg postOrder req s).1 = e.submitReply cfg req (postOrder req s).1 := by
  unfold submitReply submit
  rcases e.beforePost cfg req with ⟨result, e'⟩
  cases result with
  | none => rfl
  | some result => rfl

/-- The exchange is asked, or the submission has failed before. -/
theorem submit_asks (cfg : AppConfig ℚ) (postOrder : OrderRequest ℚ → σ → Except RestError String × σ)
    (e : MarketEngine) (req : OrderRequest ℚ) (s : σ) :
    (e.submit cfg postOrder req s).2 = (postOrder req s).2 ∨
      ((e.submit cfg postOrder req s).2 = s ∧
        (e.submit cfg postOrder req s).1.1.success = false) := by
  unfold submit
  rcases e.beforePost_cases cfg req with ⟨code, message, hfail⟩ | ⟨message, hfail⟩ |
    ⟨-, -, -, -, -, token, mgr, -, hbuy⟩ | ⟨-, -, -, -, -, hsell⟩
  · rw [hfail]
    exact .inr ⟨rfl, rfl⟩
  · rw [hfail]
    exact .inr ⟨rfl, rfl⟩
  · rw [hbuy]
    exact .inl rfl
  · rw [hsell]
    exact .inl rfl

end MarketEngine

namespace MarketContext

/-- The order that the strategy waits for: the engine has it, active and stored, or its terminal
    status event is queued. -/
def Outstanding (ctx : MarketContext) (side : OrderPosition) : Prop :=
  ∃ cid, ctx.strategy.pendingClientId = some cid ∧
    ((ctx.engine.activeUuid side ≠ "" ∧
        ∃ o, ctx.engine.store.get (ctx.engine.activeUuid side) = some o ∧
          o.identifier = some cid) ∨
      ∃ ev, EngineEvent.status ev ∈ ctx.engine.events ∧ ev.identifier = cid ∧
        ev.position = side ∧ ev.status.isTerminal = true)

/-- The strategy and the engine agree on the outstanding order. -/
structure Agrees (ctx : MarketContext) : Prop where
  entry : ctx.strategy.state = .pendingEntry ↔ ctx.Outstanding .bid
  exit : ctx.strategy.state = .pendingExit ↔ ctx.Outstanding .ask
  idle : ctx.strategy.state = .flat ∨ ctx.strategy.state = .inPosition →
    ctx.engine.activeBuyOrderUuid = "" ∧ ctx.engine.activeSellOrderUuid = ""

/-- The strategy is idle and there is no order, or it waits for an order that is out or has
    ended. -/
def Linked (e : MarketEngine) (st : RsiMeanReversionStrategy ℚ) : Prop :=
  (st.state.isIdle = true ∧ st.pendingClientId = none ∧ e.NoOrder) ∨
  ∃ side cid, st.state = .pending side ∧ st.pendingClientId = some cid ∧ cid ≠ "" ∧
    (e.HasOrder side cid ∨ e.OrderEnded side cid)

variable {σ : Type}

/-- What holds between two steps. -/
structure Synced (sides : σ → String → Option OrderPosition) (state : MarketContext × σ) : Prop where
  own : state.1.engine.OwnStore
  /-- The exchange has every stored order, under its side. -/
  known : ∀ id o, state.1.engine.store.get id = some o → sides state.2 id = some o.position
  linked : Linked state.1.engine state.1.strategy

/-- A WebSocket message about an order of the exchange has its side. -/
def TrueSide (sides : σ → String → Option OrderPosition) (state : MarketContext × σ) :
    WorkerStep → Prop
  | .handleOne (.myOrder (some d)) =>
    ∀ p, sides state.2 d.uuid = some p → MyOrderMapper.toSide d.askBid = p
  | _ => True

variable {sides : σ → String → Option OrderPosition} {ctx ctx' : MarketContext} {s s' : σ}
  {env : ManagerEnv σ} {cfg : AppConfig ℚ}

/-! What the link says. -/

/-- Not outstanding on the other side: there the engine has no order and no event. -/
theorem Linked.agrees (h : Linked ctx.engine ctx.strategy) (hown : ctx.engine.OwnStore) :
    ctx.Agrees := by
  have hevents : ∀ ev, EngineEvent.status ev ∈ ctx.engine.events → ev ∈ ctx.engine.statuses :=
    fun ev hev => List.mem_filterMap.mpr ⟨_, hev, rfl⟩
  -- Idle on both sides, or one order on both.
  rcases h with ⟨hidle, hnone, hno⟩ | ⟨side, cid, hstate, hid, -, horder⟩
  · have hnot : ∀ side, ¬ ctx.Outstanding side := by
      rintro side ⟨cid, hcid, -⟩
      rw [hnone] at hcid
      cases hcid
    have hbusy : ∀ side, ctx.strategy.state ≠ .pending side := by
      intro side hpending
      rw [hpending, StrategyState.isIdle_pending] at hidle
      cases hidle
    exact ⟨iff_of_false (hbusy .bid) (hnot .bid), iff_of_false (hbusy .ask) (hnot .ask),
      fun _ => ⟨hno.1 .bid, hno.1 .ask⟩⟩
  · have hiff : ∀ q, ctx.Outstanding q ↔ q = side := by
      intro q
      constructor
      · -- Active or with a status event in the queue, an order can only be the linked one.
        rintro ⟨cid', hcid', hactive | ⟨ev, hev, -, hpos, -⟩⟩
        · rcases horder with hhas | hended
          · exact hown.1.active_unique hactive.1 hhas.1
          · exact absurd (hended.1 q) hactive.1
        · rcases horder with hhas | ⟨-, ev', hstatuses, -, -, hside⟩
          · have hmem := hevents ev hev
            rw [hhas.2.2] at hmem
            cases hmem
          · have hmem := hevents ev hev
            rw [hstatuses] at hmem
            obtain rfl := List.mem_singleton.mp hmem
            exact hpos.symm.trans hside
      · rintro rfl
        refine ⟨cid, hid, ?_⟩
        rcases horder with hhas | ⟨-, ev, hstatuses, hcid, hterm, hside⟩
        · exact .inl ⟨hhas.1, hhas.2.1⟩
        · have hmem : ev ∈ ctx.engine.statuses := by rw [hstatuses]; exact List.mem_singleton_self ev
          obtain ⟨event, hin, hev⟩ := List.mem_filterMap.mp hmem
          cases event with
          | fill fill => cases hev
          | status ev' =>
            obtain rfl := Option.some.inj hev
            exact .inr ⟨ev', hin, hcid, hside, hterm⟩
    refine ⟨?_, ?_, fun hidle => ?_⟩
    · rw [hiff, hstate]
      cases side with
      | bid => exact iff_of_true rfl rfl
      | ask => exact iff_of_false (fun h => nomatch h) (fun h => nomatch h)
    · rw [hiff, hstate]
      cases side with
      | bid => exact iff_of_false (fun h => nomatch h) (fun h => nomatch h)
      | ask => exact iff_of_true rfl rfl
    · rw [hstate] at hidle
      cases side with
      | bid => rcases hidle with h | h <;> cases h
      | ask => rcases hidle with h | h <;> cases h

/-! Steps that leave the engine and the strategy as they are. -/

theorem Synced.frame (h : Synced sides (ctx, s)) (hengine : ctx'.engine = ctx.engine)
    (hstrategy : ctx'.strategy = ctx.strategy) : Synced sides (ctx', s) := by
  obtain ⟨hown, hknown, hlinked⟩ := h
  rw [← hengine] at hown hknown hlinked
  rw [← hstrategy] at hlinked
  exact ⟨hown, hknown, hlinked⟩

theorem Synced.exchange (h : Synced sides (ctx, s))
    (hkept : ∀ uuid p, sides s uuid = some p → sides s' uuid = some p) : Synced sides (ctx, s') :=
  ⟨h.own, fun id o hget => hkept id _ (h.known id o hget), h.linked⟩

/-! Order messages. -/

theorem Synced.message (h : Synced sides (ctx, s)) (msg : Message)
    (hside : ctx.engine.SameSide msg) (hengine : ctx'.engine = ctx.engine.deliver cfg msg)
    (hstrategy : ctx'.strategy = ctx.strategy) : Synced sides (ctx', s) := by
  obtain ⟨hown, hknown, hlinked⟩ := h
  refine ⟨?_, fun id o hget => ?_, ?_⟩
  · rw [hengine]
    exact MarketEngine.ownStore_deliver hown hside
  · rw [hengine] at hget
    obtain ⟨old, hold, hpos⟩ := MarketEngine.stored_deliver hside hget
    rw [hpos]
    exact hknown id old hold
  · rw [hengine, hstrategy]
    rcases hlinked with ⟨hidle, hnone, hno⟩ | ⟨side, cid, hstate, hid, hne, hhas | hended⟩
    · exact .inl ⟨hidle, hnone, hno.deliver hown msg⟩
    · exact .inr ⟨side, cid, hstate, hid, hne, hhas.deliver hown hside hne⟩
    · exact .inr ⟨side, cid, hstate, hid, hne, .inr (hended.deliver hown msg)⟩

theorem Synced.sameSide (h : Synced sides (ctx, s)) {o : Order}
    (htrue : ∀ p, sides s o.id = some p → o.position = p) :
    ∀ o', ctx.engine.store.get o.id = some o' → o.position = o'.position :=
  fun o' hget => htrue _ (h.known o.id o' hget)

theorem Synced.handleOrderEvent (h : Synced sides (ctx, s)) (hasTrade : Bool) {ev : MyOrderEvent}
    (htrue : ∀ o, ev = .order o → ∀ p, sides s o.id = some p → o.position = p) :
    Synced sides (ctx.handleOrderEvent cfg hasTrade ev, s) := by
  cases ev with
  | trade t => exact h.message (.trade t) trivial rfl rfl
  | order o =>
    have hside := h.sameSide (htrue o rfl)
    unfold MarketContext.handleOrderEvent
    simp only
    split
    · split
      · exact h.message (.reconcile o) hside rfl rfl
      · exact h.message (.reconcile o) hside rfl rfl
    · split
      · exact h.message (.snapshot o) hside rfl rfl
      · exact h.message (.snapshot o) hside rfl rfl

theorem Synced.handleMyOrder_ (h : Synced sides (ctx, s)) {events : List MyOrderEvent}
    (htrue : ∀ o, MyOrderEvent.order o ∈ events → ∀ p, sides s o.id = some p → o.position = p) :
    Synced sides (ctx.handleMyOrder_ cfg events, s) := by
  unfold MarketContext.handleMyOrder_
  generalize events.any isTrade = hasTrade
  induction events generalizing ctx with
  | nil => exact h
  | cons ev events ih =>
    refine ih (h.handleOrderEvent hasTrade ?_) (fun o ho => htrue o (List.mem_cons_of_mem ev ho))
    rintro o rfl
    exact htrue o List.mem_cons_self

theorem order_of_toEvents {d : UpbitMyOrderDto} {o : Order}
    (ho : MyOrderEvent.order o ∈ MyOrderMapper.toEvents cfg d) :
    o.id = d.uuid ∧ o.position = MyOrderMapper.toSide d.askBid := by
  unfold MyOrderMapper.toEvents at ho
  have hcases : o = MyOrderMapper.toOrder d := by
    split at ho
    · split at ho
      · simpa using ho
      · simpa using ho
    · simpa using ho
  rw [hcases]
  exact ⟨rfl, rfl⟩

/-! Recovery. -/

theorem query_keepsSides (h : KeepsSides env.api sides) (orderUuid : String) (retries : Nat)
    (s : σ) :
    (∀ uuid p, sides s uuid = some p →
        sides (queryOrderWithRetry_ env.api orderUuid retries s).2 uuid = some p) ∧
      ∀ o, (queryOrderWithRetry_ env.api orderUuid retries s).1 = some o →
        ∀ p, sides s o.id = some p → o.position = p := by
  induction retries generalizing s with
  | zero => exact ⟨fun _ _ hp => hp, fun o ho => nomatch ho⟩
  | succ retries ih =>
    have hkept := h.kept_getOrder orderUuid s
    have hanswer := h.answered orderUuid s
    unfold queryOrderWithRetry_
    rcases hcall : env.api.getOrder orderUuid s with ⟨answer, s'⟩
    rw [hcall] at hkept hanswer
    cases answer with
    | ok o =>
      refine ⟨hkept, fun o' ho' p hp => ?_⟩
      obtain rfl := Option.some.inj ho'
      exact hanswer o p rfl hp
    | error err =>
      obtain ⟨hkept', hanswer'⟩ := ih s'
      exact ⟨fun uuid p hp => hkept' uuid p (hkept uuid p hp),
        fun o ho p hp => hanswer' o ho p (hkept o.id p hp)⟩

theorem Synced.recoverOrder (cfg : AppConfig ℚ) (hapi : KeepsSides env.api sides)
    {state : MarketContext × σ} (h : Synced sides state) (orderUuid : String) :
    Synced sides (recoverOrder cfg env.api state orderUuid) := by
  obtain ⟨ctx, s⟩ := state
  obtain ⟨hkept, hanswer⟩ := query_keepsSides hapi orderUuid 3 s
  unfold MarketContext.recoverOrder
  by_cases hempty : orderUuid = ""
  · simp only [if_pos hempty]
    exact h
  · simp only [if_neg hempty]
    rcases hquery : queryOrderWithRetry_ env.api orderUuid 3 s with ⟨answer, s'⟩
    rw [hquery] at hkept hanswer
    cases answer with
    | none => exact h.exchange (fun uuid p hp => hapi.kept_getMyAccount s' uuid p (hkept uuid p hp))
    | some o =>
      have hside := h.sameSide (hanswer o rfl)
      refine Synced.exchange (s := s) ?_ hkept
      split
      · exact h.message (.reconcile o) hside rfl rfl
      · exact h.message (.reconcile o) hside rfl rfl

theorem Synced.runRecovery_ (hapi : KeepsSides env.api sides) (h : Synced sides (ctx, s)) :
    Synced sides (ctx.runRecovery_ cfg env.api s) := by
  unfold MarketContext.runRecovery_
  simp only
  split
  · exact h.frame rfl rfl
  · have hbuy := h.recoverOrder cfg hapi ctx.engine.activePendingIds.1
    have hboth := hbuy.recoverOrder cfg hapi ctx.engine.activePendingIds.2
    exact hboth.frame rfl rfl

/-! Decisions. -/

/-- The strategy decides nothing: it waits as before, or is idle as before. -/
theorem Synced.decideNone (h : Synced sides (ctx, s)) {d : Decision ℚ}
    {st : RsiMeanReversionStrategy ℚ} (hd : ctx.strategy.Decides d st) (hnone : d.order = none) :
    Synced sides ({ ctx with strategy := st }, s) := by
  refine ⟨h.own, h.known, ?_⟩
  unfold RsiMeanReversionStrategy.Decides at hd
  rw [hnone] at hd
  obtain ⟨hid', hstate'⟩ := hd
  rcases h.linked with ⟨hidle, hid, hno⟩ | ⟨side, cid, hstate, hid, hne, horder⟩
  · refine .inl ⟨?_, hid'.trans hid, hno⟩
    rcases hstate' with hsame | ⟨-, hnow⟩
    · rw [hsame]
      exact hidle
    · exact hnow
  · refine .inr ⟨side, cid, ?_, hid'.trans hid, hne, horder⟩
    rcases hstate' with hsame | ⟨hidle, -⟩
    · exact hsame.trans hstate
    · have hstate : ctx.strategy.state = .pending side := hstate
      rw [hstate, StrategyState.isIdle_pending] at hidle
      cases hidle

/-- The strategy decides on an order: it waits for it once it is accepted, and is rolled back when
    it is not. -/
theorem Synced.submitOrder (hapi : KeepsSides env.api sides) (h : Synced sides (ctx, s))
    {d : Decision ℚ} {st : RsiMeanReversionStrategy ℚ} {req : OrderRequest ℚ}
    (hd : ctx.strategy.Decides d st) (hreq : d.order = some req) :
    Synced sides (MarketContext.submitOrder env { ctx with strategy := st } req s).2 := by
  unfold RsiMeanReversionStrategy.Decides at hd
  rw [hreq] at hd
  obtain ⟨hidle, hne, hid', hstate'⟩ := hd
  -- The strategy was idle when it decided, so the engine had no order.
  have hno : ctx.engine.NoOrder := by
    rcases h.linked with ⟨-, -, hno⟩ | ⟨side, cid, hstate, -, -, -⟩
    · exact hno
    · have hstate : ctx.strategy.state = .pending side := hstate
      rw [hstate, StrategyState.isIdle_pending] at hidle
      cases hidle
  have hkept := hapi.kept_postOrder req s
  have hreply : (env.api.postOrder req s).1 ≠ .ok "" :=
    fun hempty => (hapi.posted req s "" hempty).1 rfl
  have hown := MarketEngine.singleOrder_submit env.cfg h.own.1 h.own.2 req hreply
  have hcases := MarketEngine.submit_noOrder env.cfg hno h.own req hreply hne
  have hasks := MarketEngine.submit_asks env.cfg env.api.postOrder ctx.engine req s
  rw [← MarketEngine.submit_reply] at hown hcases
  unfold MarketContext.submitOrder
  simp only
  rcases hcall : ctx.engine.submit env.cfg env.api.postOrder req s with ⟨⟨result, engine⟩, s'⟩
  rw [hcall] at hown hcases hasks
  rcases hcases with ⟨hfailed, hno'⟩ | ⟨uuid, hok, hsuccess, hhas, hstored⟩
  · -- The submission failed: the strategy goes back to the state before.
    have hfailed : result.success = false := hfailed
    obtain ⟨hnone, hback⟩ := RsiMeanReversionStrategy.onSubmitFailed_idle hid' hstate'
    simp only [hfailed, Bool.false_eq_true, if_false]
    refine ⟨hown, fun id o hget => ?_, .inl ⟨hback, hnone, hno'⟩⟩
    have hempty := MarketEngine.OwnStore.get_none hown hno'.1 id
    exact absurd (hempty.symm.trans hget) (by simp)
  · have hsuccess : result.success = true := hsuccess
    simp only [hsuccess, if_true]
    refine ⟨hown, fun id o hget => ?_,
      .inr ⟨req.position, req.identifier, hstate', hid', hne, .inl hhas⟩⟩
    obtain ⟨hown', hpos⟩ := hstored id o hget
    rcases hasks with hasked | ⟨-, hfail⟩
    · have hposted := (hapi.posted req s uuid hok).2
      rw [← hasked] at hposted
      show sides s' id = some o.position
      rw [hown', hpos]
      exact hposted
    · have hfail : result.success = false := hfail
      rw [hsuccess] at hfail
      cases hfail

theorem Synced.setMarkPrice (h : Synced sides (ctx, s)) (p : Price) :
    Synced sides ({ ctx with engine := ctx.engine.setMarkPrice p }, s) :=
  ⟨⟨h.own.1.observe _ _ _ _, h.own.2⟩, h.known, h.linked⟩

theorem Synced.doIntrabarCheck (hapi : KeepsSides env.api sides) (h : Synced sides (ctx, s))
    (close : Price) : Synced sides (ctx.doIntrabarCheck env close s) := by
  have hmark := h.setMarkPrice close
  unfold MarketContext.doIntrabarCheck
  simp only
  split
  · exact hmark
  · split
    · exact hmark
    · have hd := RsiMeanReversionStrategy.decides_onIntrabarCandle env.strategy ctx.strategy close
        ({ ctx with engine := ctx.engine.setMarkPrice close } : MarketContext).buildAccountSnapshot_
      split
      · next hnone => exact hmark.decideNone hd hnone
      · next req hreq =>
        have hsub := hmark.submitOrder hapi hd hreq
        split
        · next hok =>
          rw [hok] at hsub
          exact hsub
        · next hfail =>
          rw [hfail] at hsub
          split
          · exact hsub.frame rfl rfl
          · exact hsub

theorem Synced.confirmCandle (hapi : KeepsSides env.api sides) (h : Synced sides (ctx, s))
    (candle : Candle ℚ) (liveUnit : Int) :
    Synced sides (ctx.confirmCandle env candle liveUnit s) := by
  have hinsert : Synced sides (ctx.insertCandle candle liveUnit, s) := h.frame rfl rfl
  have hmark := hinsert.setMarkPrice candle.closePrice
  unfold MarketContext.confirmCandle
  simp only
  have hd := RsiMeanReversionStrategy.decides_onCandle env.strategy ctx.strategy candle
    ({ ctx.insertCandle candle liveUnit with
      engine := (ctx.insertCandle candle liveUnit).engine.setMarkPrice candle.closePrice
      } : MarketContext).buildAccountSnapshot_
  split
  · next hnone => exact hmark.decideNone hd hnone
  · next req hreq => exact hmark.submitOrder hapi hd hreq

theorem Synced.handleMarketData_ (hapi : KeepsSides env.api sides) (h : Synced sides (ctx, s))
    (incoming : Candle ℚ) (liveUnit : Int) :
    Synced sides (ctx.handleMarketData_ env incoming liveUnit s) := by
  have hpending : Synced sides ({ ctx with pendingCandle := some incoming }, s) :=
    h.frame rfl rfl
  unfold MarketContext.handleMarketData_
  split
  · exact hpending.doIntrabarCheck hapi incoming.closePrice
  · next candle _ =>
    split
    · exact hpending.doIntrabarCheck hapi incoming.closePrice
    · have hconfirm := hpending.confirmCandle hapi candle liveUnit
      generalize { ctx with pendingCandle := some incoming }.confirmCandle env candle liveUnit s =
        confirmed at hconfirm ⊢
      obtain ⟨ctx', s'⟩ := confirmed
      exact hconfirm.doIntrabarCheck hapi incoming.closePrice

/-! Engine events. -/

theorem handleEngineEvents_fills (nowMs : Int) {evs : List EngineEvent} (ctx : MarketContext)
    (hnone : evs.filterMap EngineEvent.asStatus = []) :
    (ctx.handleEngineEvents_ nowMs evs).engine = ctx.engine ∧
      (ctx.handleEngineEvents_ nowMs evs).strategy.state = ctx.strategy.state ∧
      (ctx.handleEngineEvents_ nowMs evs).strategy.pendingClientId =
        ctx.strategy.pendingClientId := by
  induction evs generalizing ctx with
  | nil => exact ⟨rfl, rfl, rfl⟩
  | cons ev evs ih =>
    cases ev with
    | status ev => cases hnone
    | fill ev =>
      obtain ⟨hengine, hstate, hid⟩ := ih (ctx.handleEngineEvent nowMs (.fill ev)) hnone
      obtain ⟨hid', hstate'⟩ := ctx.strategy.onFill_frame
        { identifier := ev.identifier, position := ev.position, fillPrice := ev.fillPrice
          filledVolume := ev.filledVolume }
      exact ⟨hengine, hstate.trans hstate', hid.trans hid'⟩

/-- The terminal event of the pending order makes the strategy idle, whatever comes with it. -/
theorem handleEngineEvents_status (nowMs : Int) {evs : List EngineEvent} (ctx : MarketContext)
    {ev : EngineOrderStatusEvent} (hone : evs.filterMap EngineEvent.asStatus = [ev])
    (hid : ctx.strategy.pendingClientId = some ev.identifier) (hterm : ev.status.isTerminal = true) :
    (ctx.handleEngineEvents_ nowMs evs).engine = ctx.engine ∧
      (ctx.handleEngineEvents_ nowMs evs).strategy.state.isIdle = true ∧
      (ctx.handleEngineEvents_ nowMs evs).strategy.pendingClientId = none := by
  induction evs generalizing ctx with
  | nil => cases hone
  | cons event evs ih =>
    cases event with
    | fill fill =>
      have hframe := ctx.strategy.onFill_frame
        { identifier := fill.identifier, position := fill.position, fillPrice := fill.fillPrice
          filledVolume := fill.filledVolume }
      exact ih (ctx.handleEngineEvent nowMs (.fill fill)) hone (hframe.1.trans hid)
    | status ev' =>
      obtain ⟨rfl, hrest⟩ := List.cons.inj hone
      obtain ⟨hengine, hstate, hid'⟩ := handleEngineEvents_fills nowMs
        (ctx.handleEngineEvent nowMs (.status ev')) hrest
      obtain ⟨hnone, hidle⟩ := ctx.strategy.onOrderUpdate_own
        { identifier := ev'.identifier, status := ev'.status, position := ev'.position
          executedVolume := ev'.executedVolume, remainingVolume := ev'.remainingVolume
          executedFunds := ev'.executedFunds, positionEffect := ev'.positionEffect }
        hid hterm nowMs
      exact ⟨hengine, (congrArg StrategyState.isIdle hstate).trans hidle, hid'.trans hnone⟩

theorem Synced.deliverEvents (h : Synced sides (ctx, s)) (nowMs : Int) :
    Synced sides (ctx.deliverEvents nowMs, s) := by
  obtain ⟨hown, hknown, hlinked⟩ := h
  -- The engine after the poll: the same without its events.
  have hown' : MarketEngine.OwnStore { ctx.engine with events := [] } :=
    ⟨hown.1.observe _ _ _ _, hown.2⟩
  have hactive : ∀ side, MarketEngine.activeUuid { ctx.engine with events := [] } side =
      ctx.engine.activeUuid side := by
    intro side
    cases side <;> rfl
  have hsynced : ∀ ctx' : MarketContext, ctx'.engine = { ctx.engine with events := [] } →
      Linked { ctx.engine with events := [] } ctx'.strategy → Synced sides (ctx', s) := by
    intro ctx' hengine hlinked'
    have hknown' : ∀ id o, ctx'.engine.store.get id = some o → sides s id = some o.position := by
      rw [hengine]
      exact hknown
    exact ⟨hengine ▸ hown', hknown', hengine ▸ hlinked'⟩
  rcases hlinked with ⟨hidle, hid, hno⟩ |
    ⟨side, cid, hstate, hid, hne, hhas | ⟨hnone, ev, hone, hcid, hterm, -⟩⟩
  · obtain ⟨hengine, hstate', hid'⟩ := handleEngineEvents_fills nowMs
      { ctx with engine := { ctx.engine with events := [] } } hno.2
    refine hsynced _ hengine (.inl ⟨?_, hid'.trans hid, fun side => ?_, rfl⟩)
    · exact (congrArg StrategyState.isIdle hstate').trans hidle
    · rw [hactive]
      exact hno.1 side
  · obtain ⟨hengine, hstate', hid'⟩ := handleEngineEvents_fills nowMs
      { ctx with engine := { ctx.engine with events := [] } } hhas.2.2
    refine hsynced _ hengine
      (.inr ⟨side, cid, hstate'.trans hstate, hid'.trans hid, hne, .inl ⟨?_, ?_, rfl⟩⟩)
    · rw [hactive]
      exact hhas.1
    · rw [hactive]
      exact hhas.2.1
  · obtain ⟨hengine, hidle, hid'⟩ := handleEngineEvents_status nowMs
      { ctx with engine := { ctx.engine with events := [] } } hone (hcid ▸ hid) hterm
    refine hsynced _ hengine (.inl ⟨hidle, hid', fun side => ?_, rfl⟩)
    rw [hactive]
    exact hnone side

/-! The worker. -/

theorem Synced.checkPendingTimeout_ (hapi : KeepsSides env.api sides) (h : Synced sides (ctx, s))
    (now : Int) : Synced sides (ctx.checkPendingTimeout_ env now s) := by
  obtain ⟨active, tracking, fired, enteredAt, -, heq | ⟨-, heq⟩⟩ :=
    ctx.checkPendingTimeout_cases env now s
  · rw [heq]
    exact h.frame rfl rfl
  · have htracked : Synced sides (ctx.track active tracking fired enteredAt, s) := h.frame rfl rfl
    rw [heq]
    exact htracked.runRecovery_ hapi

theorem synced_step (hapi : KeepsSides env.api sides) (state : MarketContext × σ)
    (a : WorkerStep) (h : Synced sides state) (htrue : TrueSide sides state a) :
    Synced sides (step env state a) := by
  obtain ⟨ctx, s⟩ := state
  cases a with
  | takeRecovery =>
    show Synced sides (ctx.takeRecovery env s)
    unfold MarketContext.takeRecovery
    split
    · exact Synced.runRecovery_ hapi (h.frame rfl rfl)
    · exact h
  | handleOne input =>
    cases input with
    | myOrder dto =>
      refine Synced.handleMyOrder_ h (fun o ho p hp => ?_)
      cases dto with
      | none => cases ho
      | some d =>
        obtain ⟨hid, hpos⟩ := order_of_toEvents ho
        rw [hid] at hp
        exact hpos.trans (htrue p hp)
    | marketData candle =>
      cases candle with
      | none => exact h
      | some candle => exact h.handleMarketData_ hapi candle.1 candle.2
    | accountSync => exact h.runRecovery_ hapi
  | deliverEvents nowMs => exact h.deliverEvents nowMs
  | checkTimeout now => exact h.checkPendingTimeout_ hapi now
  | requestRecovery =>
    exact h.frame ctx.engine_requestRecovery ctx.strategy_requestRecovery

theorem synced_create (cfg : AccountConfig) (market : String) (mgr : AccountManager)
    (account : Account) (params : Params ℚ) (pos : PositionSnapshot ℚ) (db : Option Database)
    (s : σ) :
    Synced sides (create market (mgr.rebuildFromAccount cfg account) params pos db, s) := by
  have hempty : ∀ id o, OrderStore.empty.get id = some o → False := by
    intro id o hget
    simp at hget
  refine ⟨⟨?_, fun id o hget _ => hempty id o hget⟩, fun id o hget => (hempty id o hget).elim,
    .inl ⟨?_, ?_, fun side => ?_, rfl⟩⟩
  · exact MarketEngine.singleOrder_new (fun id o hget _ => hempty id o hget)
      (fun b hb => (AccountManager.rebuildFromAccount_idle cfg mgr hb).1)
  · show (RsiMeanReversionStrategy.syncOnStart _ pos).state.isIdle = true
    unfold RsiMeanReversionStrategy.syncOnStart
    simp only
    split
    · rfl
    · rfl
  · show (RsiMeanReversionStrategy.syncOnStart _ pos).pendingClientId = none
    unfold RsiMeanReversionStrategy.syncOnStart
    simp only
    split
    · rfl
    · rfl
  · cases side with
    | bid => rfl
    | ask => rfl

/-- **The strategy and the engine never disagree.** From the context the constructor makes, in every
    state of every run of the worker's steps, the strategy waits for an order exactly while the
    engine has it or its terminal event is queued, and an idle strategy has no active order. The
    exchange answers what it likes, as long as the order messages and the answers about an order
    have the side it was submitted with. -/
theorem always_agrees (env : ManagerEnv σ) {sides : σ → String → Option OrderPosition}
    (hapi : KeepsSides env.api sides) (market : String) (mgr : AccountManager) (account : Account)
    (params : Params ℚ) (pos : PositionSnapshot ℚ) (db : Option Database) (s : σ)
    (steps : List WorkerStep)
    (hsteps : Machine.Guarded (step env) (TrueSide sides)
      (create market (mgr.rebuildFromAccount env.cfg.account account) params pos db, s) steps) :
    Machine.Always (step env) (fun state => state.1.Agrees)
      (create market (mgr.rebuildFromAccount env.cfg.account account) params pos db, s) steps :=
  (Machine.always_of_guarded (P := Synced sides) (fun state a => synced_step hapi state a)
    (synced_create env.cfg.account market mgr account params pos db s) hsteps).mono
    (fun _ h => h.linked.agrees h.own)

/-- An exchange that takes one order, under the uuid "u1", and answers that it is filled. Its state
    is the side of that order. -/
def oneOrderApi : OrderApi (Option OrderPosition) where
  postOrder req s :=
    match s with
    | none => (.ok "u1", some req.position)
    | some p => (.error { code := .badStatus, message := "" }, some p)
  getOrder orderUuid s :=
    match s with
    | none => (.error { code := .badStatus, message := "" }, none)
    | some p => (.ok (snapshotOf orderUuid "KRW-BTC" p 0 .filled), some p)
  getMyAccount s := (.ok {}, s)

def oneOrderSides (s : Option OrderPosition) (uuid : String) : Option OrderPosition :=
  if uuid = "u1" then s else none

theorem keepsSides_oneOrderApi : KeepsSides oneOrderApi oneOrderSides where
  posted req s uuid hok := by
    cases s with
    | none =>
      obtain rfl : "u1" = uuid := Except.ok.inj hok
      exact ⟨by decide, rfl⟩
    | some p => cases hok
  kept_postOrder req s uuid p hp := by
    cases s with
    | none => simp [oneOrderSides] at hp
    | some q => exact hp
  kept_getOrder orderUuid s uuid p hp := by
    cases s with
    | none => exact hp
    | some q => exact hp
  kept_getMyAccount s uuid p hp := hp
  answered orderUuid s o p hok hp := by
    cases s with
    | none => cases hok
    | some q =>
      obtain rfl := Except.ok.inj hok
      unfold oneOrderSides at hp
      split at hp
      · exact Option.some.inj hp
      · cases hp

def oneOrderEnv : ManagerEnv (Option OrderPosition) where
  strategy := { cfg := .standard ℚ, sqrt := fun x => x, uuid := toString }
  api := oneOrderApi
  pendingTimeout := 0

/-- A candle at 800 KRW, below the stop of a position at 1000. -/
def fallingCandle : Candle ℚ :=
  { market := "KRW-BTC", openPrice := 1000, highPrice := 1000, lowPrice := 800, closePrice := 800
    volume := 1, startTimestamp := "t" }

/-- The stop is hit, the exit is submitted, and its order is done. -/
def exitSteps : List WorkerStep :=
  [.handleOne (.marketData (some (fallingCandle, 1))),
   .handleOne (.myOrder (some { plainDto with
     uuid := "u1", code := "KRW-BTC", askBid := "ASK", state := "done" })),
   .checkTimeout 0, .deliverEvents 0]

theorem always_agrees_exit :
    Machine.Always (step oneOrderEnv) (fun state => state.1.Agrees)
      (create "KRW-BTC"
        (AccountManager.rebuildFromAccount oneOrderEnv.cfg.account
          { budgets := AList.singleton "KRW-BTC" { market := "KRW-BTC" } }
          { positions := [⟨"BTC", 10, 1000, "KRW"⟩] })
        (.standard ℚ) ⟨10, 1000⟩ none, none) exitSteps := by
  refine always_agrees oneOrderEnv keepsSides_oneOrderApi "KRW-BTC" _ _ (.standard ℚ) ⟨10, 1000⟩ none
    none exitSteps ⟨trivial, fun p hp => ?_, trivial, trivial, trivial⟩
  have hside : oneOrderSides (step oneOrderEnv
      (create "KRW-BTC"
        (AccountManager.rebuildFromAccount oneOrderEnv.cfg.account
          { budgets := AList.singleton "KRW-BTC" { market := "KRW-BTC" } }
          { positions := [⟨"BTC", 10, 1000, "KRW"⟩] })
        (.standard ℚ) ⟨10, 1000⟩ none, none)
      (.handleOne (.marketData (some (fallingCandle, 1))))).2 "u1" = some .ask := by
    decide +kernel
  exact Option.some.inj (hside.symm.trans hp)

end MarketContext
end CoinBot
