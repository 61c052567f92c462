import CoinBot.App.Agreement
import CoinBot.App.CandleStream
import CoinBot.Trading.StateMachine

/- What the steps of the worker consist of: calls of the engine and calls of the strategy.

   So what every call of the engine keeps, and what every call of the strategy keeps, holds
   in every state that a context reaches (`Advances.engine_keeps`, `Advances.strategy_keeps`).
   The handling of a candle update is taken apart into its actions, each a step of its own:
   the states between them count as reached. -/
namespace CoinBot.MarketContext

variable {σ : Type}

/-- A step of the worker, or one of the actions of an update. -/
inductive ContextStep where
  | worker (a : WorkerStep)
  | action (m : MarketAction)

def contextStep (env : ManagerEnv σ) (state : MarketContext × σ) :
    ContextStep → MarketContext × σ
  | .worker a => step env state a
  | .action m => perform env state m

/-- The engine and the strategy went on by calls. -/
structure Advances (env : ManagerEnv σ) (ctx ctx' : MarketContext) : Prop where
  market : ctx'.market = ctx.market
  engine : ∃ calls, ctx'.engine = Machine.run (MarketEngine.call env.cfg) ctx.engine calls
  strategy : ∃ calls,
    ctx'.strategy = Machine.run (RsiMeanReversionStrategy.step env.strategy) ctx.strategy calls

variable {env : ManagerEnv σ} {ctx ctx' ctx'' : MarketContext} {s : σ}

theorem Advances.engine_keeps (h : Advances env ctx ctx') {P : MarketEngine → Prop}
    (hP : ∀ e c, P e → P (e.call env.cfg c)) (h0 : P ctx.engine) : P ctx'.engine := by
  obtain ⟨calls, heq⟩ := h.engine
  rw [heq]
  exact (Machine.always_of_guarded (g := fun _ _ => True) (fun e c he _ => hP e c he) h0
    (Machine.guarded_of_forall (fun _ _ _ => trivial) _)).last

theorem Advances.strategy_keeps (h : Advances env ctx ctx')
    {P : RsiMeanReversionStrategy ℚ → Prop} (hP : ∀ st c, P st → P (st.step env.strategy c))
    (h0 : P ctx.strategy) : P ctx'.strategy := by
  obtain ⟨calls, heq⟩ := h.strategy
  rw [heq]
  exact (Machine.always_of_guarded (g := fun _ _ => True) (fun st c hst _ => hP st c hst) h0
    (Machine.guarded_of_forall (fun _ _ _ => trivial) _)).last

theorem Advances.trans (h : Advances env ctx ctx') (h' : Advances env ctx' ctx'') :
    Advances env ctx ctx'' := by
  obtain ⟨hmarket, ⟨ecalls, hengine⟩, ⟨scalls, hstrategy⟩⟩ := h
  obtain ⟨hmarket', ⟨ecalls', hengine'⟩, ⟨scalls', hstrategy'⟩⟩ := h'
  refine ⟨hmarket'.trans hmarket, ⟨ecalls ++ ecalls', ?_⟩, ⟨scalls ++ scalls', ?_⟩⟩
  · rw [Machine.run_append, ← hengine]
    exact hengine'
  · rw [Machine.run_append, ← hstrategy]
    exact hstrategy'

theorem advances_frame (hmarket : ctx'.market = ctx.market) (hengine : ctx'.engine = ctx.engine)
    (hstrategy : ctx'.strategy = ctx.strategy) : Advances env ctx ctx' :=
  ⟨hmarket, ⟨[], hengine⟩, ⟨[], hstrategy⟩⟩

theorem advances_call (c : EngineCall) (hmarket : ctx'.market = ctx.market)
    (hengine : ctx'.engine = ctx.engine.call env.cfg c) (hstrategy : ctx'.strategy = ctx.strategy) :
    Advances env ctx ctx' :=
  ⟨hmarket, ⟨[c], hengine⟩, ⟨[], hstrategy⟩⟩

theorem advances_strategy (c : StrategyCall ℚ) (hmarket : ctx'.market = ctx.market)
    (hengine : ctx'.engine = ctx.engine)
    (hstrategy : ctx'.strategy = ctx.strategy.step env.strategy c) : Advances env ctx ctx' :=
  ⟨hmarket, ⟨[], hengine⟩, ⟨[c], hstrategy⟩⟩

/-! Order messages and recovery. -/

theorem advances_handleOrderEvent (env : ManagerEnv σ) (hasTrade : Bool) (ctx : MarketContext)
    (ev : MyOrderEvent) : Advances env ctx (ctx.handleOrderEvent env.cfg hasTrade ev) := by
  cases ev with
  | trade t => exact advances_call (.message (.trade t)) rfl rfl rfl
  | order o =>
    unfold handleOrderEvent
    simp only
    split
    · split
      · exact advances_call (.message (.reconcile o)) rfl rfl rfl
      · exact advances_call (.message (.reconcile o)) rfl rfl rfl
    · split
      · exact advances_call (.message (.snapshot o)) rfl rfl rfl
      · exact advances_call (.message (.snapshot o)) rfl rfl rfl

theorem advances_handleMyOrder_ (env : ManagerEnv σ) (ctx : MarketContext)
    (events : List MyOrderEvent) : Advances env ctx (ctx.handleMyOrder_ env.cfg events) := by
  unfold handleMyOrder_
  generalize events.any isTrade = hasTrade
  induction events generalizing ctx with
  | nil => exact advances_frame rfl rfl rfl
  | cons ev events ih => exact (advances_handleOrderEvent env hasTrade ctx ev).trans (ih _)

theorem advances_recoverOrder (env : ManagerEnv σ) (state : MarketContext × σ)
    (orderUuid : String) :
    Advances env state.1 (recoverOrder env.cfg env.api state orderUuid).1 := by
  obtain ⟨ctx, s⟩ := state
  unfold recoverOrder
  simp only
  split
  · exact advances_frame rfl rfl rfl
  · split
    · exact advances_frame rfl rfl rfl
    · next o _ _ =>
      split
      · exact advances_call (.message (.reconcile o)) rfl rfl rfl
      · exact advances_call (.message (.reconcile o)) rfl rfl rfl

theorem advances_runRecovery_ (env : ManagerEnv σ) (ctx : MarketContext) (s : σ) :
    Advances env ctx (ctx.runRecovery_ env.cfg env.api s).1 := by
  unfold runRecovery_
  simp only
  split
  · exact advances_frame rfl rfl rfl
  · have hbuy := advances_recoverOrder env (ctx, s) ctx.engine.activePendingIds.1
    have hsell := advances_recoverOrder env
      (recoverOrder env.cfg env.api (ctx, s) ctx.engine.activePendingIds.1)
      ctx.engine.activePendingIds.2
    exact (hbuy.trans hsell).trans (advances_frame rfl rfl rfl)

/-! Candles. -/

theorem advances_setMarkPrice (env : ManagerEnv σ) (ctx : MarketContext) (p : Price) :
    Advances env ctx { ctx with engine := ctx.engine.setMarkPrice p } :=
  advances_call (.setMarkPrice p) rfl rfl rfl

theorem advances_submitOrder (env : ManagerEnv σ) (ctx : MarketContext) (req : OrderRequest ℚ)
    (s : σ) : Advances env ctx (ctx.submitOrder env req s).2.1 := by
  have hcall : (ctx.engine.submit env.cfg env.api.postOrder req s).1.2 =
      ctx.engine.call env.cfg (.submit req (env.api.postOrder req s).1) :=
    congrArg Prod.snd (MarketEngine.submit_reply env.api.postOrder ctx.engine req s)
  unfold submitOrder
  simp only
  split
  · exact advances_call _ rfl hcall rfl
  · exact ⟨rfl, ⟨[.submit req (env.api.postOrder req s).1], hcall⟩, ⟨[.onSubmitFailed], rfl⟩⟩

theorem advances_doIntrabarCheck (env : ManagerEnv σ) (ctx : MarketContext) (close : Price)
    (s : σ) : Advances env ctx (ctx.doIntrabarCheck env close s).1 := by
  have hmark := advances_setMarkPrice env ctx close
  unfold doIntrabarCheck
  simp only
  split
  · exact hmark
  · split
    · exact hmark
    · have hdecided : Advances env { ctx with engine := ctx.engine.setMarkPrice close }
          { ctx with
            engine := ctx.engine.setMarkPrice close
            strategy := (ctx.strategy.onIntrabarCandle env.strategy close
              ({ ctx with engine := ctx.engine.setMarkPrice close } :
                MarketContext).buildAccountSnapshot_).2 } :=
        advances_strategy (.onIntrabarCandle close _) rfl rfl rfl
      split
      · exact hmark.trans hdecided
      · next req _ =>
        have hsub := (hmark.trans hdecided).trans (advances_submitOrder env _ req s)
        split
        · next hok =>
          rw [hok] at hsub
          exact hsub
        · next hfail =>
          rw [hfail] at hsub
          split
          · exact hsub.trans (advances_frame rfl rfl rfl)
          · exact hsub

theorem advances_confirmCandle (env : ManagerEnv σ) (ctx : MarketContext) (candle : Candle ℚ)
    (liveUnit : Int) (s : σ) : Advances env ctx (ctx.confirmCandle env candle liveUnit s).1 := by
  have hinsert : Advances env ctx (ctx.insertCandle candle liveUnit) := advances_frame rfl rfl rfl
  have hmark := hinsert.trans (advances_setMarkPrice env _ candle.closePrice)
  unfold confirmCandle
  simp only
  have hdecided : Advances env
      { ctx.insertCandle candle liveUnit with
        engine := (ctx.insertCandle candle liveUnit).engine.setMarkPrice candle.closePrice }
      { ctx.insertCandle candle liveUnit with
        engine := (ctx.insertCandle candle liveUnit).engine.setMarkPrice candle.closePrice
        strategy := ((ctx.insertCandle candle liveUnit).strategy.onCandle env.strategy candle
          ({ ctx.insertCandle candle liveUnit with
            engine := (ctx.insertCandle candle liveUnit).engine.setMarkPrice candle.closePrice } :
              MarketContext).buildAccountSnapshot_).2 } :=
    advances_strategy (.onCandle candle _) rfl rfl rfl
  split
  · exact hmark.trans hdecided
  · exact (hmark.trans hdecided).trans (advances_submitOrder env _ _ s)

theorem advances_perform (env : ManagerEnv σ) (state : MarketContext × σ) (m : MarketAction) :
    Advances env state.1 (perform env state m).1 := by
  cases m with
  | hold incoming => exact advances_frame rfl rfl rfl
  | confirm candle liveUnit => exact advances_confirmCandle env state.1 candle liveUnit state.2
  | check close => exact advances_doIntrabarCheck env state.1 close state.2

theorem advances_performs (env : ManagerEnv σ) (state : MarketContext × σ) (ms : List MarketAction) :
    Advances env state.1 (Machine.run (perform env) state ms).1 := by
  induction ms generalizing state with
  | nil => exact advances_frame rfl rfl rfl
  | cons m ms ih => exact (advances_perform env state m).trans (ih _)

/-! The worker. -/

theorem advances_handleEngineEvents_ (env : ManagerEnv σ) (nowMs : Int) (ctx : MarketContext)
    (evs : List EngineEvent) : Advances env ctx (ctx.handleEngineEvents_ nowMs evs) := by
  unfold handleEngineEvents_
  induction evs generalizing ctx with
  | nil => exact advances_frame rfl rfl rfl
  | cons ev evs ih =>
    refine Advances.trans ?_ (ih (ctx.handleEngineEvent nowMs ev))
    cases ev with
    | fill ev => exact advances_strategy (.onFill _) rfl rfl rfl
    | status ev => exact advances_strategy (.onOrderUpdate _ nowMs) rfl rfl rfl

theorem advances_checkPendingTimeout_ (env : ManagerEnv σ) (ctx : MarketContext) (now : Int)
    (s : σ) : Advances env ctx (ctx.checkPendingTimeout_ env now s).1 := by
  obtain ⟨active, tracking, fired, enteredAt, -, heq | ⟨-, heq⟩⟩ :=
    ctx.checkPendingTimeout_cases env now s
  · rw [heq]
    exact advances_frame rfl rfl rfl
  · have htracked : Advances env ctx (ctx.track active tracking fired enteredAt) :=
      advances_frame rfl rfl rfl
    rw [heq]
    exact htracked.trans (advances_runRecovery_ env _ s)

theorem advances_step (env : ManagerEnv σ) (state : MarketContext × σ) (a : WorkerStep) :
    Advances env state.1 (step env state a).1 := by
  obtain ⟨ctx, s⟩ := state
  cases a with
  | takeRecovery =>
    show Advances env ctx (ctx.takeRecovery env s).1
    unfold takeRecovery
    split
    · have htaken : Advances env ctx { ctx with recoveryRequested := false } :=
        advances_frame rfl rfl rfl
      exact htaken.trans (advances_runRecovery_ env _ s)
    · exact advances_frame rfl rfl rfl
  | handleOne input =>
    cases input with
    | myOrder dto => exact advances_handleMyOrder_ env ctx _
    | marketData update =>
      cases update with
      | none => exact advances_frame rfl rfl rfl
      | some update =>
        rw [handleMarketData_eq]
        exact advances_performs env (ctx, s) _
    | accountSync => exact advances_runRecovery_ env ctx s
  | deliverEvents nowMs =>
    have hpolled : Advances env ctx { ctx with engine := ctx.engine.pollEvents.2 } :=
      advances_call .pollEvents rfl rfl rfl
    exact hpolled.trans (advances_handleEngineEvents_ env nowMs _ _)
  | checkTimeout now => exact advances_checkPendingTimeout_ env ctx now s
  | requestRecovery =>
    show Advances env ctx ctx.requestRecovery
    unfold requestRecovery
    split
    · exact advances_frame rfl rfl rfl
    · exact advances_frame rfl rfl rfl

theorem advances_contextStep (env : ManagerEnv σ) (state : MarketContext × σ) (a : ContextStep) :
    Advances env state.1 (contextStep env state a).1 := by
  cases a with
  | worker a => exact advances_step env state a
  | action m => exact advances_perform env state m

theorem advances_run (env : ManagerEnv σ) (state : MarketContext × σ) (steps : List ContextStep) :
    Advances env state.1 (Machine.run (contextStep env) state steps).1 := by
  induction steps generalizing state with
  | nil => exact advances_frame rfl rfl rfl
  | cons a steps ih => exact (advances_contextStep env state a).trans (ih _)

end CoinBot.MarketContext
