import CoinBot.App.MarketContext
import CoinBot.Lib.Runs
import CoinBot.Trading.StrategyState

/- The candle updates of one market, as the worker takes them.

   The context holds the latest update back. An update of the same start time replaces it;
   one of another start time confirms it. So what is confirmed is the last update of every
   closed run of equal start times, in order (`confirmed_exactly`), whatever else the worker
   does between the updates. A start time that comes back after another one opens a second
   run, and its candle reaches the indicators twice (`foldedOnce_iff`). -/
namespace CoinBot

/-- The candles that were inserted, with the market they were inserted under. -/
def Database.confirmed (db : Database) : List (String × Candle ℚ) :=
  db.candles.map (fun entry => (entry.1, entry.2.1))

namespace MarketContext

/-- The candle update that a step handles. -/
def updateOf : WorkerStep → Option (Candle ℚ × Int)
  | .handleOne (.marketData update) => update
  | _ => none

theorem eq_of_updateOf {a : WorkerStep} {update : Candle ℚ × Int} (h : updateOf a = some update) :
    a = .handleOne (.marketData (some update)) := by
  cases a with
  | handleOne input =>
    cases input with
    | marketData found => exact congrArg (fun u => WorkerStep.handleOne (.marketData u)) h
    | myOrder dto => cases h
    | accountSync => cases h
  | takeRecovery => cases h
  | deliverEvents nowMs => cases h
  | checkTimeout now => cases h
  | requestRecovery => cases h

def updates (steps : List WorkerStep) : List (Candle ℚ × Int) := steps.filterMap updateOf

def candles (steps : List WorkerStep) : List (Candle ℚ) := (updates steps).map Prod.fst

/-- What the handling of an update consists of. -/
inductive MarketAction where
  | hold (incoming : Candle ℚ)
  | confirm (candle : Candle ℚ) (liveUnit : Int)
  | check (intrabarClose : Price)

def MarketAction.confirmed : MarketAction → Option (Candle ℚ)
  | .confirm candle _ => some candle
  | _ => none

/-- The candles that an update closes, when `held` is held back. -/
def closedBy (held : Option (Candle ℚ)) (incoming : Candle ℚ) : List (Candle ℚ) :=
  Runs.closes Candle.startTimestamp held incoming

/-- An update is held, confirms what it closes, and is checked with its own close at the end. -/
def marketActions (held : Option (Candle ℚ)) (update : Candle ℚ × Int) : List MarketAction :=
  .hold update.1 :: (closedBy held update.1).map (fun candle => .confirm candle update.2) ++
    [.check update.1.closePrice]

/-- The actions for each update of a stream, one list an update. -/
def streamActions (held : Option (Candle ℚ)) : List (Candle ℚ × Int) → List (List MarketAction)
  | [] => []
  | update :: rest => marketActions held update :: streamActions (some update.1) rest

variable {σ : Type}

def perform (env : ManagerEnv σ) (state : MarketContext × σ) : MarketAction → MarketContext × σ
  | .hold incoming => ({ state.1 with pendingCandle := some incoming }, state.2)
  | .confirm candle liveUnit => state.1.confirmCandle env candle liveUnit state.2
  | .check intrabarClose => state.1.doIntrabarCheck env intrabarClose state.2

/-- The actions of a step, one list if it handles an update. -/
def actions (state : MarketContext × σ) (a : WorkerStep) : List (List MarketAction) :=
  (updateOf a).toList.map (marketActions state.1.pendingCandle)

/-- The candles that a step passes through `onCandle` to the indicators. -/
def folded (state : MarketContext × σ) (a : WorkerStep) : List (Candle ℚ) :=
  match updateOf a with
  | none => []
  | some update => (closedBy state.1.pendingCandle update.1).filter state.1.strategy.folds

/-- The three paths of `handleMarketData_` are these actions. -/
theorem handleMarketData_eq (env : ManagerEnv σ) (state : MarketContext × σ)
    (update : Candle ℚ × Int) :
    step env state (.handleOne (.marketData (some update))) =
      Machine.run (perform env) state (marketActions state.1.pendingCandle update) := by
  obtain ⟨ctx, s⟩ := state
  show ctx.handleMarketData_ env update.1 update.2 s = _
  unfold handleMarketData_ marketActions closedBy Runs.closes
  cases ctx.pendingCandle with
  | none => rfl
  | some candle =>
    by_cases hsame : candle.startTimestamp = update.1.startTimestamp
    · simp only [if_pos hsame]
      rfl
    · simp only [if_neg hsame]
      rfl

/-! What other steps leave alone. -/

/-- What the handling of candles depends on. -/
def candleView (ctx : MarketContext) :
    String × Option (Candle ℚ) × Option (List (String × Candle ℚ)) ×
      (String × Params ℚ × Option String) :=
  (ctx.market, ctx.pendingCandle, ctx.db.map Database.confirmed, ctx.strategy.stamp)

/-- The same, and what is published about the pending order. -/
def quietView (ctx : MarketContext) :
    (String × Option (Candle ℚ) × Option (List (String × Candle ℚ)) ×
      (String × Params ℚ × Option String)) × Bool :=
  (ctx.candleView, ctx.hasActivePending)

variable {cfg : AppConfig ℚ} {env : ManagerEnv σ} {ctx : MarketContext} {s : σ}

@[simp] theorem quietView_insertOrder (ctx : MarketContext) (o : Order) :
    (ctx.insertOrder o).quietView = ctx.quietView := by
  unfold insertOrder quietView candleView
  cases ctx.db with
  | none => rfl
  | some db => rfl

@[simp] theorem quietView_insertSignal (ctx : MarketContext) (signal : Option (SignalRecord ℚ)) :
    (ctx.insertSignal signal).quietView = ctx.quietView := by
  unfold insertSignal quietView candleView
  cases ctx.db with
  | none => rfl
  | some db => rfl

theorem quietView_handleOrderEvent (cfg : AppConfig ℚ) (hasTrade : Bool) (ctx : MarketContext)
    (ev : MyOrderEvent) : (ctx.handleOrderEvent cfg hasTrade ev).quietView = ctx.quietView := by
  cases ev with
  | trade t => rfl
  | order o =>
    unfold handleOrderEvent
    simp only
    split
    · split
      · rw [quietView_insertOrder]
        rfl
      · rfl
    · split
      · rw [quietView_insertOrder]
        rfl
      · rfl

theorem quietView_handleMyOrder_ (cfg : AppConfig ℚ) (ctx : MarketContext)
    (events : List MyOrderEvent) : (ctx.handleMyOrder_ cfg events).quietView = ctx.quietView := by
  unfold handleMyOrder_
  generalize events.any isTrade = hasTrade
  induction events generalizing ctx with
  | nil => rfl
  | cons ev events ih =>
    exact (ih (ctx.handleOrderEvent cfg hasTrade ev)).trans
      (quietView_handleOrderEvent cfg hasTrade ctx ev)

theorem quietView_recoverOrder (cfg : AppConfig ℚ) (api : OrderApi σ) (state : MarketContext × σ)
    (orderUuid : String) : (recoverOrder cfg api state orderUuid).1.quietView = state.1.quietView := by
  obtain ⟨ctx, s⟩ := state
  unfold recoverOrder
  simp only
  split
  · rfl
  · split
    · rfl
    · simp only
      split
      · rw [quietView_insertOrder]
        rfl
      · rfl

theorem quietView_runRecovery_ (cfg : AppConfig ℚ) (api : OrderApi σ) (ctx : MarketContext)
    (s : σ) : (ctx.runRecovery_ cfg api s).1.quietView = ctx.quietView := by
  unfold runRecovery_
  simp only
  split
  · rfl
  · have hbuy := quietView_recoverOrder cfg api (ctx, s) ctx.engine.activePendingIds.1
    have hsell := quietView_recoverOrder cfg api
      (recoverOrder cfg api (ctx, s) ctx.engine.activePendingIds.1) ctx.engine.activePendingIds.2
    exact hsell.trans hbuy

theorem quietView_submitOrder (env : ManagerEnv σ) (ctx : MarketContext) (req : OrderRequest ℚ)
    (s : σ) : (ctx.submitOrder env req s).2.1.quietView = ctx.quietView := by
  unfold submitOrder
  simp only
  split
  · rfl
  · unfold quietView candleView
    simp only
    rw [ctx.strategy.stamp_onSubmitFailed]

theorem quietView_doIntrabarCheck (env : ManagerEnv σ) (ctx : MarketContext) (close : Price)
    (s : σ) : (ctx.doIntrabarCheck env close s).1.quietView = ctx.quietView := by
  unfold doIntrabarCheck
  simp only
  split
  · rfl
  · split
    · rfl
    · generalize hchecked : ctx.strategy.onIntrabarCandle env.strategy close
        ({ ctx with engine := ctx.engine.setMarkPrice close } : MarketContext).buildAccountSnapshot_ =
          checked
      have hstamp : checked.2.stamp = ctx.strategy.stamp := by
        rw [← hchecked]
        exact ctx.strategy.stamp_onIntrabarCandle env.strategy close _
      -- The engine is not part of the view, and the check keeps the stamp of the strategy.
      have hview : ∀ engine, quietView { ctx with engine := engine, strategy := checked.2 } =
          ctx.quietView := by
        intro engine
        unfold quietView candleView
        simp only
        rw [hstamp]
      split
      · exact hview _
      · next req _ =>
        have hsub := (quietView_submitOrder env
          { ctx with engine := ctx.engine.setMarkPrice close, strategy := checked.2 } req s).trans
          (hview _)
        split
        · next hok =>
          rw [hok] at hsub
          exact hsub
        · next hfail =>
          rw [hfail] at hsub
          split
          · exact hsub
          · exact hsub

theorem quietView_handleEngineEvents_ (nowMs : Int) (ctx : MarketContext)
    (evs : List EngineEvent) : (ctx.handleEngineEvents_ nowMs evs).quietView = ctx.quietView := by
  unfold handleEngineEvents_
  induction evs generalizing ctx with
  | nil => rfl
  | cons ev evs ih =>
    refine (ih (ctx.handleEngineEvent nowMs ev)).trans ?_
    cases ev with
    | fill ev =>
      unfold handleEngineEvent quietView candleView
      simp only
      rw [ctx.strategy.stamp_onFill]
    | status ev =>
      unfold handleEngineEvent
      simp only
      rw [quietView_insertSignal]
      unfold quietView candleView
      simp only
      rw [ctx.strategy.stamp_onOrderUpdate]

theorem candleView_checkPendingTimeout_ (env : ManagerEnv σ) (ctx : MarketContext) (now : Int)
    (s : σ) : (ctx.checkPendingTimeout_ env now s).1.candleView = ctx.candleView := by
  obtain ⟨active, tracking, fired, enteredAt, -, heq | ⟨-, heq⟩⟩ :=
    ctx.checkPendingTimeout_cases env now s
  · rw [heq]
    rfl
  · rw [heq]
    exact congrArg Prod.fst (quietView_runRecovery_ env.cfg env.api
      (ctx.track active tracking fired enteredAt) s)

/-- Only the handling of candles moves what it depends on. -/
theorem candleView_step (env : ManagerEnv σ) (state : MarketContext × σ) {a : WorkerStep}
    (hnone : updateOf a = none) : (step env state a).1.candleView = state.1.candleView := by
  obtain ⟨ctx, s⟩ := state
  cases a with
  | takeRecovery =>
    show (ctx.takeRecovery env s).1.candleView = ctx.candleView
    unfold takeRecovery
    split
    · exact congrArg Prod.fst (quietView_runRecovery_ env.cfg env.api
        { ctx with recoveryRequested := false } s)
    · rfl
  | handleOne input =>
    cases input with
    | myOrder dto => exact congrArg Prod.fst (quietView_handleMyOrder_ env.cfg ctx _)
    | marketData update =>
      obtain rfl : update = none := hnone
      rfl
    | accountSync => exact congrArg Prod.fst (quietView_runRecovery_ env.cfg env.api ctx s)
  | deliverEvents nowMs => exact congrArg Prod.fst (quietView_handleEngineEvents_ nowMs _ _)
  | checkTimeout now => exact candleView_checkPendingTimeout_ env ctx now s
  | requestRecovery =>
    show ctx.requestRecovery.candleView = ctx.candleView
    unfold requestRecovery
    split
    · rfl
    · rfl

/-! What a candle does. -/

theorem quietView_confirmCandle (env : ManagerEnv σ) (ctx : MarketContext) (candle : Candle ℚ)
    (liveUnit : Int) (s : σ) :
    (ctx.confirmCandle env candle liveUnit s).1.quietView =
      ((ctx.market, ctx.pendingCandle,
        (ctx.db.map Database.confirmed).map (fun entries => entries ++ [(ctx.market, candle)]),
        (ctx.strategy.market, ctx.strategy.params,
          if ctx.strategy.folds candle then some candle.startTimestamp
          else ctx.strategy.lastCandleTs)), ctx.hasActivePending) := by
  unfold confirmCandle
  simp only
  generalize hdecided : (ctx.insertCandle candle liveUnit).strategy.onCandle env.strategy candle _ =
    decided
  have hstamp := ctx.strategy.stamp_onCandle env.strategy candle
    ({ ctx.insertCandle candle liveUnit with
      engine := (ctx.insertCandle candle liveUnit).engine.setMarkPrice candle.closePrice
      } : MarketContext).buildAccountSnapshot_
  have hdecided' : ctx.strategy.onCandle env.strategy candle
      ({ ctx.insertCandle candle liveUnit with
        engine := (ctx.insertCandle candle liveUnit).engine.setMarkPrice candle.closePrice
        } : MarketContext).buildAccountSnapshot_ = decided := hdecided
  rw [hdecided'] at hstamp
  -- The candle is in the database, and it is the last one of the strategy if it was folded.
  have hview : ∀ engine, quietView { ctx.insertCandle candle liveUnit with
      engine := engine, strategy := decided.2 } =
      ((ctx.market, ctx.pendingCandle,
        (ctx.db.map Database.confirmed).map (fun entries => entries ++ [(ctx.market, candle)]),
        (ctx.strategy.market, ctx.strategy.params,
          if ctx.strategy.folds candle then some candle.startTimestamp
          else ctx.strategy.lastCandleTs)), ctx.hasActivePending) := by
    intro engine
    unfold quietView candleView
    rw [← hstamp]
    simp only [insertCandle]
    cases ctx.db with
    | none => rfl
    | some db => simp [Database.confirmed]
  split
  · exact hview _
  · rw [quietView_submitOrder]
    exact hview _

theorem candleView_doIntrabarCheck (env : ManagerEnv σ) (ctx : MarketContext) (close : Price)
    (s : σ) : (ctx.doIntrabarCheck env close s).1.candleView = ctx.candleView :=
  congrArg Prod.fst (quietView_doIntrabarCheck env ctx close s)

theorem candleView_confirmCandle (env : ManagerEnv σ) (ctx : MarketContext) (candle : Candle ℚ)
    (liveUnit : Int) (s : σ) :
    (ctx.confirmCandle env candle liveUnit s).1.candleView =
      (ctx.market, ctx.pendingCandle,
        (ctx.db.map Database.confirmed).map (fun entries => entries ++ [(ctx.market, candle)]),
        (ctx.strategy.market, ctx.strategy.params,
          if ctx.strategy.folds candle then some candle.startTimestamp
          else ctx.strategy.lastCandleTs)) :=
  congrArg Prod.fst (quietView_confirmCandle env ctx candle liveUnit s)

/-- After the updates `cs`, from a database `db` and a strategy that has seen no candle. -/
def viewAfter (market : String) (params : Params ℚ) (db : Option Database) (cs : List (Candle ℚ)) :
    String × Option (Candle ℚ) × Option (List (String × Candle ℚ)) ×
      (String × Params ℚ × Option String) :=
  (market, cs.getLast?,
    (db.map Database.confirmed).map (fun entries =>
      entries ++ (Runs.closed Candle.startTimestamp cs).map (fun candle => (market, candle))),
    (market, params, (Runs.closed Candle.startTimestamp cs).getLast?.map Candle.startTimestamp))

variable {market : String} {params : Params ℚ} {db : Option Database} {cs : List (Candle ℚ)}

/-- The strategy takes the candle held back: the last one it took has another start time. -/
theorem folds_held {state : MarketContext × σ}
    (hview : state.1.candleView = viewAfter market params db cs)
    (hmarket : ∀ c ∈ cs, c.market = market) {held : Candle ℚ} (hheld : cs.getLast? = some held) :
    state.1.strategy.folds held = true := by
  have hstamp : state.1.strategy.stamp = (market, params,
      (Runs.closed Candle.startTimestamp cs).getLast?.map Candle.startTimestamp) :=
    congrArg (fun view => view.2.2.2) hview
  have hown : held.market = state.1.strategy.market :=
    (hmarket held (List.mem_of_getLast? hheld)).trans (congrArg Prod.fst hstamp).symm
  have hlast : state.1.strategy.lastCandleTs ≠ some held.startTimestamp := by
    rw [show state.1.strategy.lastCandleTs = _ from congrArg (fun stamp => stamp.2.2) hstamp]
    intro heq
    obtain ⟨c, hc, hts⟩ := Option.map_eq_some_iff.mp heq
    exact Runs.closed_getLast_ne Candle.startTimestamp cs c hc held hheld hts
  simp only [RsiMeanReversionStrategy.folds, hown, decide_true, Bool.true_and, decide_eq_true_eq]
  exact hlast

theorem candleView_update (env : ManagerEnv σ) {state : MarketContext × σ}
    (hview : state.1.candleView = viewAfter market params db cs)
    (hmarket : ∀ c ∈ cs, c.market = market) (update : Candle ℚ × Int) :
    (step env state (.handleOne (.marketData (some update)))).1.candleView =
      viewAfter market params db (cs ++ [update.1]) := by
  have hheld : state.1.pendingCandle = cs.getLast? := congrArg (fun view => view.2.1) hview
  have hhold : (perform env state (.hold update.1)).1.candleView =
      (market, some update.1, (viewAfter market params db cs).2.2) := by
    unfold perform
    unfold candleView viewAfter at hview ⊢
    simp only [Prod.mk.injEq] at hview ⊢
    exact ⟨hview.1, trivial, hview.2.2⟩
  rw [handleMarketData_eq]
  unfold marketActions closedBy
  have hclosed := Runs.closed_concat Candle.startTimestamp cs update.1
  rw [← hheld] at hclosed
  -- Without a candle held back, or with one of the same start time, nothing is confirmed.
  cases hheld' : state.1.pendingCandle with
  | none =>
    rw [hheld'] at hclosed
    show (doIntrabarCheck env _ update.1.closePrice state.2).1.candleView = _
    rw [candleView_doIntrabarCheck, hhold]
    unfold viewAfter
    rw [hclosed]
    simp [Runs.closes]
  | some held =>
    rw [hheld'] at hclosed
    unfold Runs.closes at hclosed ⊢
    simp only at hclosed ⊢
    by_cases hsame : held.startTimestamp = update.1.startTimestamp
    · rw [if_pos hsame] at hclosed ⊢
      show (doIntrabarCheck env _ update.1.closePrice state.2).1.candleView = _
      rw [candleView_doIntrabarCheck, hhold]
      unfold viewAfter
      rw [hclosed]
      simp
    · rw [if_neg hsame] at hclosed ⊢
      have hfolds := folds_held hview hmarket (hheld.symm.trans hheld')
      show (doIntrabarCheck env _ update.1.closePrice _).1.candleView = _
      rw [candleView_doIntrabarCheck]
      show (confirmCandle env { state.1 with pendingCandle := some update.1 } held update.2
        state.2).1.candleView = _
      rw [candleView_confirmCandle]
      simp only [hfolds, if_true]
      unfold candleView viewAfter at hview
      simp only [Prod.mk.injEq] at hview
      obtain ⟨hm, -, hdb, hstamp⟩ := hview
      unfold RsiMeanReversionStrategy.stamp at hstamp
      simp only [Prod.mk.injEq] at hstamp
      unfold viewAfter
      rw [hclosed, hm, hstamp.1, hstamp.2.1, hdb]
      cases db with
      | none => simp
      | some db => simp

/-! Runs. -/

theorem candles_concat (steps : List WorkerStep) (a : WorkerStep) :
    candles (steps ++ [a]) = candles steps ++ ((updateOf a).toList.map Prod.fst) := by
  unfold candles updates
  cases h : updateOf a with
  | none => simp [h]
  | some update => simp [h]

theorem candleView_run (env : ManagerEnv σ) {start : MarketContext × σ}
    (hstart : start.1.candleView = viewAfter market params db []) (steps : List WorkerStep)
    (hmarket : ∀ c ∈ candles steps, c.market = market) :
    (Machine.run (step env) start steps).1.candleView =
      viewAfter market params db (candles steps) := by
  induction steps using List.reverseRecOn with
  | nil => exact hstart
  | append_singleton steps a ih =>
    rw [candles_concat] at hmarket ⊢
    have hbefore := ih (fun c hc => hmarket c (List.mem_append_left _ hc))
    rw [Machine.run_append, Machine.run_cons, Machine.run_nil]
    cases hupdate : updateOf a with
    | none =>
      rw [candleView_step env _ hupdate]
      simpa using hbefore
    | some update =>
      obtain rfl := eq_of_updateOf hupdate
      exact candleView_update env hbefore
        (fun c hc => hmarket c (List.mem_append_left _ hc)) update

theorem pendingCandle_step (env : ManagerEnv σ) (state : MarketContext × σ) (a : WorkerStep) :
    (step env state a).1.pendingCandle =
      match updateOf a with
      | none => state.1.pendingCandle
      | some update => some update.1 := by
  cases hupdate : updateOf a with
  | none => exact congrArg (fun view => view.2.1) (candleView_step env state hupdate)
  | some update =>
    obtain rfl := eq_of_updateOf hupdate
    have hcheck : ∀ (ctx : MarketContext) (s : σ), ctx.pendingCandle = some update.1 →
        (ctx.doIntrabarCheck env update.1.closePrice s).1.pendingCandle = some update.1 :=
      fun ctx s h =>
        (congrArg (fun view => view.2.1) (candleView_doIntrabarCheck env ctx _ s)).trans h
    rw [handleMarketData_eq]
    unfold marketActions closedBy Runs.closes
    cases state.1.pendingCandle with
    | none => exact hcheck _ _ rfl
    | some held =>
      simp only
      split
      · exact hcheck _ _ rfl
      · exact hcheck _ _
          (congrArg (fun view => view.2.1) (candleView_confirmCandle env _ held update.2 state.2))

theorem outputs_actions (env : ManagerEnv σ) (start : MarketContext × σ) (steps : List WorkerStep) :
    Machine.outputs (step env) actions start steps =
      streamActions start.1.pendingCandle (updates steps) := by
  induction steps generalizing start with
  | nil => rfl
  | cons a steps ih =>
    have hpending := pendingCandle_step env start a
    show actions start a ++ Machine.outputs (step env) actions (step env start a) steps = _
    rw [ih]
    unfold actions updates
    cases hupdate : updateOf a with
    | none =>
      rw [hupdate] at hpending
      rw [hpending, List.filterMap_cons_none hupdate]
      rfl
    | some update =>
      rw [hupdate] at hpending
      rw [hpending, List.filterMap_cons_some hupdate]
      rfl

/-- The confirmations among the actions are the closed runs. -/
theorem confirmed_streamActions (before : List (Candle ℚ)) (us : List (Candle ℚ × Int)) :
    Runs.closed Candle.startTimestamp before ++
        (streamActions before.getLast? us).flatten.filterMap MarketAction.confirmed =
      Runs.closed Candle.startTimestamp (before ++ us.map Prod.fst) := by
  induction us generalizing before with
  | nil => simp [streamActions]
  | cons update us ih =>
    have hmap : ∀ closing : List (Candle ℚ), (closing.map
        (fun candle => MarketAction.confirm candle update.2)).filterMap MarketAction.confirmed =
          closing := by
      intro closing
      induction closing with
      | nil => rfl
      | cons c closing ih => exact congrArg (c :: ·) ih
    have hfirst : (marketActions before.getLast? update).filterMap MarketAction.confirmed =
        closedBy before.getLast? update.1 := by
      unfold marketActions
      rw [List.filterMap_append, List.filterMap_cons_none rfl, hmap,
        List.filterMap_cons_none rfl, List.filterMap_nil, List.append_nil]
    have hnext := ih (before ++ [update.1])
    rw [List.getLast?_concat, Runs.closed_concat, List.append_assoc, List.append_assoc] at hnext
    unfold streamActions
    rw [List.flatten_cons, List.filterMap_append, hfirst, List.map_cons]
    exact hnext

theorem outputs_folded (env : ManagerEnv σ) {start : MarketContext × σ}
    (hstart : start.1.candleView = viewAfter market params db []) (steps : List WorkerStep)
    (hmarket : ∀ c ∈ candles steps, c.market = market) :
    Machine.outputs (step env) folded start steps =
      Runs.closed Candle.startTimestamp (candles steps) := by
  induction steps using List.reverseRecOn with
  | nil => rfl
  | append_singleton steps a ih =>
    rw [candles_concat] at hmarket ⊢
    have hearlier : ∀ c ∈ candles steps, c.market = market :=
      fun c hc => hmarket c (List.mem_append_left _ hc)
    have hview := candleView_run env hstart steps hearlier
    have hheld : (Machine.run (step env) start steps).1.pendingCandle = (candles steps).getLast? :=
      congrArg (fun view => view.2.1) hview
    rw [Machine.outputs_concat, ih hearlier]
    unfold folded
    cases hupdate : updateOf a with
    | none => simp
    | some update =>
      show _ = Runs.closed _ (candles steps ++ [update.1])
      rw [Runs.closed_concat, hheld]
      refine congrArg (_ ++ ·) (List.filter_eq_self.mpr (fun c hc => ?_))
      unfold closedBy Runs.closes at hc
      split at hc
      · cases hc
      · next held hlast =>
        split at hc
        · cases hc
        · obtain rfl := List.mem_singleton.mp hc
          exact folds_held hview hearlier hlast

theorem candleView_create (market : String) (mgr : AccountManager) (params : Params ℚ)
    (pos : PositionSnapshot ℚ) (db : Option Database) :
    (create market mgr params pos db).candleView = viewAfter market params db [] := by
  have hstamp : ((RsiMeanReversionStrategy.create market params).syncOnStart pos).stamp =
      (market, params, none) :=
    (RsiMeanReversionStrategy.create market params).stamp_syncOnStart pos
  unfold create candleView viewAfter
  simp only
  rw [hstamp]
  cases db with
  | none => rfl
  | some db => simp [Runs.closed, Runs.runs]

/-- **Confirmation is exact.** Whatever the worker does between the updates of its market, it handles
    each by its actions: the update is held, confirms the candle held before it if that has another
    start time, and is checked with its own close at the end. The confirmed candles are, in order,
    the last updates of the closed runs of equal start times: they are what is in the database and
    what the strategy takes, and the last update of all is held back. -/
theorem confirmed_exactly (env : ManagerEnv σ) (market : String) (mgr : AccountManager)
    (params : Params ℚ) (pos : PositionSnapshot ℚ) (db : Option Database) (s : σ)
    (steps : List WorkerStep) (hmarket : ∀ c ∈ candles steps, c.market = market) :
    let start := (create market mgr params pos db, s)
    let last := (Machine.run (step env) start steps).1
    let confirmed := Runs.closed Candle.startTimestamp (candles steps)
    (∀ (state : MarketContext × σ) (update : Candle ℚ × Int),
        step env state (.handleOne (.marketData (some update))) =
          Machine.run (perform env) state (marketActions state.1.pendingCandle update)) ∧
      Machine.outputs (step env) actions start steps = streamActions none (updates steps) ∧
      (streamActions none (updates steps)).flatten.filterMap MarketAction.confirmed = confirmed ∧
      Machine.outputs (step env) folded start steps = confirmed ∧
      last.db.map Database.confirmed = (db.map Database.confirmed).map
        (fun entries => entries ++ confirmed.map (fun candle => (market, candle))) ∧
      last.pendingCandle = (candles steps).getLast? := by
  intro start last confirmed
  have hstart := candleView_create market mgr params pos db
  have hview := candleView_run env (show start.1.candleView = _ from hstart) steps hmarket
  refine ⟨handleMarketData_eq env, outputs_actions env start steps, ?_,
    outputs_folded env hstart steps hmarket, congrArg (fun view => view.2.2.1) hview,
    congrArg (fun view => view.2.1) hview⟩
  exact confirmed_streamActions [] (updates steps)

/-- An exchange that answers nothing. -/
def silentApi : OrderApi Unit where
  postOrder _ s := (.error { code := .badStatus, message := "" }, s)
  getOrder _ s := (.error { code := .badStatus, message := "" }, s)
  getMyAccount s := (.error { code := .badStatus, message := "" }, s)

def silentEnv : ManagerEnv Unit where
  strategy := { cfg := .standard ℚ, sqrt := fun x => x, uuid := toString }
  api := silentApi
  pendingTimeout := 0

def candleAt (ts : String) : Candle ℚ :=
  { market := "KRW-BTC", openPrice := 1000, highPrice := 1000, lowPrice := 1000, closePrice := 1000
    volume := 1, startTimestamp := ts }

def updateAt (ts : String) : WorkerStep := .handleOne (.marketData (some (candleAt ts, 1)))

theorem confirmed_exactly_three :
    let start := (idleContext, ())
    let steps := ["1", "1", "2", "3"].map updateAt
    let last := (Machine.run (step silentEnv) start steps).1
    let confirmed := Runs.closed Candle.startTimestamp (candles steps)
    (∀ (state : MarketContext × Unit) (update : Candle ℚ × Int),
        step silentEnv state (.handleOne (.marketData (some update))) =
          Machine.run (perform silentEnv) state (marketActions state.1.pendingCandle update)) ∧
      Machine.outputs (step silentEnv) actions start steps = streamActions none (updates steps) ∧
      (streamActions none (updates steps)).flatten.filterMap MarketAction.confirmed = confirmed ∧
      Machine.outputs (step silentEnv) folded start steps = confirmed ∧
      last.db.map Database.confirmed = ((none : Option Database).map Database.confirmed).map
        (fun entries => entries ++ confirmed.map (fun candle => ("KRW-BTC", candle))) ∧
      last.pendingCandle = (candles steps).getLast? :=
  confirmed_exactly silentEnv "KRW-BTC" MarketEngine.idleEngine.accountMgr (.standard ℚ) ⟨0, 0⟩ none ()
    (["1", "1", "2", "3"].map updateAt) (by decide)

/-- **A candle is folded once iff no start time comes back.** The start times that reach the
    indicators are distinct exactly when those of the closed runs are: a late update of an earlier
    candle opens a second run of its start time, and that run is confirmed like any other. -/
theorem foldedOnce_iff (env : ManagerEnv σ) (market : String) (mgr : AccountManager)
    (params : Params ℚ) (pos : PositionSnapshot ℚ) (db : Option Database) (s : σ)
    (steps : List WorkerStep) (hmarket : ∀ c ∈ candles steps, c.market = market) :
    ((Machine.outputs (step env) folded (create market mgr params pos db, s) steps).map
        Candle.startTimestamp).Nodup ↔
      ((Runs.closed Candle.startTimestamp (candles steps)).map Candle.startTimestamp).Nodup := by
  rw [outputs_folded env (candleView_create market mgr params pos db) steps hmarket]

theorem foldedOnce_iff_ordered :
    ((Machine.outputs (step silentEnv) folded (idleContext, ())
        (["1", "1", "2", "3"].map updateAt)).map Candle.startTimestamp).Nodup ↔
      ((Runs.closed Candle.startTimestamp (candles (["1", "1", "2", "3"].map updateAt))).map
        Candle.startTimestamp).Nodup :=
  foldedOnce_iff silentEnv "KRW-BTC" MarketEngine.idleEngine.accountMgr (.standard ℚ) ⟨0, 0⟩ none ()
    (["1", "1", "2", "3"].map updateAt) (by decide)

/-- Two candles in turns: the first one is folded twice. -/
theorem not_foldedOnce :
    ¬ ∀ steps : List WorkerStep, (∀ c ∈ candles steps, c.market = "KRW-BTC") →
      ((Machine.outputs (step silentEnv) folded (idleContext, ()) steps).map
        Candle.startTimestamp).Nodup := by
  intro h
  have hmarket : ∀ c ∈ candles (["1", "2", "1", "2"].map updateAt), c.market = "KRW-BTC" := by decide
  have hnodup := h (["1", "2", "1", "2"].map updateAt) hmarket
  rw [idleContext, outputs_folded silentEnv (candleView_create "KRW-BTC"
    MarketEngine.idleEngine.accountMgr (.standard ℚ) ⟨0, 0⟩ none) _ hmarket] at hnodup
  exact absurd hnodup (by decide)

end MarketContext
end CoinBot
