import CoinBot.Api.MyOrderMapper
import CoinBot.Engine.MarketEngine
import CoinBot.Lib.Machine
import CoinBot.Trading.RsiMeanReversionStrategy

/- `app/MarketEngineManager`: the context of one market, and what its worker does.

   The worker handles one message at a time, so each of its steps is a function of the
   context. The order API is the exchange's: it runs on a state `σ` of its own. A message
   arrives as what the JSON library reads of it, none where it reads nothing. The two
   clocks are arguments. The threads, the queue and the logging are left out; the account
   is only queried to be logged.

   Correspondence (C++ ↔ Lean):
     one iteration of `workerLoop_`          ↔ `workerIteration`, a run of `step`
     the lambda `doIntrabarCheck`            ↔ `doIntrabarCheck`
     submit, then `onSubmitFailed` on failure ↔ `submitOrder`
     the body of the loop of `runRecovery_`  ↔ `recoverOrder`
     `db_` (null without a database)         ↔ `db : Option Database`
     the results of its inserts, not read    ↔ left out (see `Database.insertOrder`) -/
namespace CoinBot

/-- What the database was asked to insert, newest last. -/
structure Database where
  candles : List (String × Candle ℚ × Int) := []
  orders : List Order := []
  signals : List (SignalRecord ℚ) := []

/-- What the manager asks of the exchange. -/
structure OrderApi (σ : Type) where
  postOrder : OrderRequest ℚ → σ → Except RestError String × σ
  getOrder : String → σ → Except RestError Order × σ
  getMyAccount : σ → Except RestError Account × σ

structure ManagerEnv (σ : Type) where
  strategy : StrategyEnv ℚ
  api : OrderApi σ
  pendingTimeout : Int

def ManagerEnv.cfg {σ : Type} (env : ManagerEnv σ) : AppConfig ℚ := env.strategy.cfg

inductive EngineInput where
  | myOrder (dto : Option UpbitMyOrderDto)
  | marketData (candle : Option (Candle ℚ × Int))
  | accountSync

structure MarketContext where
  market : String
  engine : MarketEngine
  strategy : RsiMeanReversionStrategy ℚ
  pendingCandle : Option (Candle ℚ) := none
  intrabarFailTs : Option String := none
  trackingPending : Bool := false
  pendingEnteredAt : Int := 0
  pendingTimeoutFired : Bool := false
  recoveryRequested : Bool := false
  hasActivePending : Bool := false
  db : Option Database := none

namespace MarketContext

def insertOrder (ctx : MarketContext) (o : Order) : MarketContext :=
  { ctx with db := ctx.db.map (fun db => { db with orders := db.orders ++ [o] }) }

def insertCandle (ctx : MarketContext) (candle : Candle ℚ) (unit : Int) : MarketContext :=
  { ctx with db := ctx.db.map (fun db =>
      { db with candles := db.candles ++ [(ctx.market, candle, unit)] }) }

/-- The callback the constructor registers when there is a database. -/
def insertSignal (ctx : MarketContext) (signal : Option (SignalRecord ℚ)) : MarketContext :=
  { ctx with db := ctx.db.map (fun db => { db with signals := db.signals ++ signal.toList }) }

variable {σ : Type}

/-! Order messages. -/

/-- One event of an order message. A message that closes an order without a trade is settled
    like a recovery: nothing else has settled its fills. -/
def handleOrderEvent (cfg : AppConfig ℚ) (hasTrade : Bool) (ctx : MarketContext) :
    MyOrderEvent → MarketContext
  | .trade t => { ctx with engine := ctx.engine.onMyTrade cfg t }
  | .order o =>
    if !hasTrade && o.status.isTerminal then
      let (reconcileOk, engine) := ctx.engine.reconcileFromSnapshot cfg o
      if reconcileOk then { ctx with engine := engine }.insertOrder o
      else { ctx with engine := engine, recoveryRequested := true }
    else
      let ctx := { ctx with engine := ctx.engine.onOrderSnapshot cfg o }
      if o.status.isTerminal then ctx.insertOrder o else ctx

def isTrade : MyOrderEvent → Bool
  | .trade _ => true
  | .order _ => false

def handleMyOrder_ (cfg : AppConfig ℚ) (ctx : MarketContext) (events : List MyOrderEvent) :
    MarketContext :=
  events.foldl (handleOrderEvent cfg (events.any isTrade)) ctx

/-- `parseMyOrder`, past the JSON library. -/
def parseMyOrder (cfg : AppConfig ℚ) (dto : Option UpbitMyOrderDto) : List MyOrderEvent :=
  match dto with
  | none => []
  | some d => MyOrderMapper.toEvents cfg d

/-! Recovery. -/

def queryOrderWithRetry_ (api : OrderApi σ) (orderUuid : String) :
    Nat → σ → Option Order × σ
  | 0, s => (none, s)
  | retries + 1, s =>
    match api.getOrder orderUuid s with
    | (.ok o, s') => (some o, s')
    | (.error _, s') => queryOrderWithRetry_ api orderUuid retries s'

/-- The recovery of one pending order, none where the uuid is empty. -/
def recoverOrder (cfg : AppConfig ℚ) (api : OrderApi σ) (state : MarketContext × σ)
    (orderUuid : String) : MarketContext × σ :=
  let (ctx, s) := state
  if orderUuid = "" then (ctx, s)
  else match queryOrderWithRetry_ api orderUuid 3 s with
    | (none, s') => (ctx, (api.getMyAccount s').2)
    | (some o, s') =>
      let (reconciled, engine) := ctx.engine.reconcileFromSnapshot cfg o
      let ctx := { ctx with engine := engine }
      (if o.status.isTerminal && reconciled then ctx.insertOrder o else ctx, s')

def stopTracking (ctx : MarketContext) : MarketContext :=
  { ctx with trackingPending := false, pendingTimeoutFired := false }

def runRecovery_ (cfg : AppConfig ℚ) (api : OrderApi σ) (ctx : MarketContext) (s : σ) :
    MarketContext × σ :=
  let (buyOrderUuid, sellOrderUuid) := ctx.engine.activePendingIds
  if buyOrderUuid = "" ∧ sellOrderUuid = "" then (ctx.stopTracking, s)
  else
    let (ctx, s) := [buyOrderUuid, sellOrderUuid].foldl (recoverOrder cfg api) (ctx, s)
    (ctx.stopTracking, s)

/-! Candles. -/

def buildAccountSnapshot_ (ctx : MarketContext) : AccountSnapshot ℚ :=
  match ctx.engine.accountMgr.getBudget ctx.market with
  | none => { krwAvailable := 0, coinAvailable := 0 }
  | some budget => { krwAvailable := budget.availableKrw, coinAvailable := budget.coinBalance }

/-- The order is submitted, and the strategy rolled back when that fails. -/
def submitOrder (env : ManagerEnv σ) (ctx : MarketContext) (req : OrderRequest ℚ) (s : σ) :
    Bool × MarketContext × σ :=
  let ((r, engine), s') := ctx.engine.submit env.cfg env.api.postOrder req s
  if r.success then (true, { ctx with engine := engine }, s')
  else (false, { ctx with engine := engine, strategy := ctx.strategy.onSubmitFailed }, s')

/-- An exit of this candle has failed already. -/
def exitFailed (ctx : MarketContext) : Bool :=
  match ctx.pendingCandle, ctx.intrabarFailTs with
  | some candle, some ts => candle.startTimestamp == ts
  | _, _ => false

def doIntrabarCheck (env : ManagerEnv σ) (ctx : MarketContext) (intrabarClose : Price) (s : σ) :
    MarketContext × σ :=
  let ctx := { ctx with engine := ctx.engine.setMarkPrice intrabarClose }
  if ctx.exitFailed then (ctx, s)
  else if ctx.strategy.state ≠ .inPosition then (ctx, s)
  else
    let (d, strategy) :=
      ctx.strategy.onIntrabarCandle env.strategy intrabarClose ctx.buildAccountSnapshot_
    let ctx := { ctx with strategy := strategy }
    match d.order with
    | none => (ctx, s)
    | some req =>
      match ctx.submitOrder env req s with
      | (true, ctx, s') => (ctx, s')
      | (false, ctx, s') =>
        (match ctx.pendingCandle with
          | some candle => { ctx with intrabarFailTs := some candle.startTimestamp }
          | none => ctx, s')

/-- The candle before the incoming one is final: the strategy decides on it. -/
def confirmCandle (env : ManagerEnv σ) (ctx : MarketContext) (candle : Candle ℚ) (liveUnit : Int)
    (s : σ) : MarketContext × σ :=
  let ctx := ctx.insertCandle candle liveUnit
  let ctx := { ctx with engine := ctx.engine.setMarkPrice candle.closePrice }
  let (d, strategy) := ctx.strategy.onCandle env.strategy candle ctx.buildAccountSnapshot_
  let ctx := { ctx with strategy := strategy }
  match d.order with
  | none => (ctx, s)
  | some req => (ctx.submitOrder env req s).2

def handleMarketData_ (env : ManagerEnv σ) (ctx : MarketContext) (incoming : Candle ℚ)
    (liveUnit : Int) (s : σ) : MarketContext × σ :=
  match ctx.pendingCandle with
  | none => { ctx with pendingCandle := some incoming }.doIntrabarCheck env incoming.closePrice s
  | some candle =>
    if candle.startTimestamp = incoming.startTimestamp then
      { ctx with pendingCandle := some incoming }.doIntrabarCheck env incoming.closePrice s
    else
      let (ctx, s) :=
        { ctx with pendingCandle := some incoming }.confirmCandle env candle liveUnit s
      ctx.doIntrabarCheck env incoming.closePrice s

/-! Engine events. -/

def handleEngineEvent (nowMs : Int) (ctx : MarketContext) : EngineEvent → MarketContext
  | .fill e =>
    let fill :=
      { identifier := e.identifier
        position := e.position
        fillPrice := e.fillPrice
        filledVolume := e.filledVolume }
    { ctx with strategy := ctx.strategy.onFill fill }
  | .status e =>
    let out :=
      { identifier := e.identifier
        status := e.status
        position := e.position
        executedVolume := e.executedVolume
        remainingVolume := e.remainingVolume
        executedFunds := e.executedFunds
        positionEffect := e.positionEffect }
    let (signal, strategy) := ctx.strategy.onOrderUpdate out nowMs
    { ctx with strategy := strategy }.insertSignal signal

def handleEngineEvents_ (nowMs : Int) (ctx : MarketContext) (evs : List EngineEvent) :
    MarketContext :=
  evs.foldl (handleEngineEvent nowMs) ctx

/-! The worker. -/

def checkPendingTimeout_ (env : ManagerEnv σ) (ctx : MarketContext) (now : Int) (s : σ) :
    MarketContext × σ :=
  let (buyId, sellId) := ctx.engine.activePendingIds
  let isPending := buyId ≠ "" ∨ sellId ≠ ""
  let ctx := { ctx with hasActivePending := decide isPending }
  let ctx :=
    if isPending ∧ ctx.trackingPending = false then
      { ctx with trackingPending := true, pendingEnteredAt := now, pendingTimeoutFired := false }
    else ctx
  if ¬ isPending then (ctx.stopTracking, s)
  else if ctx.pendingTimeoutFired then (ctx, s)
  else if env.pendingTimeout ≤ now - ctx.pendingEnteredAt then
    { ctx with pendingTimeoutFired := true }.runRecovery_ env.cfg env.api s
  else (ctx, s)

def handleOne_ (env : ManagerEnv σ) (ctx : MarketContext) (input : EngineInput) (s : σ) :
    MarketContext × σ :=
  match input with
  | .myOrder dto => (ctx.handleMyOrder_ env.cfg (parseMyOrder env.cfg dto), s)
  | .marketData none => (ctx, s)
  | .marketData (some (candle, unit)) => ctx.handleMarketData_ env candle unit s
  | .accountSync => ctx.runRecovery_ env.cfg env.api s

/-- `requestReconnectRecovery`, for this market. -/
def requestRecovery (ctx : MarketContext) : MarketContext :=
  if ctx.hasActivePending then { ctx with recoveryRequested := true } else ctx

@[simp] theorem engine_requestRecovery (ctx : MarketContext) :
    ctx.requestRecovery.engine = ctx.engine := by
  unfold requestRecovery
  split
  · rfl
  · rfl

@[simp] theorem strategy_requestRecovery (ctx : MarketContext) :
    ctx.requestRecovery.strategy = ctx.strategy := by
  unfold requestRecovery
  split
  · rfl
  · rfl

/-- A requested recovery is run, and the request is taken back. -/
def takeRecovery (env : ManagerEnv σ) (ctx : MarketContext) (s : σ) : MarketContext × σ :=
  if ctx.recoveryRequested then
    { ctx with recoveryRequested := false }.runRecovery_ env.cfg env.api s
  else (ctx, s)

/-- The engine's events go to the strategy. -/
def deliverEvents (nowMs : Int) (ctx : MarketContext) : MarketContext :=
  let (out, engine) := ctx.engine.pollEvents
  { ctx with engine := engine }.handleEngineEvents_ nowMs out

/-- The context with its tracking of the pending order set. -/
def track (ctx : MarketContext) (active tracking fired : Bool) (enteredAt : Int) : MarketContext :=
  { ctx with
    hasActivePending := active
    trackingPending := tracking
    pendingTimeoutFired := fired
    pendingEnteredAt := enteredAt }

/-- `checkPendingTimeout_` publishes whether an order is active and tracks it; it may run a recovery
    of an active order. -/
theorem checkPendingTimeout_cases (env : ManagerEnv σ) (ctx : MarketContext) (now : Int) (s : σ) :
    ∃ active tracking fired enteredAt,
      (active = true ↔ ctx.engine.activePendingIds.1 ≠ "" ∨ ctx.engine.activePendingIds.2 ≠ "") ∧
      (ctx.checkPendingTimeout_ env now s = (ctx.track active tracking fired enteredAt, s) ∨
        active = true ∧ ctx.checkPendingTimeout_ env now s =
          (ctx.track active tracking fired enteredAt).runRecovery_ env.cfg env.api s) := by
  by_cases hactive : ctx.engine.activePendingIds.1 ≠ "" ∨ ctx.engine.activePendingIds.2 ≠ ""
  · -- The entry is recorded, or was before; from then on only the time counts.
    have hrest : ∀ (tracking fired : Bool) (enteredAt : Int),
        ctx.checkPendingTimeout_ env now s =
          (if fired = true then (ctx.track true tracking fired enteredAt, s)
            else if env.pendingTimeout ≤ now - enteredAt then
              (ctx.track true tracking true enteredAt).runRecovery_ env.cfg env.api s
            else (ctx.track true tracking fired enteredAt, s)) →
        ∃ tracking fired enteredAt,
          ctx.checkPendingTimeout_ env now s = (ctx.track true tracking fired enteredAt, s) ∨
            true = true ∧ ctx.checkPendingTimeout_ env now s =
              (ctx.track true tracking fired enteredAt).runRecovery_ env.cfg env.api s := by
      intro tracking fired enteredAt heq
      by_cases hfired : fired = true
      · exact ⟨_, _, _, .inl (heq.trans (if_pos hfired))⟩
      · rw [if_neg hfired] at heq
        by_cases htime : env.pendingTimeout ≤ now - enteredAt
        · exact ⟨_, _, _, .inr ⟨rfl, heq.trans (if_pos htime)⟩⟩
        · exact ⟨_, _, _, .inl (heq.trans (if_neg htime))⟩
    have htracked : ∃ tracking fired enteredAt,
        ctx.checkPendingTimeout_ env now s =
          (if fired = true then (ctx.track true tracking fired enteredAt, s)
            else if env.pendingTimeout ≤ now - enteredAt then
              (ctx.track true tracking true enteredAt).runRecovery_ env.cfg env.api s
            else (ctx.track true tracking fired enteredAt, s)) := by
      unfold checkPendingTimeout_
      by_cases htracking : ctx.trackingPending = false
      · refine ⟨true, false, now, ?_⟩
        simp only [decide_eq_true hactive, if_neg (not_not.mpr hactive),
          if_pos (And.intro hactive htracking)]
        rfl
      · refine ⟨ctx.trackingPending, ctx.pendingTimeoutFired, ctx.pendingEnteredAt, ?_⟩
        simp only [decide_eq_true hactive, if_neg (not_not.mpr hactive),
          if_neg (fun h => htracking (And.right h))]
        rfl
    obtain ⟨tracking, fired, enteredAt, heq⟩ := htracked
    obtain ⟨tracking', fired', enteredAt', hcases⟩ := hrest tracking fired enteredAt heq
    exact ⟨true, tracking', fired', enteredAt', iff_of_true rfl hactive, hcases⟩
  · refine ⟨false, false, false, ctx.pendingEnteredAt, iff_of_false Bool.false_ne_true hactive, ?_⟩
    unfold checkPendingTimeout_
    simp only [decide_eq_false hactive, if_pos hactive]
    rw [if_neg (fun h => hactive (And.left h))]
    exact .inl rfl

/-- The steps of the worker, and the request of another thread. -/
inductive WorkerStep where
  | takeRecovery
  | handleOne (input : EngineInput)
  | deliverEvents (nowMs : Int)
  | checkTimeout (now : Int)
  | requestRecovery

def step (env : ManagerEnv σ) (state : MarketContext × σ) : WorkerStep → MarketContext × σ
  | .takeRecovery => state.1.takeRecovery env state.2
  | .handleOne input => state.1.handleOne_ env input state.2
  | .deliverEvents nowMs => (state.1.deliverEvents nowMs, state.2)
  | .checkTimeout now => state.1.checkPendingTimeout_ env now state.2
  | .requestRecovery => (state.1.requestRecovery, state.2)

/-- One iteration of `workerLoop_`, with the message it took from the queue, if any. -/
def workerIteration (env : ManagerEnv σ) (state : MarketContext × σ) (input : Option EngineInput)
    (nowMs now : Int) : MarketContext × σ :=
  Machine.run (step env) state
    (.takeRecovery :: input.toList.map .handleOne ++ [.deliverEvents nowMs, .checkTimeout now])

/-- The context the constructor makes, for a position that `StartupRecovery` found. -/
def create (market : String) (mgr : AccountManager) (params : Params ℚ)
    (pos : PositionSnapshot ℚ) (db : Option Database) : MarketContext where
  market := market
  engine := { market := market, store := .empty, accountMgr := mgr }
  strategy := (RsiMeanReversionStrategy.create market params).syncOnStart pos
  db := db

/-- The context of `MarketEngine.idleEngine`, without a position. -/
def idleContext : MarketContext :=
  create "KRW-BTC" MarketEngine.idleEngine.accountMgr (.standard ℚ) ⟨0, 0⟩ none

end MarketContext
end CoinBot
