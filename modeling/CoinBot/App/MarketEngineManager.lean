import CoinBot.App.InboundMessages
import CoinBot.App.StartupRecovery
import CoinBot.Core.BlockingQueue

/- `app/MarketEngineManager`: the contexts of all markets over one store, one ledger and
   one database, and `app/CoinBot`: the router in front of them.

   A context is a `MarketContext` with its queue. What the contexts refer to is in the
   manager, and is put in place for each step. A step of a worker is one of the four
   parts of an iteration of `workerLoop_`; an exception of a message ends its part, and
   the parts come in any order here, so an aborted iteration is among the runs. The
   threads, their lifetime and the logging are left out. `catch` in
   `recoverMarketState_` is left out too: a method of `IOrderApi` returns its errors.

   Correspondence (C++ ↔ Lean):
     the constructor, its exception           ↔ `MarketEngineManager.create`
     its loop over the markets                ↔ `addMarket`
     `contexts_` (std::unordered_map)         ↔ `contexts`
     `ctx.event_queue`                        ↔ `Worker.eventQueue`
     `routes_[market]` (a pointer to a queue) ↔ the queue of the context of that market
     the message handlers of both WebSockets  ↔ `BotStep.marketData`, `BotStep.myOrder` -/
namespace CoinBot

open Json (Bytes Data)
open EventRouter (RawInput)

structure MarketManagerConfig where
  strategyParams : Params ℚ
  queueCapacity : Nat := 5000
  syncRetry : Nat := 3
  pendingTimeout : Int := 120

/-- A context and its queue. -/
structure Worker where
  ctx : MarketContext
  eventQueue : BlockingQueue RawInput

structure MarketEngineManager where
  store : OrderStore
  accountMgr : AccountManager
  db : Option Database
  contexts : KeyMap String Worker

/-- What a worker does in its turn. -/
inductive Turn where
  | takeRecovery
  | handleNext
  | deliverEvents (nowMs : Int)
  | checkTimeout (now : Int)
  deriving DecidableEq, Repr

/-- What happens to a market: a message for its queue, a request of the private WebSocket's
    thread, or a turn of its worker. -/
inductive MarketStep where
  | push (input : RawInput)
  | requestRecovery
  | turn (t : Turn)
  deriving DecidableEq, Repr

variable {σ : Type}

namespace Worker

/-- The worker takes the next text of its queue, if there is one within the time. A text that
    cannot be handled is gone. -/
def handleNext (parse : Bytes → Option Data) (env : ManagerEnv σ) (w : Worker) (s : σ) :
    Worker × σ :=
  match w.eventQueue.popFor with
  | (none, queue) => ({ w with eventQueue := queue }, s)
  | (some raw, queue) =>
    match w.ctx.handleRaw parse env raw s with
    | .error _ => ({ w with eventQueue := queue }, s)
    | .ok (ctx, s') => ({ ctx := ctx, eventQueue := queue }, s')

def turn (parse : Bytes → Option Data) (env : ManagerEnv σ) (w : Worker) (s : σ) :
    Turn → Worker × σ
  | .takeRecovery =>
    let (ctx, s') := w.ctx.takeRecovery env s
    ({ w with ctx := ctx }, s')
  | .handleNext => w.handleNext parse env s
  | .deliverEvents nowMs => ({ w with ctx := w.ctx.deliverEvents nowMs }, s)
  | .checkTimeout now =>
    let (ctx, s') := w.ctx.checkPendingTimeout_ env now s
    ({ w with ctx := ctx }, s')

def step (parse : Bytes → Option Data) (env : ManagerEnv σ) (w : Worker) (s : σ) :
    MarketStep → Worker × σ
  | .push input => ({ w with eventQueue := w.eventQueue.push input }, s)
  | .requestRecovery => ({ w with ctx := w.ctx.requestRecovery }, s)
  | .turn t => w.turn parse env s t

end Worker

namespace MarketEngineManager

/-! The constructor. -/

/-- The account query of the start, and the ledger rebuilt from the first answer. -/
def rebuildAccountOnStartup_ (cfg : AccountConfig) (api : IOrderApi σ) :
    Nat → AccountManager → σ → Bool × AccountManager × σ
  | 0, mgr, s => (false, mgr, s)
  | attempts + 1, mgr, s =>
    match api.getMyAccount s with
    | (.ok account, s') => (true, mgr.rebuildFromAccount cfg account, s')
    | (.error _, s') => rebuildAccountOnStartup_ cfg api attempts mgr s'

/-- The bot's own orders of a market begin with its identifier and the market. -/
def recoveryOptions (market : String) : StartupRecovery.Options where
  botIdentifierPrefix := RsiMeanReversionStrategy.id ++ ":" ++ market ++ ":"

/-- The context of a market that has none yet. -/
def addMarket (api : IOrderApi σ) (mcfg : MarketManagerConfig) (store : OrderStore)
    (mgr : AccountManager) (db : Option Database) (state : KeyMap String Worker × σ)
    (market : String) : KeyMap String Worker × σ :=
  if (state.1.lookup market).isSome then state
  else
    let created := RsiMeanReversionStrategy.create market mcfg.strategyParams
    let (strategy, s) :=
      StartupRecovery.run api market (recoveryOptions market) created state.2
    let ctx : MarketContext :=
      { market := market
        engine := { market := market, store := store, accountMgr := mgr }
        strategy := strategy
        db := db }
    (state.1.insert market { ctx := ctx, eventQueue := .create mcfg.queueCapacity }, s)

def syncFailed (attempts : Nat) : String :=
  "[MarketEngineManager] Failed to sync account after " ++ toString attempts ++ " attempts"

def create (cfg : AccountConfig) (api : IOrderApi σ) (store : OrderStore) (mgr : AccountManager)
    (markets : List String) (mcfg : MarketManagerConfig) (db : Option Database) (s : σ) :
    Except String MarketEngineManager × σ :=
  match rebuildAccountOnStartup_ cfg api mcfg.syncRetry mgr s with
  | (false, _, s) => (.error (syncFailed mcfg.syncRetry), s)
  | (true, mgr, s) =>
    let (contexts, s) := markets.foldl (addMarket api mcfg store mgr db) (∅, s)
    -- The ledger keeps its first sync where the second one fails.
    let (_, mgr, s) := rebuildAccountOnStartup_ cfg api mcfg.syncRetry mgr s
    (.ok { store := store, accountMgr := mgr, db := db, contexts := contexts }, s)

/-! Steps. -/

/-- A context with what it refers to. -/
def worker (m : MarketEngineManager) (w : Worker) : Worker :=
  { w with
    ctx :=
      { w.ctx with
        engine := { w.ctx.engine with store := m.store, accountMgr := m.accountMgr }
        db := m.db } }

/-- The manager once a context has run. -/
def put (m : MarketEngineManager) (market : String) (w : Worker) : MarketEngineManager where
  store := w.ctx.engine.store
  accountMgr := w.ctx.engine.accountMgr
  db := w.ctx.db
  contexts := m.contexts.insert market w

/-- A step of one market; of a market without a context there is none. -/
def step (parse : Bytes → Option Data) (env : ManagerEnv σ) (state : MarketEngineManager × σ)
    (a : String × MarketStep) : MarketEngineManager × σ :=
  match state.1.contexts.lookup a.1 with
  | none => state
  | some w =>
    let (w', s') := (state.1.worker w).step parse env state.2 a.2
    (state.1.put a.1 w', s')

theorem step_of_lookup {parse : Bytes → Option Data} {env : ManagerEnv σ}
    {state : MarketEngineManager × σ} {market : String} {w : Worker}
    (h : state.1.contexts.lookup market = some w) (a : MarketStep) :
    step parse env state (market, a) =
      (state.1.put market ((state.1.worker w).step parse env state.2 a).1,
       ((state.1.worker w).step parse env state.2 a).2) := by
  unfold step
  rw [h]

theorem step_absent {parse : Bytes → Option Data} {env : ManagerEnv σ}
    {state : MarketEngineManager × σ} {market : String}
    (h : state.1.contexts.lookup market = none) (a : MarketStep) :
    step parse env state (market, a) = state := by
  unfold step
  rw [h]

@[simp] theorem lookup_put_self (m : MarketEngineManager) (market : String) (w : Worker) :
    (m.put market w).contexts.lookup market = some w := AList.lookup_insert _

theorem lookup_put_ne (m : MarketEngineManager) {market market' : String} (w : Worker)
    (h : market' ≠ market) :
    (m.put market w).contexts.lookup market' = m.contexts.lookup market' :=
  AList.lookup_insert_ne h

/-- A message for the queue that is registered under `key`. -/
def pushTo (m : MarketEngineManager) (key : Bytes) (input : RawInput) : MarketEngineManager :=
  { m with
    contexts := KeyMap.mapVal (fun market w =>
      if Json.utf8 market = key then { w with eventQueue := w.eventQueue.push input } else w)
      m.contexts }

/-- The private WebSocket was connected again. -/
def requestReconnectRecovery (m : MarketEngineManager) : MarketEngineManager :=
  { m with
    contexts := KeyMap.mapVal (fun _ w => { w with ctx := w.ctx.requestRecovery }) m.contexts }

def registerWith (m : MarketEngineManager) (router : EventRouter) : EventRouter :=
  m.contexts.keys.foldl (fun r market => r.registerMarket (Json.utf8 market)) router

end MarketEngineManager

/-! The bot. -/

/-- The market whose queue `route` pushes the message to, if any. -/
def EventRouter.target (parse : Bytes → Option Data) (r : EventRouter) (json : Bytes) :
    Option Bytes :=
  if !r.accepting then none
  else if (extractMarketFast_ json).hadConflict then none
  else ((extractMarketFast_ json).market.or (extractMarketSlow_ parse json)).filter
    (fun key => (r.routes.lookup key).isSome)

structure Bot where
  manager : MarketEngineManager
  router : EventRouter

inductive BotStep where
  | marketData (json : Bytes)
  | myOrder (json : Bytes)
  | reconnect
  | turn (market : String) (t : Turn)
  deriving DecidableEq, Repr

namespace Bot

/-- The router counts and logs the message, and the queue of its market takes it. -/
def receive (parse : Bytes → Option Data) (b : Bot) (json : Bytes) (input : RawInput) : Bot where
  router := (b.router.route parse json input).2
  manager := match b.router.target parse json with
    | none => b.manager
    | some key => b.manager.pushTo key input

def step (parse : Bytes → Option Data) (env : ManagerEnv σ) (state : Bot × σ) :
    BotStep → Bot × σ
  | .marketData json => (state.1.receive parse json (.marketDataRaw json), state.2)
  | .myOrder json => (state.1.receive parse json (.myOrderRaw json), state.2)
  | .reconnect =>
    ({ state.1 with manager := state.1.manager.requestReconnectRecovery }, state.2)
  | .turn market t =>
    let (manager, s') :=
      MarketEngineManager.step parse env (state.1.manager, state.2) (market, .turn t)
    ({ state.1 with manager := manager }, s')

/-- The manager and the router as `CoinBot::run` connects them. -/
def assemble (manager : MarketEngineManager) : Bot where
  manager := manager
  router := manager.registerWith { routes := ∅ }

end Bot
end CoinBot
