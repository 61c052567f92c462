import CoinBot.Allocation.AccountManager
import CoinBot.Api.RestClient
import CoinBot.Engine.OrderStore
import CoinBot.Lib.Decimal
import Mathlib.Data.Finset.Basic

/- `engine/MarketEngine`: the order engine of one market.

   The engine holds the store and the ledger it refers to in the source, and every
   method returns the engine after the call. A method runs on the engine's own
   thread from start to end, so a call is one step. Logging and the thread check are
   left out.

   Correspondence (C++ ↔ Lean):
     `submit` up to / after `api_.postOrder`  ↔ `beforePost` / `afterPost`
     `active_buy_token_` (std::optional)      ↔ `activeBuyToken`
     the field copies of `onOrderSnapshot`    ↔ `mergeSnapshot`
     the terminal block of `onOrderSnapshot`  ↔ `closeOrder`
     the settlement of `reconcileFromSnapshot` ↔ `settleDelta`, none where the source
                                                 returns false -/
namespace CoinBot

inductive EngineErrorCode where
  | none
  | invalidOrderId
  | insufficientFunds
  | marketNotSupported
  | orderRejected
  | internalError
  deriving DecidableEq, Repr

structure EngineResult where
  success : Bool
  code : EngineErrorCode
  order : Option Order
  message : String
  deriving DecidableEq, Repr

def EngineResult.ok (order : Order) : EngineResult :=
  { success := true, code := .none, order := some order, message := "" }

def EngineResult.fail (code : EngineErrorCode) (message : String) : EngineResult :=
  { success := false, code := code, order := Option.none, message := message }

structure EngineFillEvent where
  identifier : String
  orderUuid : String
  tradeUuid : String
  position : OrderPosition
  fillPrice : Price
  filledVolume : Volume
  deriving DecidableEq, Repr

structure EngineOrderStatusEvent where
  identifier : String
  orderUuid : String
  status : OrderStatus
  position : OrderPosition
  executedVolume : Volume
  remainingVolume : Volume
  executedFunds : Amount
  positionEffect : PositionEffect
  deriving DecidableEq, Repr

inductive EngineEvent where
  | fill (ev : EngineFillEvent)
  | status (ev : EngineOrderStatusEvent)
  deriving DecidableEq, Repr

structure MarketEngine where
  market : String
  store : OrderStore
  accountMgr : AccountManager
  seenTradeUuids : Finset String := ∅
  seenTradeUuidFifo : List String := []
  events : List EngineEvent := []
  activeBuyToken : Option ReservationToken := none
  activeBuyOrderUuid : String := ""
  activeSellOrderUuid : String := ""
  lastMarkPrice : Price := 0

namespace MarketEngine

/-! Submitting an order. -/

/-- The reason the request is refused, if it is. -/
def validateRequest (req : OrderRequest ℚ) : Option String :=
  if req.market = "" then some "market is empty"
  else
    let shape : Option String :=
      match req.type, req.price, req.position, req.size with
      | .limit, none, _, _ => some "limit order requires price"
      | .limit, some _, _, .amount _ => some "limit order requires VolumeSize"
      | .limit, some _, _, .volume _ => none
      | .market, some _, _, _ => some "market order must not specify price"
      | .market, none, .bid, .volume _ => some "market buy(BID) requires AmountSize"
      | .market, none, .ask, .amount _ => some "market sell(ASK) requires VolumeSize"
      | .market, none, .bid, .amount _ => none
      | .market, none, .ask, .volume _ => none
    match shape with
    | some reason => some reason
    | none =>
      match req.size with
      | .amount value => if value ≤ 0 then some "amount must be > 0" else none
      | .volume value =>
        if value ≤ 0 then some "volume must be > 0"
        else match req.price with
          | some price => if price ≤ 0 then some "price must be > 0" else none
          | none => none

def computeReserveAmount (cfg : AppConfig ℚ) (req : OrderRequest ℚ) : Amount :=
  match req.size with
  | .amount base => base * cfg.engine.reserveMargin
  | .volume volume => req.price.getD 0 * volume * cfg.engine.reserveMargin

/-- Steps 1 to 3 of `submit`: the failure that ends it, or the KRW of a buy reserved. -/
def beforePost (cfg : AppConfig ℚ) (e : MarketEngine) (req : OrderRequest ℚ) :
    Option EngineResult × MarketEngine :=
  match validateRequest req with
  | some reason => (some (.fail .orderRejected reason), e)
  | none =>
    if req.market ≠ e.market then
      (some (.fail .marketNotSupported
        ("market mismatch: expected " ++ e.market ++ ", got " ++ req.market)), e)
    else match req.position with
      | .bid =>
        if e.activeBuyToken.isSome then
          (some (.fail .orderRejected ("already has pending buy order for " ++ e.market)), e)
        else if e.activeSellOrderUuid ≠ "" then
          (some (.fail .orderRejected
            ("cannot submit buy while sell order is active for " ++ e.market)), e)
        else match e.accountMgr.reserve e.market (computeReserveAmount cfg req) with
          | (none, mgr) =>
            (some (.fail .insufficientFunds ("reserve failed for " ++ e.market)),
             { e with accountMgr := mgr })
          | (some token, mgr) =>
            (none, { e with accountMgr := mgr, activeBuyToken := some token })
      | .ask =>
        if e.activeSellOrderUuid ≠ "" then
          (some (.fail .orderRejected ("already has pending sell order for " ++ e.market)), e)
        else if e.activeBuyToken.isSome then
          (some (.fail .orderRejected
            ("cannot submit sell while buy order is active for " ++ e.market)), e)
        else (none, e)

/-- The token of a failed buy is released; it is inactive then, and its destruction does nothing. -/
def releaseBuyToken (e : MarketEngine) : MarketEngine :=
  match e.activeBuyToken with
  | some token =>
    { e with
      accountMgr := (e.accountMgr.release token).2
      activeBuyToken := none
      activeBuyOrderUuid := "" }
  | none => { e with activeBuyOrderUuid := "" }

/-- The order `submit` stores. -/
def pendingOrder (req : OrderRequest ℚ) (orderUuid : String) : Order where
  market := req.market
  identifier := if req.identifier = "" then none else some req.identifier
  id := orderUuid
  position := req.position
  type := req.type
  price := req.price
  volume := match req.size with
    | .volume value => some value
    | .amount _ => none
  requestedAmount := match req.size with
    | .amount value => some value
    | .volume _ => none
  status := .pending

/-- `submit` once `postOrder` has answered. -/
def afterPost (e : MarketEngine) (req : OrderRequest ℚ) :
    Except RestError String → EngineResult × MarketEngine
  | .error err =>
    (.fail .internalError ("postOrder failed: " ++ err.message),
     match req.position with
     | .bid => e.releaseBuyToken
     | .ask => e)
  | .ok orderUuid =>
    let tracked := match req.position with
      | .bid => { e with activeBuyOrderUuid := orderUuid }
      | .ask => { e with activeSellOrderUuid := orderUuid }
    (.ok (pendingOrder req orderUuid),
     { tracked with store := tracked.store.upsert (pendingOrder req orderUuid) })

/-- `postOrder` is the exchange's: it runs on a state `σ` of its own. -/
def submit {σ : Type} (cfg : AppConfig ℚ)
    (postOrder : OrderRequest ℚ → σ → Except RestError String × σ) (e : MarketEngine)
    (req : OrderRequest ℚ) (s : σ) : (EngineResult × MarketEngine) × σ :=
  match e.beforePost cfg req with
  | (some result, e') => ((result, e'), s)
  | (none, e') => (e'.afterPost req (postOrder req s).1, (postOrder req s).2)

/-! Trades. -/

def makeTradeDedupeKey_ (t : MyTrade) : String :=
  if t.tradeUuid ≠ "" then t.tradeUuid
  else
    let side := match t.side with
      | .ask => "0"
      | .bid => "1"
    let key := "FALLBACK|" ++ t.orderUuid ++ "|" ++ side ++ "|" ++ t.market ++ "|"
      ++ Decimal.fixed 12 t.price ++ "|" ++ Decimal.fixed 12 t.volume ++ "|"
      ++ Decimal.fixed 12 t.executedFunds ++ "|" ++ Decimal.fixed 12 t.fee
    match t.identifier with
    | some id => if id = "" then key else key ++ "|" ++ id
    | none => key

/-- The loop of `markTradeOnce` that forgets the oldest keys. -/
def evict (maxSeenTrades : Nat) : Finset String → List String → Finset String × List String
  | seen, [] => (seen, [])
  | seen, oldest :: fifo =>
    if maxSeenTrades < (oldest :: fifo).length then
      evict maxSeenTrades (seen.erase oldest) fifo
    else (seen, oldest :: fifo)

def markTradeOnce (cfg : AppConfig ℚ) (e : MarketEngine) (tradeUuid : String) :
    Bool × MarketEngine :=
  if tradeUuid = "" then (false, e)
  else if tradeUuid ∈ e.seenTradeUuids then (false, e)
  else
    let (seen, fifo) := evict cfg.engine.maxSeenTrades (insert tradeUuid e.seenTradeUuids)
      (e.seenTradeUuidFifo ++ [tradeUuid])
    (true, { e with seenTradeUuids := seen, seenTradeUuidFifo := fifo })

/-- The fill event of a trade of the stored order `ord`, when one of them has an identifier. -/
def fillEvents (t : MyTrade) (ord : Order) : List EngineEvent :=
  match t.identifier <|> ord.identifier with
  | some id =>
    if id = "" then []
    else [.fill
      { identifier := id
        orderUuid := t.orderUuid
        tradeUuid := makeTradeDedupeKey_ t
        position := t.side
        fillPrice := t.price
        filledVolume := t.volume }]
  | none => []

/-- A buy settled against the active token, if the token is that of the order. -/
def settleBuy (e : MarketEngine) (orderUuid : String) (executedKrw : Amount)
    (receivedCoin : Volume) (fillPrice : Price) : MarketEngine :=
  match e.activeBuyToken with
  | some token =>
    if e.activeBuyOrderUuid = orderUuid then
      let (token', mgr) := e.accountMgr.finalizeFillBuy token executedKrw receivedCoin fillPrice
      { e with activeBuyToken := some token', accountMgr := mgr }
    else e
  | none => e

def settleSell (e : MarketEngine) (soldCoin : Volume) (receivedKrw : Amount) : MarketEngine :=
  { e with accountMgr := e.accountMgr.finalizeFillSell e.market soldCoin receivedKrw }

/-- Step 3 of `onMyTrade`. -/
def settleTrade (e : MarketEngine) (t : MyTrade) : MarketEngine :=
  match t.side with
  | .bid => e.settleBuy t.orderUuid (t.executedFunds + t.fee) t.volume t.price
  | .ask => e.settleSell t.volume (max 0 (t.executedFunds - t.fee))

def onMyTrade (cfg : AppConfig ℚ) (e : MarketEngine) (t : MyTrade) : MarketEngine :=
  if t.market ≠ e.market then e
  else match e.markTradeOnce cfg (makeTradeDedupeKey_ t) with
    | (false, e) => e
    | (true, e) =>
      match e.store.get t.orderUuid with
      | none => e
      | some ord => { e with events := e.events ++ fillEvents t ord }.settleTrade t

/-! Snapshots. -/

/-- The stored order with the fields of the snapshot. -/
def mergeSnapshot (o snapshot : Order) : Order where
  market := if snapshot.market ≠ "" then snapshot.market else o.market
  identifier := o.identifier <|> snapshot.identifier
  id := o.id
  position := snapshot.position
  type := snapshot.type
  price := if o.price.isNone && snapshot.price.isSome && snapshot.type == .limit
    then snapshot.price else o.price
  volume := o.volume <|> snapshot.volume
  requestedAmount := o.requestedAmount
  executedVolume := snapshot.executedVolume
  remainingVolume := snapshot.remainingVolume
  tradesCount := snapshot.tradesCount
  reservedFee := snapshot.reservedFee
  paidFee := snapshot.paidFee
  remainingFee := snapshot.remainingFee
  locked := snapshot.locked
  executedFunds := snapshot.executedFunds
  status := snapshot.status
  createdAt := if snapshot.createdAt ≠ "" then snapshot.createdAt else o.createdAt

/-- The source dereferences the budget without a check: the manager only has engines for
    registered markets. -/
def resolvePositionEffect_ (cfg : AppConfig ℚ) (e : MarketEngine) (order : Order) :
    PositionEffect :=
  if order.executedVolume ≤ 0 then .none
  else match e.accountMgr.getBudget e.market with
    | none => .unknown
    | some budget =>
      match order.position with
      | .bid => .opened
      | .ask => if cfg.account.coinEpsilon ≤ budget.coinBalance then .reduced else .closed

/-- The token of the active buy is finalised; its destruction does nothing then. -/
def finalizeBuyToken_ (cfg : AppConfig ℚ) (e : MarketEngine) (orderUuid : String) : MarketEngine :=
  match e.activeBuyToken with
  | none => e
  | some token =>
    if e.activeBuyOrderUuid = "" ∨ e.activeBuyOrderUuid ≠ orderUuid then e
    else
      { e with
        accountMgr := (e.accountMgr.finalizeOrder cfg.account token).2
        activeBuyToken := none
        activeBuyOrderUuid := "" }

def finalizeSell (cfg : AppConfig ℚ) (e : MarketEngine) : MarketEngine :=
  let mark := if 0 < e.lastMarkPrice then some e.lastMarkPrice else none
  { e with
    accountMgr := e.accountMgr.finalizeSellOrder cfg.account e.market mark
    activeSellOrderUuid := "" }

/-- The active order's token or uuid is given up. -/
def settleClose (cfg : AppConfig ℚ) (e : MarketEngine) (o : Order) : MarketEngine :=
  match o.position with
  | .bid => if o.id = e.activeBuyOrderUuid then e.finalizeBuyToken_ cfg o.id else e
  | .ask => if o.id = e.activeSellOrderUuid then e.finalizeSell cfg else e

/-- The status event of a closed order, when it has an identifier. -/
def statusEvents (cfg : AppConfig ℚ) (e : MarketEngine) (o : Order) : List EngineEvent :=
  match o.identifier with
  | some id =>
    if id = "" then []
    else [.status
      { identifier := id
        orderUuid := o.id
        status := o.status
        position := o.position
        executedVolume := o.executedVolume
        remainingVolume := o.remainingVolume
        executedFunds := o.executedFunds
        positionEffect := e.resolvePositionEffect_ cfg o }]
  | none => []

def closeOrder (cfg : AppConfig ℚ) (e : MarketEngine) (o : Order) : MarketEngine :=
  let closed := e.settleClose cfg o
  { closed with events := closed.events ++ closed.statusEvents cfg o }

/-- Whether the engine takes a message of this market. -/
def forMarket (e : MarketEngine) (market : String) : Prop := market = "" ∨ market = e.market

instance (e : MarketEngine) (market : String) : Decidable (e.forMarket market) :=
  inferInstanceAs (Decidable (_ ∨ _))

def onOrderSnapshot (cfg : AppConfig ℚ) (e : MarketEngine) (snapshot : Order) : MarketEngine :=
  if ¬ e.forMarket snapshot.market then e
  else match e.store.get snapshot.id with
    | none => e
    | some old =>
      let o := mergeSnapshot old snapshot
      match e.store.update o with
      | (_, false) => e
      | (store, true) =>
        let updated := { e with store := store }
        if o.status.isTerminal then
          let closed := if o.status ≠ old.status then updated.closeOrder cfg o else updated
          { closed with store := closed.store.erase o.id }
        else updated

/-- The part of the snapshot that is not settled yet; none where it must not be settled. -/
def settleDelta (e : MarketEngine) (prev snapshot : Order) : Option MarketEngine :=
  let deltaVolume := max 0 (snapshot.executedVolume - prev.executedVolume)
  let deltaFunds := max 0 (snapshot.executedFunds - prev.executedFunds)
  let deltaPaidFee := max 0 (snapshot.paidFee - prev.paidFee)
  if deltaVolume ≤ 0 then some e
  else if deltaFunds ≤ 0 then none
  else match snapshot.position with
    | .bid =>
      if e.activeBuyToken.isNone ∨ e.activeBuyOrderUuid ≠ snapshot.id then none
      else if deltaFunds / deltaVolume ≤ 0 then none
      else some (e.settleBuy snapshot.id (deltaFunds + deltaPaidFee) deltaVolume
        (deltaFunds / deltaVolume))
    | .ask =>
      if e.activeSellOrderUuid ≠ snapshot.id then none
      else some (e.settleSell deltaVolume (max 0 (deltaFunds - deltaPaidFee)))

def reconcileFromSnapshot (cfg : AppConfig ℚ) (e : MarketEngine) (snapshot : Order) :
    Bool × MarketEngine :=
  if ¬ e.forMarket snapshot.market then (false, e)
  else match e.store.get snapshot.id with
    | none => (false, e)
    | some prev =>
      match e.settleDelta prev snapshot with
      | none => (false, e)
      | some settled => (true, settled.onOrderSnapshot cfg snapshot)

def pollEvents (e : MarketEngine) : List EngineEvent × MarketEngine :=
  (e.events, { e with events := [] })

def activePendingIds (e : MarketEngine) : String × String :=
  (e.activeBuyOrderUuid, e.activeSellOrderUuid)

def setMarkPrice (e : MarketEngine) (p : Price) : MarketEngine := { e with lastMarkPrice := p }

end MarketEngine

/-! Runs of one engine. -/

/-- A message about an order, as the manager hands it to the engine. -/
inductive Message where
  | trade (t : MyTrade)
  | snapshot (o : Order)
  | reconcile (o : Order)

/-- A call on the engine. The answer of `postOrder` is part of a submission. -/
inductive EngineCall where
  | submit (req : OrderRequest ℚ) (reply : Except RestError String)
  | message (msg : Message)
  | setMarkPrice (p : Price)
  | pollEvents

namespace MarketEngine

def deliver (cfg : AppConfig ℚ) (e : MarketEngine) : Message → MarketEngine
  | .trade t => e.onMyTrade cfg t
  | .snapshot o => e.onOrderSnapshot cfg o
  | .reconcile o => (e.reconcileFromSnapshot cfg o).2

/-- `submit` when the exchange answers `reply`. -/
def submitReply (cfg : AppConfig ℚ) (e : MarketEngine) (req : OrderRequest ℚ)
    (reply : Except RestError String) : EngineResult × MarketEngine :=
  (e.submit cfg (fun _ s => (reply, s)) req ()).1

def call (cfg : AppConfig ℚ) (e : MarketEngine) : EngineCall → MarketEngine
  | .submit req reply => (e.submitReply cfg req reply).2
  | .message msg => e.deliver cfg msg
  | .setMarkPrice p => e.setMarkPrice p
  | .pollEvents => e.pollEvents.2

/-- An idle engine with 10000 KRW. -/
def idleEngine : MarketEngine where
  market := "KRW-BTC"
  store := .empty
  accountMgr :=
    { budgets := AList.singleton "KRW-BTC" { market := "KRW-BTC", availableKrw := 10000 } }

/-- A market buy for 5000 KRW. -/
def buyRequest : OrderRequest ℚ :=
  { market := "KRW-BTC", position := .bid, type := .market, size := .amount 5000,
    identifier := "buy" }

example : (idleEngine.submitReply (AppConfig.standard ℚ) buyRequest (.ok "u1")).1.success = true := by
  decide +kernel

/-! What each method does, said once. -/

/-- How far `submit` gets before the exchange is asked. -/
theorem beforePost_cases (cfg : AppConfig ℚ) (e : MarketEngine) (req : OrderRequest ℚ) :
    (∃ code message, e.beforePost cfg req = (some (.fail code message), e)) ∨
    (∃ message, e.beforePost cfg req = (some (.fail .insufficientFunds message),
      { e with accountMgr := e.accountMgr.countReserveFailure })) ∨
    (validateRequest req = none ∧ req.market = e.market ∧ req.position = .bid ∧
      e.activeBuyToken = none ∧ e.activeSellOrderUuid = "" ∧
      ∃ token mgr,
        e.accountMgr.reserve e.market (computeReserveAmount cfg req) = (some token, mgr) ∧
        e.beforePost cfg req =
          (none, { e with accountMgr := mgr, activeBuyToken := some token })) ∨
    (validateRequest req = none ∧ req.market = e.market ∧ req.position = .ask ∧
      e.activeBuyToken = none ∧ e.activeSellOrderUuid = "" ∧
      e.beforePost cfg req = (none, e)) := by
  unfold beforePost
  cases hval : validateRequest req with
  | some reason => exact .inl ⟨_, _, rfl⟩
  | none =>
    by_cases hmkt : req.market = e.market
    · cases hpos : req.position with
      | bid =>
        by_cases htok : e.activeBuyToken.isSome = true
        · simp [hmkt, htok]
        · by_cases hsell : e.activeSellOrderUuid = ""
          · rcases AccountManager.reserve_cases e.accountMgr e.market
              (computeReserveAmount cfg req) with hfail | ⟨-, token, -, -, -, -, -, -, -, -, hok⟩
            · simp [hmkt, htok, hsell, hfail]
            · right; right; left
              refine ⟨rfl, hmkt, rfl, by simpa using htok, hsell, token, _, hok, ?_⟩
              simp [hmkt, htok, hsell, hok]
          · simp [hmkt, htok, hsell]
      | ask =>
        by_cases hsell : e.activeSellOrderUuid = ""
        · by_cases htok : e.activeBuyToken.isSome = true
          · simp [hmkt, htok, hsell]
          · right; right; right
            refine ⟨rfl, hmkt, rfl, by simpa using htok, hsell, ?_⟩
            simp [hmkt, htok, hsell]
        · simp [hmkt, hsell]
    · simp [hmkt]

theorem get_afterPost (e : MarketEngine) (req : OrderRequest ℚ) {uuid : String} (hne : uuid ≠ "")
    (id : String) :
    (e.afterPost req (.ok uuid)).2.store.get id =
      if id = uuid then some (pendingOrder req uuid) else e.store.get id := by
  have hid : (pendingOrder req uuid).id ≠ "" := hne
  have hstore : (e.afterPost req (.ok uuid)).2.store = e.store.put (pendingOrder req uuid) hid := by
    unfold afterPost
    cases req.position with
    | bid => exact OrderStore.upsert_eq hid
    | ask => exact OrderStore.upsert_eq hid
  rw [hstore]
  by_cases heq : id = uuid
  · rw [if_pos heq, heq]
    exact OrderStore.get_put_self e.store (pendingOrder req uuid) hid
  · rw [if_neg heq]
    exact OrderStore.get_put_ne e.store (pendingOrder req uuid) hid heq

theorem afterPost_frame (e : MarketEngine) (req : OrderRequest ℚ) (uuid : String) :
    (e.afterPost req (.ok uuid)).2.market = e.market ∧
    (e.afterPost req (.ok uuid)).2.accountMgr = e.accountMgr ∧
    (e.afterPost req (.ok uuid)).2.activeBuyToken = e.activeBuyToken ∧
    (e.afterPost req (.ok uuid)).2.events = e.events ∧
    (e.afterPost req (.ok uuid)).2.seenTradeUuids = e.seenTradeUuids ∧
    (e.afterPost req (.ok uuid)).2.lastMarkPrice = e.lastMarkPrice := by
  unfold afterPost
  cases req.position with
  | bid => exact ⟨rfl, rfl, rfl, rfl, rfl, rfl⟩
  | ask => exact ⟨rfl, rfl, rfl, rfl, rfl, rfl⟩

/-- What an accepted submission was: of an idle engine, for its market, with a buy's KRW
    reserved. -/
theorem submitReply_accepted {cfg : AppConfig ℚ} {e : MarketEngine} {req : OrderRequest ℚ}
    {uuid : String} (hok : (e.submitReply cfg req (.ok uuid)).1.success = true) :
    req.market = e.market ∧ e.activeBuyToken = none ∧ e.activeSellOrderUuid = "" ∧
    ∃ token mgr,
      (e.submitReply cfg req (.ok uuid)).2 =
        (afterPost { e with accountMgr := mgr, activeBuyToken := token } req (.ok uuid)).2 ∧
      match req.position with
      | .bid => ∃ b t, token = some t ∧ e.accountMgr.getBudget e.market = some b ∧
          0 < computeReserveAmount cfg req ∧ t.market = e.market ∧ t.active = true ∧
          t.remaining = computeReserveAmount cfg req ∧
          mgr = (e.accountMgr.modifyBudget e.market
            (·.hold (computeReserveAmount cfg req))).countReserve
      | .ask => token = none ∧ mgr = e.accountMgr := by
  unfold submitReply submit at hok ⊢
  rcases e.beforePost_cases cfg req with ⟨code, message, hfail⟩ | ⟨message, hfail⟩ |
    ⟨-, hmkt, hpos, htok, hsell, token, mgr, hreserve, hbuy⟩ | ⟨-, hmkt, hpos, htok, hsell, hask⟩
  · rw [hfail] at hok
    exact absurd hok (by simp [EngineResult.fail])
  · rw [hfail] at hok
    exact absurd hok (by simp [EngineResult.fail])
  · refine ⟨hmkt, htok, hsell, some token, mgr, by rw [hbuy], ?_⟩
    rw [hpos]
    rcases AccountManager.reserve_cases e.accountMgr e.market (computeReserveAmount cfg req) with
      hnone | ⟨b, t, hb, hkrw, -, -, htmkt, hamount, hconsumed, hact, hheld⟩
    · rw [hnone] at hreserve
      exact absurd hreserve (by simp)
    · rw [hheld] at hreserve
      obtain ⟨htoken, rfl⟩ := Prod.mk.inj hreserve
      have hrem : t.remaining = computeReserveAmount cfg req := by
        rw [ReservationToken.remaining, hamount, hconsumed, sub_zero]
      exact ⟨b, t, htoken.symm, hb, hkrw, htmkt, hact, hrem, rfl⟩
  · refine ⟨hmkt, htok, hsell, none, e.accountMgr, by rw [hask, ← htok], ?_⟩
    rw [hpos]
    exact ⟨rfl, rfl⟩

/-- A trade is dropped, or settled after its fill event. -/
theorem onMyTrade_cases (cfg : AppConfig ℚ) (e : MarketEngine) (t : MyTrade) :
    ∃ seen fifo,
      e.onMyTrade cfg t = { e with seenTradeUuids := seen, seenTradeUuidFifo := fifo } ∨
      ∃ ord, t.market = e.market ∧ e.store.get t.orderUuid = some ord ∧
        e.onMyTrade cfg t =
          { e with
            seenTradeUuids := seen
            seenTradeUuidFifo := fifo
            events := e.events ++ fillEvents t ord }.settleTrade t := by
  unfold onMyTrade markTradeOnce
  by_cases hmkt : t.market = e.market
  · by_cases hempty : makeTradeDedupeKey_ t = ""
    · exact ⟨e.seenTradeUuids, e.seenTradeUuidFifo, .inl (by simp [hmkt, hempty])⟩
    · by_cases hseen : makeTradeDedupeKey_ t ∈ e.seenTradeUuids
      · exact ⟨e.seenTradeUuids, e.seenTradeUuidFifo, .inl (by simp [hmkt, hempty, hseen])⟩
      · simp only [hmkt, hempty, hseen, ne_eq, not_true_eq_false, if_false]
        cases hget : e.store.get t.orderUuid with
        | none => exact ⟨_, _, .inl rfl⟩
        | some ord => exact ⟨_, _, .inr ⟨ord, trivial, rfl, rfl⟩⟩
  · exact ⟨e.seenTradeUuids, e.seenTradeUuidFifo, .inl (by simp [hmkt])⟩

@[simp] theorem id_mergeSnapshot (o s : Order) : (mergeSnapshot o s).id = o.id := rfl

@[simp] theorem status_mergeSnapshot (o s : Order) : (mergeSnapshot o s).status = s.status := rfl

@[simp] theorem position_mergeSnapshot (o s : Order) :
    (mergeSnapshot o s).position = s.position := rfl

theorem onOrderSnapshot_known (cfg : AppConfig ℚ) {e : MarketEngine} {s old : Order}
    (hm : e.forMarket s.market) (hget : e.store.get s.id = some old) :
    ∃ hid : (mergeSnapshot old s).id ≠ "",
      e.onOrderSnapshot cfg s =
        if s.status.isTerminal then
          let updated := { e with store := e.store.put (mergeSnapshot old s) hid }
          let closed :=
            if s.status ≠ old.status then updated.closeOrder cfg (mergeSnapshot old s) else updated
          { closed with store := closed.store.erase s.id }
        else { e with store := e.store.put (mergeSnapshot old s) hid } := by
  have hold : old.id = s.id := OrderStore.id_of_get hget
  have hmerged : e.store.get (mergeSnapshot old s).id = some old := by
    rw [id_mergeSnapshot, hold, hget]
  refine ⟨e.store.ne_of_get hmerged, ?_⟩
  simp only [onOrderSnapshot, hm, not_true_eq_false, if_false, hget, OrderStore.update_eq hmerged,
    status_mergeSnapshot, id_mergeSnapshot, hold]
  rfl

theorem onOrderSnapshot_skip {cfg : AppConfig ℚ} {e : MarketEngine} {s : Order}
    (h : ¬ e.forMarket s.market ∨ e.store.get s.id = none) : e.onOrderSnapshot cfg s = e := by
  unfold onOrderSnapshot
  rcases h with hm | hget
  · rw [if_pos hm]
  · split
    · rfl
    · rw [hget]

/-- A buy is settled against the token of its order, or not at all. -/
theorem settleBuy_cases (e : MarketEngine) (orderUuid : String) (krw coin price : ℚ) :
    e.settleBuy orderUuid krw coin price = e ∨
    ∃ token, e.activeBuyToken = some token ∧ e.activeBuyOrderUuid = orderUuid ∧
      e.settleBuy orderUuid krw coin price =
        { e with
          activeBuyToken := some (e.accountMgr.finalizeFillBuy token krw coin price).1
          accountMgr := (e.accountMgr.finalizeFillBuy token krw coin price).2 } := by
  unfold settleBuy
  cases htok : e.activeBuyToken with
  | none => exact .inl rfl
  | some token =>
    by_cases hid : e.activeBuyOrderUuid = orderUuid
    · exact .inr ⟨token, rfl, hid, by simp only [hid, if_true]⟩
    · exact .inl (by simp only [hid, if_false])

theorem settleDelta_cases {e e' : MarketEngine} {prev s : Order}
    (h : e.settleDelta prev s = some e') :
    e' = e ∨ (∃ krw coin price, e' = e.settleBuy s.id krw coin price) ∨
      ∃ coin krw, e' = e.settleSell coin krw := by
  unfold settleDelta at h
  simp only at h
  split at h
  · exact .inl (Option.some.inj h).symm
  · split at h
    · exact absurd h (by simp)
    · split at h
      · split at h
        · exact absurd h (by simp)
        · split at h
          · exact absurd h (by simp)
          · exact .inr (.inl ⟨_, _, _, (Option.some.inj h).symm⟩)
      · split at h
        · exact absurd h (by simp)
        · exact .inr (.inr ⟨_, _, (Option.some.inj h).symm⟩)

/-- A reconciliation is refused, or settles the delta and takes the snapshot. -/
theorem reconcileFromSnapshot_cases (cfg : AppConfig ℚ) (e : MarketEngine) (s : Order) :
    e.reconcileFromSnapshot cfg s = (false, e) ∨
    ∃ prev settled, e.forMarket s.market ∧ e.store.get s.id = some prev ∧
      e.settleDelta prev s = some settled ∧
      e.reconcileFromSnapshot cfg s = (true, settled.onOrderSnapshot cfg s) := by
  unfold reconcileFromSnapshot
  by_cases hm : e.forMarket s.market
  · cases hget : e.store.get s.id with
    | none => simp
    | some prev =>
      cases hdelta : e.settleDelta prev s with
      | none => simp [hdelta]
      | some settled => exact .inr ⟨prev, settled, hm, rfl, hdelta, by simp [hm, hdelta]⟩
  · simp [hm]

theorem reconcileFromSnapshot_settled {cfg : AppConfig ℚ} {e settled : MarketEngine}
    {s prev : Order} (hm : e.forMarket s.market) (hget : e.store.get s.id = some prev)
    (hdelta : e.settleDelta prev s = some settled) :
    e.reconcileFromSnapshot cfg s = (true, settled.onOrderSnapshot cfg s) := by
  simp only [reconcileFromSnapshot, hm, hget, hdelta, not_true_eq_false, if_false]

/-- The uuid of the active order of a side, empty when there is none. -/
def activeUuid (e : MarketEngine) : OrderPosition → String
  | .bid => e.activeBuyOrderUuid
  | .ask => e.activeSellOrderUuid

theorem activeUuid_afterPost (e : MarketEngine) (req : OrderRequest ℚ) (uuid : String) :
    (e.afterPost req (.ok uuid)).2.activeUuid req.position = uuid := by
  unfold activeUuid afterPost
  cases req.position with
  | bid => rfl
  | ask => rfl

/-- The two engines differ at most in the ledger and in what the token has left. -/
structure OnlySettles (e e' : MarketEngine) : Prop where
  market : e'.market = e.market
  store : e'.store = e.store
  events : e'.events = e.events
  active : e'.activeUuid = e.activeUuid
  seen : e'.seenTradeUuids = e.seenTradeUuids
  mark : e'.lastMarkPrice = e.lastMarkPrice

theorem OnlySettles.refl (e : MarketEngine) : e.OnlySettles e := ⟨rfl, rfl, rfl, rfl, rfl, rfl⟩

theorem onlySettles_settleBuy (e : MarketEngine) (orderUuid : String) (krw coin price : ℚ) :
    e.OnlySettles (e.settleBuy orderUuid krw coin price) := by
  rcases e.settleBuy_cases orderUuid krw coin price with hskip | ⟨token, -, -, heq⟩
  · rw [hskip]
    exact .refl e
  · rw [heq]
    exact ⟨rfl, rfl, rfl, rfl, rfl, rfl⟩

theorem onlySettles_settleSell (e : MarketEngine) (coin krw : ℚ) :
    e.OnlySettles (e.settleSell coin krw) := ⟨rfl, rfl, rfl, rfl, rfl, rfl⟩

theorem onlySettles_settleTrade (e : MarketEngine) (t : MyTrade) :
    e.OnlySettles (e.settleTrade t) := by
  unfold settleTrade
  cases t.side with
  | bid => exact onlySettles_settleBuy e _ _ _ _
  | ask => exact onlySettles_settleSell e _ _

theorem onlySettles_settleDelta {e e' : MarketEngine} {prev s : Order}
    (h : e.settleDelta prev s = some e') : e.OnlySettles e' := by
  rcases settleDelta_cases h with rfl | ⟨krw, coin, price, rfl⟩ | ⟨coin, krw, rfl⟩
  · exact .refl e'
  · exact onlySettles_settleBuy e _ _ _ _
  · exact onlySettles_settleSell e _ _

theorem onMyTrade_frame (cfg : AppConfig ℚ) (e : MarketEngine) (t : MyTrade) :
    (e.onMyTrade cfg t).market = e.market ∧ (e.onMyTrade cfg t).store = e.store ∧
    (e.onMyTrade cfg t).activeUuid = e.activeUuid := by
  obtain ⟨seen, fifo, hskip | ⟨ord, -, -, heq⟩⟩ := e.onMyTrade_cases cfg t
  · rw [hskip]
    exact ⟨rfl, rfl, rfl⟩
  · rw [heq]
    obtain ⟨hmkt, hstore, -, hactive, -, -⟩ := onlySettles_settleTrade
      { e with seenTradeUuids := seen, seenTradeUuidFifo := fifo,
               events := e.events ++ fillEvents t ord } t
    exact ⟨hmkt, hstore, hactive⟩

theorem settleClose_bid {cfg : AppConfig ℚ} {e : MarketEngine} {o : Order}
    {token : ReservationToken} (hpos : o.position = .bid) (hid : o.id = e.activeBuyOrderUuid)
    (hne : o.id ≠ "") (htok : e.activeBuyToken = some token) :
    e.settleClose cfg o =
      { e with
        accountMgr := (e.accountMgr.finalizeOrder cfg.account token).2
        activeBuyToken := none
        activeBuyOrderUuid := "" } := by
  have hne' : e.activeBuyOrderUuid ≠ "" := hid ▸ hne
  simp [settleClose, hpos, hid, finalizeBuyToken_, htok, hne']

theorem settleClose_ask {cfg : AppConfig ℚ} {e : MarketEngine} {o : Order}
    (hpos : o.position = .ask) (hid : o.id = e.activeSellOrderUuid) :
    e.settleClose cfg o = e.finalizeSell cfg := by
  simp [settleClose, hpos, hid]

theorem settleClose_other {cfg : AppConfig ℚ} {e : MarketEngine} {o : Order}
    (hid : o.id ≠ e.activeUuid o.position) : e.settleClose cfg o = e := by
  unfold activeUuid at hid
  unfold settleClose
  cases hpos : o.position with
  | bid => simp only [hpos] at hid ⊢; exact if_neg hid
  | ask => simp only [hpos] at hid ⊢; exact if_neg hid

theorem settleClose_frame (cfg : AppConfig ℚ) (e : MarketEngine) (o : Order) :
    (e.settleClose cfg o).market = e.market ∧ (e.settleClose cfg o).store = e.store ∧
    (e.settleClose cfg o).events = e.events ∧
    (e.settleClose cfg o).seenTradeUuids = e.seenTradeUuids ∧
    (e.settleClose cfg o).seenTradeUuidFifo = e.seenTradeUuidFifo := by
  unfold settleClose finalizeBuyToken_ finalizeSell
  cases o.position with
  | bid =>
    by_cases hid : o.id = e.activeBuyOrderUuid
    · cases e.activeBuyToken with
      | none => simp [hid]
      | some token => by_cases hempty : e.activeBuyOrderUuid = "" <;> simp [hid, hempty]
    · simp [hid]
  | ask => by_cases hid : o.id = e.activeSellOrderUuid <;> simp [hid]

theorem activeUuid_settleClose (cfg : AppConfig ℚ) (e : MarketEngine) (o : Order)
    (side : OrderPosition) :
    (e.settleClose cfg o).activeUuid side = "" ∨
      (e.settleClose cfg o).activeUuid side = e.activeUuid side := by
  unfold settleClose finalizeBuyToken_ finalizeSell
  cases o.position with
  | bid =>
    by_cases hid : o.id = e.activeBuyOrderUuid
    · cases e.activeBuyToken with
      | none => simp [hid]
      | some token =>
        by_cases hempty : e.activeBuyOrderUuid = ""
        · simp [hid, hempty]
        · cases side <;> simp [hid, hempty, activeUuid]
    · simp [hid]
  | ask =>
    by_cases hid : o.id = e.activeSellOrderUuid
    · cases side <;> simp [hid, activeUuid]
    · simp [hid]

theorem activeUuid_onOrderSnapshot (cfg : AppConfig ℚ) (e : MarketEngine) (s : Order)
    (side : OrderPosition) :
    (e.onOrderSnapshot cfg s).activeUuid side = "" ∨
      (e.onOrderSnapshot cfg s).activeUuid side = e.activeUuid side := by
  by_cases hskip : ¬ e.forMarket s.market ∨ e.store.get s.id = none
  · rw [onOrderSnapshot_skip hskip]
    exact .inr rfl
  · rw [not_or, not_not] at hskip
    obtain ⟨old, hget⟩ := Option.ne_none_iff_exists'.mp hskip.2
    obtain ⟨hid, heq⟩ := onOrderSnapshot_known cfg hskip.1 hget
    have hput : ∀ store : OrderStore,
        activeUuid { e with store := store } side = e.activeUuid side := by
      intro store
      cases side <;> rfl
    rw [heq]
    split
    · simp only
      split
      · have hclose := activeUuid_settleClose cfg
          { e with store := e.store.put (mergeSnapshot old s) hid } (mergeSnapshot old s) side
        rw [hput] at hclose
        cases side <;> exact hclose
      · exact .inr (by cases side <;> rfl)
    · exact .inr (hput _)

/-- After a snapshot the store has the order as it was, merged with the snapshot, or not at all;
    the other orders are as they were. -/
theorem get_onOrderSnapshot (cfg : AppConfig ℚ) {e : MarketEngine} {s old : Order}
    (hm : e.forMarket s.market) (hget : e.store.get s.id = some old) (id : String) :
    (e.onOrderSnapshot cfg s).store.get id =
      if id = s.id then (if s.status.isTerminal then none else some (mergeSnapshot old s))
      else e.store.get id := by
  obtain ⟨hid, heq⟩ := onOrderSnapshot_known cfg hm hget
  have hold : (mergeSnapshot old s).id = s.id :=
    (id_mergeSnapshot old s).trans (OrderStore.id_of_get hget)
  rw [heq]
  by_cases hclosed : s.status.isTerminal = true
  · have hstore : ∀ e' : MarketEngine, ((if s.status ≠ old.status
        then e'.closeOrder cfg (mergeSnapshot old s) else e').store) = e'.store := by
      intro e'
      split
      · exact (settleClose_frame cfg e' _).2.1
      · rfl
    simp only [if_pos hclosed, hstore]
    by_cases hne : id = s.id
    · rw [if_pos hne, hne, OrderStore.get_erase_self]
    · rw [if_neg hne, OrderStore.get_erase_ne _ hne, OrderStore.get_put_ne _ _ _ (hold ▸ hne)]
  · simp only [if_neg hclosed]
    by_cases hne : id = s.id
    · rw [if_pos hne, hne, ← hold, OrderStore.get_put_self]
    · rw [if_neg hne, OrderStore.get_put_ne _ _ _ (hold ▸ hne)]

theorem statusEvents_named (cfg : AppConfig ℚ) (e : MarketEngine) {o : Order} {identifier : String}
    (hident : o.identifier = some identifier) (hne : identifier ≠ "") :
    e.statusEvents cfg o = [.status
      { identifier := identifier
        orderUuid := o.id
        status := o.status
        position := o.position
        executedVolume := o.executedVolume
        remainingVolume := o.remainingVolume
        executedFunds := o.executedFunds
        positionEffect := e.resolvePositionEffect_ cfg o }] := by
  simp only [statusEvents, hident, if_neg hne]

/-- A snapshot announces an order once, when it closes it. -/
theorem events_onOrderSnapshot (cfg : AppConfig ℚ) {e : MarketEngine} {s old : Order}
    (hm : e.forMarket s.market) (hget : e.store.get s.id = some old) :
    ∃ store : OrderStore, (e.onOrderSnapshot cfg s).events = e.events ++
      if s.status.isTerminal ∧ s.status ≠ old.status
      then (({ e with store := store } : MarketEngine).settleClose cfg
        (mergeSnapshot old s)).statusEvents cfg (mergeSnapshot old s) else [] := by
  obtain ⟨hid, heq⟩ := onOrderSnapshot_known cfg hm hget
  refine ⟨e.store.put (mergeSnapshot old s) hid, ?_⟩
  rw [heq]
  by_cases hclosed : s.status.isTerminal = true
  · by_cases hchange : s.status = old.status
    · simp [hchange ▸ hclosed, hchange]
    · simp only [hclosed, hchange, if_true, ne_eq, not_false_eq_true, and_self, closeOrder]
      rw [(settleClose_frame cfg _ _).2.2.1]
  · simp [hclosed]

theorem market_onOrderSnapshot (cfg : AppConfig ℚ) (e : MarketEngine) (s : Order) :
    (e.onOrderSnapshot cfg s).market = e.market := by
  by_cases hm : e.forMarket s.market
  · cases hget : e.store.get s.id with
    | none => rw [onOrderSnapshot_skip (.inr hget)]
    | some old =>
      obtain ⟨hid, heq⟩ := onOrderSnapshot_known cfg hm hget
      rw [heq]
      split
      · simp only
        split
        · exact (settleClose_frame cfg _ _).1
        · rfl
      · rfl
  · rw [onOrderSnapshot_skip (.inl hm)]

end MarketEngine
end CoinBot
