import CoinBot.Core.Domain

/- `api/upbit/mappers/MyOrderMapper`: what an order message of the WebSocket means.

   Correspondence (C++ ↔ Lean):
     `std::variant<core::Order, core::MyTrade>` ↔ `MyOrderEvent`
     `std::to_string(*d.order_timestamp)`       ↔ `toString` -/
namespace CoinBot

/-- `UpbitMyOrderDto`. Price and volume are those of the trade when the state is `trade`. -/
structure UpbitMyOrderDto where
  code : String
  uuid : String
  askBid : String
  orderType : String
  state : String
  price : ℚ := 0
  volume : ℚ := 0
  remainingVolume : ℚ := 0
  executedVolume : ℚ := 0
  tradesCount : Int := 0
  reservedFee : ℚ := 0
  remainingFee : ℚ := 0
  paidFee : ℚ := 0
  locked : ℚ := 0
  executedFunds : ℚ := 0
  tradeUuid : Option String := none
  tradeFee : Option ℚ := none
  isMaker : Option Bool := none
  identifier : Option String := none
  tradeTimestamp : Option Int := none
  orderTimestamp : Option Int := none
  timestamp : Option Int := none
  deriving DecidableEq, Repr

inductive MyOrderEvent where
  | order (o : Order)
  | trade (t : MyTrade)
  deriving DecidableEq, Repr

namespace MyOrderMapper

def toSide (askBid : String) : OrderPosition := if askBid = "ASK" then .ask else .bid

def toOrderType (orderType : String) : OrderType :=
  if orderType = "limit" ∨ orderType = "best" then .limit else .market

/-- A trade does not close the order, whatever it leaves. -/
def toOrderStatus (state : String) : OrderStatus :=
  if state = "wait" then .open_
  else if state = "watch" then .pending
  else if state = "trade" then .open_
  else if state = "done" then .filled
  else if state = "cancel" then .canceled
  else if state = "prevented" then .canceled
  else .rejected

/-- The trade of a message with this trade uuid. A fee that is missing is estimated. -/
def toTrade (cfg : AppConfig ℚ) (d : UpbitMyOrderDto) (tradeUuid : String) : MyTrade :=
  let executedFunds := d.price * d.volume
  { orderUuid := d.uuid
    tradeUuid := tradeUuid
    market := d.code
    side := toSide d.askBid
    price := d.price
    volume := d.volume
    executedFunds := executedFunds
    fee := match d.tradeFee with
      | some fee => fee
      | none => executedFunds * cfg.engine.defaultTradeFeeRate
    isMaker := d.isMaker
    identifier := d.identifier
    tradeTimestampMs := d.tradeTimestamp.getD 0 }

/-- The snapshot of a message. The state `trade` gives no price, volume or amount of the
    request: its fields are those of the trade. -/
def toOrder (d : UpbitMyOrderDto) : Order :=
  let type := toOrderType d.orderType
  let position := toSide d.askBid
  let requested := d.state ≠ "trade"
  { market := d.code
    id := d.uuid
    position := position
    type := type
    status := toOrderStatus d.state
    identifier := d.identifier
    createdAt := match d.orderTimestamp, d.timestamp with
      | some ts, _ => toString ts
      | none, some ts => toString ts
      | none, none => ""
    price := if requested ∧ type = .limit then some d.price else none
    volume := if requested ∧ (type = .limit ∨ position = .ask) then some d.volume else none
    requestedAmount := if requested ∧ type = .market ∧ position = .bid then some d.price else none
    executedVolume := d.executedVolume
    remainingVolume := d.remainingVolume
    tradesCount := d.tradesCount
    reservedFee := d.reservedFee
    remainingFee := d.remainingFee
    paidFee := d.paidFee
    locked := d.locked
    executedFunds := d.executedFunds }

/-- The trade, if the message is one and names it, then the snapshot. -/
def toEvents (cfg : AppConfig ℚ) (d : UpbitMyOrderDto) : List MyOrderEvent :=
  match d.tradeUuid with
  | some tradeUuid =>
    if d.state = "trade" then [.trade (toTrade cfg d tradeUuid), .order (toOrder d)]
    else [.order (toOrder d)]
  | none => [.order (toOrder d)]

/-! What a message amounts to. -/

theorem toEvents_trade (cfg : AppConfig ℚ) {d : UpbitMyOrderDto} {tradeUuid : String}
    (hstate : d.state = "trade") (huuid : d.tradeUuid = some tradeUuid) :
    toEvents cfg d = [.trade (toTrade cfg d tradeUuid), .order (toOrder d)] := by
  simp only [toEvents, huuid, hstate, if_true]

theorem toEvents_plain (cfg : AppConfig ℚ) {d : UpbitMyOrderDto}
    (h : d.state ≠ "trade" ∨ d.tradeUuid = none) : toEvents cfg d = [.order (toOrder d)] := by
  unfold toEvents
  cases huuid : d.tradeUuid with
  | none => rfl
  | some tradeUuid =>
    have hstate : d.state ≠ "trade" := by
      rcases h with hstate | hnone
      · exact hstate
      · rw [huuid] at hnone
        cases hnone
    exact if_neg hstate

theorem order_mem_toEvents {cfg : AppConfig ℚ} {d : UpbitMyOrderDto} {o : Order}
    (h : .order o ∈ toEvents cfg d) : o = toOrder d := by
  unfold toEvents at h
  split at h
  · split at h <;> simpa using h
  · simpa using h

/-- Only a message that does not report a trade closes an order. -/
theorem isTerminal_toOrder (d : UpbitMyOrderDto) :
    (toOrder d).status.isTerminal = true ↔
      d.state ≠ "wait" ∧ d.state ≠ "watch" ∧ d.state ≠ "trade" := by
  show (toOrderStatus d.state).isTerminal = true ↔ _
  unfold toOrderStatus
  by_cases hwait : d.state = "wait"
  · simp [hwait, OrderStatus.isTerminal]
  · by_cases hwatch : d.state = "watch"
    · simp [hwatch, OrderStatus.isTerminal]
    · by_cases htrade : d.state = "trade"
      · simp [htrade, OrderStatus.isTerminal]
      · simp only [hwait, hwatch, htrade, if_false, ne_eq, not_false_eq_true, and_self, iff_true]
        split
        · rfl
        · split
          · rfl
          · split <;> rfl

end MyOrderMapper
end CoinBot
