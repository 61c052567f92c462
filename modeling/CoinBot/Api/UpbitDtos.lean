import CoinBot.Api.MyOrderMapper
import CoinBot.Lib.JsonAccess

/- `api/upbit/dto`: what is read of the exchange's JSON, field by field.

   A field that is missing or null has a default, or none; a field of another type is an
   exception. What the mappers do not read is only checked here, as the source checks it
   by reading it.

   Correspondence (C++ ↔ Lean):
     `from_json(j, UpbitMyOrderDto)`                ↔ `UpbitMyOrderDto.fromJson`
     `from_json(j, OrderResponseDto)`               ↔ `OrderResponseDto.fromJson`
     `from_json(j, OrderResponseDto::ArrayOfTrade)` ↔ `ArrayOfTrade.fromJson`
     `from_json(j, CandleDto_Minute)`               ↔ `CandleDto_Minute.fromJson`
     `NLOHMANN_JSON_SERIALIZE_ENUM`                 ↔ `Side.ofJson`, `OrdState.ofJson` -/
namespace CoinBot

open Json (Data AccessError)

/-! The WebSocket. -/

def UpbitMyOrderDto.fromJson (j : Data) : Except AccessError UpbitMyOrderDto := do
  let _ ← (← j.at_ "type").getString
  let code ← (← j.at_ "code").getString
  let uuid ← (← j.at_ "uuid").getString
  let askBid ← (← j.at_ "ask_bid").getString
  let orderType ← (← j.at_ "order_type").getString
  let state ← (← j.at_ "state").getString
  let price ← j.getOr "price" Data.getDouble 0
  let volume ← j.getOr "volume" Data.getDouble 0
  let remainingVolume ← j.getOr "remaining_volume" Data.getDouble 0
  let executedVolume ← j.getOr "executed_volume" Data.getDouble 0
  let tradesCount ← j.getOr "trades_count" Data.getInt 0
  let reservedFee ← j.getOr "reserved_fee" Data.getDouble 0
  let remainingFee ← j.getOr "remaining_fee" Data.getDouble 0
  let paidFee ← j.getOr "paid_fee" Data.getDouble 0
  let locked ← j.getOr "locked" Data.getDouble 0
  let executedFunds ← j.getOr "executed_funds" Data.getDouble 0
  let tradeUuid ← j.getOption "trade_uuid" Data.getString
  let tradeFee ← j.getOption "trade_fee" Data.getDouble
  let isMaker ← j.getOption "is_maker" Data.getBool
  let identifier ← j.getOption "identifier" Data.getString
  let tradeTimestamp ← j.getOption "trade_timestamp" Data.getInt64
  let orderTimestamp ← j.getOption "order_timestamp" Data.getInt64
  let timestamp ← j.getOption "timestamp" Data.getInt64
  return {
    code, uuid, askBid, orderType, state, price, volume, remainingVolume, executedVolume,
    tradesCount, reservedFee, remainingFee, paidFee, locked, executedFunds, tradeUuid, tradeFee,
    isMaker, identifier, tradeTimestamp, orderTimestamp, timestamp }

/-! Orders over REST. -/

inductive Side where
  | bid
  | ask
  deriving DecidableEq, Repr

inductive OrdState where
  | wait
  | watch
  | done
  | cancel
  deriving DecidableEq, Repr

/-- Another value is read as the first of the enumeration. -/
def Side.ofJson : Data → Side
  | .string s => if Json.text s = "ask" then .ask else .bid
  | _ => .bid

/-- Another value is read as the first of the enumeration. -/
def OrdState.ofJson : Data → OrdState
  | .string s =>
    if Json.text s = "watch" then .watch
    else if Json.text s = "done" then .done
    else if Json.text s = "cancel" then .cancel
    else .wait
  | _ => .wait

structure ArrayOfTrade where
  market : String := ""
  uuid : String := ""
  price : String := ""
  volume : String := ""
  funds : String := ""
  trend : String := ""
  createdAt : String := ""
  side : Side := .bid
  deriving DecidableEq, Repr

/-- One order, as `/v1/order` answers. -/
structure OrderResponseDto where
  market : String
  uuid : String
  side : Side
  ordType : String
  price : Option String := none
  volume : Option String := none
  state : OrdState
  createdAt : String
  remainingVolume : Option String := none
  executedVolume : String := "0"
  executedFunds : Option String := none
  reservedFee : String := "0"
  remainingFee : String := "0"
  paidFee : String := "0"
  locked : String := "0"
  tradesCount : Int := 0
  identifier : Option String := none
  trades : List ArrayOfTrade := []
  deriving DecidableEq, Repr

/-- One of the open orders, as `/v1/orders/open` answers. -/
structure WaitOrderResponseDto where
  market : String
  uuid : String
  side : Side
  ordType : String
  price : Option String := none
  volume : Option String := none
  state : OrdState
  createdAt : String
  remainingVolume : String := "0"
  executedVolume : String := "0"
  executedFunds : String := "0"
  reservedFee : String := "0"
  remainingFee : String := "0"
  paidFee : String := "0"
  locked : String := "0"
  tradesCount : Int := 0
  identifier : Option String := none
  deriving DecidableEq, Repr

def ArrayOfTrade.fromJson (j : Data) : Except AccessError ArrayOfTrade := do
  let market ← j.getOr "market" Data.getString ""
  let uuid ← j.getOr "uuid" Data.getString ""
  let price ← j.getOr "price" Data.getString ""
  let volume ← j.getOr "volume" Data.getString ""
  let funds ← j.getOr "funds" Data.getString ""
  let trend ← j.getOr "trend" Data.getString ""
  let createdAt ← j.getOr "created_at" Data.getString ""
  let side ← j.getOr "side" (fun x => .ok (Side.ofJson x)) .bid
  return { market, uuid, price, volume, funds, trend, createdAt, side }

/-- The elements of an array. -/
def tradesOf : Data → Except AccessError (List ArrayOfTrade)
  | .array xs => xs.mapM ArrayOfTrade.fromJson
  | _ => .error (.type 302)

def OrderResponseDto.fromJson (j : Data) : Except AccessError OrderResponseDto := do
  let market ← (← j.at_ "market").getString
  let uuid ← (← j.at_ "uuid").getString
  let side ← (j.at_ "side").map Side.ofJson
  let ordType ← (← j.at_ "ord_type").getString
  let state ← (j.at_ "state").map OrdState.ofJson
  let createdAt ← (← j.at_ "created_at").getString
  let price ← j.getOption "price" Data.getString
  let volume ← j.getOption "volume" Data.getString
  let remainingVolume ← j.getOption "remaining_volume" Data.getString
  let executedVolume ← j.getOr "executed_volume" Data.getString "0"
  let executedFunds ← j.getOption "executed_funds" Data.getString
  let reservedFee ← j.getOr "reserved_fee" Data.getString "0"
  let remainingFee ← j.getOr "remaining_fee" Data.getString "0"
  let paidFee ← j.getOr "paid_fee" Data.getString "0"
  let locked ← j.getOr "locked" Data.getString "0"
  let _ ← j.getOr "prevented_volume" Data.getString "0"
  let _ ← j.getOption "prevented_locked" Data.getString
  let tradesCount ← j.getOr "trades_count" Data.getInt 0
  let identifier ← j.getOption "identifier" Data.getString
  let trades ← j.getOr "trades" tradesOf []
  return {
    market, uuid, side, ordType, price, volume, state, createdAt, remainingVolume, executedVolume,
    executedFunds, reservedFee, remainingFee, paidFee, locked, tradesCount, identifier, trades }

/-! Candles. -/

structure CandleDto_Minute where
  market : String := ""
  candleDateTimeKst : String
  openingPrice : ℚ
  highPrice : ℚ
  lowPrice : ℚ
  tradePrice : ℚ
  candleAccTradeVolume : ℚ
  deriving DecidableEq, Repr

def CandleDto_Minute.fromJson (j : Data) : Except AccessError CandleDto_Minute := do
  let market ←
    if j.contains "market" then (do (← j.at_ "market").getString)
    else if j.contains "code" then (do (← j.at_ "code").getString)
    else .ok ""
  let openingPrice ← (← j.at_ "opening_price").getDouble
  let highPrice ← (← j.at_ "high_price").getDouble
  let lowPrice ← (← j.at_ "low_price").getDouble
  let tradePrice ← (← j.at_ "trade_price").getDouble
  let candleAccTradeVolume ← (← j.at_ "candle_acc_trade_volume").getDouble
  let candleDateTimeKst ← (← j.at_ "candle_date_time_kst").getString
  return {
    market, candleDateTimeKst, openingPrice, highPrice, lowPrice, tradePrice,
    candleAccTradeVolume }

end CoinBot
