import CoinBot.Api.OpenOrdersMapper

/- The mappers of the WebSocket and of REST agree.

   `ExchangeOrder` is an order as the exchange has it, of a kind the bot can submit. A
   document of either channel may leave out a zero; a REST answer may leave the funds and
   the count of the trades to its list of trades. What is read of either is `order`, apart
   from the time of creation, which the channels write differently (`mappers_agree`). -/
namespace CoinBot

open Json (Data NumberIs TextIs TextOrZero utf8)

/-! An order of the exchange. -/

inductive OrderKind where
  | limit (side : Side) (price volume : ℚ)
  | marketBid (amount : ℚ)
  | marketAsk (volume : ℚ)

namespace OrderKind

def side : OrderKind → Side
  | .limit side _ _ => side
  | .marketBid _ => .bid
  | .marketAsk _ => .ask

def ordType : OrderKind → String
  | .limit _ _ _ => "limit"
  | .marketBid _ => "price"
  | .marketAsk _ => "market"

/-- The field `price`, which is the amount of a market buy. -/
def priceField : OrderKind → Option ℚ
  | .limit _ price _ => some price
  | .marketBid amount => some amount
  | .marketAsk _ => none

def volumeField : OrderKind → Option ℚ
  | .limit _ _ volume => some volume
  | .marketBid _ => none
  | .marketAsk volume => some volume

def type : OrderKind → OrderType
  | .limit _ _ _ => .limit
  | .marketBid _ => .market
  | .marketAsk _ => .market

def price : OrderKind → Option ℚ
  | .limit _ price _ => some price
  | .marketBid _ => none
  | .marketAsk _ => none

def requestedAmount : OrderKind → Option ℚ
  | .limit _ _ _ => none
  | .marketBid amount => some amount
  | .marketAsk _ => none

end OrderKind

def Side.position : Side → OrderPosition
  | .bid => .bid
  | .ask => .ask

def Side.lower : Side → String
  | .bid => "bid"
  | .ask => "ask"

def Side.upper : Side → String
  | .bid => "BID"
  | .ask => "ASK"

def OrdState.name : OrdState → String
  | .wait => "wait"
  | .watch => "watch"
  | .done => "done"
  | .cancel => "cancel"

def OrdState.status : OrdState → OrderStatus
  | .wait => .open_
  | .watch => .pending
  | .done => .filled
  | .cancel => .canceled

structure ExchangeOrder where
  market : String
  uuid : String
  identifier : Option String
  kind : OrderKind
  state : OrdState
  executedVolume : ℚ
  executedFunds : ℚ
  remainingVolume : ℚ
  tradesCount : Int
  reservedFee : ℚ
  remainingFee : ℚ
  paidFee : ℚ
  locked : ℚ

namespace ExchangeOrder

variable (x : ExchangeOrder)

/-- What the bot should make of it. -/
def order (createdAt : String) : Order where
  market := x.market
  identifier := x.identifier
  id := x.uuid
  position := x.kind.side.position
  type := x.kind.type
  price := x.kind.price
  volume := x.kind.volumeField
  requestedAmount := x.kind.requestedAmount
  executedVolume := x.executedVolume
  remainingVolume := x.remainingVolume
  tradesCount := x.tradesCount
  reservedFee := x.reservedFee
  paidFee := x.paidFee
  remainingFee := x.remainingFee
  locked := x.locked
  executedFunds := x.executedFunds
  status := x.state.status
  createdAt := createdAt

/-- A document of the WebSocket about the order, which reports no trade. -/
structure MyOrderDocument (j : Data) : Prop where
  type : ∃ s, j.find (utf8 "type") = some (.string s)
  code : j.find (utf8 "code") = some (.string (utf8 x.market))
  uuid : j.find (utf8 "uuid") = some (.string (utf8 x.uuid))
  askBid : j.find (utf8 "ask_bid") = some (.string (utf8 x.kind.side.upper))
  orderType : j.find (utf8 "order_type") = some (.string (utf8 x.kind.ordType))
  state : j.find (utf8 "state") = some (.string (utf8 x.state.name))
  price : NumberIs (x.kind.priceField.getD 0) (j.nonNull "price")
  volume : NumberIs (x.kind.volumeField.getD 0) (j.nonNull "volume")
  remainingVolume : NumberIs x.remainingVolume (j.nonNull "remaining_volume")
  executedVolume : NumberIs x.executedVolume (j.nonNull "executed_volume")
  tradesCount : NumberIs x.tradesCount (j.nonNull "trades_count")
  reservedFee : NumberIs x.reservedFee (j.nonNull "reserved_fee")
  remainingFee : NumberIs x.remainingFee (j.nonNull "remaining_fee")
  paidFee : NumberIs x.paidFee (j.nonNull "paid_fee")
  locked : NumberIs x.locked (j.nonNull "locked")
  executedFunds : NumberIs x.executedFunds (j.nonNull "executed_funds")
  tradeUuid : ∃ v, j.getOption "trade_uuid" Data.getString = .ok v
  tradeFee : ∃ v, j.getOption "trade_fee" Data.getDouble = .ok v
  isMaker : ∃ v, j.getOption "is_maker" Data.getBool = .ok v
  identifier : j.nonNull "identifier" = x.identifier.map fun s => .string (utf8 s)
  tradeTimestamp : ∃ v, j.getOption "trade_timestamp" Data.getInt64 = .ok v
  orderTimestamp : ∃ v, j.getOption "order_timestamp" Data.getInt64 = .ok v
  timestamp : ∃ v, j.getOption "timestamp" Data.getInt64 = .ok v

/-- The answer of `/v1/order` about the order, with these trades. -/
structure OrderDocument (trades : List ArrayOfTrade) (j : Data) : Prop where
  market : j.find (utf8 "market") = some (.string (utf8 x.market))
  uuid : j.find (utf8 "uuid") = some (.string (utf8 x.uuid))
  side : j.find (utf8 "side") = some (.string (utf8 x.kind.side.lower))
  ordType : j.find (utf8 "ord_type") = some (.string (utf8 x.kind.ordType))
  state : j.find (utf8 "state") = some (.string (utf8 x.state.name))
  createdAt : ∃ s, j.find (utf8 "created_at") = some (.string s)
  price : match x.kind.priceField with
    | some v => TextIs v (j.nonNull "price")
    | none => j.nonNull "price" = none
  volume : match x.kind.volumeField with
    | some v => TextIs v (j.nonNull "volume")
    | none => j.nonNull "volume" = none
  remainingVolume : TextOrZero x.remainingVolume (j.nonNull "remaining_volume")
  executedVolume : TextOrZero x.executedVolume (j.nonNull "executed_volume")
  -- The funds are there, or the trades add up to them.
  executedFunds : TextIs x.executedFunds (j.nonNull "executed_funds") ∨
    j.nonNull "executed_funds" = none ∧ ∃ funds : List ℚ,
      List.Forall₂ (fun t v => Decimal.parse t.funds.toList = some v) trades funds ∧
      funds.sum = x.executedFunds
  reservedFee : TextOrZero x.reservedFee (j.nonNull "reserved_fee")
  remainingFee : TextOrZero x.remainingFee (j.nonNull "remaining_fee")
  paidFee : TextOrZero x.paidFee (j.nonNull "paid_fee")
  locked : TextOrZero x.locked (j.nonNull "locked")
  preventedVolume : ∃ v, j.getOr "prevented_volume" Data.getString "0" = .ok v
  preventedLocked : ∃ v, j.getOption "prevented_locked" Data.getString = .ok v
  identifier : j.nonNull "identifier" = x.identifier.map fun s => .string (utf8 s)
  tradesRead : j.getOr "trades" tradesOf [] = .ok trades
  -- The count is there, or it is zero and the list has the true length.
  tradesCount : ∃ n : Int, NumberIs n (j.nonNull "trades_count") ∧
    (n = x.tradesCount ∧ n ≠ 0 ∨ n = 0 ∧ trades.length = x.tradesCount)

end ExchangeOrder

/-! Reading the words. -/

open MyOrderMapper OpenOrdersMapper

theorem toSide_upper (side : Side) : toSide side.upper = side.position := by
  cases side <;> decide

theorem toDomainPosition_eq (side : Side) : toDomainPosition side = side.position := by
  cases side <;> rfl

theorem ofJson_lower (side : Side) : Side.ofJson (.string (utf8 side.lower)) = side := by
  rw [Side.ofJson, Json.text_utf8]
  cases side <;> decide

theorem ofJson_name (state : OrdState) : OrdState.ofJson (.string (utf8 state.name)) = state := by
  rw [OrdState.ofJson, Json.text_utf8]
  cases state <;> decide

theorem name_ne_trade (state : OrdState) : state.name ≠ "trade" := by
  cases state <;> decide

theorem toOrderStatus_name (state : OrdState) : toOrderStatus state.name = state.status := by
  cases state <;> decide

theorem toDomainStatus_eq (state : OrdState) : toDomainStatus state = state.status := by
  cases state <;> rfl

theorem toOrderType_ordType (kind : OrderKind) : toOrderType kind.ordType = kind.type := by
  cases kind <;> exact rfl

theorem toDomainOrderType_ordType (kind : OrderKind) :
    toDomainOrderType kind.ordType = kind.type := toOrderType_ordType kind

theorem if_byType (kind : OrderKind) :
    (if kind.type = .limit then some (kind.priceField.getD 0) else none) = kind.price ∧
      (if kind.type = .limit ∨ kind.side.position = .ask then some (kind.volumeField.getD 0)
        else none) = kind.volumeField ∧
      (if kind.type = .market ∧ kind.side.position = .bid then some (kind.priceField.getD 0)
        else none) = kind.requestedAmount := by
  cases kind with
  | limit side price volume => exact ⟨rfl, rfl, rfl⟩
  | marketBid amount => exact ⟨rfl, rfl, rfl⟩
  | marketAsk volume => exact ⟨rfl, rfl, rfl⟩

theorem if_isTotal (kind : OrderKind) :
    (if kind.ordType = "price" then none else kind.priceField) = kind.price ∧
      (if kind.ordType = "price" then none else kind.volumeField) = kind.volumeField ∧
      (if kind.ordType = "price" then kind.priceField else none) = kind.requestedAmount := by
  cases kind with
  | limit side price volume => exact ⟨rfl, rfl, rfl⟩
  | marketBid amount => exact ⟨rfl, rfl, rfl⟩
  | marketAsk volume => exact ⟨rfl, rfl, rfl⟩

namespace ExchangeOrder

variable {x : ExchangeOrder} {j : Data} {trades : List ArrayOfTrade} {v : ℚ}
  (strtod : String → Option ℚ)

theorem MyOrderDocument.read (h : x.MyOrderDocument j) :
    ∃ d, UpbitMyOrderDto.fromJson j = .ok d ∧ d.state ≠ "trade" ∧
      toOrder d = x.order (toOrder d).createdAt := by
  obtain ⟨type, htype⟩ := h.type
  obtain ⟨tradeUuid, htradeUuid⟩ := h.tradeUuid
  obtain ⟨tradeFee, htradeFee⟩ := h.tradeFee
  obtain ⟨isMaker, hisMaker⟩ := h.isMaker
  obtain ⟨tradeTimestamp, htradeTimestamp⟩ := h.tradeTimestamp
  obtain ⟨orderTimestamp, horderTimestamp⟩ := h.orderTimestamp
  obtain ⟨timestamp, htimestamp⟩ := h.timestamp
  refine ⟨{ code := x.market, uuid := x.uuid, askBid := x.kind.side.upper,
            orderType := x.kind.ordType, state := x.state.name,
            price := x.kind.priceField.getD 0, volume := x.kind.volumeField.getD 0,
            remainingVolume := x.remainingVolume, executedVolume := x.executedVolume,
            tradesCount := x.tradesCount, reservedFee := x.reservedFee,
            remainingFee := x.remainingFee, paidFee := x.paidFee, locked := x.locked,
            executedFunds := x.executedFunds, tradeUuid := tradeUuid, tradeFee := tradeFee,
            isMaker := isMaker, identifier := x.identifier, tradeTimestamp := tradeTimestamp,
            orderTimestamp := orderTimestamp, timestamp := timestamp }, ?_, ?_, ?_⟩
  · simp only [UpbitMyOrderDto.fromJson, Data.at_of_find htype, Data.at_of_find h.code,
      Data.at_of_find h.uuid, Data.at_of_find h.askBid, Data.at_of_find h.orderType,
      Data.at_of_find h.state, Data.getOr_number h.price, Data.getOr_number h.volume,
      Data.getOr_number h.remainingVolume, Data.getOr_number h.executedVolume,
      Data.getOr_count h.tradesCount,
      Data.getOr_number h.reservedFee, Data.getOr_number h.remainingFee,
      Data.getOr_number h.paidFee, Data.getOr_number h.locked, Data.getOr_number h.executedFunds,
      htradeUuid, htradeFee, hisMaker, Data.getOption_string h.identifier, htradeTimestamp,
      horderTimestamp, htimestamp, Data.getString,
      Json.text_utf8, bind, Except.bind, pure, Except.pure]
  · exact name_ne_trade x.state
  · have htype' := toOrderType_ordType x.kind
    have hside := toSide_upper x.kind.side
    have hstatus := toOrderStatus_name x.state
    have hname := name_ne_trade x.state
    simp only [toOrder, order, htype', hside, hstatus, hname, ne_eq, not_false_eq_true, true_and,
      if_byType x.kind]

theorem read_optional {name : String} {field : Option ℚ}
    (h : match field with
      | some v => TextIs v (j.nonNull name)
      | none => j.nonNull name = none) :
    ∃ read, j.getOption name Data.getString = .ok read ∧ parseOptDouble strtod read = field := by
  cases field with
  | none =>
    refine ⟨none, ?_, rfl⟩
    rw [Data.getOption, h]
  | some v =>
    obtain ⟨t, hread, ht⟩ := Data.getOption_text h
    exact ⟨some t, hread, congrArg some (parseDoubleOr_of_parse strtod 0 ht)⟩

theorem read_orZero {name : String} (h : TextOrZero v (j.nonNull name)) :
    ∃ t, j.getOr name Data.getString "0" = .ok t ∧ parseDoubleOr strtod t 0 = v := by
  obtain ⟨t, hread, ht⟩ := Data.getOr_text h
  exact ⟨t, hread, parseDoubleOr_of_parse strtod 0 ht⟩

theorem sumTradeFunds_eq {funds : List ℚ}
    (h : List.Forall₂ (fun (t : ArrayOfTrade) v => Decimal.parse t.funds.toList = some v) trades
      funds) : sumTradeFunds strtod trades = funds.sum := by
  have hfold : ∀ total : ℚ, trades.foldl
      (fun total t => total + parseDoubleOr strtod t.funds 0) total = total + funds.sum := by
    induction h with
    | nil => exact fun total => (add_zero total).symm
    | cons ht _ ih =>
      intro total
      rw [List.foldl_cons, ih, parseDoubleOr_of_parse strtod 0 ht, List.sum_cons, add_assoc]
  exact (hfold 0).trans (zero_add _)

theorem read_elim {name : String} (fallback : ℚ)
    (h : TextIs v (j.nonNull name) ∨ j.nonNull name = none ∧ fallback = v) :
    ∃ read, j.getOption name Data.getString = .ok read ∧
      read.elim fallback (parseDoubleOr strtod · 0) = v := by
  rcases h with htext | ⟨hnone, hfallback⟩
  · obtain ⟨t, hread, ht⟩ := Data.getOption_text htext
    exact ⟨some t, hread, parseDoubleOr_of_parse strtod 0 ht⟩
  · refine ⟨none, ?_, hfallback⟩
    rw [Data.getOption, hnone]

theorem count_of_trades {n count : Int}
    (h : n = count ∧ n ≠ 0 ∨ n = 0 ∧ trades.length = count) :
    (if n = 0 ∧ trades ≠ [] then (trades.length : Int) else n) = count := by
  rcases h with ⟨hn, hne⟩ | ⟨rfl, hlength⟩
  · rw [if_neg (fun hif => hne hif.1), hn]
  · split
    · exact hlength
    · next hempty =>
      have hnil : trades = [] := by
        by_contra hsome
        exact hempty ⟨rfl, hsome⟩
      rw [← hlength, hnil]
      rfl

theorem OrderDocument.read (h : x.OrderDocument trades j) :
    ∃ dto, OrderResponseDto.fromJson j = .ok dto ∧
      dto.toDomain strtod = x.order dto.createdAt := by
  obtain ⟨createdAt, hcreatedAt⟩ := h.createdAt
  obtain ⟨price, hprice, hpriceIs⟩ := read_optional strtod h.price
  obtain ⟨volume, hvolume, hvolumeIs⟩ := read_optional strtod h.volume
  obtain ⟨executedVolume, hexecutedVolume, hexecutedVolumeIs⟩ := read_orZero strtod h.executedVolume
  obtain ⟨reservedFee, hreservedFee, hreservedFeeIs⟩ := read_orZero strtod h.reservedFee
  obtain ⟨remainingFee, hremainingFee, hremainingFeeIs⟩ := read_orZero strtod h.remainingFee
  obtain ⟨paidFee, hpaidFee, hpaidFeeIs⟩ := read_orZero strtod h.paidFee
  obtain ⟨locked, hlocked, hlockedIs⟩ := read_orZero strtod h.locked
  obtain ⟨preventedVolume, hpreventedVolume⟩ := h.preventedVolume
  obtain ⟨preventedLocked, hpreventedLocked⟩ := h.preventedLocked
  obtain ⟨n, hcount, hcountIs⟩ := h.tradesCount
  obtain ⟨remaining, hremaining, hremainingIs⟩ := read_elim strtod 0
    (h.remainingVolume.symm.imp_right fun ⟨hnone, hzero⟩ => ⟨hnone, hzero.symm⟩)
  obtain ⟨funds, hfunds, hfundsIs⟩ := read_elim strtod (sumTradeFunds strtod trades)
    (h.executedFunds.imp_right fun ⟨hnone, _, hfunds, hsum⟩ =>
      ⟨hnone, (sumTradeFunds_eq strtod hfunds).trans hsum⟩)
  refine ⟨{ market := x.market, uuid := x.uuid, side := x.kind.side, ordType := x.kind.ordType,
            price := price, volume := volume, state := x.state,
            createdAt := Json.text createdAt, remainingVolume := remaining,
            executedVolume := executedVolume, executedFunds := funds, reservedFee := reservedFee,
            remainingFee := remainingFee, paidFee := paidFee, locked := locked, tradesCount := n,
            identifier := x.identifier, trades := trades }, ?_, ?_⟩
  · simp only [OrderResponseDto.fromJson, Data.at_of_find h.market, Data.at_of_find h.uuid,
      Data.at_of_find h.side, Data.at_of_find h.ordType, Data.at_of_find h.state,
      Data.at_of_find hcreatedAt, hprice, hvolume, hremaining, hexecutedVolume, hfunds,
      hreservedFee, hremainingFee, hpaidFee, hlocked, hpreventedVolume, hpreventedLocked,
      Data.getOr_count hcount, Data.getOption_string h.identifier, h.tradesRead, ofJson_lower,
      ofJson_name, Except.map, Data.getString, Json.text_utf8, bind, Except.bind, pure, Except.pure]
  · simp only [OrderResponseDto.toDomain, order, toDomainPosition_eq, toDomainOrderType_ordType,
      toDomainStatus_eq, hpriceIs, hvolumeIs, hexecutedVolumeIs, hreservedFeeIs, hremainingFeeIs,
      hpaidFeeIs, hlockedIs, hremainingIs, hfundsIs, count_of_trades hcountIs, if_isTotal x.kind]

/-- **The mappers agree.** A document of the WebSocket and an answer of `/v1/order` about the same
    order, of any kind the bot can submit, in any state without a trade and with any numbers, are
    read as the same `Order`, apart from the time of creation. -/
theorem mappers_agree (cfg : AppConfig ℚ) (strtod : String → Option ℚ) (x : ExchangeOrder)
    {trades : List ArrayOfTrade} {ws rest : Data} (hws : x.MyOrderDocument ws)
    (hrest : x.OrderDocument trades rest) :
    ∃ d dto o, UpbitMyOrderDto.fromJson ws = .ok d ∧ OrderResponseDto.fromJson rest = .ok dto ∧
      toEvents cfg d = [.order o] ∧
      dto.toDomain strtod = { o with createdAt := dto.createdAt } := by
  obtain ⟨d, hd, hstate, horder⟩ := hws.read
  obtain ⟨dto, hdto, hdomain⟩ := hrest.read strtod
  refine ⟨d, dto, toOrder d, hd, hdto, toEvents_plain cfg (.inl hstate), ?_⟩
  rw [hdomain, horder]
  rfl

/-- A market buy of 5000 KRW that got 2 coins in two trades. -/
def filledBuy : ExchangeOrder where
  market := "KRW-BTC"
  uuid := "u1"
  identifier := some "buy"
  kind := .marketBid 5000
  state := .done
  executedVolume := 2
  executedFunds := 5000
  remainingVolume := 0
  tradesCount := 2
  reservedFee := 0
  remainingFee := 0
  paidFee := 5 / 2
  locked := 0

def filledBuyTrades : List ArrayOfTrade := [{ funds := "3000" }, { funds := "2000.0" }]

/-- What the WebSocket says of it: the volume of the request is null, zeros are left out. -/
def filledBuyMyOrder : Data :=
  .object
    [(utf8 "type", .string (utf8 "myOrder")), (utf8 "code", .string (utf8 "KRW-BTC")),
      (utf8 "uuid", .string (utf8 "u1")), (utf8 "ask_bid", .string (utf8 "BID")),
      (utf8 "order_type", .string (utf8 "price")), (utf8 "state", .string (utf8 "done")),
      (utf8 "price", .number (utf8 "5000")), (utf8 "volume", .null),
      (utf8 "executed_volume", .number (utf8 "2.0")), (utf8 "trades_count", .number (utf8 "2")),
      (utf8 "paid_fee", .number (utf8 "2.5")), (utf8 "executed_funds", .number (utf8 "5e3")),
      (utf8 "identifier", .string (utf8 "buy"))]

/-- What `/v1/order` answers: neither the funds nor the count of the trades. -/
def filledBuyAnswer : Data :=
  .object
    [(utf8 "market", .string (utf8 "KRW-BTC")), (utf8 "uuid", .string (utf8 "u1")),
      (utf8 "side", .string (utf8 "bid")), (utf8 "ord_type", .string (utf8 "price")),
      (utf8 "state", .string (utf8 "done")), (utf8 "created_at", .string []),
      (utf8 "price", .string (utf8 "5000")), (utf8 "executed_volume", .string (utf8 "2")),
      (utf8 "paid_fee", .string (utf8 "2.5")), (utf8 "identifier", .string (utf8 "buy")),
      (utf8 "trades", .array
        [.object [(utf8 "funds", .string (utf8 "3000"))],
          .object [(utf8 "funds", .string (utf8 "2000.0"))]])]

theorem myOrderDocument_filledBuy : filledBuy.MyOrderDocument filledBuyMyOrder where
  type := ⟨_, rfl⟩
  code := rfl
  uuid := rfl
  askBid := rfl
  orderType := rfl
  state := rfl
  price := Json.numberIs_of_digits (utf8 "5000") (by decide +kernel)
  volume := rfl
  remainingVolume := rfl
  executedVolume := Json.numberIs_of_digits (utf8 "2.0") (by decide +kernel)
  tradesCount := Json.numberIs_of_digits (utf8 "2") (by decide +kernel)
  reservedFee := rfl
  remainingFee := rfl
  paidFee := Json.numberIs_of_digits (utf8 "2.5") (by decide +kernel)
  locked := rfl
  executedFunds := Json.numberIs_of_digits (utf8 "5e3") (by decide +kernel)
  tradeUuid := ⟨none, rfl⟩
  tradeFee := ⟨none, rfl⟩
  isMaker := ⟨none, rfl⟩
  identifier := rfl
  tradeTimestamp := ⟨none, rfl⟩
  orderTimestamp := ⟨none, rfl⟩
  timestamp := ⟨none, rfl⟩

theorem orderDocument_filledBuy : filledBuy.OrderDocument filledBuyTrades filledBuyAnswer where
  market := rfl
  uuid := rfl
  side := rfl
  ordType := rfl
  state := rfl
  createdAt := ⟨_, rfl⟩
  price := Json.textIs_utf8 "5000" (by decide +kernel)
  volume := rfl
  remainingVolume := .inl ⟨rfl, rfl⟩
  executedVolume := .inr (Json.textIs_utf8 "2" (by decide +kernel))
  executedFunds := .inr ⟨rfl, [3000, 2000],
    .cons (by decide +kernel) (.cons (by decide +kernel) .nil), by decide +kernel⟩
  reservedFee := .inl ⟨rfl, rfl⟩
  remainingFee := .inl ⟨rfl, rfl⟩
  paidFee := .inr (Json.textIs_utf8 "2.5" (by decide +kernel))
  locked := .inl ⟨rfl, rfl⟩
  preventedVolume := ⟨"0", rfl⟩
  preventedLocked := ⟨none, rfl⟩
  identifier := rfl
  tradesRead := by
    have hread : ∀ t : String, ArrayOfTrade.fromJson (.object [(utf8 "funds", .string (utf8 t))]) =
        .ok { funds := t } := by
      intro t
      have hfunds : Data.getOr (.object [(utf8 "funds", .string (utf8 t))]) "funds" Data.getString
          "" = .ok t := Data.getString_utf8 t
      rw [ArrayOfTrade.fromJson, hfunds]
      rfl
    show tradesOf (.array [_, _]) = _
    rw [tradesOf, List.mapM_cons, List.mapM_cons, List.mapM_nil, hread, hread]
    rfl
  tradesCount := ⟨0, rfl, .inr ⟨rfl, rfl⟩⟩

theorem mappers_agree_filledBuy :
    ∃ d dto o, UpbitMyOrderDto.fromJson filledBuyMyOrder = .ok d ∧
      OrderResponseDto.fromJson filledBuyAnswer = .ok dto ∧
      toEvents (AppConfig.standard ℚ) d = [.order o] ∧
      dto.toDomain (fun _ => none) = { o with createdAt := dto.createdAt } :=
  mappers_agree (AppConfig.standard ℚ) (fun _ => none) filledBuy myOrderDocument_filledBuy
    orderDocument_filledBuy

end ExchangeOrder

end CoinBot
