import CoinBot.App.MarketContext
import CoinBot.Engine.Booking

/- The true messages about one order, and what the worker makes of each.

   A message names the order, its market and its side, and carries the totals of the
   fills so far. Everything else in it is left open: it is whatever `base` has. -/
namespace CoinBot

/-- Which order, of which market and side. -/
structure OrderRef where
  uuid : String
  market : String
  side : OrderPosition

def sideText : OrderPosition → String
  | .ask => "ASK"
  | .bid => "BID"

@[simp] theorem toSide_sideText (side : OrderPosition) :
    MyOrderMapper.toSide (sideText side) = side := by
  cases side <;> decide

/-- How an order ends. -/
inductive Closing where
  | done
  | cancel
  | prevented
  deriving DecidableEq, Repr

def Closing.state : Closing → String
  | .done => "done"
  | .cancel => "cancel"
  | .prevented => "prevented"

def Closing.status : Closing → OrderStatus
  | .done => .filled
  | .cancel => .canceled
  | .prevented => .canceled

@[simp] theorem isTerminal_status (c : Closing) : c.status.isTerminal = true := by
  cases c <;> rfl

/-- A message of a market order that says nothing else. -/
def plainDto : UpbitMyOrderDto :=
  { code := "", uuid := "", askBid := "", orderType := "price", state := "" }

namespace OrderRef

/-- `base` as a message of the order, with the totals `x`. -/
def stamp (r : OrderRef) (x : Totals) (base : UpbitMyOrderDto) : UpbitMyOrderDto :=
  { base with
    uuid := r.uuid
    code := r.market
    askBid := sideText r.side
    executedVolume := x.volume
    executedFunds := x.funds
    paidFee := x.fee }

/-- The message of a fill. The trade uuid may be missing. -/
def tradeMessage (r : OrderRef) (x : Totals) (f : Fill) (tradeUuid : Option String)
    (base : UpbitMyOrderDto) : UpbitMyOrderDto :=
  { r.stamp x base with
    state := "trade"
    price := f.price
    volume := f.volume
    tradeUuid := tradeUuid
    tradeFee := some f.fee }

/-- A message of an order that waits, or is watched. -/
def noticeMessage (r : OrderRef) (x : Totals) (watched : Bool) (base : UpbitMyOrderDto) :
    UpbitMyOrderDto :=
  { r.stamp x base with state := if watched then "watch" else "wait" }

def closeMessage (r : OrderRef) (x : Totals) (c : Closing) (base : UpbitMyOrderDto) :
    UpbitMyOrderDto :=
  { r.stamp x base with state := c.state }

/-- What the exchange answers when it is asked for the order. -/
def answer (r : OrderRef) (x : Totals) (status : OrderStatus) (base : Order) : Order :=
  { base with
    id := r.uuid
    market := r.market
    position := r.side
    executedVolume := x.volume
    executedFunds := x.funds
    paidFee := x.fee
    status := status }

theorem reports_answer (r : OrderRef) (x : Totals) (status : OrderStatus) (base : Order) :
    (r.answer x status base).Reports r.uuid r.market r.side x :=
  ⟨rfl, rfl, rfl, rfl⟩

variable (r : OrderRef) (x : Totals) (base : UpbitMyOrderDto)

theorem reports_tradeMessage (f : Fill) (tradeUuid : Option String) :
    (MyOrderMapper.toOrder (r.tradeMessage x f tradeUuid base)).Reports r.uuid r.market r.side x :=
  ⟨rfl, rfl, toSide_sideText r.side, rfl⟩

theorem reports_noticeMessage (watched : Bool) :
    (MyOrderMapper.toOrder (r.noticeMessage x watched base)).Reports r.uuid r.market r.side x :=
  ⟨rfl, rfl, toSide_sideText r.side, rfl⟩

theorem reports_closeMessage (c : Closing) :
    (MyOrderMapper.toOrder (r.closeMessage x c base)).Reports r.uuid r.market r.side x :=
  ⟨rfl, rfl, toSide_sideText r.side, rfl⟩

theorem reports_toTrade (cfg : AppConfig ℚ) (f : Fill) (tradeUuid : Option String) (u : String) :
    (MyOrderMapper.toTrade cfg (r.tradeMessage x f tradeUuid base) u).Reports
      r.uuid r.market r.side f :=
  ⟨rfl, rfl, toSide_sideText r.side, rfl, rfl, rfl, rfl⟩

theorem open_tradeMessage (f : Fill) (tradeUuid : Option String) :
    (MyOrderMapper.toOrder (r.tradeMessage x f tradeUuid base)).status.isTerminal = false := by
  show (MyOrderMapper.toOrderStatus "trade").isTerminal = false
  decide

theorem open_noticeMessage (watched : Bool) :
    (MyOrderMapper.toOrder (r.noticeMessage x watched base)).status.isTerminal = false := by
  show (MyOrderMapper.toOrderStatus (if watched then "watch" else "wait")).isTerminal = false
  cases watched <;> decide

theorem closed_closeMessage (c : Closing) :
    (MyOrderMapper.toOrder (r.closeMessage x c base)).status.isTerminal = true := by
  show (MyOrderMapper.toOrderStatus c.state).isTerminal = true
  cases c <;> decide

theorem state_noticeMessage (watched : Bool) :
    (r.noticeMessage x watched base).state ≠ "trade" := by
  show (if watched then "watch" else "wait") ≠ "trade"
  cases watched <;> decide

end OrderRef

/-! What the worker makes of a message. -/

namespace MarketContext

/-- The context once the exchange has accepted the order. -/
def accepted (cfg : AppConfig ℚ) (ctx : MarketContext) (req : OrderRequest ℚ) (uuid : String) :
    MarketContext :=
  { ctx with engine := (ctx.engine.submitReply cfg req (.ok uuid)).2 }

variable (cfg : AppConfig ℚ) (ctx : MarketContext)

theorem handleMyOrder_trade {d : UpbitMyOrderDto} {u : String} (hstate : d.state = "trade")
    (huuid : d.tradeUuid = some u) :
    ctx.handleMyOrder_ cfg (MyOrderMapper.toEvents cfg d) =
      { ctx with
        engine := (ctx.engine.onMyTrade cfg (MyOrderMapper.toTrade cfg d u)).onOrderSnapshot cfg
          (MyOrderMapper.toOrder d) } := by
  have hopen : (MyOrderMapper.toOrder d).status.isTerminal = false := by
    rw [← Bool.not_eq_true, MyOrderMapper.isTerminal_toOrder, hstate]
    simp
  rw [MyOrderMapper.toEvents_trade cfg hstate huuid]
  simp [handleMyOrder_, handleOrderEvent, isTrade, hopen]

theorem handleMyOrder_open {d : UpbitMyOrderDto} (hplain : d.state ≠ "trade" ∨ d.tradeUuid = none)
    (hopen : (MyOrderMapper.toOrder d).status.isTerminal = false) :
    ctx.handleMyOrder_ cfg (MyOrderMapper.toEvents cfg d) =
      { ctx with engine := ctx.engine.onOrderSnapshot cfg (MyOrderMapper.toOrder d) } := by
  rw [MyOrderMapper.toEvents_plain cfg hplain]
  simp [handleMyOrder_, handleOrderEvent, isTrade, hopen]

/-- The context took the answer `o` into the engine, and at most an order into the database. -/
structure Reconciled (cfg : AppConfig ℚ) (o : Order) (ctx ctx' : MarketContext) : Prop where
  engine : ctx'.engine = (ctx.engine.reconcileFromSnapshot cfg o).2
  strategy : ctx'.strategy = ctx.strategy
  signals : ctx'.db.map (·.signals) = ctx.db.map (·.signals)

theorem signals_insertOrder (ctx : MarketContext) (o : Order) :
    (ctx.insertOrder o).db.map (·.signals) = ctx.db.map (·.signals) := by
  unfold insertOrder
  rw [Option.map_map]
  rfl

theorem reconciled_close {d : UpbitMyOrderDto}
    (hclosed : (MyOrderMapper.toOrder d).status.isTerminal = true) :
    Reconciled cfg (MyOrderMapper.toOrder d) ctx
      (ctx.handleMyOrder_ cfg (MyOrderMapper.toEvents cfg d)) := by
  have hplain : d.state ≠ "trade" := ((MyOrderMapper.isTerminal_toOrder d).mp hclosed).2.2
  rw [MyOrderMapper.toEvents_plain cfg (.inl hplain)]
  simp only [handleMyOrder_, handleOrderEvent, isTrade, hclosed, List.any_cons, List.any_nil,
    Bool.or_false, Bool.not_false, Bool.and_self, if_true, List.foldl_cons, List.foldl_nil]
  split
  · exact ⟨rfl, rfl, signals_insertOrder _ _⟩
  · exact ⟨rfl, rfl, rfl⟩

end MarketContext
end CoinBot
