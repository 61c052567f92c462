import CoinBot.Trading.RsiMeanReversionStrategy
import CoinBot.Lib.Frame
import CoinBot.Lib.KeyMap
import CoinBot.Lib.Sweep
import Mathlib.Data.List.MinMax
import Mathlib.Data.String.Basic

/- `pair_trades` of `streamlit/app.py`: the orders of a market paired to trade cycles.

   Each BID opens a cycle; the ASKs behind it and before the next BID close it. The loop runs
   once over both lists with one cursor into the ASKs. The data frames are lists of rows; how
   pandas sorts equal keys and how it turns a time into a date are parameters. -/
namespace CoinBot.Dashboard

/-- A row of the table `orders`, as `load_orders` reads it. -/
structure OrderRow (α : Type) where
  market : String
  side : OrderPosition
  createdAtMs : Int
  executedFunds : α
  paidFee : α
  identifier : Option String
  deriving DecidableEq

/-- A row of the table `signals`. -/
structure SignalRow where
  market : String
  side : SignalSide
  identifier : Option String
  tsMs : Int
  exitReason : Option String
  isPartial : Int

/-- An entry of `sell_sig_map`. -/
structure SellSignal where
  exitReason : String
  isPartial : Int

/-- The dictionary that is appended to `result`. -/
structure Cycle (α : Type) where
  market : String
  openTsMs : Int
  closeTsMs : Int
  cost : α
  revenue : α
  pnl : α
  pnlPct : α
  nAsks : Nat
  exitReason : String
  deriving DecidableEq

/-- A row of the result. -/
structure TradeRow (α Date : Type) extends Cycle α where
  openDate : Date
  closeDate : Date
  deriving DecidableEq

/-- What `pair_trades` leaves to pandas. -/
structure Pandas (Date : Type) where
  argsort : Frame.Argsort Int
  kstDate : Int → Date

/-- The two columns of dates. -/
def Cycle.withDates {α Date : Type} (pd : Pandas Date) (cycle : Cycle α) : TradeRow α Date :=
  { cycle with
    openDate := pd.kstDate cycle.openTsMs
    closeDate := pd.kstDate cycle.closeTsMs }

/-! The exit reason. -/

/-- `exit_reason or "–"`. -/
def reasonText (reason : Option String) : String :=
  match reason with
  | some text => if text = "" then "–" else text
  | none => "–"

def sellSignals (signals : Option (List SignalRow)) : List SignalRow :=
  (signals.getD []).filter (fun sig => sig.side = .sell)

/-- The later of two signals with one identifier stays. -/
def sellSigMap (sellSigs : List SignalRow) : KeyMap String SellSignal :=
  sellSigs.foldl (fun sigMap sig =>
    match sig.identifier with
    | some ident =>
      if ident = "" then sigMap else sigMap.insert ident ⟨reasonText sig.exitReason, sig.isPartial⟩
    | none => sigMap) ∅

/-- The signals with the identifiers of the ASKs: a final one, else the first partial one. -/
def joinedReason {α : Type} (sigMap : KeyMap String SellSignal) (asks : List (OrderRow α)) :
    String :=
  let (finalReason, partialReason) := asks.foldl (fun reasons ask =>
    match sigMap.lookup (ask.identifier.getD "") with
    | none => reasons
    | some info =>
      if info.isPartial = 0 then (info.exitReason, reasons.2)
      else if reasons.2 = "–" then (reasons.1, info.exitReason)
      else reasons) ("–", "–")
  if finalReason ≠ "–" then finalReason else partialReason

/-- The signal closest to the last ASK, where no identifier matched. -/
def nearbyReason (sellSigs : List SignalRow) (market : String) (openTsMs closeTsMs : Int) :
    String :=
  let window := sellSigs.filter (fun sig =>
    sig.market = market ∧ openTsMs < sig.tsMs ∧ sig.tsMs ≤ closeTsMs + 300000)
  let full := window.filter (fun sig => sig.isPartial = 0)
  let candidates := if full = [] then window else full
  match candidates.argmin (fun sig => (sig.tsMs - closeTsMs).natAbs) with
  | some sig => reasonText sig.exitReason
  | none => "–"

def exitReasonOf {α : Type} (sellSigs : List SignalRow) (market : String)
    (openTsMs closeTsMs : Int) (asks : List (OrderRow α)) : String :=
  let reason := joinedReason (sellSigMap sellSigs) asks
  if reason = "–" then nearbyReason sellSigs market openTsMs closeTsMs else reason

section
variable {α Date : Type} [Field α] [LinearOrder α]

/-! The cursor. -/

/-- The `while` loop of one BID: its ASKs, and those behind the cursor. -/
def matchAsks (bidTs : Int) (nextBidTs : Option Int) :
    List (OrderRow α) → List (OrderRow α) × List (OrderRow α)
  | [] => ([], [])
  | ask :: rest =>
    -- An ASK up to the BID is an orphan of an earlier cycle.
    if ask.createdAtMs ≤ bidTs then matchAsks bidTs nextBidTs rest
    -- A next BID at time 0 counts as none.
    else if nextBidTs.any (fun t => t ≠ 0 ∧ t ≤ ask.createdAtMs) then ([], ask :: rest)
    else
      let (matched, rest) := matchAsks bidTs nextBidTs rest
      (ask :: matched, rest)

/-- The cycle of a BID with ASKs; without them there is none. -/
def cycleOf (sellSigs : List SignalRow) (market : String) (bid : OrderRow α)
    (matched : List (OrderRow α)) : Option (Cycle α) :=
  match (matched.map (·.createdAtMs)).max? with
  | none => none
  | some closeTsMs =>
    let cost := bid.executedFunds + bid.paidFee
    let revenue := (matched.map (fun ask => ask.executedFunds - ask.paidFee)).sum
    some
      { market := market
        openTsMs := bid.createdAtMs
        closeTsMs := closeTsMs
        cost := cost
        revenue := revenue
        pnl := revenue - cost
        pnlPct := if 0 < cost then (revenue - cost) / cost else 0
        nAsks := matched.length
        exitReason := exitReasonOf sellSigs market bid.createdAtMs closeTsMs matched }

/-- The loop over the BIDs of a market. -/
def pairBids (sellSigs : List SignalRow) (market : String) :
    List (OrderRow α) → List (OrderRow α) → List (Cycle α)
  | [], _ => []
  | bid :: bids, asks =>
    let (matched, rest) := matchAsks bid.createdAtMs (bids.head?.map (·.createdAtMs)) asks
    (cycleOf sellSigs market bid matched).toList ++ pairBids sellSigs market bids rest

/-- The orders of a market on one side, by time. -/
def sideInOrder (pd : Pandas Date) (orders : List (OrderRow α)) (market : String)
    (side : OrderPosition) : List (OrderRow α) :=
  pd.argsort.sortBy (·.createdAtMs)
    ((orders.filter (·.market = market)).filter (·.side = side))

def pairTrades (pd : Pandas Date) (orders : List (OrderRow α)) (signals : Option (List SignalRow)) :
    List (TradeRow α Date) :=
  let sellSigs := sellSignals signals
  let result := (Frame.groupKeys (·.market) orders).flatMap (fun market =>
    pairBids sellSigs market (sideInOrder pd orders market .bid)
      (sideInOrder pd orders market .ask))
  (pd.argsort.sortBy (·.closeTsMs) result).map (·.withDates pd)

end
end CoinBot.Dashboard
