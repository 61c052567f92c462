import CoinBot.Core.Domain
import CoinBot.Lib.Series

/- `tools/candle_rsi_backtest.py`: the backtest of the RSI strategy over stored candles.

   The number type and the square root are parameters, as in the strategy. The candles are
   what `load_candles` returns, oldest first; the warning about gaps is a module of its own.

   Correspondence (Python ↔ Lean):
     a float column with NaN                 ↔ a list of `Option`, NaN ↔ `none`
     `notna`, `fillna(0.0)`                  ↔ `isSome`, `getD 0`
     `np.diff`                               ↔ `Series.steps`
     the local variables of the loop         ↔ `Simulation`
     `pd.Timestamp`                          ↔ `Int`, in seconds
     the dict `equity`                       ↔ the list of its items -/
namespace CoinBot.Backtest

structure BacktestParams (α : Type) where
  rsiLength : Nat
  oversold : α
  overbought : α
  trendLookWindow : Nat
  maxTrendStrength : α
  volatilityWindow : Nat
  minVolatility : α
  stopLossPct : α
  profitTargetPct : α
  feeRate : α
  slippageRate : α
  utilization : α
  reserveMargin : α
  minNotionalKrw : α

/-- `DEFAULT_PARAMS`. -/
def BacktestParams.default (α : Type) [Field α] : BacktestParams α where
  rsiLength := 14
  oversold := 30
  overbought := 70
  trendLookWindow := 30
  maxTrendStrength := 4 / 100
  volatilityWindow := 20
  minVolatility := 4 / 1000
  stopLossPct := 10
  profitTargetPct := 15
  feeRate := 5 / 10000
  slippageRate := 5 / 10000
  utilization := 1
  reserveMargin := 1001 / 1000
  minNotionalKrw := 5000

/-- A row of `load_candles`, with its timestamp. -/
structure CandleRow (α : Type) where
  ts : Int
  openPrice : α
  high : α
  low : α
  close : α

/-- A row with the columns that `run_backtest` adds. -/
structure IndicatorRow (α : Type) extends CandleRow α where
  rsi : Option α
  rsiReady : Bool
  vol : α
  volReady : Bool
  trend : α
  trendReady : Bool
  marketOk : Bool

structure Trade (α : Type) where
  entryTs : Option Int
  exitTs : Int
  entryPrice : α
  exitPrice : α
  pnl : α
  pnlPct : α
  reason : String
  intrabar : Bool

structure Summary (α : Type) where
  totalTrades : Nat
  winRate : α
  totalPnl : α
  avgHoldMinutes : α
  openPosition : Bool

inductive State where
  | flat
  | inPosition
  deriving DecidableEq, Repr

/-- The variables of the loop. -/
structure Simulation (α : Type) where
  state : State
  krw : α
  coinQty : α
  entryPrice : α
  stopPrice : α
  targetPrice : α
  totalCost : α
  entryTs : Option Int
  trades : List (Trade α)
  equity : List (Int × α)

structure Result (α : Type) where
  candles : List (IndicatorRow α)
  trades : List (Trade α)
  equity : List (Int × α)
  summary : Summary α

section
variable {α : Type} [Field α] [LinearOrder α]

/-! Indicators. -/

/-- `_rsi`, the local function of `_compute_wilder_rsi`. -/
def rsiValue (avgGain avgLoss : α) : α :=
  if avgGain = 0 ∧ avgLoss = 0 then 50
  else if avgLoss = 0 then 100
  else if avgGain = 0 then 0
  else 100 - 100 / (1 + avgGain / avgLoss)

/-- The loop after the seed: the values at the gains and losses that follow. -/
def wilderLoop (length : Nat) (avgGain avgLoss : α) : List (α × α) → List α
  | [] => []
  | (gain, loss) :: rest =>
    let alpha : α := (length - 1) / length
    let avgGain := alpha * avgGain + gain / length
    let avgLoss := alpha * avgLoss + loss / length
    rsiValue avgGain avgLoss :: wilderLoop length avgGain avgLoss rest

/-- `length` is at least 1. -/
def computeWilderRsi (closes : List α) (length : Nat) : List (Option α) × List Bool :=
  let n := closes.length
  if n ≤ length then (List.replicate n none, List.replicate n false)
  else
    let deltas := Series.steps (fun prev close => close - prev) closes
    let gains := deltas.map (fun d => if 0 < d then d else 0)
    let losses := deltas.map (fun d => if d < 0 then -d else 0)
    let avgGain := (gains.take length).sum / length
    let avgLoss := (losses.take length).sum / length
    let values := rsiValue avgGain avgLoss ::
      wilderLoop length avgGain avgLoss ((gains.zip losses).drop length)
    (List.replicate length none ++ values.map some,
     List.replicate length false ++ values.map (fun _ => true))

/-- `Series.shift(n)`. -/
def shift (xs : List α) (n : Nat) : List (Option α) :=
  (List.replicate n none ++ xs.map some).take xs.length

/-- `Series.pct_change()`. -/
def pctChange (closes : List α) : List (Option α) :=
  List.zipWith (fun close prev => prev.map (fun p => close / p - 1)) closes (shift closes 1)

/-- `Series.rolling(window).std(ddof=0)`: NaN until the window is full of numbers. -/
def rollingStd (sqrt : α → α) (window : Nat) (xs : List (Option α)) : List (Option α) :=
  (List.range xs.length).map (fun i =>
    let seen := ((xs.take (i + 1)).rtake window).reduceOption
    if seen.length < window then none else some (sqrt (Series.variance seen)))

def computeVolatility (sqrt : α → α) (closes : List α) (window : Nat) : List α × List Bool :=
  let vol := rollingStd sqrt window (pctChange closes)
  (vol.map (·.getD 0), vol.map (·.isSome))

def computeTrendStrength (closes : List α) (lookWindow : Nat) : List α × List Bool :=
  let closeN := shift closes lookWindow
  let trend := List.zipWith (fun close old => old.map (fun o => |close - o| / o)) closes closeN
  (trend.map (·.getD 0), closeN.map (·.isSome))

/-- The data frame of `run_backtest`, once its columns are computed. -/
def indicatorRows (sqrt : α → α) (p : BacktestParams α) (df : List (CandleRow α)) :
    List (IndicatorRow α) :=
  let closes := df.map (·.close)
  let (rsi, rsiReady) := computeWilderRsi closes p.rsiLength
  let (vol, volReady) := computeVolatility sqrt closes p.volatilityWindow
  let (trend, trendReady) := computeTrendStrength closes p.trendLookWindow
  df.mapIdx (fun i row =>
    let rsiReady := rsiReady.getD i false
    let vol := vol.getD i 0
    let volReady := volReady.getD i false
    let trend := trend.getD i 0
    let trendReady := trendReady.getD i false
    { row with
      rsi := rsi.getD i none
      rsiReady := rsiReady
      vol := vol
      volReady := volReady
      trend := trend
      trendReady := trendReady
      marketOk := rsiReady
        && trendReady && decide (trend ≤ p.maxTrendStrength)
        && volReady && decide (p.minVolatility ≤ vol) })

/-! Exits. -/

/-- `_check_intrabar_exit_ohlc`: the reason and the price, if a level was touched. -/
def checkIntrabarExitOhlc (openPrice high low stopPrice targetPrice slippageRate : α) :
    Option (String × α) :=
  let hitStop := decide (low ≤ stopPrice)
  let hitTarget := decide (targetPrice ≤ high)
  if ¬ hitStop ∧ ¬ hitTarget then none
  else if hitStop ∧ hitTarget then
    -- The open price tells which level came first.
    if openPrice ≤ stopPrice ∨ openPrice < targetPrice then
      some ("stop_loss", stopPrice * (1 - slippageRate))
    else some ("take_profit", targetPrice * (1 - slippageRate))
  else if hitStop then some ("stop_loss", stopPrice * (1 - slippageRate))
  else some ("take_profit", targetPrice * (1 - slippageRate))

/-- The exit at the close of a candle, by its reason. -/
def closeExitReason (p : BacktestParams α) (s : Simulation α) (row : IndicatorRow α) :
    Option String :=
  if row.close ≤ s.stopPrice then some "stop_loss"
  else if s.targetPrice ≤ row.close then some "take_profit"
  else if row.rsiReady ∧ row.rsi.any (fun r => decide (p.overbought ≤ r)) then some "rsi_exit"
  else none

/-- The coins are sold, and the trade is recorded. -/
def closePosition (p : BacktestParams α) (s : Simulation α) (ts : Int) (sellPrice : α)
    (reason : String) (intrabar : Bool) : Simulation α :=
  let sellGross := s.coinQty * sellPrice
  let sellFee := sellGross * p.feeRate
  let sellNet := sellGross - sellFee
  let pnl := sellNet - s.totalCost
  { s with
    krw := s.krw + sellNet
    trades := s.trades ++
      [{ entryTs := s.entryTs
         exitTs := ts
         entryPrice := s.entryPrice
         exitPrice := sellPrice
         pnl := pnl
         pnlPct := pnl / s.totalCost
         reason := reason
         intrabar := intrabar }]
    coinQty := 0
    totalCost := 0
    state := .flat }

/-- The branch `InPosition`. -/
def exitStep (p : BacktestParams α) (s : Simulation α) (row : IndicatorRow α) : Simulation α :=
  if p.minNotionalKrw ≤ s.coinQty * row.close then
    match checkIntrabarExitOhlc row.openPrice row.high row.low s.stopPrice s.targetPrice
        p.slippageRate with
    | some (reason, sellPrice) => closePosition p s row.ts sellPrice reason true
    | none =>
      match closeExitReason p s row with
      | some reason => closePosition p s row.ts (row.close * (1 - p.slippageRate)) reason false
      | none => s
  else s

/-! Entries. -/

/-- `entry_krw`, from the cash. -/
def entryKrw (p : BacktestParams α) (krw : α) : α := krw / p.reserveMargin * p.utilization

/-- Coins are bought for this amount. -/
def openPosition (p : BacktestParams α) (s : Simulation α) (ts : Int) (close amount : α) :
    Simulation α :=
  let buyPrice := close * (1 + p.slippageRate)
  let buyFee := amount * p.feeRate
  let totalCost := amount + buyFee
  { s with
    coinQty := amount / buyPrice
    totalCost := totalCost
    krw := s.krw - totalCost
    entryPrice := buyPrice
    stopPrice := buyPrice * (1 - p.stopLossPct / 100)
    targetPrice := buyPrice * (1 + p.profitTargetPct / 100)
    entryTs := some ts
    state := .inPosition }

/-- The branch `Flat`. -/
def entryStep (p : BacktestParams α) (s : Simulation α) (row : IndicatorRow α) : Simulation α :=
  if row.marketOk ∧ row.rsi.any (fun r => decide (r ≤ p.oversold)) then
    if p.minNotionalKrw ≤ entryKrw p s.krw then
      openPosition p s row.ts row.close (entryKrw p s.krw)
    else s
  else s

/-! The loop. -/

/-- Cash and the value of the coins. -/
def recordEquity (s : Simulation α) (row : IndicatorRow α) : Simulation α :=
  { s with
    equity := s.equity ++
      [(row.ts, s.krw + if s.state = .inPosition then s.coinQty * row.close else 0)] }

/-- The body of the loop. -/
def simulateRow (p : BacktestParams α) (s : Simulation α) (row : IndicatorRow α) : Simulation α :=
  match s.state with
  | .flat => recordEquity (entryStep p s row) row
  | .inPosition => recordEquity (exitStep p s row) row

def Simulation.start (initialKrw : α) : Simulation α where
  state := .flat
  krw := initialKrw
  coinQty := 0
  entryPrice := 0
  stopPrice := 0
  targetPrice := 0
  totalCost := 0
  entryTs := none
  trades := []
  equity := []

def simulate (p : BacktestParams α) (rows : List (IndicatorRow α)) (initialKrw : α) :
    Simulation α :=
  rows.foldl (simulateRow p) (.start initialKrw)

/-- The aggregation of the trades. -/
def summarize (s : Simulation α) : Summary α :=
  let openPosition := decide (s.state = .inPosition)
  if s.trades = [] then
    { totalTrades := 0
      winRate := 0
      totalPnl := 0
      avgHoldMinutes := 0
      openPosition := openPosition }
  else
    let total := s.trades.length
    let wins := s.trades.countP (fun t => decide (0 < t.pnl))
    let holds := s.trades.filterMap (fun t => t.entryTs.map (fun e => ((t.exitTs - e : Int) : α) / 60))
    { totalTrades := total
      winRate := wins / total
      totalPnl := (s.trades.map (·.pnl)).sum
      avgHoldMinutes := Series.mean holds
      openPosition := openPosition }

def runBacktest (sqrt : α → α) (p : BacktestParams α) (df : List (CandleRow α)) (initialKrw : α) :
    Result α :=
  let rows := indicatorRows sqrt p df
  let final := simulate p rows initialKrw
  { candles := rows
    trades := final.trades
    equity := final.equity
    summary := summarize final }

end
end CoinBot.Backtest
