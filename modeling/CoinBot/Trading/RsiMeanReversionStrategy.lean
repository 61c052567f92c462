import CoinBot.Trading.Indicators

/- `trading/strategies/RsiMeanReversionStrategy`: the strategy of one market, and the types
   it exchanges with the manager (`StrategyTypes.h`).

   A method returns its answer and the strategy after the call. `StrategyEnv` holds what a
   method reads from outside: the settings, the square root and the generator of
   identifiers, whose `n`-th answer is `uuid n`. Logging is left out.

   Correspondence (C++ ↔ Lean):
     `signal_callback_(sig)`                 ↔ the returned signal; who registered a
                                               callback takes it
     `makeUuidV4()`                          ↔ `env.uuid` at the counter `seq_`
     the lambda `clearPendingState`          ↔ `clearPendingState`
     resetting entry, stop and target        ↔ `clearPosition`
     the three branches of `onOrderUpdate`   ↔ `confirmEntry`, `confirmReduction`,
                                               `confirmExit` -/
namespace CoinBot

/-! The strategy's types. -/

/-- What a decision needs of the account. -/
structure AccountSnapshot (α : Type) where
  krwAvailable : α
  coinAvailable : α

structure PositionSnapshot (α : Type) where
  coin : α
  avgEntryPrice : α

structure FillEvent (α : Type) where
  identifier : String
  position : OrderPosition
  fillPrice : α
  filledVolume : α

structure OrderStatusEvent (α : Type) where
  identifier : String
  status : OrderStatus
  position : OrderPosition
  executedVolume : α
  remainingVolume : α
  executedFunds : α
  positionEffect : PositionEffect

/-- An order to submit, or none. -/
structure Decision (α : Type) where
  order : Option (OrderRequest α)

def Decision.noAction {α : Type} : Decision α := { order := none }

def Decision.submit {α : Type} (req : OrderRequest α) : Decision α := { order := some req }

/-- The indicators and filters of one candle. -/
structure Snapshot (α : Type) where
  close : α
  rsi : Value α
  closeN : Value α
  volatility : Value α
  trendReady : Bool
  trendStrength : α
  marketOk : Bool

def Snapshot.empty {α : Type} [Zero α] : Snapshot α where
  close := 0
  rsi := .notReady
  closeN := .notReady
  volatility := .notReady
  trendReady := false
  trendStrength := 0
  marketOk := false

inductive SignalSide where
  | buy
  | sell
  deriving DecidableEq, Repr

structure SignalRecord (α : Type) where
  market : String
  identifier : String
  side : SignalSide
  price : α
  volume : α
  krwAmount : α
  stopPrice : Option α := none
  targetPrice : Option α := none
  rsi : Option α
  volatility : Option α
  trendStrength : Option α
  isPartial : Nat
  exitReason : String := ""
  tsMs : Int

structure Params (α : Type) where
  rsiLength : Nat
  oversold : α
  overbought : α
  trendLookWindow : Nat
  maxTrendStrength : α
  volatilityWindow : Nat
  minVolatility : α
  utilization : α
  stopLossPct : α
  profitTargetPct : α

def Params.standard (α : Type) [Field α] : Params α where
  rsiLength := 14
  oversold := 30
  overbought := 70
  trendLookWindow := 30
  maxTrendStrength := 4 / 100
  volatilityWindow := 20
  minVolatility := 4 / 1000
  utilization := 1
  stopLossPct := 10
  profitTargetPct := 15

inductive StrategyState where
  | flat
  | pendingEntry
  | inPosition
  | pendingExit
  deriving DecidableEq, Repr

structure StrategyEnv (α : Type) where
  cfg : AppConfig α
  sqrt : α → α
  uuid : Nat → String

structure RsiMeanReversionStrategy (α : Type) where
  market : String
  params : Params α
  state : StrategyState
  pendingClientId : Option String
  pendingExitReason : String
  -- The fills of the pending order so far.
  pendingFilledVolume : α
  pendingCostSum : α
  pendingLastPrice : α
  entryPrice : Option α
  stopPrice : Option α
  targetPrice : Option α
  rsi : RsiWilder α
  closeN : ClosePriceWindow α
  vol : ChangeVolatilityIndicator α
  seq : Nat
  signalSnapshot : Snapshot α
  lastCandleTs : Option String

namespace RsiMeanReversionStrategy

variable {α : Type} [Field α] [LinearOrder α]

/-! Parts of the methods. -/

def id : String := "rsi_mean_reversion"

def clearFills (st : RsiMeanReversionStrategy α) : RsiMeanReversionStrategy α :=
  { st with pendingFilledVolume := 0, pendingCostSum := 0, pendingLastPrice := 0 }

def clearPendingState (st : RsiMeanReversionStrategy α) : RsiMeanReversionStrategy α :=
  { st.clearFills with pendingClientId := none, pendingExitReason := "" }

def clearPosition (st : RsiMeanReversionStrategy α) : RsiMeanReversionStrategy α :=
  { st with entryPrice := none, stopPrice := none, targetPrice := none }

def setStopsFromEntry (st : RsiMeanReversionStrategy α) (entry : α) : RsiMeanReversionStrategy α :=
  let sl := max 0 st.params.stopLossPct
  let tp := max 0 st.params.profitTargetPct
  { st with
    stopPrice := some (entry * (1 - sl / 100))
    targetPrice := some (entry * (1 + tp / 100)) }

/-- The entry price with its stop and its target. -/
def enterAt (st : RsiMeanReversionStrategy α) (entry : α) : RsiMeanReversionStrategy α :=
  { st with entryPrice := some entry }.setStopsFromEntry entry

/-! Construction. -/

def reset (st : RsiMeanReversionStrategy α) : RsiMeanReversionStrategy α :=
  { st.clearPendingState.clearPosition with
    state := .flat
    rsi := st.rsi.clear
    closeN := st.closeN.clear
    vol := st.vol.clear
    signalSnapshot := .empty
    lastCandleTs := none }

/-- The constructor: the windows are set, and `reset` does the rest. -/
def create (market : String) (p : Params α) : RsiMeanReversionStrategy α :=
  reset
    { market := market
      params := p
      state := .flat
      pendingClientId := none
      pendingExitReason := ""
      pendingFilledVolume := 0
      pendingCostSum := 0
      pendingLastPrice := 0
      entryPrice := none
      stopPrice := none
      targetPrice := none
      rsi := .reset p.rsiLength
      closeN := .reset p.trendLookWindow
      vol := .reset p.volatilityWindow
      seq := 0
      signalSnapshot := .empty
      lastCandleTs := none }

def syncOnStart (st : RsiMeanReversionStrategy α) (pos : PositionSnapshot α) :
    RsiMeanReversionStrategy α :=
  let st := st.clearPendingState
  if 0 < pos.coin ∧ 0 < pos.avgEntryPrice then
    { st with state := .inPosition }.enterAt pos.avgEntryPrice
  else { st.clearPosition with state := .flat }

/-! Orders. -/

def makeIdentifier (env : StrategyEnv α) (st : RsiMeanReversionStrategy α) (tag : String) :
    String × RsiMeanReversionStrategy α :=
  (id ++ ":" ++ st.market ++ ":" ++ tag ++ ":" ++ env.uuid (st.seq + 1),
   { st with seq := st.seq + 1 })

def makeMarketBuyByAmount (st : RsiMeanReversionStrategy α) (krwAmount : α) (tag : String) :
    OrderRequest α where
  market := st.market
  position := .bid
  type := .market
  size := .amount krwAmount
  strategyId := id
  clientTag := tag

def makeMarketSellByVolume (st : RsiMeanReversionStrategy α) (volume : α) (tag : String) :
    OrderRequest α where
  market := st.market
  position := .ask
  type := .market
  size := .volume volume
  strategyId := id
  clientTag := tag

/-- The tail of `maybeEnter`: the order is decided, and the strategy waits for it. -/
def submitEntry (env : StrategyEnv α) (st : RsiMeanReversionStrategy α) (s : Snapshot α)
    (krwToUse : α) : Decision α × RsiMeanReversionStrategy α :=
  let reasonTag := "entry_rsi_oversold"
  let (cid, st) := st.makeIdentifier env reasonTag
  (.submit { st.makeMarketBuyByAmount krwToUse reasonTag with identifier := cid },
   { st.clearFills with
     signalSnapshot := s
     state := .pendingEntry
     pendingClientId := some cid })

/-- The tail of `maybeExit` and of `onIntrabarCandle`, with the identifier made. -/
def submitExit (st : RsiMeanReversionStrategy α) (s : Snapshot α) (sellVol : α)
    (cid reasonTag : String) : Decision α × RsiMeanReversionStrategy α :=
  (.submit { st.makeMarketSellByVolume sellVol reasonTag with identifier := cid },
   { st.clearFills with
     signalSnapshot := s
     state := .pendingExit
     pendingClientId := some cid
     pendingExitReason := reasonTag })

def maybeEnter (env : StrategyEnv α) (st : RsiMeanReversionStrategy α) (s : Snapshot α)
    (account : AccountSnapshot α) : Decision α × RsiMeanReversionStrategy α :=
  if ¬ 0 < account.krwAvailable then (.noAction, st)
  else if ¬ s.marketOk then (.noAction, st)
  else if ¬ s.rsi.v ≤ st.params.oversold then (.noAction, st)
  else
    let krwToUse := account.krwAvailable / env.cfg.engine.reserveMargin * st.params.utilization
    if krwToUse < env.cfg.strategy.minNotionalKrw then (.noAction, st)
    else if krwToUse ≤ 0 then (.noAction, st)
    else st.submitEntry env s krwToUse

/-- The tag of an exit, from what it hit. -/
def exitReason (hitStop hitTarget rsiExit : Bool) : String :=
  let tag := if hitStop then "exit_stop" else ""
  let tag := if hitTarget then (if tag = "" then "exit_target" else tag ++ "_target") else tag
  let tag :=
    if rsiExit then (if tag = "" then "exit_rsi_overbought" else tag ++ "_rsi_overbought") else tag
  if tag = "" then "exit_unknown" else tag

def maybeExit (env : StrategyEnv α) (st : RsiMeanReversionStrategy α) (s : Snapshot α)
    (account : AccountSnapshot α) : Decision α × RsiMeanReversionStrategy α :=
  if ¬ 0 < account.coinAvailable then (.noAction, st)
  else
    let rsiExit := s.rsi.ready && decide (st.params.overbought ≤ s.rsi.v)
    -- Without an entry price only the RSI can call for an exit.
    let (hitStop, hitTarget) : Bool × Bool :=
      match st.entryPrice, st.stopPrice, st.targetPrice with
      | some _, some stop, some target => (decide (s.close ≤ stop), decide (target ≤ s.close))
      | _, _, _ => (false, false)
    if ¬ (hitStop || hitTarget || rsiExit) then (.noAction, st)
    else
      let reasonTag := exitReason hitStop hitTarget rsiExit
      let (cid, st) := st.makeIdentifier env reasonTag
      if account.coinAvailable * s.close < env.cfg.strategy.minNotionalKrw then (.noAction, st)
      else st.submitExit s account.coinAvailable cid reasonTag

/-! Candles. -/

def buildSnapshot (env : StrategyEnv α) (st : RsiMeanReversionStrategy α) (c : Candle α) :
    Snapshot α × RsiMeanReversionStrategy α :=
  let (rsi, rsi') := st.rsi.update c.closePrice
  let (closeN, closeN') := st.closeN.update c.closePrice
  let (volatility, vol') := st.vol.update env.sqrt c.closePrice
  let trendReady := closeN.ready && decide (closeN.v ≠ 0)
  let trendStrength := if trendReady then |c.closePrice - closeN.v| / closeN.v else 0
  let trendOk := trendReady && decide (trendStrength ≤ st.params.maxTrendStrength)
  let volOk := volatility.ready && decide (st.params.minVolatility ≤ volatility.v)
  ({ close := c.closePrice
     rsi := rsi
     closeN := closeN
     volatility := volatility
     trendReady := trendReady
     trendStrength := trendStrength
     marketOk := trendOk && volOk && rsi.ready },
   { st with rsi := rsi', closeN := closeN', vol := vol' })

/-- The self-heal of `onCandle`: the state follows what the account really holds. -/
def selfHeal (env : StrategyEnv α) (st : RsiMeanReversionStrategy α) (close : α)
    (account : AccountSnapshot α) : RsiMeanReversionStrategy α :=
  let posNotional := account.coinAvailable * close
  if st.state = .flat ∧ env.cfg.strategy.minNotionalKrw ≤ posNotional then
    { st with state := .inPosition }.enterAt close
  else if st.state = .inPosition ∧ posNotional < env.cfg.strategy.minNotionalKrw then
    { st.clearPosition with state := .flat }
  else st

def onCandle (env : StrategyEnv α) (st : RsiMeanReversionStrategy α) (c : Candle α)
    (account : AccountSnapshot α) : Decision α × RsiMeanReversionStrategy α :=
  if c.market ≠ st.market then (.noAction, st)
  else if st.lastCandleTs = some c.startTimestamp then (.noAction, st)
  else
    let (s, st) := { st with lastCandleTs := some c.startTimestamp }.buildSnapshot env c
    let st := st.selfHeal env s.close account
    match st.state with
    | .flat => st.maybeEnter env s account
    | .inPosition => st.maybeExit env s account
    | .pendingEntry | .pendingExit => (.noAction, st)

def onIntrabarCandle (env : StrategyEnv α) (st : RsiMeanReversionStrategy α) (intrabarClose : α)
    (account : AccountSnapshot α) : Decision α × RsiMeanReversionStrategy α :=
  if st.state ≠ .inPosition then (.noAction, st)
  else if ¬ 0 < account.coinAvailable then (.noAction, st)
  else match st.stopPrice, st.targetPrice with
    | some stop, some target =>
      let hitStop := decide (intrabarClose ≤ stop)
      let hitTarget := decide (target ≤ intrabarClose)
      if ¬ (hitStop || hitTarget) then (.noAction, st)
      else if account.coinAvailable * intrabarClose < env.cfg.strategy.minNotionalKrw then
        (.noAction, st)
      else
        let reasonTag := exitReason hitStop hitTarget false
        let (cid, st) := st.makeIdentifier env reasonTag
        st.submitExit { Snapshot.empty with close := intrabarClose } account.coinAvailable cid
          reasonTag
    | _, _ => (.noAction, st)

/-! Events of the pending order. -/

def onFill (st : RsiMeanReversionStrategy α) (fill : FillEvent α) : RsiMeanReversionStrategy α :=
  if st.pendingClientId ≠ some fill.identifier then st
  else
    let st := { st with pendingLastPrice := fill.fillPrice }
    if 0 < fill.filledVolume then
      { st with
        pendingFilledVolume := st.pendingFilledVolume + fill.filledVolume
        pendingCostSum := st.pendingCostSum + fill.fillPrice * fill.filledVolume }
    else st

/-- The price of the whole order: of the fills reported, of the order's totals, or the last one. -/
def finalPrice (st : RsiMeanReversionStrategy α) (ev : OrderStatusEvent α) : α :=
  if 0 < st.pendingFilledVolume then st.pendingCostSum / st.pendingFilledVolume
  else if 0 < ev.executedVolume ∧ 0 < ev.executedFunds then ev.executedFunds / ev.executedVolume
  else st.pendingLastPrice

def filledVolume (st : RsiMeanReversionStrategy α) (ev : OrderStatusEvent α) : α :=
  if 0 < st.pendingFilledVolume then st.pendingFilledVolume else ev.executedVolume

def krwAmount (st : RsiMeanReversionStrategy α) (ev : OrderStatusEvent α) : α :=
  if 0 < st.pendingCostSum then st.pendingCostSum else ev.executedFunds

/-- The signal of a sell that is confirmed. -/
def sellSignal (st : RsiMeanReversionStrategy α) (cid : String) (ev : OrderStatusEvent α)
    (isPartial : Nat) (nowMs : Int) : SignalRecord α where
  market := st.market
  identifier := cid
  side := .sell
  price := st.finalPrice ev
  volume := st.filledVolume ev
  krwAmount := st.krwAmount ev
  rsi := st.signalSnapshot.rsi.asOptional
  volatility := st.signalSnapshot.volatility.asOptional
  trendStrength := if st.signalSnapshot.trendReady then some st.signalSnapshot.trendStrength else none
  isPartial := isPartial
  exitReason := st.pendingExitReason
  tsMs := nowMs

/-- `PendingEntry` with effect `Opened`. -/
def confirmEntry (st : RsiMeanReversionStrategy α) (cid : String) (ev : OrderStatusEvent α)
    (nowMs : Int) : Option (SignalRecord α) × RsiMeanReversionStrategy α :=
  let price := st.finalPrice ev
  let entered := { (if 0 < price then st.enterAt price else st) with state := .inPosition }
  let signal := entered.entryPrice.map (fun entry =>
    { market := st.market
      identifier := cid
      side := SignalSide.buy
      price := entry
      volume := st.filledVolume ev
      krwAmount := st.krwAmount ev
      stopPrice := entered.stopPrice
      targetPrice := entered.targetPrice
      rsi := st.signalSnapshot.rsi.asOptional
      volatility := st.signalSnapshot.volatility.asOptional
      trendStrength :=
        if st.signalSnapshot.trendReady then some st.signalSnapshot.trendStrength else none
      isPartial := 0
      tsMs := nowMs })
  (signal, entered)

/-- `PendingExit` with effect `Reduced`. -/
def confirmReduction (st : RsiMeanReversionStrategy α) (cid : String) (ev : OrderStatusEvent α)
    (nowMs : Int) : Option (SignalRecord α) × RsiMeanReversionStrategy α :=
  (if 0 < st.filledVolume ev then some (st.sellSignal cid ev 1 nowMs) else none,
   { st with state := .inPosition })

/-- `PendingExit` with effect `Closed`. -/
def confirmExit (st : RsiMeanReversionStrategy α) (cid : String) (ev : OrderStatusEvent α)
    (nowMs : Int) : Option (SignalRecord α) × RsiMeanReversionStrategy α :=
  (if 0 < st.finalPrice ev then some (st.sellSignal cid ev 0 nowMs) else none,
   { st.clearPosition with state := .flat })

/-- Back to the state before the order. -/
def rollBack (st : RsiMeanReversionStrategy α) : RsiMeanReversionStrategy α :=
  { st with state := if st.state = .pendingEntry then .flat else .inPosition }

def onOrderUpdate (st : RsiMeanReversionStrategy α) (ev : OrderStatusEvent α) (nowMs : Int) :
    Option (SignalRecord α) × RsiMeanReversionStrategy α :=
  match st.pendingClientId with
  | none => (none, st)
  | some cid =>
    if ev.identifier ≠ cid then (none, st)
    else if ¬ ev.status.isTerminal then (none, st)
    else
      let (signal, st') :=
        if ev.positionEffect = .none then (none, st.rollBack)
        else match st.state, ev.positionEffect with
          | .pendingEntry, .opened => st.confirmEntry cid ev nowMs
          | .pendingExit, .reduced => st.confirmReduction cid ev nowMs
          | .pendingExit, .closed => st.confirmExit cid ev nowMs
          | _, _ => (none, st.rollBack)
      (signal, st'.clearPendingState)

def onSubmitFailed (st : RsiMeanReversionStrategy α) : RsiMeanReversionStrategy α :=
  match st.pendingClientId with
  | none => st
  | some _ =>
    match st.state with
    | .pendingEntry => { st.clearPendingState with state := .flat }
    | .pendingExit => { st.clearPendingState with state := .inPosition }
    | .flat | .inPosition => st.clearPendingState

end RsiMeanReversionStrategy
end CoinBot
