import CoinBot.App.MarketContext

/- `app/StartupRecovery`: what is asked of the exchange for one market when the bot
   starts, and the position the strategy starts with.

   `IOrderApi` has the two methods that only the start needs beside those of `OrderApi`.
   The logging is left out; what it counts (`cancel_count`) is read by nothing else.

   Correspondence (C++ ↔ Lean):
     `market.find('-')` and what it splits    ↔ `unitCurrency`, `baseCurrency`
     the loop over `cancel_retry`             ↔ `cancelWithRetry`
     the body of the loop over `open`         ↔ `cancelIfBot`
     the loop over `verify_retry`             ↔ `verifyCanceled`
     `strategy.syncOnStart(pos)` of `run`     ↔ the strategy that `run` returns -/
namespace CoinBot

/-- `IOrderApi`: the exchange runs on a state `σ` of its own. -/
structure IOrderApi (σ : Type) extends OrderApi σ where
  getOpenOrders : String → σ → Except RestError (List Order) × σ
  cancelOrder : Option String → Option String → σ → Except RestError Bool × σ

namespace StartupRecovery

structure Options where
  botIdentifierPrefix : String
  cancelRetry : Nat := 1
  verifyRetry : Nat := 1

def startsWith (s beginning : String) : Bool := beginning.toList.isPrefixOf s.toList

/-- What stands before the first hyphen, empty where there is none. -/
def unitCurrency (market : String) : String :=
  if '-' ∈ market.toList then String.ofList (market.toList.takeWhile (· != '-')) else ""

/-- What stands behind it. -/
def baseCurrency (market : String) : String :=
  String.ofList ((market.toList.dropWhile (· != '-')).drop 1)

example : unitCurrency "KRW-BTC" = "KRW" ∧ baseCurrency "KRW-BTC" = "BTC" ∧
    baseCurrency "BTC" = "" := by decide +kernel

/-- An order that this bot has made. -/
def isBotOrder (opt : Options) (o : Order) : Bool :=
  match o.identifier with
  | none => false
  | some identifier => startsWith identifier opt.botIdentifierPrefix

/-- The uuid the cancellation names, none where the order has none. -/
def cancelUuid (o : Order) : Option String := if o.id = "" then none else some o.id

variable {σ : Type}

def cancelWithRetry (api : IOrderApi σ) (o : Order) : Nat → σ → Bool × σ
  | 0, s => (false, s)
  | retries + 1, s =>
    match api.cancelOrder (cancelUuid o) o.identifier s with
    | (.ok true, s') => (true, s')
    | (_, s') => cancelWithRetry api o retries s'

def cancelIfBot (api : IOrderApi σ) (opt : Options) (s : σ) (o : Order) : σ :=
  if isBotOrder opt o then (cancelWithRetry api o opt.cancelRetry s).2 else s

def verifyCanceled (api : IOrderApi σ) (market : String) (opt : Options) : Nat → σ → σ
  | 0, s => s
  | retries + 1, s =>
    match api.getOpenOrders market s with
    | (.error _, s') => s'
    | (.ok remain, s') =>
      if remain.any (isBotOrder opt) then verifyCanceled api market opt retries s' else s'

def cancelBotOpenOrders (api : IOrderApi σ) (market : String) (opt : Options) (s : σ) : σ :=
  if opt.botIdentifierPrefix = "" then s
  else match api.getOpenOrders market s with
    | (.error _, s') => s'
    | (.ok openOrders, s') =>
      verifyCanceled api market opt opt.verifyRetry (openOrders.foldl (cancelIfBot api opt) s')

/-- The position of the market in the account: the first one of its two currencies. -/
def positionIn (account : Account) (market : String) : PositionSnapshot ℚ :=
  if baseCurrency market = "" ∨ unitCurrency market = "" then ⟨0, 0⟩
  else match account.positions.find? (fun p =>
      p.currency = baseCurrency market ∧ p.unitCurrency = unitCurrency market) with
    | none => ⟨0, 0⟩
    | some p => ⟨p.free, p.avgBuyPrice⟩

def buildPositionSnapshot (api : IOrderApi σ) (market : String) (s : σ) :
    PositionSnapshot ℚ × σ :=
  match api.getMyAccount s with
  | (.error _, s') => (⟨0, 0⟩, s')
  | (.ok account, s') => (positionIn account market, s')

def run (api : IOrderApi σ) (market : String) (opt : Options)
    (strategy : RsiMeanReversionStrategy ℚ) (s : σ) : RsiMeanReversionStrategy ℚ × σ :=
  let s := cancelBotOpenOrders api market opt s
  let (pos, s) := buildPositionSnapshot api market s
  (strategy.syncOnStart pos, s)

end StartupRecovery
end CoinBot
