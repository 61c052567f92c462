import Mathlib.Data.Rat.Defs
import Mathlib.Algebra.Field.Defs
import Mathlib.Algebra.Order.Ring.Rat
import Mathlib.Tactic.NormNum

/- The domain types of `core/domain` and the settings of `util/Config.h`.

   Prices, volumes and amounts are doubles in the source; here they are exact
   rationals. The types the strategy exchanges with the engine take the number
   type as a parameter, because one of its indicators takes a square root. -/
namespace CoinBot

abbrev Price := ℚ
abbrev Volume := ℚ
abbrev Amount := ℚ

inductive OrderPosition where
  | ask
  | bid
  deriving DecidableEq, Repr

inductive OrderType where
  | market
  | limit
  deriving DecidableEq, Repr

inductive OrderStatus where
  | new
  | open_
  | pending
  | filled
  | canceled
  | rejected
  deriving DecidableEq, Repr

/-- What a closed order did to the position, apart from the name of its status. -/
inductive PositionEffect where
  | unknown
  | none
  | opened
  | reduced
  | closed
  deriving DecidableEq, Repr

/-- The terminal statuses, as the source tests them wherever it asks. -/
def OrderStatus.isTerminal (s : OrderStatus) : Bool :=
  s == .filled || s == .canceled || s == .rejected

/-- `OrderSize`, the variant of a volume and an amount. -/
inductive OrderSize (α : Type) where
  | volume (value : α)
  | amount (value : α)
  deriving DecidableEq, Repr

/-- What the strategy asks of the engine. -/
structure OrderRequest (α : Type) where
  market : String
  position : OrderPosition
  type : OrderType
  size : OrderSize α
  price : Option α := none
  strategyId : String := ""
  identifier : String := ""
  clientTag : String := ""
  deriving DecidableEq, Repr

/-- One fill of one of our orders. -/
structure MyTrade where
  orderUuid : String
  tradeUuid : String
  market : String
  side : OrderPosition := .bid
  price : Price := 0
  volume : Volume := 0
  executedFunds : Amount := 0
  fee : Amount := 0
  isMaker : Option Bool := none
  tradeTimestampMs : Int := 0
  identifier : Option String := none
  deriving DecidableEq, Repr

/-- An order and what is known of its progress. -/
structure Order where
  market : String
  identifier : Option String := none
  id : String
  position : OrderPosition
  type : OrderType
  -- The request as submitted: set once, and kept by every later snapshot.
  price : Option Price := none
  volume : Option Volume := none
  requestedAmount : Option Amount := none
  -- Cumulative over the order's fills.
  executedVolume : Volume := 0
  remainingVolume : Volume := 0
  tradesCount : Int := 0
  reservedFee : Amount := 0
  paidFee : Amount := 0
  remainingFee : Amount := 0
  locked : Amount := 0
  executedFunds : Amount := 0
  status : OrderStatus
  createdAt : String := ""
  deriving DecidableEq, Repr

/-- A holding of one currency in the exchange account. -/
structure Position where
  currency : String
  free : ℚ
  avgBuyPrice : Price
  unitCurrency : String := "KRW"
  deriving DecidableEq, Repr

/-- The exchange account, the KRW row split off from the coins. -/
structure Account where
  krwFree : Amount := 0
  positions : List Position := []
  deriving DecidableEq, Repr

/-- A candle. Its start time is the text it came with. -/
structure Candle (α : Type) where
  market : String
  openPrice : α
  highPrice : α
  lowPrice : α
  closePrice : α
  volume : α
  startTimestamp : String
  deriving DecidableEq, Repr

/-! Settings. -/

structure StrategyConfig (α : Type) where
  minNotionalKrw : α

structure EngineConfig (α : Type) where
  maxSeenTrades : Nat
  reserveMargin : α
  defaultTradeFeeRate : α

/-- The thresholds of the ledger. They are positive, and nothing changes them. -/
structure AccountConfig where
  coinEpsilon : Volume
  krwDustThreshold : Amount
  initDustThresholdKrw : Amount
  coinEpsilon_pos : 0 < coinEpsilon
  krwDustThreshold_pos : 0 < krwDustThreshold
  initDustThresholdKrw_pos : 0 < initDustThresholdKrw

structure BotConfig where
  liveCandleUnitMinutes : Int

structure AppConfig (α : Type) where
  bot : BotConfig
  strategy : StrategyConfig α
  engine : EngineConfig α
  account : AccountConfig

-- Named: every module that writes one of these numerals refers to the same proof.
instance atLeastTwo_four : Nat.AtLeastTwo 4 := inferInstance
instance atLeastTwo_five : Nat.AtLeastTwo 5 := inferInstance
instance atLeastTwo_ten : Nat.AtLeastTwo 10 := inferInstance
instance atLeastTwo_fifteen : Nat.AtLeastTwo 15 := inferInstance
instance atLeastTwo_thirty : Nat.AtLeastTwo 30 := inferInstance
instance atLeastTwo_fifty : Nat.AtLeastTwo 50 := inferInstance
instance atLeastTwo_seventy : Nat.AtLeastTwo 70 := inferInstance
instance atLeastTwo_hundred : Nat.AtLeastTwo 100 := inferInstance
instance atLeastTwo_thousand : Nat.AtLeastTwo 1000 := inferInstance
instance atLeastTwo_thousandAndOne : Nat.AtLeastTwo 1001 := inferInstance
instance atLeastTwo_fiveThousand : Nat.AtLeastTwo 5000 := inferInstance
instance atLeastTwo_tenThousand : Nat.AtLeastTwo 10000 := inferInstance

/-- `AppConfig::instance()`: the values the source sets, which nothing changes later. -/
def AppConfig.standard (α : Type) [Field α] : AppConfig α where
  bot := { liveCandleUnitMinutes := 15 }
  strategy := { minNotionalKrw := 5000 }
  engine := { maxSeenTrades := 20000, reserveMargin := 1001 / 1000, defaultTradeFeeRate := 5 / 10000 }
  account :=
    { coinEpsilon := 1 / 100000000, krwDustThreshold := 1, initDustThresholdKrw := 5000
      coinEpsilon_pos := by norm_num
      krwDustThreshold_pos := by norm_num
      initDustThresholdKrw_pos := by norm_num }

end CoinBot
