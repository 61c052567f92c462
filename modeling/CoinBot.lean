import CoinBot.Lib.KeyMap
import CoinBot.Lib.Machine
import CoinBot.Lib.Escrow
import CoinBot.Lib.Decimal
import CoinBot.Lib.WeightedMean
import CoinBot.Core.Domain
import CoinBot.Allocation.AccountManager
import CoinBot.Allocation.Reservation
import CoinBot.Allocation.Startup
import CoinBot.Api.RestClient
import CoinBot.Api.UpbitExchangeRestClient
import CoinBot.Engine.OrderStore
import CoinBot.Engine.MarketEngine
import CoinBot.Engine.SingleOrder
import CoinBot.Engine.Terminal
import CoinBot.Engine.Execution
import CoinBot.Engine.Settlement
import CoinBot.Engine.Submission
import CoinBot.Trading.Indicators
import CoinBot.Trading.RsiMeanReversionStrategy
import CoinBot.Api.MyOrderMapper
import CoinBot.App.MarketContext
import CoinBot.Engine.Booking
import CoinBot.App.OrderMessages
import CoinBot.App.ExactlyOnce
import CoinBot.App.NoFillLost
import CoinBot.Engine.Outstanding
import CoinBot.Trading.StrategyState
import CoinBot.App.Agreement
import CoinBot.Engine.AverageCost
import CoinBot.Trading.PendingEntry
import CoinBot.App.EntryPrice
import CoinBot.Trading.StateMachine
import CoinBot.Lib.Runs
import CoinBot.App.CandleStream
import CoinBot.App.Reconnect
import CoinBot.App.Advances
import CoinBot.App.Rollback
import CoinBot.App.Acceptance
import CoinBot.Engine.Telescoping
import CoinBot.Engine.Isolation
import CoinBot.App.EventRouter
import CoinBot.App.RouterPaths
import CoinBot.Lib.Series
import CoinBot.Trading.IndicatorHistory
import CoinBot.Backtest.BatchIndicators
import CoinBot.Backtest.EntryRule
import CoinBot.Allocation.Rebuild
import CoinBot.Engine.Reconciliation
import CoinBot.Allocation.OverSell
import CoinBot.Backtest.Volatility
import CoinBot.Backtest.WilderRsi
import CoinBot.Backtest.Accounting
import CoinBot.Dashboard.PairTrades
import CoinBot.Dashboard.CycleWindows
import CoinBot.Lib.Calendar
import CoinBot.Lib.DateText
import CoinBot.Collector.FetchCandles
import CoinBot.Collector.FindGaps
import CoinBot.Collector.FetchRange
import CoinBot.Collector.Finished
import CoinBot.Engine.Margin
import CoinBot.Lib.JsonAccess
import CoinBot.Api.OpenOrdersMapper
import CoinBot.App.RequestFields
import CoinBot.Api.MappersAgree
import CoinBot.App.PendingTimeout
import CoinBot.Api.WsMessageParser
import CoinBot.App.InboundMessages
import CoinBot.Api.UpbitJwtSigner
import CoinBot.Api.OrderQuantity
import CoinBot.Database.EpochMs
import CoinBot.Api.Resubscription
import CoinBot.Api.SignedOrder
import CoinBot.Lib.Window
import CoinBot.Trading.RingBuffer
import CoinBot.Trading.RollingWindow
import CoinBot.Engine.TradeDedupe
import CoinBot.Backtest.CandleGaps
import CoinBot.Collector.GapCounters
import CoinBot.Lib.DropQueue
import CoinBot.Core.BlockingQueue
import CoinBot.Lib.Journal
import CoinBot.App.StartupRecovery
import CoinBot.App.MarketEngineManager
import CoinBot.App.Startup
import CoinBot.App.Delivery
import CoinBot.App.StartupTraffic
import CoinBot.App.BotIdentifiers
import CoinBot.App.BotTraffic
import CoinBot.App.Restart
import CoinBot.Lib.Locked
import CoinBot.App.SharedOrderApi
import CoinBot.App.Moves
import CoinBot.Lib.UniqueTable
import CoinBot.Database.OrderTable
import CoinBot.App.Records
import CoinBot.App.Signals
import CoinBot.App.OneOrder
import CoinBot.App.Replay
import CoinBot.App.BotIsolation
import CoinBot.App.Treasury
import CoinBot.Engine.Conservation
