import TickLiq.Machine.Run
import TickLiq.Machine.Backoff
import TickLiq.Machine.Binary64
import TickLiq.Machine.BoundedChannel
import TickLiq.Machine.Checked
import TickLiq.Machine.Loop
import TickLiq.Machine.Collecting
import TickLiq.Machine.Conversation
import TickLiq.Machine.Decimal
import TickLiq.Machine.Holdings
import TickLiq.Machine.Interleaving
import TickLiq.Machine.JsonValue
import TickLiq.Machine.KeyedRows
import TickLiq.Machine.LittleEndian
import TickLiq.Machine.Layout
import TickLiq.Machine.Oneshot
import TickLiq.Machine.Paging
import TickLiq.Machine.Radix
import TickLiq.Machine.Wrapping
import TickLiq.Machine.Saturating
import TickLiq.Machine.Searching
import TickLiq.Machine.Segments
import TickLiq.Machine.Truncation
import TickLiq.Machine.Utf8
import TickLiq.Math.Metrics
import TickLiq.Math.Drawdown
import TickLiq.Math.Il
import TickLiq.Math.SqrtPrice
import TickLiq.Math.F64
import TickLiq.Math.Fees
import TickLiq.Math.Greeks
import TickLiq.Math.IlShape
import TickLiq.Math.IlUnits
import TickLiq.Math.Impact
import TickLiq.Math.Libm
import TickLiq.Strategy.DriftMargin
import TickLiq.Strategy.RiskMonitor
import TickLiq.Strategy.RiskTrace
import TickLiq.Strategy.Signal
import TickLiq.Execution.Rebalance
import TickLiq.Protocols.TickArrays
import TickLiq.Protocols.Accounts
import TickLiq.Protocols.Pubkeys
import TickLiq.Protocols.TokenMetadata
import TickLiq.Protocols.AccountReads
import TickLiq.Analytics.Amounts
import TickLiq.Analytics.Depth
import TickLiq.Analytics.Anchored
import TickLiq.Analytics.DepthWindow
import TickLiq.Analytics.OrcaPnl
import TickLiq.Analytics.InRange
import TickLiq.Analytics.DollarIl
import TickLiq.Analytics.Impact
import TickLiq.Analytics.ImpactCurve
import TickLiq.Analytics.MidBucket
import TickLiq.Backtest.PriceToTick
import TickLiq.Backtest.Report
import TickLiq.Backtest.DbReplay
import TickLiq.Backtest.Backfill
import TickLiq.Backtest.RoundTrip
import TickLiq.Backtest.DayRows
import TickLiq.Storage.PoolTicks
import TickLiq.Backtest.StoredBackfill
import TickLiq.Backtest.Gbm
import TickLiq.Backtest.Marks
import TickLiq.Backtest.SwitchedOff
import TickLiq.Backtest.Engines
import TickLiq.Backtest.TickSizes
import TickLiq.Data.Geckoterminal
import TickLiq.Backtest.ExtremeTicks
import TickLiq.Backtest.GbmRange
import TickLiq.Backtest.Realized
import TickLiq.Backtest.Ledger
import TickLiq.Backtest.RangeSignal
import TickLiq.Backtest.Recapture
import TickLiq.Backtest.Scaling
import TickLiq.Backtest.WatchFees
import TickLiq.Backtest.Windows
import TickLiq.Backtest.WindowFees
import TickLiq.Research.Sweep
import TickLiq.Storage.EntryPriceCache
import TickLiq.Storage.RiskRow
import TickLiq.Storage.ShadowRebalances
import TickLiq.Data.CexFeed
import TickLiq.Data.AccountWatch
import TickLiq.Data.AccountSession
import TickLiq.Data.CoinbaseFeed
import TickLiq.Data.ExchangeFeeds
import TickLiq.Bot.Commands
import TickLiq.Bot.Approval
import TickLiq.Bot.ApprovalInvariant
import TickLiq.Bot.ApprovalSafety
import TickLiq.Bot.ApprovalExecution
import TickLiq.Bot.PauseGate
import TickLiq.Bot.Restarts
import TickLiq.Watch.FeeLedger
import TickLiq.Watch.RiskGate
import TickLiq.Watch.HaltDurability
import TickLiq.Watch.RebalanceGate
import TickLiq.Watch.Valuation
import TickLiq.Watch.TickPipeline
import TickLiq.Watch.SubmissionSafety
import TickLiq.Watch.TickRecords
import TickLiq.Watch.LiveMode
import TickLiq.Watch.LiveSession
import TickLiq.Watch.MarginReports
import TickLiq.Watch.TickQueue
import TickLiq.Watch.Notifications
import TickLiq.Watch.OperatorPause
import TickLiq.Watch.Sessions
import TickLiq.Watch.WatchSystem
import TickLiq.Cli.Commands
import TickLiq.Logs.Redaction
