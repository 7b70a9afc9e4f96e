import KisAutotrader.FillConservation
import KisAutotrader.OrderTracking
import KisAutotrader.RestartEquivalence
import KisAutotrader.ExitBookkeeping
import KisAutotrader.DailyLimits
import KisAutotrader.HaltedCycle
import KisAutotrader.RiskCharacterisation
import KisAutotrader.TokenRate
import KisAutotrader.FallbackCap
import KisAutotrader.OrderTransmission
import KisAutotrader.BreakerTrips
import KisAutotrader.TokenLife
import KisAutotrader.Subscriptions
import KisAutotrader.TaskKeeping
import KisAutotrader.TradeRecording
import KisAutotrader.ScreeningHandover
import KisAutotrader.PeakProvenance
import KisAutotrader.WeightedVote
import KisAutotrader.UniverseBound
import KisAutotrader.BrokerBooks
import KisAutotrader.BacktestAccounting
import KisAutotrader.NoLookAhead
import KisAutotrader.MarketDay
import KisAutotrader.DisclosureCompleteness
import KisAutotrader.FeedCompleteness
import KisAutotrader.VerifierGate
import KisAutotrader.DayRollover
import KisAutotrader.VoteConfidence
import KisAutotrader.RiskSnapshot
import KisAutotrader.LossSign
import KisAutotrader.HeldDecision
import KisAutotrader.StopLossMasking
import KisAutotrader.ExchangeRouting
import KisAutotrader.MarketMaster
import KisAutotrader.TaskLifeCycle
import KisAutotrader.CycleExclusion
import KisAutotrader.RestartGate
import KisAutotrader.Bollinger
import KisAutotrader.Rsi
import KisAutotrader.CrossLaw
import KisAutotrader.MergeRankings
import KisAutotrader.PriceFloor
import KisAutotrader.Quotes
import KisAutotrader.FieldNames
import KisAutotrader.Calendar
import KisAutotrader.DailyBars
import KisAutotrader.FailingSends
import KisAutotrader.BacktestReport
import KisAutotrader.BacktestCompletion
import KisAutotrader.BacktestDrawdown
import KisAutotrader.MaximalBuy
import KisAutotrader.UnpricedRows
import KisAutotrader.AnalyticsDrawdown
import KisAutotrader.Stretches
import KisAutotrader.LossStreaks
import KisAutotrader.Proposals
import KisAutotrader.ProposalRuns
import KisAutotrader.KeyedTable
import KisAutotrader.ChunkInsertion
import KisAutotrader.PublicationTime
import KisAutotrader.SlidingWindows
import KisAutotrader.Chunking
import KisAutotrader.LeftmostLongest
import KisAutotrader.TickerMatching
import KisAutotrader.Decimal
import KisAutotrader.FlowText
import KisAutotrader.FlowRoundTrip
import KisAutotrader.Settlement
import KisAutotrader.Progress
import KisAutotrader.UnionFind
import KisAutotrader.Dependency
import KisAutotrader.Separated
import KisAutotrader.PathGuard
import KisAutotrader.VerifierScope
import KisAutotrader.CommandDelivery
import KisAutotrader.CommandText
import KisAutotrader.OperatorCommands
import KisAutotrader.Watchdog
import KisAutotrader.Versioning
import KisAutotrader.MarketSchedule
import KisAutotrader.WeeklyReports
import KisAutotrader.StockTable
import KisAutotrader.NewsScore
import KisAutotrader.DailyBooks
import KisAutotrader.OrderSizing
