import PswapSolver.FiniteMap
import PswapSolver.Order
import PswapSolver.StableQueue
import PswapSolver.OrderBook
import PswapSolver.BookInvariant
import PswapSolver.DirectMatching
import PswapSolver.Accounting
import PswapSolver.ThreeEdgeCycle
import PswapSolver.CycleInvariant
import PswapSolver.Engine
import PswapSolver.CycleSolvency
import PswapSolver.Trades
import PswapSolver.Representation
import PswapSolver.Termination
import PswapSolver.Listing
import PswapSolver.Priority
import PswapSolver.Crossing
import PswapSolver.SwapEta
import PswapSolver.Ledger
import PswapSolver.Greedy
import PswapSolver.Determinism
import PswapSolver.Checked
import PswapSolver.Machine
import PswapSolver.Overflow
import PswapSolver.Notes
import PswapSolver.Settlement
import PswapSolver.BookViews
import PswapSolver.ExternalPass
import PswapSolver.Matcher
import PswapSolver.Solvency
import PswapSolver.Runs
import PswapSolver.Exclusivity
import PswapSolver.InFlight
import PswapSolver.Database
import PswapSolver.Executor
import PswapSolver.Pipeline
import PswapSolver.Nullified
import PswapSolver.Consumption
import PswapSolver.Location
import PswapSolver.Recovery
import PswapSolver.Landing
import PswapSolver.Records
import PswapSolver.Ingestion
import PswapSolver.Publication
import PswapSolver.Router
import PswapSolver.QuoteUpdates
import PswapSolver.QuoteCapacity
import PswapSolver.Connections
import PswapSolver.ConnectionCount
import PswapSolver.TickBoundary
import PswapSolver.Provenance
import PswapSolver.Balance
import PswapSolver.Tightest
import PswapSolver.Codec
import PswapSolver.Tables
import PswapSolver.Storage
import PswapSolver.Wire
import PswapSolver.LpClient
import PswapSolver.Backoff
import PswapSolver.Supervisor
import PswapSolver.Delivery
import PswapSolver.Network
import PswapSolver.Forwarding
import PswapSolver.Backpressure
import PswapSolver.Lifecycle
import PswapSolver.Admin
import PswapSolver.Subscription
import PswapSolver.Registry
import PswapSolver.Mirror
import PswapSolver.OffMarket
import PswapSolver.Submission
import PswapSolver.MirrorTick
import PswapSolver.OrderStatistics
import PswapSolver.SettlementStats
import PswapSolver.Readers
import PswapSolver.PricePolls
import PswapSolver.PriceApi
import PswapSolver.ServedPrices
import PswapSolver.Selection
import PswapSolver.Triangles
import PswapSolver.Exhaustion
import PswapSolver.TripleProduct
import PswapSolver.StackMachine
import PswapSolver.ConsumeScript
