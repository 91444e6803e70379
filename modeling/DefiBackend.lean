import DefiBackend.Theory.Modular
import DefiBackend.Theory.Coverage
import DefiBackend.Theory.Fallible
import DefiBackend.Theory.Run
import DefiBackend.Theory.KeyValue
import DefiBackend.Common.CacheKey
import DefiBackend.Common.Address
import DefiBackend.Common.Collections
import DefiBackend.Common.JsValue
import DefiBackend.Common.JsNumber
import DefiBackend.Integration.UniswapV3.PositionMath
import DefiBackend.Integration.UniswapV3.FeeAccrual
import DefiBackend.Integration.Support.ProtocolKeys
import DefiBackend.Integration.Support.CacheableProtocol
import DefiBackend.Integration.Platforms.OccamX
import DefiBackend.Integration.Support.CacheIsolation
import DefiBackend.Integration.Support.CachedPath
import DefiBackend.Integration.Support.SingleContractProtocol
import DefiBackend.Integration.Protocols.MasterChef
import DefiBackend.Integration.Support.ProtocolIdentity
import DefiBackend.Integration.Support.Opportunity
import DefiBackend.Integration.Support.Hydration
import DefiBackend.Integration.Support.RootPlatform
import DefiBackend.Integration.Support.PlatformPartition
import DefiBackend.Integration.Support.UserSources
import DefiBackend.Integration.Support.RepeatedRequests
import DefiBackend.Theory.SharedCells
import DefiBackend.Common.BigNumber
import DefiBackend.Common.CallData
import DefiBackend.Integration.Protocols.StakingRewards
import DefiBackend.Integration.Protocols.BenqiLending
import DefiBackend.Integration.Protocols.Noninterference
import DefiBackend.Integration.V3Decorator.Conversion
import DefiBackend.Integration.V3Decorator.Accounting
import DefiBackend.Integration.V3Decorator.Conservation
import DefiBackend.Price.CurrentPrices
import DefiBackend.Price.PriceCoherence
import DefiBackend.Common.JsMap
import DefiBackend.Integration.UniswapV3.PositionAmounts
import DefiBackend.Integration.UniswapV3.Positions
import DefiBackend.Integration.UniswapV3.PoolCoherence
import DefiBackend.Integration.Support.PlatformSync
import DefiBackend.Opportunities.Adapters
import DefiBackend.Opportunities.Refresh
import DefiBackend.Assets.SourcePrices
import DefiBackend.Assets.SourcePriceRuns
import DefiBackend.Assets.CachedAssets
import DefiBackend.Assets.AssetTrees
import DefiBackend.Theory.Correspondence
import DefiBackend.Assets.CacheEntities
import DefiBackend.Assets.CacheAnswers
import DefiBackend.Account.Transactions
import DefiBackend.Migration.EventsConsumer
import DefiBackend.Theory.Awaiting
import DefiBackend.Migration.ChainCrawler
import DefiBackend.Assets.HistoricalPrices
import DefiBackend.Integration.ProtocolTotals
import DefiBackend.Theory.Visits
import DefiBackend.Integration.PriceAdjustment
import DefiBackend.Integration.PriceAtomicity
import DefiBackend.Integration.Protocols.MakerVault
import DefiBackend.Account.HistoricalBalances
import DefiBackend.Rpc.SuccessScores
import DefiBackend.Rpc.EndpointsMap
import DefiBackend.Common.AbiDecoding
import DefiBackend.Common.MulticallAggregator
import DefiBackend.Theory.BitFold
import DefiBackend.Integration.UniswapV3.ClampedPrice
import DefiBackend.Assets.SequentialSaves
import DefiBackend.Price.EmptyRequests
import DefiBackend.Price.TimedPrices
import DefiBackend.Price.NegativeCaching
import DefiBackend.Price.HourlyPrices
import DefiBackend.Integration.Protocols.BenqiRewards
import DefiBackend.Integration.Protocols.FraxStaking
import DefiBackend.Theory.Splice
import DefiBackend.Integration.Protocols.ExcludedPools
import DefiBackend.Theory.Pointers
import DefiBackend.Integration.Support.AbiService
import DefiBackend.Integration.MissedData
import DefiBackend.Integration.StakingPrices
import DefiBackend.Common.Int32
import DefiBackend.Integration.PoolMapper
import DefiBackend.Theory.Places
import DefiBackend.Assets.SpecificPrices
import DefiBackend.Assets.SingleUnderlying
import DefiBackend.Assets.ReservesCache
import DefiBackend.Theory.Chunks
import DefiBackend.Assets.Univ2Network
import DefiBackend.Assets.Univ2Subgraph
import DefiBackend.Theory.Descent
import DefiBackend.Assets.AssetsProcessor
import DefiBackend.Account.BalanceTotals
import DefiBackend.Account.DailyReturns
import DefiBackend.Theory.ChordSearch
import DefiBackend.Account.BlocktimeService
import DefiBackend.Account.ProfitAndLoss
import DefiBackend.Account.MergedTransfers
import DefiBackend.Account.CovalentTransactions
import DefiBackend.Gateway.ScanTransfers
import DefiBackend.Theory.Sorting
import DefiBackend.Rpc.EndpointsOrder
import DefiBackend.Theory.WeightedMean
import DefiBackend.Jobs.ReservePrices
import DefiBackend.Jobs.MissingReserves
import DefiBackend.Jobs.ExternalPrices
import DefiBackend.Migration.TransactionsParsing
import DefiBackend.Theory.Loops
import DefiBackend.Categorization.ContractsService
import DefiBackend.Categorization.ProtocolsService
import DefiBackend.Common.Chunking
import DefiBackend.Common.HexText
import DefiBackend.Integration.Protocols.MakerIlks
import DefiBackend.Common.NestedOutputs
import DefiBackend.Theory.Fuel
import DefiBackend.Integration.Protocols.FraxObjects
import DefiBackend.Integration.Protocols.FraxPrinting
import DefiBackend.Rpc.RpcService
import DefiBackend.Scheduler.TaskService
import DefiBackend.Opportunities.Multifarm
import DefiBackend.Integration.Support.CurveAssets
import DefiBackend.Categorization.ContractsAnalysis
import DefiBackend.Jobs.NewAssets
import DefiBackend.Assets.BulkAssets
import DefiBackend.Theory.Tasks
import DefiBackend.Jobs.AssetPairs
import DefiBackend.Jobs.JobsRunner
import DefiBackend.Jobs.CachedFeatures
import DefiBackend.Account.OpenSeaCache
import DefiBackend.Categorization.TaskWorker
