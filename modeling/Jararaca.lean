import Jararaca.EarlyAck
import Jararaca.ChildHeaders
import Jararaca.DelayedStore
import Jararaca.RetryAttempts
import Jararaca.RetryLineage
import Jararaca.RetryRuns
import Jararaca.RetryBudget
import Jararaca.BeatCron
import Jararaca.HttpRoutes
import Jararaca.Lifecycle
import Jararaca.AtomicLayer
import Jararaca.BeatLock
import Jararaca.ProcessingSlots
import Jararaca.DelayedDispatch
import Jararaca.DelayedConservation
import Jararaca.DelayedPutBack
import Jararaca.ScheduledOverlap
import Jararaca.Callbacks
import Jararaca.FlushAtomicity
import Jararaca.GracefulShutdown
import Jararaca.PublisherModes
import Jararaca.TriggerAccounting
import Jararaca.Controllers
import Jararaca.DelayedCodec
import Jararaca.TopicPatterns
import Jararaca.TopicRouting
import Jararaca.Containers
import Jararaca.HandlerSelection
import Jararaca.NamedSessions
import Jararaca.ProviderLayers
import Jararaca.ProviderOrder
import Jararaca.QueueIdentity
import Jararaca.RoomMessages
import Jararaca.SocketBackend
import Jararaca.SocketRooms
import Jararaca.ClientCancellation
import Jararaca.PathTemplates
import Jararaca.ClientRoutes
import Jararaca.TypeScriptTypes
import Jararaca.GenericModels
import Jararaca.TypeInterfaces
import Jararaca.WorkLists
import Jararaca.ReferenceClosure
import Jararaca.TypeScriptText
import Jararaca.JsonTypes
import Jararaca.ClassDecorators
import Jararaca.IdempotentMerge
import Jararaca.DelayedPublication
import Jararaca.ExecutionCounter
import Jararaca.ConnectionRetries
import Jararaca.InboundTrace
import Jararaca.ScopeStacks
import Jararaca.RpcCache
import Jararaca.SplitModels
import Jararaca.ConsumerSupervision
import Jararaca.DecoratorFrames
import Jararaca.EndpointMethods
import Jararaca.OnDemandInstances
import Jararaca.ParameterPlaces
import Jararaca.QueryGuards
import Jararaca.SendConsumer
import Jararaca.Unfoldings
import Jararaca.InterfaceOrder
import Jararaca.RecursiveModels
import Jararaca.TypeBindings
import Jararaca.GlobalScheduler
import Jararaca.JsonColumns
import Jararaca.Pagination
import Jararaca.ResponseEvents
import Jararaca.RetryBackoff
import Jararaca.DecisiveCalls
import Jararaca.RetryOutcomes
import Jararaca.RpcRetries
import Jararaca.PathRewriting
import Jararaca.SeparatedLists
import Jararaca.TraceEcho
import Jararaca.TextReplacement
import Jararaca.PathArguments
import Jararaca.LikePatterns
import Jararaca.SortFilters
import Jararaca.EmptinessFilters
import Jararaca.TextFilters
import Jararaca.TypedFilters
import Jararaca.DeadLetterRouting
import Jararaca.TraceFlows
import Jararaca.HttpShutdown
import Jararaca.QueryOrder
import Jararaca.ConsumerChannels
import Jararaca.BeatFailures
import Jararaca.ReloadWatcher
import Jararaca.RpcTracing
import Jararaca.TracedClasses
