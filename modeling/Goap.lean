import Goap.Comparer.ZeroDistance
import Goap.Search.PathCalls
import Goap.Search.VisitedStates
import Goap.Search.Isolation
import Goap.Search.Completeness
import Goap.Search.Shortest
import Goap.Cache.MiddleReuse
import Goap.Cache.CallerList
import Goap.Value.CachedValue
import Goap.State.CachedState
import Goap.Foundation.ObjectPool
import Goap.Pool.PooledObjects
import Goap.Pool.Recycling
import Goap.Factory.Singleton
import Goap.Pool.Ownership
import Goap.State.CellStore
import Goap.Foundation.RunningMinimum
import Goap.Search.Landmark
import Goap.Foundation.Truncation
import Goap.Search.CostResolution
import Goap.Search.ExecutedPrefix
import Goap.Foundation.Grouping
import Goap.Search.QueueCounters
import Goap.Foundation.Pointwise
import Goap.Value.Equality
import Goap.State.Arithmetic
import Goap.Comparer.ExactDistance
import Goap.State.NullValues
import Goap.Comparer.Normalised
import Goap.Comparer.LevensteinDistance
import Goap.Comparer.Division
import Goap.Pool.Conservation
import Goap.Stream.BasicStreamBuffer
import Goap.Value.MissingComponents
import Goap.Value.TextForm
import Goap.Value.Interpolation
import Goap.Value.Resampling
import Goap.Factory.LibInscribe
import Goap.Comparer.ComparerStateMeter
import Goap.Factory.CreateAll
import Goap.AS3.Hashing
import Goap.Foundation.Segmentation
import Goap.AS3.State
import Goap.AS3.Serialisation
import Goap.AS3.PlanningAction
import Goap.AS3.PrioritizedQueue
import Goap.Foundation.RelatedQueues
import Goap.Foundation.VisitedSearch
import Goap.AS3.Path
import Goap.AS3.MakePlan
import Goap.AS3.PlainSearch
import Goap.AS3.PathPool
import Goap.AS3.Exhaustive
import Goap.AS3.CachedSession
import Goap.AS3.Program
import Goap.AS3.HanoiPlans
import Goap.Stream.BasicSinkCollection
import Goap.Stream.Sequencer
import Goap.AS3.Port
import Goap.AS3.RoundTrip
import Goap.Foundation.Starvation
import Goap.Search.Liveness
import Goap.AS3.ShortestPlan
import Goap.Foundation.FiniteMap
import Goap.State.StateHeap
