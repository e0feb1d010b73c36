import Cheetah.HyperTable
import Cheetah.CircularProbing
import Cheetah.CircularShift
import Cheetah.HyperTableProbe
import Cheetah.HyperTableInsert
import Cheetah.HyperTableHash
import Cheetah.HyperTableRebuild
import Cheetah.HyperTableOps
import Cheetah.HyperTableMap
import Cheetah.Runs
import Cheetah.PackedCounts
import Cheetah.WorkerMaps
import Cheetah.WorkerMapsInvariant
import Cheetah.WorkerSleep
import Cheetah.WorkerSleepInvariant
import Cheetah.SleepHistories
import Cheetah.SentinelWindow
import Cheetah.SentinelAverage
import Cheetah.FailCounts
import Cheetah.WakePermits
import Cheetah.TheDeque
import Cheetah.TheDequeInvariant
import Cheetah.SiblingList
import Cheetah.ForkJoin
import Cheetah.Scheduler
import Cheetah.SchedulerFrames
import Cheetah.SchedulerStacks
import Cheetah.SchedulerSteals
import Cheetah.SchedulerRuns
import Cheetah.SchedulerJoins
import Cheetah.HyperTableResize
import Cheetah.HyperTableMerge
import Cheetah.Bracketing
import Cheetah.ExceptionViews
import Cheetah.DoReductions
import Cheetah.FiberPool
import Cheetah.FiberPoolInvariant
import Cheetah.InternalMalloc
import Cheetah.InternalMallocInvariant
import Cheetah.InternalMallocRuns
import Cheetah.InternalMallocShutdown
import Cheetah.SchedulerLocks
import Cheetah.LockOrder
import Cheetah.Ownership
import Cheetah.OwnershipSteps
import Cheetah.OwnershipRules
import Cheetah.OwnershipSteals
import Cheetah.OwnershipStatements
import Cheetah.OwnershipRuns
import Cheetah.BusySlots
import Cheetah.WordArithmetic
import Cheetah.DprngMix
import Cheetah.VictimSelection
import Cheetah.ContinueProbe
import Cheetah.Pedigree
import Cheetah.PedigreeFormula
import Cheetah.PedigreeDepth
import Cheetah.LeftHolderRuns
import Cheetah.SerialViewsRuns
import Cheetah.FiberConservation
import Cheetah.PedigreeRuns
import Cheetah.HyperTableInsertOnly
import Cheetah.ReducerViews
import Cheetah.ReducerViewsSpec
import Cheetah.ReducerTables
import Cheetah.ReducerActions
import Cheetah.RegionOutcome
import Cheetah.ReducerSteps
import Cheetah.ReducerWords
import Cheetah.ReducerRuns
import Cheetah.ScheduleIndependence
