import OperatingSystems.Concurrency.Agreement
import OperatingSystems.Concurrency.AtomicQueues
import OperatingSystems.Concurrency.Buffer
import OperatingSystems.Concurrency.Calls
import OperatingSystems.Concurrency.Cells
import OperatingSystems.Concurrency.ChannelRefinement
import OperatingSystems.Concurrency.Closed
import OperatingSystems.Concurrency.Deadlock
import OperatingSystems.Concurrency.Decision
import OperatingSystems.Concurrency.Drain
import OperatingSystems.Concurrency.Fifo
import OperatingSystems.Concurrency.FirstReady
import OperatingSystems.Concurrency.Focus
import OperatingSystems.Concurrency.Handshake
import OperatingSystems.Concurrency.LinkedList
import OperatingSystems.Concurrency.NonBlocking
import OperatingSystems.Concurrency.Programs
import OperatingSystems.Concurrency.Quiescence
import OperatingSystems.Concurrency.Registration
import OperatingSystems.Concurrency.Rendezvous
import OperatingSystems.Concurrency.RingBuffer
import OperatingSystems.Concurrency.Rousing
import OperatingSystems.Concurrency.Scanning
import OperatingSystems.Concurrency.Selecting
import OperatingSystems.Concurrency.Shape
import OperatingSystems.Concurrency.Step
import OperatingSystems.Concurrency.System
import OperatingSystems.Concurrency.Wakeup
import OperatingSystems.Driver.Evaluation
import OperatingSystems.Driver.RangeRuns
import OperatingSystems.Driver.RangeSet
import OperatingSystems.Driver.RangeTracking
import OperatingSystems.Driver.RangeUpdate
import OperatingSystems.Driver.Stree
import OperatingSystems.Driver.StreeMap
import OperatingSystems.Driver.StreeRefinement
import OperatingSystems.Driver.StreeSearch
import OperatingSystems.Driver.StreeSplay
import OperatingSystems.Driver.StreeUpdate
import OperatingSystems.Homework.Kobject
import OperatingSystems.Homework.LinkedList
import OperatingSystems.Library.Ascent
import OperatingSystems.Library.BoundedQueue
import OperatingSystems.Library.Buckets
import OperatingSystems.Library.BusyPeriod
import OperatingSystems.Library.CString
import OperatingSystems.Library.Descriptors
import OperatingSystems.Library.DoublyLinked
import OperatingSystems.Library.ForLoop
import OperatingSystems.Library.Inevitable
import OperatingSystems.Library.LinkedRing
import OperatingSystems.Library.LinkedTree
import OperatingSystems.Library.LinkedTreeEdits
import OperatingSystems.Library.NodeChain
import OperatingSystems.Library.Service
import OperatingSystems.Library.SortedMap
import OperatingSystems.Library.TaggedWord
import OperatingSystems.Library.Tokens
import OperatingSystems.Library.Transition
import OperatingSystems.Library.WeightedWalk
import OperatingSystems.Malloc.Checkheap
import OperatingSystems.Malloc.Coalesced
import OperatingSystems.Malloc.Contracts
import OperatingSystems.Malloc.Isolation
import OperatingSystems.Malloc.Realloc
import OperatingSystems.Malloc.Separated
import OperatingSystems.Malloc.Wraparound
import OperatingSystems.Scheduling.Checked
import OperatingSystems.Scheduling.ClockSafety
import OperatingSystems.Scheduling.CompletionOrder
import OperatingSystems.Scheduling.Discipline
import OperatingSystems.Scheduling.EventLoop
import OperatingSystems.Scheduling.Journal
import OperatingSystems.Scheduling.LeastServed
import OperatingSystems.Scheduling.LinkedList
import OperatingSystems.Scheduling.Machine
import OperatingSystems.Scheduling.Mlfq
import OperatingSystems.Scheduling.MlfqDestroy
import OperatingSystems.Scheduling.MlfqOrder
import OperatingSystems.Scheduling.MlfqState
import OperatingSystems.Scheduling.NonPreemptive
import OperatingSystems.Scheduling.Policies
import OperatingSystems.Scheduling.Queues
import OperatingSystems.Scheduling.Refinement
import OperatingSystems.Scheduling.RoundRobin
import OperatingSystems.Scheduling.Scheduler
import OperatingSystems.Scheduling.SingleCompletion
import OperatingSystems.Scheduling.TraceRun
import OperatingSystems.Scheduling.Tracking
import OperatingSystems.Scheduling.WorkConservation
import OperatingSystems.Shell.Assignment
import OperatingSystems.Shell.Builtin
import OperatingSystems.Shell.Command
import OperatingSystems.Shell.Failures
import OperatingSystems.Shell.ReadLine
import OperatingSystems.Shell.Redirection
import OperatingSystems.Shell.Semantics
import OperatingSystems.Shell.Word
import OperatingSystems.Stress.FloydWarshall
import OperatingSystems.Stress.RingDeadlock
import OperatingSystems.Stress.RingEnd
import OperatingSystems.Stress.RingMessages
import OperatingSystems.Stress.RingPace
import OperatingSystems.Stress.Router
import OperatingSystems.Stress.RouterAcceptance
import OperatingSystems.Stress.RouterBuffers
import OperatingSystems.Stress.RouterConvergence
import OperatingSystems.Stress.RouterDeadlock
import OperatingSystems.Stress.RouterDescent
import OperatingSystems.Stress.RouterDistances
import OperatingSystems.Stress.RouterEnd
import OperatingSystems.Stress.RouterLinks
import OperatingSystems.Stress.RouterNetwork
import OperatingSystems.Stress.RouterRounds
import OperatingSystems.Stress.RouterStates
import OperatingSystems.Stress.RouterStep
import OperatingSystems.Stress.RouterTesting
import OperatingSystems.Stress.RunStress
import OperatingSystems.Stress.SendRecv
