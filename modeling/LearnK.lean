import LearnK.Lib.StepMachine
import LearnK.Lib.Numbered
import LearnK.Lib.ByteMemory
import LearnK.Lib.CInt
import LearnK.Lib.Pattern
import LearnK.Lib.CString
import LearnK.Lib.Decimal
import LearnK.Lib.Printf
import LearnK.Lib.LinkedRing
import LearnK.Lib.HList
import LearnK.Lib.FaultM
import LearnK.Lib.SearchTree
import LearnK.Lib.Ledger
import LearnK.Lib.BoundedQueue
import LearnK.Lib.CriticalSection
import LearnK.Lib.Independent
import LearnK.GlobalFifo.Core
import LearnK.GlobalFifo.Exclusion
import LearnK.GlobalFifo.Stream
import LearnK.GlobalFifo.Wakeup
import LearnK.GlobalFifo.Clear
import LearnK.GlobalFifo.Discipline
import LearnK.GlobalFifo.Pairing
import LearnK.GlobalFifo.Load
import LearnK.GlobalFifo.Compaction
import LearnK.GlobalFifo.Beside
import LearnK.GlobalFifo.Failure
import LearnK.GlobalFifo.Queue
import LearnK.GlobalFifo.Progress
import LearnK.GlobalFifo.Returns
import LearnK.RamBlock.Core
import LearnK.RamBlock.FlatDisk
import LearnK.RamBlock.Completion
import LearnK.RamBlock.Bounds
import LearnK.RamBlock.Parallel
import LearnK.Cdev.Core
import LearnK.Cdev.File
import LearnK.Cdev.Seek
import LearnK.Cdev.Fault
import LearnK.Cdev.Concurrent
import LearnK.Strings.Core
import LearnK.Strings.Invariant
import LearnK.Strings.Growth
import LearnK.Strings.Search
import LearnK.Strings.Slices
import LearnK.Strings.Joining
import LearnK.Strings.Cost
import LearnK.Strings.Session
import LearnK.Dump.Core
import LearnK.Dump.RoundTrip
import LearnK.Dump.Failure
import LearnK.Container.Core
import LearnK.Container.Ring
import LearnK.Container.Operations
import LearnK.Container.Sequence
import LearnK.Container.LinkList
import LearnK.Container.Count
import LearnK.Container.Indexed
import LearnK.Container.Render
import LearnK.Container.Bytes
import LearnK.Container.Programs
import LearnK.Container.Footprint
import LearnK.Container.Slots
import LearnK.Container.WellPlaced
import LearnK.Container.Recorded
import LearnK.Container.Delete
import LearnK.Strings.Memory
import LearnK.Strings.Places
import LearnK.Strings.Placed
import LearnK.Strings.Lifetimes
import LearnK.Strings.Callers
import LearnK.WorkFifo.Core
import LearnK.WorkFifo.Invariant
import LearnK.WorkFifo.Reachable
import LearnK.WorkFifo.Ownership
import LearnK.WorkFifo.Fullness
import LearnK.WorkFifo.Delivery
import LearnK.Map.Core
import LearnK.Map.Shadow
import LearnK.Map.History
import LearnK.RbTree.Core
import LearnK.RbTree.Keyed
import LearnK.RbTree.Map
import LearnK.RbTree.Exit
import LearnK.Hook.Core
import LearnK.Hook.Effect
import LearnK.Hook.Moves
import LearnK.Hook.Pool
import LearnK.Hook.Invariant
import LearnK.Hook.Pairing
import LearnK.Hook.Path
import LearnK.Hook.Exit
import LearnK.Hook.Probes
import LearnK.Hook.ProbeHeap
import LearnK.Hook.Reports
import LearnK.Hook.Arguments
import LearnK.Hook.Failing
import LearnK.Hook.Safety
import LearnK.IntervalTree.Core
import LearnK.IntervalTree.Search
import LearnK.IntervalTree.Bag
import LearnK.Tasklet.Core
import LearnK.Tasklet.Unload
import LearnK.Tasklet.Service
import LearnK.Ftrace.Core
import LearnK.Ftrace.Unload
import LearnK.Ftrace.Returns
import LearnK.Ftrace.Transparent
import LearnK.Timers.Core
import LearnK.Timers.Periods
import LearnK.Rhashtable.Core
import LearnK.Rhashtable.Leak
import LearnK.Bio.Core
import LearnK.Bio.Disk
import LearnK.Netlink.Core
import LearnK.Netlink.Replies
import LearnK.Netlink.Nesting
import LearnK.Netlink.Leak
import LearnK.Thread.Core
import LearnK.Thread.Life
import LearnK.Thread.Lines
