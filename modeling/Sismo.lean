import Sismo.Samples.StreamDecodes
import Sismo.Sched.IdOrder
import Sismo.Sched.CounterScale
import Sismo.Sched.OffcpuPairs
import Sismo.Heap.PhysicalRun
import Sismo.Heap.OrderIndependence
import Sismo.Heap.RingWrap
import Sismo.Heap.FinalProfile
import Sismo.Heap.ShimAccuracy
import Sismo.Retain.Stability
import Sismo.Retain.HeldFiles
import Sismo.Retain.SampleDriven
import Sismo.Retain.Demand
import Sismo.Unwind.Snapshots
import Sismo.Unwind.RowLookup
import Sismo.Unwind.Walk
import Sismo.Views.WaitWeights
import Sismo.Proto.RoundTrip
import Sismo.Go.RowTable
import Sismo.Go.Lookup
import Sismo.Go.Walks
import Sismo.Lib.Base128
import Sismo.Lib.Format
import Sismo.Kdebug.SwitchPairs
import Sismo.Kdebug.ProcessTree
import Sismo.Kdebug.Demux
import Sismo.Symbolize.SidecarRoundTrip
import Sismo.Kdebug.ModuleReloads
import Sismo.Views.TimelineTable
import Sismo.Lib.Relational
import Sismo.Views.BreakdownSettings
import Sismo.Python.WalksAgree
import Sismo.Heap.Sampler
import Sismo.Heap.ProfileExact
import Sismo.Unwind.Search
import Sismo.Unwind.MappingTrie
import Sismo.Elf.ImagePrefix
import Sismo.Elf.Conversions
import Sismo.Tar.RoundTrip
import Sismo.V8.Chunks
import Sismo.Elf.DynSyms
import Sismo.Elf.EhFrame
import Sismo.Symbolize.KernelFrames
import Sismo.Symbolize.ProcMaps
import Sismo.Symbolize.AddressKinds
import Sismo.Proto.SessionConfig
import Sismo.Views.ButterflyCounts
import Sismo.Views.ActivityTime
import Sismo.Views.Parallel
import Sismo.Views.BranchArrows
import Sismo.Kdebug.RangeLookups
import Sismo.Kdebug.RingHostDrains
import Sismo.Kdebug.RingHostStops
import Sismo.Heap.Wakeups
import Sismo.Heap.Wire
import Sismo.Kdebug.JitMap
import Sismo.Kdebug.Typefilter
import Sismo.Samples.CaptureAcks
import Sismo.Samples.Wire
import Sismo.Unwind.Loader
import Sismo.Kdebug.Wire
import Sismo.Proto.VmProgram
import Sismo.Symbolize.Pass
import Sismo.Symbolize.PassMeaning
import Sismo.Symbolize.PassPackets
