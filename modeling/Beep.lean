import Beep.Lib.Run
import Beep.Lib.Bytes
import Beep.Lib.Flags
import Beep.Lib.OnesComplement
import Beep.Lib.Table
import Beep.Lib.StableSort
import Beep.Lib.Json
import Beep.Lib.Net
import Beep.Lib.NetText
import Beep.Lib.NetParse
import Beep.Lib.Replay
import Beep.Lib.Encoding
import Beep.Lib.Decimal
import Beep.Lib.Calendar
import Beep.Lib.Crash
import Beep.Lib.Async
import Beep.Lib.GapFill
import Beep.Lib.MultiplyShift
import Beep.Common.Values
import Beep.Common.FlowStep
import Beep.Common.TcpClose
import Beep.Common.Decisions
import Beep.Common.PortRemap
import Beep.Common.Steer
import Beep.Common.SlotFairness
import Beep.Common.GeneveOpt
import Beep.Common.Keys
import Beep.Ebpf.Skb
import Beep.Ebpf.Node
import Beep.Ebpf.Hooks
import Beep.Ebpf.Effects
import Beep.Ebpf.Rows
import Beep.Ebpf.Frames
import Beep.Ebpf.Rewrite
import Beep.Ebpf.Checksum
import Beep.Ebpf.Wire
import Beep.Ebpf.Tunnel
import Beep.Ebpf.Network
import Beep.Ebpf.Messages
import Beep.Ebpf.Footprint
import Beep.Ebpf.Correctness.ReverseRows
import Beep.Ebpf.Correctness.PortStability
import Beep.Ebpf.Correctness.Affinity
import Beep.Ebpf.Correctness.Admission
import Beep.Ebpf.Correctness.RoundTrip
import Beep.Ebpf.Correctness.Siblings
import Beep.Ebpf.Correctness.Families
import Beep.Ebpf.Correctness.Checksums
import Beep.Ebpf.Correctness.PortProbe
import Beep.Ebpf.Correctness.Fragments
import Beep.Ebpf.Correctness.GeneveOptions
import Beep.Loader.IdleSweep
import Beep.Loader.SweepIdleFlows
import Beep.Loader.FrontSwap.Plan
import Beep.Loader.FrontSwap.Execute
import Beep.Loader.FrontSwap.Issued
import Beep.Loader.FrontSwap.Consistent
import Beep.Loader.FrontSwap.Converge
import Beep.Loader.FrontSwap.Generations
import Beep.Loader.FrontSwap.Capacity
import Beep.Loader.FrontSwap.Fairness
import Beep.Loader.FrontSwap.Written
import Beep.Loader.FrontSwap.HashOrder
import Beep.Loader.FrontSwap.SlotRange
import Beep.Loader.PinMigrate.Pins
import Beep.Loader.PinMigrate.Plan
import Beep.Loader.PinMigrate.Greedy
import Beep.Loader.PinMigrate.Start
import Beep.Loader.PinMigrate.Carried
import Beep.Loader.PinMigrate.FrontPair
import Beep.Loader.PinMigrate.FrontsCarried
import Beep.Loader.PinMigrate.GapFilling
import Beep.Loader.PinMigrate.Budget
import Beep.Loader.EvictFlows
import Beep.Loader.Fixture
import Beep.Loader.FixtureText
import Beep.Loader.Attach.Dataplane
import Beep.Loader.Attach.BringUp
import Beep.Loader.Attach.Links
import Beep.Loader.Attach.Uplinks
import Beep.Loader.Attach.Serving
import Beep.Loader.Attach.OneLink
import Beep.Loader.Attach.Completed
import Beep.Loader.Attach.Room
import Beep.Loader.FixtureMaps
import Beep.Controller.Reconcile
import Beep.Controller.Parse
import Beep.Controller.Watch
import Beep.Controller.Desired
import Beep.Controller.Facts
import Beep.Controller.Apply
import Beep.Controller.Requests
import Beep.Controller.History
import Beep.Controller.ListWatch
import Beep.Controller.RunListWatch
import Beep.Controller.Ticking
import Beep.Controller.ReconcileLoop
import Beep.Controller.SweepLoop
import Beep.Controller.PinnedMaps
import Beep.Controller.Client
import Beep.Controller.Ingress
import Beep.Controller.Lease
import Beep.Controller.MicroTime
import Beep.Controller.Prune
import Beep.Controller.Publish
import Beep.Controller.Seed
import Beep.Controller.Correctness.Reuse
import Beep.Controller.Correctness.Unconcerned
import Beep.Controller.Correctness.OwnedFronts
import Beep.Controller.Correctness.FrontOrder
import Beep.Controller.Correctness.OwnPorts
import Beep.Controller.Correctness.Relist
import Beep.Controller.Correctness.Reconnect
import Beep.Controller.Correctness.CaughtUp
import Beep.Controller.Correctness.DepartedPins
import Beep.Controller.Correctness.FailedSweep
import Beep.Controller.Correctness.Installs
import Beep.Controller.Correctness.Restart
import Beep.Controller.Correctness.UniformSelection
import Beep.Controller.Correctness.Delivery
import Beep.Controller.Correctness.IngressWriters
import Beep.Controller.Correctness.PublishedIngress
import Beep.Controller.Correctness.PruneSightings
import Beep.Controller.Correctness.PruneLatency
import Beep.Controller.Correctness.SeedAgreement
import Beep.Controller.Correctness.KeyAgreement
import Beep.Controller.Correctness.LocalPrefix
import Beep.Controller.Correctness.PreviousGeneration
import Beep.Controller.Correctness.LeaseCover
import Beep.Controller.Correctness.ServedFronts
import Beep.Controller.Correctness.IngressMerge
import Beep.Controller.Correctness.Retries
import Beep.Controller.Correctness.RenewTimes
import Beep.Controller.Correctness.SizedMaps
import Beep.Controller.Correctness.QuietCluster
import Beep.Controller.Correctness.SweepRestarts
import Beep.Controller.Correctness.ListedEndpoints
