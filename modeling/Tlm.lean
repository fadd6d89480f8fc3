import Tlm.AutoScheduler.LocationDecoding
import Tlm.AutoScheduler.UnrollDecoding
import Tlm.AutoScheduler.VectorizationSafety
import Tlm.AutoScheduler.Tuning
import Tlm.AutoScheduler.AttachRelation
import Tlm.MetaSchedule.DecisionDecoding
import Tlm.MetaSchedule.JsonRoundTrip
import Tlm.MetaSchedule.EvolutionarySearch
import Tlm.MetaSchedule.ParallelPrediction
import Tlm.MetaSchedule.TaskScheduler
import Tlm.Tir.JsonReplay
import Tlm.MicroRpc.FramingRewind
import Tlm.MicroRpc.FramingRoundTrip
import Tlm.MicroRpc.SessionHandshake
import Tlm.Crt.PageDisjoint
import Tlm.Crt.StackAllocator
import Tlm.Support.RingBufferFifo
import Tlm.Arith.ConstIntBoundSound
import Tlm.Arith.ConstIntBoundTotal
import Tlm.Arith.ModularSetScope
import Tlm.Arith.RewriteSimplifier
import Tlm.Arith.AndOfOrs
import Tlm.Arith.TransitiveComparisonSound
import Tlm.Arith.LinearEquation
import Tlm.Relay.PlanSizes
import Tlm.Usmp.Alignment
import Tlm.Hexagon.BufferCopy
import Tlm.Hexagon.QueuedRing
import Tlm.Hexagon.VtcmAlignment
import Tlm.Vm.ExecutableRoundTrip
import Tlm.Tir.InplaceOpSafe
import Tlm.Tir.Sampling
import Tlm.AutoScheduler.StageTracking
import Tlm.TaskSelection
