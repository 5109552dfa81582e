import NNeBPF.Control.AtomicUpdates
import NNeBPF.Control.Consistency
import NNeBPF.Control.Deployment
import NNeBPF.Control.FailingUpdate
import NNeBPF.Control.HeaderNet
import NNeBPF.Control.Sessions
import NNeBPF.Control.SharedPins
import NNeBPF.Control.Turns
import NNeBPF.Flow.ReadingOrder
import NNeBPF.Library.FixedPoint
import NNeBPF.Mlp.Accumulator
import NNeBPF.Mlp.ErrorBounds
import NNeBPF.Mlp.Quantization
import NNeBPF.Multicore.Footprint
import NNeBPF.Multicore.Handlers
import NNeBPF.Multicore.Linearization
import NNeBPF.Xdp.Capacity
import NNeBPF.Xdp.Durations
import NNeBPF.Xdp.Fidelity
import NNeBPF.Xdp.LayerRange
import NNeBPF.Xdp.Parser
import NNeBPF.Xdp.PortReuse
