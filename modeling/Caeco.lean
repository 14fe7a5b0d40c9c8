import Caeco.Kit.Cut
import Caeco.Kit.Search
import Caeco.Kit.CInt
import Caeco.Kit.Runs
import Caeco.Hls.Sum330
import Caeco.Hls.Stream
import Caeco.Transfer.CalcOutput
import Caeco.Transfer.Agreement
import Caeco.Payload.ExtractVal
import Caeco.Payload.FillTxBuffer
import Caeco.Payload.Stored
import Caeco.Payload.PointerSafety
import Caeco.Payload.Acceptance
import Caeco.Payload.Bounds
import Caeco.Payload.Decimal
import Caeco.Payload.StaleHeap
import Caeco.Payload.Vibration
import Caeco.Client.Received
import Caeco.Client.Frame
import Caeco.Client.Program
import Caeco.Client.FrameOrder
import Caeco.Client.System
import Caeco.Client.Gate
import Caeco.Client.Completion
import Caeco.Client.Failure
import Caeco.Client.HeapGrowth
import Caeco.Driver.Tasks
import Caeco.Driver.Attribution
import Caeco.Payload.TripleValues
import Caeco.Payload.Triples
import Caeco.Payload.RoundTrip
import Caeco.Hls.Moments
import Caeco.Transfer.Exact
import Caeco.Client.Channel
import Caeco.Kit.Calls
import Caeco.Platform.Probe
import Caeco.Platform.Balance
import Caeco.Platform.Threads
import Caeco.Platform.Registers
import Caeco.Kit.Tiles
import Caeco.Transfer.Ranges
import Caeco.Kit.Framing
import Caeco.Mqtt.FixedHeader
import Caeco.Mqtt.Unpack
import Caeco.Kit.Lfsr
import Caeco.Mqtt.Delivery
import Caeco.Mqtt.Pack
import Caeco.Mqtt.PacketId
import Caeco.Mqtt.Queue
import Caeco.Mqtt.Broker
import Caeco.Chain.Samples
import Caeco.Dma.Buffers
import Caeco.Dma.Translation
import Caeco.Dma.Engine
import Caeco.Dma.Transfers
import Caeco.Dma.DeviceTree
