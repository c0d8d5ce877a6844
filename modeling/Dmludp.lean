import Dmludp.Foundation.RustOutcome
import Dmludp.Foundation.ByteCursor
import Dmludp.Foundation.OrderedMap
import Dmludp.Foundation.TracedRun
import Dmludp.Foundation.BreakLoop
import Dmludp.Packet.HeaderCodec
import Dmludp.Stream.RangeBuffer
import Dmludp.Endpoint.Connection
import Dmludp.Endpoint.Calls
import Dmludp.Endpoint.CallEffects
import Dmludp.Endpoint.ReceiveEffects
import Dmludp.Endpoint.AckEntries
import Dmludp.Guarantees.DatagramSafety
import Dmludp.Guarantees.DeclaredLength
import Dmludp.Endpoint.SenderSteps
import Dmludp.Endpoint.ReceiverSteps
import Dmludp.Guarantees.QueryAccounting
import Dmludp.Guarantees.Framing
import Dmludp.Guarantees.AckAnswers
import Dmludp.Guarantees.AckOrder
import Dmludp.Guarantees.SendAccounting
import Dmludp.Guarantees.SendQueue
import Dmludp.Guarantees.PassCoverage
import Dmludp.Guarantees.EmitFidelity
import Dmludp.Foundation.StreamTiling
import Dmludp.Guarantees.StreamSegmentation
import Dmludp.Guarantees.PacketIntegrity
import Dmludp.Guarantees.RetransmissionBudget
import Dmludp.Foundation.LossyNetwork
import Dmludp.Guarantees.NoSilentDrop
import Dmludp.Guarantees.ReadCursor
import Dmludp.Guarantees.Reassembly
import Dmludp.Guarantees.ChunkSplit
import Dmludp.Guarantees.HeaderFidelity
import Dmludp.Guarantees.WindowFloor
import Dmludp.Guarantees.LossResponse
import Dmludp.Guarantees.RoundFeedback
import Dmludp.Guarantees.ReplyDelivery
import Dmludp.Guarantees.WindowCompliance
import Dmludp.Guarantees.LateData
import Dmludp.Guarantees.CumulativeAck
import Dmludp.Guarantees.SendRetry
import Dmludp.Foundation.PollLoop
import Dmludp.Guarantees.FlushTermination
import Dmludp.Guarantees.StopPacket
import Dmludp.Guarantees.BlockNorms
import Dmludp.Foundation.OrderStatistics
import Dmludp.Guarantees.PriorityQuantiles
import Dmludp.Guarantees.ConnectionReuse
import Dmludp.Guarantees.WireChunks
import Dmludp.Guarantees.PeerSafety
import Dmludp.Guarantees.Arrivals
import Dmludp.Foundation.EventOrder
import Dmludp.Guarantees.HandshakeOrder
import Dmludp.Guarantees.PassOrder
import Dmludp.Guarantees.TransferProgress
import Dmludp.Guarantees.LosslessTransfer
import Dmludp.Guarantees.WindowAsks
import Dmludp.Guarantees.TextLoading
