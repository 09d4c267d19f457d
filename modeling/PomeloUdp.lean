import PomeloUdp.Library.Run
import PomeloUdp.Utils.MapRefinement
import PomeloUdp.Protocol.PeerRecycling
import PomeloUdp.Protocol.Server
import PomeloUdp.Protocol.PeerTable
import PomeloUdp.Protocol.ClientLimit
import PomeloUdp.Protocol.TokenExpiry
import PomeloUdp.Protocol.NonceUniqueness
import PomeloUdp.Protocol.Authentication
import PomeloUdp.Protocol.Acceptance
import PomeloUdp.Protocol.DeniedRelease
import PomeloUdp.Protocol.Agreement
import PomeloUdp.Protocol.Denial
import PomeloUdp.Protocol.ReplayWindow
import PomeloUdp.Protocol.ReplayResistance
import PomeloUdp.Protocol.ForgedPackets
import PomeloUdp.Delivery.ReliableDelivery
import PomeloUdp.Protocol.PacketRoundTrip
import PomeloUdp.Crypto.PublicToken
import PomeloUdp.Delivery.Reassembly
import PomeloUdp.Api.CallbackDiscipline
import PomeloUdp.Protocol.Fallback
import PomeloUdp.Protocol.HandlerStates
import PomeloUdp.Protocol.Emitter
import PomeloUdp.Protocol.ClientStart
import PomeloUdp.Protocol.Retransmission
import PomeloUdp.Base.Sequencer
import PomeloUdp.Protocol.Cancellation
import PomeloUdp.Delivery.BusChannel
import PomeloUdp.Delivery.Sequenced
import PomeloUdp.Delivery.BatchAccounting
import PomeloUdp.Utils.Rtt
import PomeloUdp.Delivery.Pong
import PomeloUdp.Delivery.Clock
import PomeloUdp.Delivery.PingPong
import PomeloUdp.Delivery.Chunking
import PomeloUdp.Utils.HeapOrder
import PomeloUdp.Delivery.EndpointSafety
import PomeloUdp.Utils.PoolDiscipline
import PomeloUdp.Platform.ExecutorOrder
import PomeloUdp.Api.Opening
import PomeloUdp.Api.Broadcast
import PomeloUdp.Api.SessionIterator
import PomeloUdp.Delivery.ParcelReferences
import PomeloUdp.Utils.ListSequence
import PomeloUdp.Utils.PoolFailure
import PomeloUdp.Api.MessageWrite
import PomeloUdp.Protocol.HeaderCanonical
import PomeloUdp.Protocol.Timeouts
import PomeloUdp.Utils.UnrolledList
import PomeloUdp.Utils.PoolMirror
import PomeloUdp.Base.PackedInteger
import PomeloUdp.Base.Reference
import PomeloUdp.Delivery.FragmentMetaRoundTrip
import PomeloUdp.Base.AddressPrinting
import PomeloUdp.Base.PipelineRuns
import PomeloUdp.Platform.Worker
import PomeloUdp.Adapter.Default
import PomeloUdp.Api.Transfer
import PomeloUdp.Protocol.PayloadAuthenticity
import PomeloUdp.Utils.MapIteration
import PomeloUdp.Protocol.OwnershipRuns
import PomeloUdp.Protocol.ClientNonces
import PomeloUdp.Protocol.Stopping
import PomeloUdp.Protocol.ClientSession
import PomeloUdp.Delivery.Heartbeat
