import ZmqPubSub.TransitionSystem
import ZmqPubSub.Containers
import ZmqPubSub.HistoryWindow
import ZmqPubSub.Text
import ZmqPubSub.OStream
import ZmqPubSub.CondVar
import ZmqPubSub.SafeQueue
import ZmqPubSub.Multipart
import ZmqPubSub.Proto3
import ZmqPubSub.Wire
import ZmqPubSub.Framing
import ZmqPubSub.BrokerProto
import ZmqPubSub.Payload
import ZmqPubSub.SubscriptionRegistry
import ZmqPubSub.Broker
import ZmqPubSub.Discovery
import ZmqPubSub.BeaconFormat
import ZmqPubSub.BrokerRouting
import ZmqPubSub.BrokerClients
import ZmqPubSub.ConnectionManager
import ZmqPubSub.Registration
import ZmqPubSub.ControlMessages
import ZmqPubSub.Dispatch
import ZmqPubSub.TopicMatching
import ZmqPubSub.RequestReply
import ZmqPubSub.ReplyContext
import ZmqPubSub.ZmqWorker
import ZmqPubSub.StatusCallback
import ZmqPubSub.Handshake
import ZmqPubSub.BrokerStop
import ZmqPubSub.InstanceLifetime
import ZmqPubSub.Shutdown
import ZmqPubSub.BrokerHistory
import ZmqPubSub.Flooding
import ZmqPubSub.Mesh
import ZmqPubSub.DiscoveryHistory
import ZmqPubSub.PeerLinks
import ZmqPubSub.ClientLifetimes
import ZmqPubSub.ResetDelivery
import ZmqPubSub.MeshFlooding
import ZmqPubSub.MeshDelivery
import ZmqPubSub.MeshOrder
import ZmqPubSub.HexDump
import ZmqPubSub.Periodic
import ZmqPubSub.BrokerLoop
import ZmqPubSub.StatsBroadcast
import ZmqPubSub.WorkerLoop
import ZmqPubSub.KeepAlive
import ZmqPubSub.MeshLinks
import ZmqPubSub.TrimmedLog
import ZmqPubSub.Inspector
import ZmqPubSub.Replay
import ZmqPubSub.DiscoveryLoop
import ZmqPubSub.MeshIntegrity
import ZmqPubSub.Startup
import ZmqPubSub.TypedMessages
import ZmqPubSub.MessageSizes
import ZmqPubSub.Bus
import ZmqPubSub.MeshBus
