import Ziplog.Library.Buckets
import Ziplog.Library.Lts
import Ziplog.Api.MessageCodec
import Ziplog.Api.Frames
import Ziplog.Api.StreamReassembly
import Ziplog.Api.RefillSpace
import Ziplog.Api.Inbox
import Ziplog.Api.BatchDecoding
import Ziplog.Api.ParseAddress
import Ziplog.Api.Config
import Ziplog.Subscriber.Provenance
import Ziplog.Subscriber.Bookkeeping
import Ziplog.Subscriber.LogWaits
import Ziplog.Proxy.Requests
import Ziplog.Proxy.WireFrame
import Ziplog.Proxy.BufferBounds
import Ziplog.Proxy.BufferFifo
import Ziplog.Proxy.LostWakeUps
import Ziplog.Client.OwnAnswer
import Ziplog.Server.ProperFrames
import Ziplog.Server.SubscriberBroadcaster
import Ziplog.Server.LateSubscriber
import Ziplog.Server.OutstandingSlots
import Ziplog.Server.Transfers
import Ziplog.Server.FreezeRounds
import Ziplog.Shard.Connections
import Ziplog.Shard.Replication
import Ziplog.Shard.Visibility
import Ziplog.Shard.Durability
import Ziplog.Shard.Origin
import Ziplog.Proxy.SlotUse
import Ziplog.Proxy.Lifecycle
import Ziplog.Proxy.ReplicationWait
import Ziplog.Proxy.ReplicatorShutdown
import Ziplog.Shard.Numbering
import Ziplog.Shard.SingleServer
import Ziplog.Shard.Agreement
import Ziplog.Shard.EndToEnd
import Ziplog.Zipper.Delivery
import Ziplog.Zipper.Episodes
import Ziplog.Zipper.Handouts
import Ziplog.Zipper.Dispatch
import Ziplog.Zipper.SlotFairness
import Ziplog.Zipper.EpochTimerStop
import Ziplog.Zipper.AllocatorVersions
import Ziplog.Zipper.Replies
import Ziplog.Zipper.Membership
import Ziplog.Shard.SkipSafety
import Ziplog.Shard.ZeroCopy
import Ziplog.Shard.ShortSends
import Ziplog.Shard.ByteStores
import Ziplog.Shard.ServiceAnswers
