import Ephemera.FirstByKey
import Ephemera.HashMap
import Ephemera.SortedMap
import Ephemera.SqlTable
import Ephemera.GuardedRun
import Ephemera.StateExcept
import Ephemera.Hex
import Ephemera.DolevYao
import Ephemera.KeysetPaging
import Ephemera.OrSet
import Ephemera.OrSetHistory
import Ephemera.MergeOrder
import Ephemera.Replication
import Ephemera.GCounter
import Ephemera.CrdtMerge
import Ephemera.GCounterHistory
import Ephemera.LwwRegister
import Ephemera.Ratchet
import Ephemera.SymbolicSuite
import Ephemera.RatchetAgreement
import Ephemera.RatchetForgery
import Ephemera.PostIngest
import Ephemera.Wire
import Ephemera.MetadataDb
import Ephemera.Messaging
import Ephemera.Dht
import Ephemera.NodeIngest
import Ephemera.SocialService
import Ephemera.DirectMessage
import Ephemera.NodeOp
import Ephemera.ConnectionFrame
import Ephemera.UserCalls
import Ephemera.MutualConsent
import Ephemera.BlockEnforcement
import Ephemera.SenderAuthenticity
import Ephemera.Confidentiality
import Ephemera.MessageFidelity
import Ephemera.Groups
import Ephemera.GroupChat
import Ephemera.GroupOp
import Ephemera.GroupGovernance
import Ephemera.LinkedChat
import Ephemera.DeadDropId
import Ephemera.Publication
import Ephemera.MailboxDelivery
import Ephemera.DeadDropPoll
import Ephemera.Gossip
import Ephemera.GossipDelivery
import Ephemera.LazyPull
import Ephemera.Feed
import Ephemera.FeedPaging
import Ephemera.EpochKeys
import Ephemera.EpochLifecycle
import Ephemera.HandleValidation
import Ephemera.HandleRegistry
import Ephemera.HandleConflict
import Ephemera.HandleRenewal
import Ephemera.HandleCooldown
import Ephemera.Deletion
import Ephemera.Expiry
import Ephemera.SharedContent
import Ephemera.Tombstones
import Ephemera.NodeStore
import Ephemera.GarbageCollector
import Ephemera.NodeRun
import Ephemera.NodeReads
import Ephemera.UnreadCounts
import Ephemera.MessageLifetime
import Ephemera.Identity
import Ephemera.DhtQuery
import Ephemera.Session
import Ephemera.KeyDerivations
import Ephemera.BundleAuthenticity
import Ephemera.RatchetInOrder
import Ephemera.CrossedSessions
import Ephemera.HybridClock
import Ephemera.PrekeyAnswer
import Ephemera.SessionPersistence
import Ephemera.SealedWire
import Ephemera.SessionReplay
import Ephemera.RatchetAtomicity
import Ephemera.SendIndependence
import Ephemera.RequestRouting
import Ephemera.PrivateChat
import Ephemera.CommunityReports
import Ephemera.BoxForest
import Ephemera.VideoMetadata
import Ephemera.MetadataStripping
import Ephemera.PollLocks
import Ephemera.SweepFrame
import Ephemera.TombstoneRetention
import Ephemera.SweepOrphans
import Ephemera.MediaStorage
import Ephemera.MediaLedger
import Ephemera.PostCreation
import Ephemera.BoundedQueue
import Ephemera.Nearest
import Ephemera.NodeDistance
import Ephemera.KBucket
import Ephemera.RoutingTable
import Ephemera.IterativeLookup
import Ephemera.Tokens
import Ephemera.FingerprintWindow
import Ephemera.Meter
import Ephemera.RateLimit
import Ephemera.MediaChunks
import Ephemera.GroupPosts
import Ephemera.KeyHistory
import Ephemera.MailboxHistory
import Ephemera.ChunkedDecoder
import Ephemera.PrefixCode
import Ephemera.ProtocolEnvelope
import Ephemera.FrameCodec
import Ephemera.DhtLifetime
import Ephemera.HandleLifetime
import Ephemera.HandleRefusal
import Ephemera.GossipFanout
import Ephemera.PlumTree
import Ephemera.GCounterValue
import Ephemera.KeyExport
import Ephemera.HandleGrammar
import Ephemera.Mentions
import Ephemera.OrSetTags
import Ephemera.TimestampOrder
import Ephemera.Digits
import Ephemera.ProofOfWork
import Ephemera.HandleBinding
import Ephemera.IrohTransport
import Ephemera.TransportDelivery
import Ephemera.ConnectionManager
import Ephemera.Migrations
import Ephemera.DhtMaintenance
import Ephemera.SelfDelimiting
import Ephemera.PostCanonical
import Ephemera.PostBuilder
import Ephemera.SigningKey
import Ephemera.EpochCrypto
import Ephemera.RpcAccess
import Ephemera.LastWrite
import Ephemera.Reactions
