import Bison.Lib.SortedMap
import Bison.Lib.FinMap
import Bison.Lib.Decoder
import Bison.Lib.Wire
import Bison.Lib.Leb128
import Bison.Lib.Protobuf
import Bison.Lib.Chase
import Bison.Lib.Machine
import Bison.Lib.Program
import Bison.Lib.Triple
import Bison.Lib.Sharing
import Bison.Lib.Monitor
import Bison.Lib.Holds
import Bison.Lib.TwoPart
import Bison.Lib.LexicalPath
import Bison.Lib.JsonText
import Bison.Core.Value
import Bison.Core.Numbers
import Bison.Core.NameHash
import Bison.Core.EnumFlags
import Bison.Core.Registry
import Bison.Core.Lookup
import Bison.Core.ClassRegistry
import Bison.Core.Registration
import Bison.Core.Serialization
import Bison.Core.Varint
import Bison.Core.Perfetto
import Bison.Core.StandardFormat
import Bison.Core.SchemaFormat
import Bison.Core.Instances
import Bison.Core.TextExport
import Bison.Core.JsonExport
import Bison.Core.YamlExport
import Bison.Core.Documents
import Bison.Core.JsonImport
import Bison.Core.YamlImport
import Bison.Core.ImportedIntegers
import Bison.Core.CacheHits
import Bison.Core.CApi
import Bison.Core.QuietLookups
import Bison.Core.Getters
import Bison.Core.RegistryLock
import Bison.Core.Resolution
import Bison.Core.Assignments
import Bison.Core.Decoding
import Bison.Core.Readers
import Bison.Core.StreamFormat
import Bison.Core.DecodingPrograms
import Bison.Core.PlacedRanges
import Bison.Core.DecodingWork
import Bison.Core.FieldAttributes
import Bison.Transport.FrameParser
import Bison.Transport.Base64
import Bison.Transport.Base64Texts
import Bison.Transport.TermReader
import Bison.Transport.TermOsc
import Bison.Transport.OscChunks
import Bison.Transport.TermMarker
import Bison.Transport.Reassembly
import Bison.Transport.StreamPolls
import Bison.Transport.FrameLimits
import Bison.Transport.ReceivePath
import Bison.Transport.TlsSend
import Bison.Transport.TlsHandshake
import Bison.Transport.TermStop
import Bison.Transport.LineDiscipline
import Bison.Rmi.Protocol
import Bison.Rmi.Instance
import Bison.Rmi.EnvelopeFormat
import Bison.Rmi.Server
import Bison.Rmi.Responses
import Bison.Rmi.Authentication
import Bison.Rmi.ReadOnly
import Bison.Rmi.Groups
import Bison.Rmi.GroupRuns
import Bison.Rmi.Ids
import Bison.Rmi.Destruct
import Bison.Rmi.Client
import Bison.Rmi.Lifecycle
import Bison.Rmi.Bridge
import Bison.Rmi.Standalone
import Bison.Rmi.Backends
import Bison.Rmi.BackendRuns
import Bison.Rmi.BridgeSessions
import Bison.Rmi.Lives
import Bison.Rmi.DestructOnce
import Bison.Rmi.Destructions
import Bison.Rmi.ProfilerService
import Bison.Rmi.CapturePaths
import Bison.Rmi.Recorder
import Bison.Rmi.Tracks
import Bison.Rmi.CaptureState
import Bison.Rmi.BridgeEvents
import Bison.Rmi.ClientClose
import Bison.Rmi.WaitingLoops
import Bison.Rmi.StandaloneWorker
import Bison.Rmi.ClientSession
import Bison.Rmi.DestroyEvents
import Bison.Rmi.ServedRequests
import Bison.Rmi.LockedHandlers
import Bison.Rmi.Descriptions
import Bison.Rmi.LockDiscipline
import Bison.Rmi.Projections
import Bison.Rmi.FailedInstantiate
import Bison.Rmi.ClearedObjects
import Bison.Rmi.SetRequests
import Bison.Rmi.IdGenerator
import Bison.Core.Memory
import Bison.Core.FieldLookup
import Bison.Core.Heap
import Bison.Core.Clones
import Bison.Core.Chains
import Bison.Core.ValidHeap
import Bison.Core.CachedLookup
import Bison.Core.Copies
import Bison.Core.OtherLookups
import Bison.Core.Sides
import Bison.Rmi.Aliasing
import Bison.App.LineEditor
import Bison.App.Keystrokes
import Bison.App.ArgumentSplitting
import Bison.Rmi.ErrorCodes
import Bison.Lib.Simulation
import Bison.Lib.Lane
import Bison.Lib.Carrier
import Bison.Lib.Mailbox
import Bison.Transport.MemoryTransport
import Bison.Transport.UvLink
import Bison.Transport.TlsLink
import Bison.Transport.TermLink
import Bison.Transport.Carriers
import Bison.Rmi.RemoteCalls
import Bison.Rmi.CallCompletion
import Bison.Rmi.HostedSessions
import Bison.Rmi.LocationTransparency
import Bison.App.Commands
import Bison.App.ReplSessions
import Bison.Lib.Screen
import Bison.App.EditLoop
import Bison.Rmi.EventDelivery
import Bison.Rmi.DispatchFairness
