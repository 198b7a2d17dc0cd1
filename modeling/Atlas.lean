import Atlas.Lib.Checked
import Atlas.Lib.BigEndian
import Atlas.Lib.Decimal
import Atlas.Lib.Utf8
import Atlas.Lib.Run
import Atlas.Lib.Dict
import Atlas.Lib.Raising
import Atlas.Lib.PyText
import Atlas.Lib.GoText
import Atlas.Lib.Binary64
import Atlas.Ipc.Frame
import Atlas.Ipc.Parser
import Atlas.Ipc.Writer
import Atlas.Ipc.WriterRuns
import Atlas.Ipc.WriterFraming
import Atlas.Ipc.RoundTrip
import Atlas.Lib.Reader
import Atlas.Lib.Json.Lexer
import Atlas.Lib.Json.Value
import Atlas.Lib.Json.Splice
import Atlas.Lib.Json.Text
import Atlas.Lib.Json.Line
import Atlas.Lib.Json.Ascii
import Atlas.Lib.Json.Data
import Atlas.Lib.FloatRepr
import Atlas.Lib.GoJson
import Atlas.Lib.PyJson
import Atlas.Lib.SerdeJson
import Atlas.Execution.Orders
import Atlas.Risk.CircuitBreaker
import Atlas.Execution.OrderModel
import Atlas.Broker.Envelope
import Atlas.Execution.MemoryEvents
import Atlas.Memory.Experience
import Atlas.Memory.BrokerAgreement
import Atlas.Broker.Topics
import Atlas.Strategy.Signals
import Atlas.Strategy.SignalAgreement
import Atlas.Strategy.UuidText
import Atlas.Strategy.Canonical
import Atlas.Broker.Batches
import Atlas.Ipc.Listener
import Atlas.Ipc.ListenerRuns
import Atlas.Ipc.ListenerFrames
import Atlas.Adapter.Trace
import Atlas.Ipc.TraceIdentity
import Atlas.Ingestion.Config
import Atlas.ControlPlane.Agents
import Atlas.ControlPlane.Audit
import Atlas.ControlPlane.Scheduler
import Atlas.ControlPlane.Transitions
import Atlas.ControlPlane.Dispatch
import Atlas.ControlPlane.Communication
import Atlas.ControlPlane.MessageRuns
import Atlas.ControlPlane.MemoryEngines
import Atlas.ControlPlane.Gateway
import Atlas.ControlPlane.System
import Atlas.Runtime.Execution
import Atlas.Runtime.Settlement
import Atlas.Strategy.Conversions
import Atlas.Strategy.Adapter
import Atlas.Strategy.AdapterRoundTrip
import Atlas.ControlPlane.DatabaseSink
import Atlas.ControlPlane.KeyedStorage
import Atlas.ControlPlane.DatabaseStorage
import Atlas.ControlPlane.Lifecycle
import Atlas.Scripts.ParallelPaths
import Atlas.Agent.Models
import Atlas.Agent.SelfCorrectingLoop
import Atlas.Agent.Pipeline
import Atlas.Agent.PipelineWalk
import Atlas.Agent.PipelineGate
import Atlas.Agent.Escalation
import Atlas.Lib.Lines
import Atlas.Agent.CodePatcher
import Atlas.ControlPlane.Expiry
import Atlas.ControlPlane.Retention
import Atlas.Lib.Files
import Atlas.Agent.Deployment
import Atlas.Broker.Delivery
import Atlas.Broker.Transport
import Atlas.Broker.TransportSession
import Atlas.Broker.Router
import Atlas.Lib.Regex
import Atlas.Agent.PrivacyGuard
import Atlas.Agent.LearningMemory
import Atlas.Agent.MemoryFile
import Atlas.Agent.Generator
import Atlas.Agent.PromptPrivacy
import Atlas.Agent.Cli
import Atlas.Agent.RestrictionGuard
import Atlas.Agent.LlmClient
import Atlas.Agent.BreakerRuns
import Atlas.Agent.RateLimitRuns
import Atlas.Ipc.Grammar
import Atlas.Ipc.TracedPayload
import Atlas.Ipc.TracedLength
import Atlas.Ipc.WriterAccounting
import Atlas.Ipc.WriterOrder
import Atlas.Lib.TokenBucket
import Atlas.Adapter.Exchange
import Atlas.Adapter.Quota
import Atlas.Adapter.RateLimit
import Atlas.Adapter.TraceOrder
import Atlas.Agent.Reuse
import Atlas.Lib.Replace
import Atlas.Lib.Marks
import Atlas.Specgen.Template
import Atlas.Specgen.Generators
import Atlas.Specgen.CommentSafety
import Atlas.Specgen.Pipeline
import Atlas.Lib.PyObject
import Atlas.Lib.PyLoads
import Atlas.Lib.PyData
import Atlas.Lib.PyDumps
import Atlas.Lib.PySpaced
import Atlas.Lib.Outermost
import Atlas.Lib.Pathlib
import Atlas.Scripts.FindImplementations
import Atlas.Scripts.CheckoutLocation
import Atlas.Agent.CacheFile
import Atlas.Agent.CacheRuns
import Atlas.Agent.CallAccounting
import Atlas.Agent.MemoryLoad
import Atlas.Agent.MemoryAgreement
import Atlas.Agent.GeneratedFiles
import Atlas.Agent.ProjectFiles
import Atlas.Lib.Places
import Atlas.Ipc.EndToEnd
import Atlas.Lib.Json.Bare
import Atlas.Adapter.Session
import Atlas.Lib.SortedMap
import Atlas.Lib.JsonSchema
import Atlas.Lib.SerdeRecord
import Atlas.Market.Tick
import Atlas.Market.TickContract
import Atlas.Agent.Validator
import Atlas.Agent.Vetting
