import Clawreform.Lib.Text
import Clawreform.Lib.ShellSyntax
import Clawreform.Lib.Json
import Clawreform.Lib.HashChain
import Clawreform.Lib.Glob
import Clawreform.Lib.Binary64
import Clawreform.Types.Capability
import Clawreform.Lib.Run
import Clawreform.Lib.Store
import Clawreform.Lib.Splice
import Clawreform.Lib.Trace
import Clawreform.Lib.Program
import Clawreform.Lib.Index
import Clawreform.Types.Message
import Clawreform.Types.Agent
import Clawreform.Types.Event
import Clawreform.Types.Scheduler
import Clawreform.Runtime.StrUtils
import Clawreform.Runtime.LoopGuard
import Clawreform.Runtime.SessionRepair
import Clawreform.Runtime.RepairPasses
import Clawreform.Runtime.RepairInvariant
import Clawreform.Runtime.RepairResult
import Clawreform.Runtime.RepairEnding
import Clawreform.Runtime.Audit
import Clawreform.Runtime.SubprocessSandbox
import Clawreform.Runtime.VisibleText
import Clawreform.Runtime.LlmDriver
import Clawreform.Runtime.TextToolCalls
import Clawreform.Runtime.Context
import Clawreform.Runtime.AgentLoop
import Clawreform.Runtime.AgentLoopStreaming
import Clawreform.Runtime.AgentLoopFrame
import Clawreform.Runtime.MessageShape
import Clawreform.Runtime.AgentLoopRequests
import Clawreform.Runtime.AgentLoopCalls
import Clawreform.Runtime.AgentLoopOutcomes
import Clawreform.Runtime.SessionRecord
import Clawreform.Runtime.AgentLoopSession
import Clawreform.Kernel.AgentRegistry
import Clawreform.Kernel.Triggers
import Clawreform.Kernel.Cron
import Clawreform.Kernel.CronStore
import Clawreform.Kernel.CronRuns
import Clawreform.Kernel.Workflow
import Clawreform.Kernel.WorkflowSteps
import Clawreform.Kernel.WorkflowRuns
import Clawreform.Wire.Message
import Clawreform.Wire.Framing
import Clawreform.Wire.Registry
import Clawreform.Wire.Peer
import Clawreform.Wire.Inbound
import Clawreform.Wire.Accuracy
import Clawreform.Wire.Authentication
import Clawreform.Lib.JsonReading
import Clawreform.Lib.Serde
import Clawreform.Lib.SerdeJson
import Clawreform.Lib.Calls
import Clawreform.Kernel.Pairing
import Clawreform.Kernel.Approval
import Clawreform.Lib.Dialogue
import Clawreform.Channels.Router
import Clawreform.Channels.Bridge
import Clawreform.Lib.PathRouter
import Clawreform.Api.Routes
import Clawreform.Api.Middleware
import Clawreform.Types.Config
import Clawreform.Kernel.ConfigReload
import Clawreform.Lib.Calendar
import Clawreform.Memory.Usage
import Clawreform.Kernel.Metering
import Clawreform.Runtime.AuthCooldown
import Clawreform.Lib.Find
import Clawreform.Runtime.ReplyDirectives
import Clawreform.Kernel.ApprovalGate
import Clawreform.Lib.FileWalk
import Clawreform.Lib.Splitting
import Clawreform.Lib.Regroup
import Clawreform.Lib.Utf8
import Clawreform.Runtime.AnthropicDriver
import Clawreform.Runtime.ApplyPatch
import Clawreform.Runtime.ChunkIndependence
import Clawreform.Runtime.MessageConversion
import Clawreform.Runtime.PatchRoundTrip
import Clawreform.Runtime.ResponseShape
import Clawreform.Runtime.StreamAgreement
import Clawreform.Runtime.WorkspaceSandbox
import Clawreform.Runtime.FallbackDriver
import Clawreform.Api.OpenAiStream
import Clawreform.Api.WsSlots
import Clawreform.Kernel.SelfModify
import Clawreform.Kernel.SelfModifyRuns
import Clawreform.Lib.Addresses
import Clawreform.Lib.Url
import Clawreform.Runtime.ExecPolicyCoverage
import Clawreform.Runtime.HostFunctions
import Clawreform.Hands.Registry
import Clawreform.Kernel.Activation
import Clawreform.Kernel.Killing
import Clawreform.Api.Chunking
import Clawreform.Extensions.Vault
import Clawreform.Extensions.VaultKeys
import Clawreform.Kernel.TokenQuota
import Clawreform.Memory.TaskQueue
import Clawreform.Runtime.A2a
import Clawreform.Runtime.Mcp
import Clawreform.Runtime.McpDispatch
import Clawreform.Runtime.ProcessTools
import Clawreform.Runtime.ScheduleTools
import Clawreform.Runtime.StreamFallback
import Clawreform.Kernel.MeteredTurns
import Clawreform.Kernel.RestartRuns
import Clawreform.Kernel.ConversationRuns
import Clawreform.Channels.SplitMessage
import Clawreform.Runtime.ExternalContent
import Clawreform.Kernel.AutoCompaction
import Clawreform.Kernel.MemoryViews
import Clawreform.Kernel.SessionSummary
import Clawreform.Kernel.ConfigIncludes
import Clawreform.Types.ToolSchema
import Clawreform.Runtime.WebContentSlices
import Clawreform.Runtime.OwnElements
import Clawreform.Extensions.VaultLoading
import Clawreform.Cli.Dotenv
import Clawreform.Extensions.Credentials
import Clawreform.Runtime.GlobMatchers
import Clawreform.Runtime.GateSlices
import Clawreform.Runtime.HeartbeatPruning
import Clawreform.Runtime.InjectionMarkers
import Clawreform.Runtime.PatchFrame
import Clawreform.Lib.CronExpr
import Clawreform.Runtime.ScheduleMeaning
import Clawreform.Runtime.DockerSandbox
import Clawreform.Runtime.RepairContent
import Clawreform.Lib.Passes
import Clawreform.Channels.Formatter
import Clawreform.Channels.TelegramMarks
import Clawreform.Channels.TelegramHtml
import Clawreform.Channels.TelegramReading
import Clawreform.Runtime.Retry
import Clawreform.Runtime.Truncation
import Clawreform.Runtime.ContextGuard
import Clawreform.Runtime.OverflowRecovery
import Clawreform.Runtime.CompactionStages
import Clawreform.Runtime.TagRemoval
import Clawreform.Runtime.ResultDirectives
import Clawreform.Lib.Tags
import Clawreform.Lib.Trimming
import Clawreform.Runtime.BlankLines
import Clawreform.Runtime.HiddenBlocks
import Clawreform.Runtime.BlockStripping
import Clawreform.Runtime.WrittenCalls
import Clawreform.Runtime.PatchOrder
import Clawreform.Lib.Template
import Clawreform.Kernel.WorkflowVariables
import Clawreform.Kernel.RunEviction
import Clawreform.Kernel.ShortenedTexts
import Clawreform.Memory.CanonicalRuns
import Clawreform.Wire.SignedData
import Clawreform.Kernel.Auth
import Clawreform.Channels.RateLimiting
import Clawreform.Channels.CommandRouting
import Clawreform.Runtime.ShellBleed
import Clawreform.Runtime.PingPong
