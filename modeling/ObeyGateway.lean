import ObeyGateway.Anthropic.ToolBlocks
import ObeyGateway.Anthropic.TranslateRequest
import ObeyGateway.Bedrock.CompactionItems
import ObeyGateway.Bedrock.ResponsesReply
import ObeyGateway.Codex.AnswerLaw
import ObeyGateway.Codex.Framing
import ObeyGateway.Codex.TranslateRequest
import ObeyGateway.Compression.OldestCut
import ObeyGateway.Compression.Protection
import ObeyGateway.Context.ContextLimit
import ObeyGateway.Guardrail.Halting
import ObeyGateway.Guardrail.Masking
import ObeyGateway.Guardrail.SafeReinjection
import ObeyGateway.Guardrail.StreamBuffer
import ObeyGateway.Guardrail.UnicodeStego
import ObeyGateway.LoopDetection.Enforcement
import ObeyGateway.LoopDetection.Sessions
import ObeyGateway.Memory.ConsolidationLaw
import ObeyGateway.Memory.Injector
import ObeyGateway.Memory.RetentionLaw
import ObeyGateway.Metrics.BudgetWindows
import ObeyGateway.Metrics.RequestRate
import ObeyGateway.Metrics.ResetBoundary
import ObeyGateway.OAuth.LogoutLaw
import ObeyGateway.ReasoningCompat.Normalize
import ObeyGateway.Responses.CallIdentity
import ObeyGateway.Responses.Paging
import ObeyGateway.Responses.Retention
import ObeyGateway.Responses.ToChat
import ObeyGateway.Router.AcquireWithin
import ObeyGateway.Router.CacheInjectLaw
import ObeyGateway.Router.CircuitBreakerConc
import ObeyGateway.Router.ConcurrencyLimiter
import ObeyGateway.Router.Cooldown
import ObeyGateway.Router.ImageStripLaw
import ObeyGateway.Router.ReassemblyLaw
import ObeyGateway.Router.SharedState
import ObeyGateway.Router.StreamingRoute
import ObeyGateway.Router.ToolHistoryLaw
import ObeyGateway.Router.XmlTranslation
import ObeyGateway.Security.OutboundFetch
import ObeyGateway.SmartRouting.GroupBudgets
import ObeyGateway.SmartRouting.OptimizerLaw
import ObeyGateway.SmartRouting.SemanticIndex
import ObeyGateway.StructuredOutput.Retry
import ObeyGateway.ToolCompression.AutoTuner
import ObeyGateway.ToolCompression.Descriptions
import ObeyGateway.ToolCompression.DisclosedTools
import ObeyGateway.ToolCompression.DrillDown
import ObeyGateway.ToolCompression.Parameters
import ObeyGateway.ToolCompression.Reversibility
import ObeyGateway.ToolCompression.SessionRuns
import ObeyGateway.VirtualKeys.Revocation
import ObeyGateway.VirtualKeys.TokenWindow
import ObeyGateway.VirtualKeys.UsageLedger
import ObeyGateway.VirtualKeys.WindowReset
import ObeyGateway.Webhooks.Alerts
import ObeyGateway.Webhooks.Retention
