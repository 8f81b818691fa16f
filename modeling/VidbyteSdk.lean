import VidbyteSdk.Agents.SpendCap
import VidbyteSdk.Middleware.CircuitAdmission
import VidbyteSdk.Sessions.AtMostOnce
import VidbyteSdk.Agents.Loop.BudgetRuns
import VidbyteSdk.Agents.Loop.TranscriptRuns
import VidbyteSdk.Agents.Infinite.LaunchRuns
import VidbyteSdk.Agents.Multi.TeamRuns
import VidbyteSdk.Sessions.ExportImport
import VidbyteSdk.Agents.Loop.FallbackRuns
import VidbyteSdk.Registries.KeyBinding
import VidbyteSdk.Agents.Infinite.StagingRuns
import VidbyteSdk.Tools.Mcp.Responses
import VidbyteSdk.Tools.Mcp.ShutdownRuns
import VidbyteSdk.Agents.Actor.ActorRuns
import VidbyteSdk.Workflows.Validation
import VidbyteSdk.Middleware.CircuitPhases
import VidbyteSdk.Middleware.StackedHooks
import VidbyteSdk.Middleware.RetryBudgets
import VidbyteSdk.Workflows.Compilation
import VidbyteSdk.Middleware.LoopHistory
import VidbyteSdk.Harnesses.Hostkit.BrowserFolder
import VidbyteSdk.Harnesses.Hostkit.CacheRuns
import VidbyteSdk.Providers.Requests
import VidbyteSdk.Providers.ThinkingGuard
import VidbyteSdk.Sessions.Pruning
import VidbyteSdk.Sessions.FileNames
import VidbyteSdk.Sessions.FailedVerbs
import VidbyteSdk.Middleware.ConfusedDeputy
import VidbyteSdk.Tools.EchoedCalls
import VidbyteSdk.Middleware.Compaction.WriteBack
import VidbyteSdk.Middleware.Compaction.GroupStrategies
import VidbyteSdk.Middleware.Compaction.Scrubbing
import VidbyteSdk.Agents.Jev.ActionOrder
import VidbyteSdk.Util.Intervals
import VidbyteSdk.Tools.GeminiReferences
import VidbyteSdk.Workflows.Feedback
import VidbyteSdk.Tools.Filesystem.TreeCheck
import VidbyteSdk.Agents.Infinite.NoteBytes
import VidbyteSdk.Tools.Filesystem.Edits
import VidbyteSdk.Agents.Jev.EventLogRuns
import VidbyteSdk.Sessions.RoutedOnce
import VidbyteSdk.Agents.Loop.PromptBoundary
import VidbyteSdk.Process.CliRunner
import VidbyteSdk.Http.VidbyteGateway
import VidbyteSdk.Harnesses.Codex.UsageRuns
import VidbyteSdk.Tools.CalculatorBounds
import VidbyteSdk.Context.ManagerRuns
import VidbyteSdk.Sources.LlmsTxtOrder
import VidbyteSdk.Trace.TraceForest
import VidbyteSdk.Harnesses.RedactionLaws
import VidbyteSdk.Agents.Infinite.MapText
import VidbyteSdk.Tools.Filesystem.ReadLines
import VidbyteSdk.Evals.JsonSchema
import VidbyteSdk.Registries.ReleasePricing
import VidbyteSdk.Providers.Embeddings
import VidbyteSdk.Tools.ContinualTrace
