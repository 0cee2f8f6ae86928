import ClaudeCodeConnect.Core.Interruptible
import ClaudeCodeConnect.Core.Machine
import ClaudeCodeConnect.Core.Ranking
import ClaudeCodeConnect.Core.Simulation
import ClaudeCodeConnect.Install.Launch
import ClaudeCodeConnect.Install.Offline
import ClaudeCodeConnect.Install.ServerBinary
import ClaudeCodeConnect.Json.Writer
import ClaudeCodeConnect.Lifecycle.ClientsTold
import ClaudeCodeConnect.Lifecycle.LockFirst
import ClaudeCodeConnect.Lifecycle.Stops
import ClaudeCodeConnect.Lifecycle.Tasks
import ClaudeCodeConnect.Lock.Alone
import ClaudeCodeConnect.Lock.Companions
import ClaudeCodeConnect.Lock.Discovery
import ClaudeCodeConnect.Lock.Finding
import ClaudeCodeConnect.Lock.LockFile
import ClaudeCodeConnect.Lock.LockJson
import ClaudeCodeConnect.Lock.Readers
import ClaudeCodeConnect.Lock.Sweep
import ClaudeCodeConnect.Lock.Undisturbed
import ClaudeCodeConnect.Lock.Unlink
import ClaudeCodeConnect.Lock.Write
import ClaudeCodeConnect.Lsp.AfterShutdown
import ClaudeCodeConnect.Lsp.DiskRead
import ClaudeCodeConnect.Lsp.EditorView
import ClaudeCodeConnect.Lsp.Framing
import ClaudeCodeConnect.Lsp.FramingRoundTrip
import ClaudeCodeConnect.Lsp.LineTerminators
import ClaudeCodeConnect.Lsp.MirrorRefinement
import ClaudeCodeConnect.Lsp.Online
import ClaudeCodeConnect.Lsp.Spelling
import ClaudeCodeConnect.Mcp.AcceptLoop
import ClaudeCodeConnect.Mcp.Connection
import ClaudeCodeConnect.Mcp.Refusals
import ClaudeCodeConnect.Mcp.Upgrade
import ClaudeCodeConnect.Mcp.Wire
import ClaudeCodeConnect.Mcp.WireResponses
import ClaudeCodeConnect.Selection.EventBus
import ClaudeCodeConnect.Selection.Lag
import ClaudeCodeConnect.Selection.MentionRequest
import ClaudeCodeConnect.System.AtMention
import ClaudeCodeConnect.System.Companion
import ClaudeCodeConnect.System.EndToEnd
import ClaudeCodeConnect.System.Mentions
import ClaudeCodeConnect.System.Moves
import ClaudeCodeConnect.System.Parts
import ClaudeCodeConnect.System.Progress
import ClaudeCodeConnect.System.Sessions
import ClaudeCodeConnect.System.Strangers
