import AppSuite.N8n.DirectedGraph.Invariant
import AppSuite.N8n.DirectedGraph.RoundTrip
import AppSuite.N8n.GraphUtils
import AppSuite.N8n.Workflow.Rename
import AppSuite.Gdocs.Rooms
import AppSuite.Gdocs.Restore
import AppSuite.N8n.PartialExecution.RecreateStack
import AppSuite.N8n.Engine.Waiting
import AppSuite.Eim.Presence
import AppSuite.Eim.ReadReceipts
import AppSuite.Gdocs.Store
import AppSuite.Lowcode.AccessControl
import AppSuite.Lowcode.Pages
import AppSuite.PyApi.RouteIndex
import AppSuite.Codex.ApplyPatch.RoundTrip
import AppSuite.Codex.ApplyPatch.Delta
import AppSuite.Codex.ApplyPatch.StreamingAgrees
import AppSuite.Codex.StreamParser.InlineHiddenTag
import AppSuite.Codex.StreamParser.TaggedLine
import AppSuite.Codex.History.Normalize
import AppSuite.Codex.History.Rollout
import AppSuite.Codex.ExecPolicy
import AppSuite.CcSwitch.CircuitBreaker.HalfOpen
import AppSuite.CcSwitch.Streaming.Preserved
import AppSuite.CcSwitch.Sse
import AppSuite.Deno.Permissions.Runtime
import AppSuite.Deno.Permissions.Child
import AppSuite.Deno.Lockfile.Locked
import AppSuite.Deno.Eszip.Reachable
import AppSuite.Deno.Dotenv
import AppSuite.Deno.Npm.Lookups
import AppSuite.ClawCode.PromptMode
import AppSuite.ClawCode.BashPermission
import AppSuite.ClawCode.SessionLog
import AppSuite.Dify.Chunks
import AppSuite.N8n.PartialExecution.CleanRunData
import AppSuite.N8n.PartialExecution.FindStartNodes
import AppSuite.N8n.Workflow.GroupWorkflows
import AppSuite.N8n.PartialExecution.SubgraphSound
import AppSuite.PyApi.UpdateAtomic
import AppSuite.ClawCode.FileWrite
import AppSuite.Dify.ChunkMerger
import AppSuite.ClawCode.Timestamps
