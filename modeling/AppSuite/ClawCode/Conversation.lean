import AppSuite.ClawCode.Session

/-!
This module contains the loop that runs a turn of a conversation. The model, the hooks, the user and
the tools are functions of a state of the world, and may change it.
-/

namespace ClawCode

structure PromptCacheEvent where
  unexpected : Bool
  reason : Str
  previousCacheReadInputTokens : UInt32
  currentCacheReadInputTokens : UInt32
  tokenDrop : UInt32
  deriving DecidableEq, Repr

inductive AssistantEvent where
  | thinking (thinking : Str) (signature : Option Str)
  | textDelta (delta : Str)
  | toolUse (id name input : Str)
  | usage (value : TokenUsage)
  | promptCache (event : PromptCacheEvent)
  | messageStop
  deriving DecidableEq, Repr

structure ApiRequest where
  systemPrompt : List Str
  messages : List ConversationMessage
  deriving DecidableEq, Repr

abbrev RuntimeError := Str
abbrev ToolError := Str

structure HookRunResult where
  denied : Bool := false
  failed : Bool := false
  cancelled : Bool := false
  messages : List Str := []
  permissionOverride : Option PermissionOverride := none
  permissionReason : Option Str := none
  updatedInput : Option Str := none
  deriving DecidableEq, Repr

structure Externals (ω : Type) where
  now : ω → UInt64 × ω
  stream : ω → ApiRequest → Except RuntimeError (List AssistantEvent) × ω
  execute : ω → (toolName input : Str) → Except ToolError Str × ω
  preToolUse : ω → (toolName input : Str) → HookRunResult × ω
  postToolUse : ω → (toolName input output : Str) → Bool → HookRunResult × ω
  postToolUseFailure : ω → (toolName input output : Str) → HookRunResult × ω

structure Assembly where
  text : Str := []
  blocks : List ContentBlock := []
  promptCacheEvents : List PromptCacheEvent := []
  finished : Bool := false
  usage : Option TokenUsage := none

def flushTextBlock (text : Str) (blocks : List ContentBlock) : List ContentBlock :=
  if text = [] then blocks else blocks ++ [.text text]

def assemble (assembly : Assembly) (event : AssistantEvent) : Assembly :=
  match event with
  | .thinking thinking signature =>
    { assembly with
      text := []
      blocks := flushTextBlock assembly.text assembly.blocks ++ [.thinking thinking signature] }
  | .textDelta delta => { assembly with text := assembly.text ++ delta }
  | .toolUse id name input =>
    { assembly with
      text := []
      blocks := flushTextBlock assembly.text assembly.blocks ++ [.toolUse id name input] }
  | .usage value => { assembly with usage := some value }
  | .promptCache event => { assembly with promptCacheEvents := assembly.promptCacheEvents ++ [event] }
  | .messageStop => { assembly with finished := true }

def buildAssistantMessage (events : List AssistantEvent)
    : Except RuntimeError (ConversationMessage × Option TokenUsage × List PromptCacheEvent) :=
  let assembly := events.foldl assemble {}
  let blocks := flushTextBlock assembly.text assembly.blocks
  if !assembly.finished then
    .error "assistant stream ended without a message stop event".toList
  else if blocks = [] then
    .error "assistant stream produced no content".toList
  else
    .ok (.assistantWithUsage blocks assembly.usage, assembly.usage, assembly.promptCacheEvents)

def formatHookMessage (result : HookRunResult) (fallback : Str) : Str :=
  if result.messages = [] then fallback else ['\n'].intercalate result.messages

def mergeHookFeedback (messages : List Str) (output : Str) (isError : Bool) : Str :=
  if messages = [] then
    output
  else
    let label := if isError then "Hook feedback (error)".toList else "Hook feedback".toList
    let feedback := label ++ ":\n".toList ++ ['\n'].intercalate messages
    if Text.trim Text.isWhiteSpace output = [] then
      feedback
    else
      output ++ "\n\n".toList ++ feedback

inductive LogEntry where
  | probed
  | preHook (toolName input : Str) (result : HookRunResult)
  | authorized (toolName input : Str) (context : PermissionContext) (outcome : PermissionOutcome)
    (question : Option (PermissionRequest × PermissionPromptDecision))
  | executed (toolName input : Str)
  deriving DecidableEq, Repr

structure ConversationRuntime where
  session : Session
  permissionPolicy : PermissionPolicy
  systemPrompt : List Str
  maxIterations : Nat
  cumulativeUsage : TokenUsage
  autoCompactionInputTokensThreshold : UInt32

structure AutoCompactionEvent where
  removedMessageCount : Nat
  deriving DecidableEq, Repr

structure TurnSummary where
  assistantMessages : List ConversationMessage
  toolResults : List ConversationMessage
  promptCacheEvents : List PromptCacheEvent
  iterations : Nat
  usage : TokenUsage
  autoCompaction : Option AutoCompactionEvent
  deriving DecidableEq, Repr

-- `UsageTracker::record`, as far as the runtime reads the tracker.
def recordUsage (cumulative usage : TokenUsage) : TokenUsage where
  inputTokens := cumulative.inputTokens + usage.inputTokens
  outputTokens := cumulative.outputTokens + usage.outputTokens
  cacheCreationInputTokens := cumulative.cacheCreationInputTokens + usage.cacheCreationInputTokens
  cacheReadInputTokens := cumulative.cacheReadInputTokens + usage.cacheReadInputTokens

section Turn

variable {ω : Type} (objectStrings : Str → Option (Str → Option Str)) (ext : Externals ω)
  (prompter : Option (PermissionPrompter ω))

structure ToolRun (ω : Type) where
  message : ConversationMessage
  world : ω
  log : List LogEntry

def deniedRun (toolUseId toolName : Str) (pre : HookRunResult) (reason : Str) (world : ω)
    (log : List LogEntry) : ToolRun ω :=
  ⟨.toolResult toolUseId toolName (mergeHookFeedback pre.messages reason true) true, world, log⟩

def executedRun (toolUseId toolName effectiveInput : Str) (pre : HookRunResult) (world : ω)
    (log : List LogEntry) : ToolRun ω :=
  let (result, world) := ext.execute world toolName effectiveInput
  let (output, isError) := match result with
    | .ok output => (output, false)
    | .error error => (error, true)
  let output := mergeHookFeedback pre.messages output false
  let (post, world) :=
    if isError then
      ext.postToolUseFailure world toolName effectiveInput output
    else
      ext.postToolUse world toolName effectiveInput output false
  let stopped := post.denied || post.failed || post.cancelled
  let output := mergeHookFeedback post.messages output stopped
  ⟨.toolResult toolUseId toolName output (isError || stopped), world,
    log ++ [.executed toolName effectiveInput]⟩

def runToolUse (policy : PermissionPolicy) (toolUseId toolName input : Str) (world : ω) : ToolRun ω :=
  let (pre, world) := ext.preToolUse world toolName input
  let effectiveInput := pre.updatedInput.getD input
  let context : PermissionContext := ⟨pre.permissionOverride, pre.permissionReason⟩
  let log := [LogEntry.preHook toolName input pre]
  if pre.cancelled then
    deniedRun toolUseId toolName pre
      (formatHookMessage pre ("PreToolUse hook cancelled tool `".toList ++ toolName ++ "`".toList))
      world log
  else if pre.failed then
    deniedRun toolUseId toolName pre
      (formatHookMessage pre ("PreToolUse hook failed for tool `".toList ++ toolName ++ "`".toList))
      world log
  else if pre.denied then
    deniedRun toolUseId toolName pre
      (formatHookMessage pre ("PreToolUse hook denied tool `".toList ++ toolName ++ "`".toList))
      world log
  else
    let authorization :=
      authorizeWithContext objectStrings policy toolName effectiveInput context prompter world
    let log := log
      ++ [.authorized toolName effectiveInput context authorization.outcome authorization.question]
    match authorization.outcome with
    | .allow => executedRun ext toolUseId toolName effectiveInput pre authorization.world log
    | .deny reason => deniedRun toolUseId toolName pre reason authorization.world log

structure Turn (ω : Type) where
  runtime : ConversationRuntime
  world : ω
  log : List LogEntry := []
  assistantMessages : List ConversationMessage := []
  toolResults : List ConversationMessage := []
  promptCacheEvents : List PromptCacheEvent := []
  iterations : Nat := 0

variable (turn : Turn ω) (message : ConversationMessage)

def Turn.pushMessage : Turn ω :=
  let (now, world) := ext.now turn.world
  let session := turn.runtime.session.touch now
  { turn with
    world := world
    runtime := { turn.runtime with
      session := { session with messages := session.messages ++ [message] } } }

def Turn.answer (pending : Str × Str × Str) : Turn ω :=
  let (toolUseId, toolName, input) := pending
  let run := runToolUse objectStrings ext prompter turn.runtime.permissionPolicy toolUseId toolName input
    turn.world
  let turn := { turn with world := run.world, log := turn.log ++ run.log }
  let turn := turn.pushMessage ext run.message
  { turn with toolResults := turn.toolResults ++ [run.message] }

def pendingToolUses : List (Str × Str × Str) :=
  message.blocks.filterMap fun block =>
    match block with
    | .toolUse id name input => some (id, name, input)
    | _ => none

def Turn.receive (usage : Option TokenUsage) (promptCacheEvents : List PromptCacheEvent) : Turn ω :=
  let cumulativeUsage := match usage with
    | some usage => recordUsage turn.runtime.cumulativeUsage usage
    | none => turn.runtime.cumulativeUsage
  let turn := { turn with
    runtime := { turn.runtime with cumulativeUsage := cumulativeUsage }
    promptCacheEvents := turn.promptCacheEvents ++ promptCacheEvents }
  let turn := turn.pushMessage ext message
  { turn with assistantMessages := turn.assistantMessages ++ [message] }

-- The loop stops with an error or when an assistant's message has no tool use; `remaining` counts the
-- iterations that are left.
def Turn.loop (turn : Turn ω) (remaining : Nat) : Except RuntimeError Unit × Turn ω :=
  let turn := { turn with iterations := turn.iterations + 1 }
  match remaining with
  | 0 => (.error "conversation loop exceeded the maximum number of iterations".toList, turn)
  | remaining + 1 =>
    let request : ApiRequest := ⟨turn.runtime.systemPrompt, turn.runtime.session.messages⟩
    match ext.stream turn.world request with
    | (.error error, world) => (.error error, { turn with world := world })
    | (.ok events, world) =>
      let turn := { turn with world := world }
      match buildAssistantMessage events with
      | .error error => (.error error, turn)
      | .ok (message, usage, promptCacheEvents) =>
        let turn := turn.receive ext message usage promptCacheEvents
        if pendingToolUses message = [] then
          (.ok (), turn)
        else
          ((pendingToolUses message).foldl (Turn.answer objectStrings ext prompter) turn).loop remaining

variable (writer : SummaryWriter)

def Turn.maybeAutoCompact : Option AutoCompactionEvent × Turn ω :=
  if turn.runtime.cumulativeUsage.inputTokens < turn.runtime.autoCompactionInputTokensThreshold then
    (none, turn)
  else
    let (now, world) := ext.now turn.world
    let turn := { turn with world := world }
    match compactSession writer now turn.runtime.session { maxEstimatedTokens := 0 } with
    | none => (none, turn)
    | some result =>
      if result.removedMessageCount = 0 then
        (none, turn)
      else
        (some ⟨result.removedMessageCount⟩,
          { turn with runtime := { turn.runtime with session := result.compactedSession } })

structure TurnEnd (ω : Type) where
  result : Except RuntimeError TurnSummary
  runtime : ConversationRuntime
  world : ω
  log : List LogEntry

def healthProbeInput : Str := "\x7b\"pattern\": \"*.health-check-probe-\"\x7d".toList

def runSessionHealthProbe (session : Session) (world : ω) : Except Str Unit × ω × List LogEntry :=
  if session.messages = [] ∧ session.compaction.isSome then
    (.ok (), world, [])
  else
    match ext.execute world "glob_search".toList healthProbeInput with
    | (.ok _, world) => (.ok (), world, [.probed])
    | (.error error, world) =>
      (.error ("Tool executor probe failed: ".toList ++ error), world, [.probed])

def probeFailed (error : Str) : RuntimeError :=
  "Session health probe failed after compaction: ".toList ++ error
    ++ (". The session may be in an inconsistent state. "
      ++ "Consider starting a fresh session with /session new.").toList

def runTurn (runtime : ConversationRuntime) (userInput : Str) (world : ω) : TurnEnd ω :=
  let (probe, world, log) :=
    if runtime.session.compaction.isSome then
      runSessionHealthProbe ext runtime.session world
    else
      (.ok (), world, [])
  match probe with
  | .error error => ⟨.error (probeFailed error), runtime, world, log⟩
  | .ok () =>
    let turn : Turn ω := { runtime := runtime, world := world, log := log }
    let turn := turn.pushMessage ext (.userText userInput)
    match turn.loop objectStrings ext prompter runtime.maxIterations with
    | (.error error, turn) => ⟨.error error, turn.runtime, turn.world, turn.log⟩
    | (.ok (), turn) =>
      let (autoCompaction, turn) := turn.maybeAutoCompact ext writer
      ⟨.ok {
          assistantMessages := turn.assistantMessages
          toolResults := turn.toolResults
          promptCacheEvents := turn.promptCacheEvents
          iterations := turn.iterations
          usage := turn.runtime.cumulativeUsage
          autoCompaction := autoCompaction },
        turn.runtime, turn.world, turn.log⟩

end Turn

end ClawCode
