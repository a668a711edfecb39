import AppSuite.Data.OrderedMap
import AppSuite.Data.OrderedSet
import AppSuite.Text.Whitespace
import AppSuite.System.Run

/-!
This module contains the conversion of OpenAI chunks into Anthropic events, and what a client asks of
the events of one message. The work on a chunk is cut into actions, in the order of the loop.
-/

namespace CcSwitch.Proxy.Streaming

abbrev Str := List Char

structure PromptTokensDetails where
  cachedTokens : Nat
  deriving DecidableEq, Repr

structure Usage where
  promptTokens : Nat
  completionTokens : Nat
  promptTokensDetails : Option PromptTokensDetails
  cacheReadInputTokens : Option Nat
  cacheCreationInputTokens : Option Nat
  deriving DecidableEq, Repr

structure DeltaFunction where
  name : Option Str
  arguments : Option Str
  deriving DecidableEq, Repr

structure DeltaToolCall where
  index : Nat
  id : Option Str
  function : Option DeltaFunction
  deriving DecidableEq, Repr

structure Delta where
  content : Option Str
  reasoning : Option Str
  toolCalls : Option (List DeltaToolCall)
  deriving DecidableEq, Repr

structure StreamChoice where
  delta : Delta
  finishReason : Option Str
  deriving DecidableEq, Repr

structure OpenAIStreamChunk where
  id : Str
  model : Str
  choices : List StreamChoice
  usage : Option Usage
  deriving DecidableEq, Repr

structure AnthropicUsage where
  inputTokens : Nat
  outputTokens : Nat
  cacheReadInputTokens : Option Nat
  cacheCreationInputTokens : Option Nat
  deriving DecidableEq, Repr

inductive ContentBlock where
  | thinking
  | text
  | toolUse (id name : Str)
  deriving DecidableEq, Repr

inductive BlockDelta where
  | thinkingDelta (thinking : Str)
  | textDelta (text : Str)
  | inputJsonDelta (partialJson : Str)
  deriving DecidableEq, Repr

inductive Event where
  | messageStart (id model : Str) (usage : AnthropicUsage)
  | contentBlockStart (index : UInt32) (block : ContentBlock)
  | contentBlockDelta (index : UInt32) (delta : BlockDelta)
  | contentBlockStop (index : UInt32)
  | messageDelta (stopReason : Option Str) (usage : AnthropicUsage)
  | messageStop
  | error (message : Str)
  deriving DecidableEq, Repr

def extractCacheReadTokens (usage : Usage) : Option Nat :=
  match usage.cacheReadInputTokens with
  | some tokens => some tokens
  | none => (usage.promptTokensDetails.map (·.cachedTokens)).filter (· > 0)

def buildAnthropicUsage (usage : Usage) : AnthropicUsage :=
  ⟨usage.promptTokens, usage.completionTokens, extractCacheReadTokens usage, usage.cacheCreationInputTokens⟩

def defaultAnthropicUsage : AnthropicUsage := ⟨0, 0, none, none⟩

def startUsage (usage : Option Usage) : AnthropicUsage :=
  match usage with
  | none => defaultAnthropicUsage
  | some usage => ⟨usage.promptTokens, 0, extractCacheReadTokens usage, usage.cacheCreationInputTokens⟩

def buildMessageDeltaEvent (stopReason : Option Str) (usage : Option AnthropicUsage) : Event :=
  .messageDelta stopReason (usage.getD defaultAnthropicUsage)

def mapStopReason (finishReason : Option Str) : Option Str :=
  finishReason.map fun reason =>
    if reason = "tool_calls".toList ∨ reason = "function_call".toList then
      "tool_use".toList
    else if reason = "length".toList then
      "max_tokens".toList
    else
      "end_turn".toList

inductive NonToolBlock where
  | thinking
  | text
  deriving DecidableEq, Repr

def NonToolBlock.contentBlock : NonToolBlock → ContentBlock
  | thinking => .thinking
  | text => .text

def NonToolBlock.delta (type : NonToolBlock) (text : Str) : BlockDelta :=
  match type with
  | .thinking => .thinkingDelta text
  | .text => .textDelta text

structure ToolBlockState where
  anthropicIndex : UInt32
  id : Str
  name : Str
  started : Bool
  pendingArgs : Str
  consecutiveWhitespace : Nat
  aborted : Bool
  deriving DecidableEq, Repr

def ToolBlockState.new (anthropicIndex : UInt32) : ToolBlockState :=
  ⟨anthropicIndex, [], [], false, [], 0, false⟩

def infiniteWhitespaceThreshold : Nat := 20

structure State where
  messageId : Option Str
  currentModel : Option Str
  nextContentIndex : UInt32
  hasSentMessageStart : Bool
  hasEmittedMessageDelta : Bool
  pendingMessageDelta : Option (Option Str × Option AnthropicUsage)
  hasSentMessageStop : Bool
  latestUsage : Option AnthropicUsage
  currentNonToolBlockType : Option NonToolBlock
  currentNonToolBlockIndex : Option UInt32
  toolBlocksByIndex : OrderedMap Nat ToolBlockState
  openToolBlockIndices : OrderedSet UInt32
  out : List Event

structure Reaction where
  shouldStart : Bool
  pendingAfterStart : Option Str
  immediateDelta : Option Str
  deriving DecidableEq, Repr

namespace ToolBlockState

def countWhitespace (count : Nat) (args : Str) : Nat :=
  args.foldl (fun count c => if Text.isWhiteSpace c then count + 1 else 0) count

variable (b : ToolBlockState) (call : DeltaToolCall)

def rename : ToolBlockState :=
  { b with
    id := call.id.getD b.id
    name := (call.function.bind (·.name)).getD b.name }

def shouldStart : Bool := !b.started && !b.id.isEmpty && !b.name.isEmpty

def start : ToolBlockState × Option Str :=
  if b.shouldStart then
    ({ b with started := true, pendingArgs := [] }, if b.pendingArgs.isEmpty then none else some b.pendingArgs)
  else
    (b, none)

def takeArguments (args : Option Str) : ToolBlockState × Option Str :=
  match args with
  | none => (b, none)
  | some args =>
    let b := { b with consecutiveWhitespace := countWhitespace b.consecutiveWhitespace args }
    if b.consecutiveWhitespace ≥ infiniteWhitespaceThreshold then
      ({ b with aborted := true }, none)
    else if b.started then
      (b, some args)
    else
      ({ b with pendingArgs := b.pendingArgs ++ args }, none)

def receive : ToolBlockState × Reaction :=
  if b.aborted then
    (b, ⟨false, none, none⟩)
  else
    let b := b.rename call
    let shouldStart := b.shouldStart
    let (b, pendingAfterStart) := b.start
    let (b, immediateDelta) := b.takeArguments (call.function.bind (·.arguments))
    (b, ⟨shouldStart, pendingAfterStart, immediateDelta⟩)

def hasPayload : Bool :=
  !b.pendingArgs.isEmpty || !b.id.isEmpty || !b.name.isEmpty

def startsLate : Bool := !b.started && b.hasPayload

end ToolBlockState

structure LateStart where
  index : UInt32
  id : Str
  name : Str
  pending : Str
  deriving DecidableEq, Repr

def LateStart.of (toolIdx : Nat) (b : ToolBlockState) : LateStart where
  index := b.anthropicIndex
  id := if b.id.isEmpty then "tool_call_".toList ++ Nat.toDigits 10 toolIdx else b.id
  name := if b.name.isEmpty then "unknown_tool".toList else b.name
  pending := b.pendingArgs

namespace State

def init : State where
  messageId := none
  currentModel := none
  nextContentIndex := 0
  hasSentMessageStart := false
  hasEmittedMessageDelta := false
  pendingMessageDelta := none
  hasSentMessageStop := false
  latestUsage := none
  currentNonToolBlockType := none
  currentNonToolBlockIndex := none
  toolBlocksByIndex := .empty
  openToolBlockIndices := .empty
  out := []

variable (s : State)

def emit (e : Event) : State := { s with out := s.out ++ [e] }

def readHeader (chunk : OpenAIStreamChunk) : State :=
  let usage := chunk.usage.map buildAnthropicUsage
  { s with
    messageId := if s.messageId.isNone && !chunk.id.isEmpty then some chunk.id else s.messageId
    currentModel := if s.currentModel.isNone && !chunk.model.isEmpty then some chunk.model else s.currentModel
    latestUsage := usage.or s.latestUsage
    pendingMessageDelta := s.pendingMessageDelta.map fun e => (e.1, usage.or e.2) }

def startMessage (usage : Option Usage) : State :=
  if s.hasSentMessageStart then
    s
  else
    { s.emit (.messageStart (s.messageId.getD []) (s.currentModel.getD []) (startUsage usage)) with
      hasSentMessageStart := true }

def takeNonToolBlock : State :=
  match s.currentNonToolBlockIndex with
  | some index => { s.emit (.contentBlockStop index) with currentNonToolBlockIndex := none }
  | none => s

variable (type : NonToolBlock)

def startNonToolBlock : State :=
  let index := s.nextContentIndex
  { s.emit (.contentBlockStart index type.contentBlock) with
    nextContentIndex := index + 1
    currentNonToolBlockType := some type
    currentNonToolBlockIndex := some index }

def enterNonToolBlock : State :=
  if s.currentNonToolBlockType = some type then s else s.takeNonToolBlock.startNonToolBlock type

def nonToolDelta (text : Str) : State :=
  let s := s.enterNonToolBlock type
  match s.currentNonToolBlockIndex with
  | some index => s.emit (.contentBlockDelta index (type.delta text))
  | none => s

def leaveNonToolBlock : State :=
  { s.takeNonToolBlock with currentNonToolBlockType := none }

def enterToolBlock (index : Nat) : State :=
  if s.toolBlocksByIndex.has index then
    s
  else
    { s with
      nextContentIndex := s.nextContentIndex + 1
      toolBlocksByIndex := s.toolBlocksByIndex.set index (.new s.nextContentIndex) }

def startToolBlock (index : UInt32) (id name : Str) : State :=
  { s.emit (.contentBlockStart index (.toolUse id name)) with
    openToolBlockIndices := s.openToolBlockIndices.add index }

def toolDelta (index : UInt32) (args : Option Str) : State :=
  match args with
  | some args => s.emit (.contentBlockDelta index (.inputJsonDelta args))
  | none => s

def toolBlock (index : Nat) : ToolBlockState :=
  (s.toolBlocksByIndex.get? index).getD (.new s.nextContentIndex)

def toolCall (call : DeltaToolCall) : State :=
  let (b, reaction) := (s.toolBlock call.index).receive call
  let s := s.enterToolBlock call.index
  let s := { s with toolBlocksByIndex := s.toolBlocksByIndex.set call.index b }
  let s := if reaction.shouldStart then s.startToolBlock b.anthropicIndex b.id b.name else s
  let s := s.toolDelta b.anthropicIndex reaction.pendingAfterStart
  s.toolDelta b.anthropicIndex reaction.immediateDelta

def lateStarts : List LateStart :=
  ((s.toolBlocksByIndex.entries.filter (·.2.startsLate)).map fun e => LateStart.of e.1 e.2).insertionSort
    (·.index ≤ ·.index)

def lateStart (l : LateStart) : State :=
  (s.startToolBlock l.index l.id l.name).toolDelta l.index (if l.pending.isEmpty then none else some l.pending)

def startLateToolBlocks : State :=
  s.lateStarts.foldl lateStart
    { s with
      toolBlocksByIndex := s.toolBlocksByIndex.mapValues fun _ b =>
        if b.startsLate then { b with started := true, pendingArgs := [] } else b }

def stopToolBlocks : State :=
  { (s.openToolBlockIndices.elems.insertionSort (· ≤ ·)).foldl (fun s index => s.emit (.contentBlockStop index)) s
    with openToolBlockIndices := .empty }

def finish (reason : Str) (usage : Option Usage) : State :=
  let usage := (usage.map buildAnthropicUsage).or s.latestUsage
  if s.hasEmittedMessageDelta then
    { s with pendingMessageDelta := s.pendingMessageDelta.map fun e => (e.1, usage.or e.2) }
  else
    let s := s.leaveNonToolBlock.startLateToolBlocks.stopToolBlocks
    { s with
      hasEmittedMessageDelta := true
      pendingMessageDelta := some (mapStopReason (some reason), usage) }

def sendMessageDelta : State :=
  match s.pendingMessageDelta with
  | some (stopReason, usage) =>
    { s.emit (buildMessageDeltaEvent stopReason usage) with pendingMessageDelta := none }
  | none => s

def done : State :=
  { s.sendMessageDelta.emit .messageStop with hasSentMessageStop := true }

-- The end of the stream: what a missing `[DONE]` would have sent, but only after a finished message.
def close : State :=
  if s.pendingMessageDelta.isSome then
    let s := s.sendMessageDelta
    if s.hasSentMessageStop then s else s.emit .messageStop
  else
    s

def fail (message : Str) : State := s.emit (.error message)

end State

inductive Action where
  | readHeader (chunk : OpenAIStreamChunk)
  | startMessage (usage : Option Usage)
  | nonToolDelta (type : NonToolBlock) (text : Str)
  | leaveNonToolBlock
  | toolCall (call : DeltaToolCall)
  | finish (reason : Str) (usage : Option Usage)
  | done

def State.act (s : State) (a : Action) : State :=
  match a with
  | .readHeader chunk => s.readHeader chunk
  | .startMessage usage => s.startMessage usage
  | .nonToolDelta type text => s.nonToolDelta type text
  | .leaveNonToolBlock => s.leaveNonToolBlock
  | .toolCall call => s.toolCall call
  | .finish reason usage => s.finish reason usage
  | .done => s.done

def StreamChoice.actions (choice : StreamChoice) (usage : Option Usage) : List Action :=
  .startMessage usage ::
    (match choice.delta.reasoning with
      | some reasoning => [.nonToolDelta .thinking reasoning]
      | none => []) ++
    (match choice.delta.content with
      | some content => if content.isEmpty then [] else [.nonToolDelta .text content]
      | none => []) ++
    (match choice.delta.toolCalls with
      | some calls => .leaveNonToolBlock :: calls.map .toolCall
      | none => []) ++
    (match choice.finishReason with
      | some reason => [.finish reason usage]
      | none => [])

inductive Input where
  | chunk (c : OpenAIStreamChunk)
  | done
  deriving DecidableEq, Repr

def Input.actions : Input → List Action
  | .chunk c =>
    .readHeader c ::
      (match c.choices.head? with
        | some choice => choice.actions c.usage
        | none => [])
  | .done => [.done]

inductive Ending where
  | ended
  | failed (message : Str)

def createAnthropicStream (inputs : List Input) (ending : Ending) : List Event :=
  let s := (inputs.flatMap Input.actions).foldl State.act .init
  match ending with
  | .ended => s.close.out
  | .failed message => (s.fail message).out

def Event.isMessageStart : Event → Bool
  | messageStart _ _ _ => true
  | _ => false

def Event.isMessageDelta : Event → Bool
  | messageDelta _ _ => true
  | _ => false

def Event.isMessageStop : Event → Bool
  | messageStop => true
  | _ => false

variable (events : List Event)

def sentMessageStart : Bool := events.any Event.isMessageStart

def sentMessageDelta : Bool := events.any Event.isMessageDelta

def sentMessageStop : Bool := events.any Event.isMessageStop

def startedBlocks : List UInt32 :=
  events.filterMap fun
    | .contentBlockStart index _ => some index
    | _ => none

def openAfter (blocks : List UInt32) (e : Event) : List UInt32 :=
  match e with
  | .contentBlockStart index _ => blocks ++ [index]
  | .contentBlockStop index => blocks.filter (· ≠ index)
  | _ => blocks

def openBlocks : List UInt32 := events.foldl openAfter []

def Allowed (before : List Event) (e : Event) : Prop :=
  sentMessageStop before = false ∧
    match e with
    | .messageStart _ _ _ => sentMessageStart before = false
    | .contentBlockStart index _ =>
      sentMessageStart before = true ∧ sentMessageDelta before = false ∧ index ∉ startedBlocks before
    | .contentBlockDelta index _ => sentMessageStart before = true ∧ index ∈ openBlocks before
    | .contentBlockStop index => sentMessageStart before = true ∧ index ∈ openBlocks before
    | .messageDelta _ _ => sentMessageDelta before = false ∧ openBlocks before = []
    | .messageStop => openBlocks before = []
    | .error _ => True

instance (before : List Event) (e : Event) : Decidable (Allowed before e) := by
  cases e <;> unfold Allowed <;> infer_instance

def WellFormed : Prop :=
  Run.Along (fun before e => before ++ [e]) Allowed [] events

instance (events : List Event) : Decidable (WellFormed events) :=
  inferInstanceAs (Decidable (Run.Along (fun before e => before ++ [e]) Allowed [] events))

variable {events : List Event} {events' : List Event}

theorem wellFormed_append
    : WellFormed (events ++ events') ↔
      WellFormed events ∧ Run.Along (fun before e => before ++ [e]) Allowed events events' := by
  unfold WellFormed
  rw [Run.along_append, Run.foldl_concat, List.nil_append]

theorem wellFormed_concat {e : Event}
    : WellFormed (events ++ [e]) ↔ WellFormed events ∧ Allowed events e := by
  rw [wellFormed_append]
  simp [Run.Along]

theorem not_wellFormed_of_stopped (h : sentMessageStop events = true) (hne : more ≠ [])
    : ¬WellFormed (events ++ more) := by
  intro hwf
  cases more with
  | nil => contradiction
  | cons e more =>
    rw [wellFormed_append] at hwf
    have := hwf.2.1.1
    rw [h] at this
    contradiction

theorem wellFormed_of_isPrefix (hpre : events <+: events') (h : WellFormed events')
    : WellFormed events := by
  obtain ⟨more, rfl⟩ := hpre
  exact (wellFormed_append.mp h).1

section Concat

variable (events : List Event) (e : Event)

@[simp]
theorem sentMessageStart_concat
    : sentMessageStart (events ++ [e]) = (sentMessageStart events || e.isMessageStart) := by
  simp [sentMessageStart]

@[simp]
theorem sentMessageDelta_concat
    : sentMessageDelta (events ++ [e]) = (sentMessageDelta events || e.isMessageDelta) := by
  simp [sentMessageDelta]

@[simp]
theorem sentMessageStop_concat
    : sentMessageStop (events ++ [e]) = (sentMessageStop events || e.isMessageStop) := by
  simp [sentMessageStop]

@[simp]
theorem openBlocks_concat : openBlocks (events ++ [e]) = openAfter (openBlocks events) e := by
  simp [openBlocks]

theorem startedBlocks_concat
    : startedBlocks (events ++ [e])
      = startedBlocks events ++ (match e with | .contentBlockStart index _ => [index] | _ => []) := by
  unfold startedBlocks
  rw [List.filterMap_append]
  cases e <;> rfl

end Concat

end CcSwitch.Proxy.Streaming
