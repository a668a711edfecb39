import AppSuite.CcSwitch.Streaming.Harmless

/-!
This module contains what becomes of the content of a stream.
-/

namespace CcSwitch.Proxy.Streaming

open List Event

def Event.text : Event → Str
  | contentBlockDelta _ (.textDelta text) => text
  | _ => []

def Event.thinking : Event → Str
  | contentBlockDelta _ (.thinkingDelta thinking) => thinking
  | _ => []

def Event.json (i : UInt32) : Event → Str
  | contentBlockDelta j (.inputJsonDelta args) => if j = i then args else []
  | _ => []

def Event.toolStart? : Event → Option UInt32
  | contentBlockStart i (.toolUse _ _) => some i
  | _ => none

variable (events : List Event)

def sentText : Str := events.flatMap text

def sentThinking : Str := events.flatMap thinking

def sentJson (i : UInt32) : Str := events.flatMap (json i)

def toolStarts : List UInt32 := events.filterMap toolStart?

def Input.choice? : Input → Option StreamChoice
  | .chunk c => c.choices.head?
  | .done => none

variable (inputs : List Input)

def upstreamChoices : List StreamChoice := inputs.filterMap Input.choice?

def upstreamContent : Str :=
  (upstreamChoices inputs).flatMap fun choice => choice.delta.content.getD []

def upstreamReasoning : Str :=
  (upstreamChoices inputs).flatMap fun choice => choice.delta.reasoning.getD []

def upstreamCalls : List DeltaToolCall :=
  (upstreamChoices inputs).flatMap fun choice => choice.delta.toolCalls.getD []

def finishes : Bool :=
  (upstreamChoices inputs).any fun choice => choice.finishReason.isSome

def DeltaToolCall.name (call : DeltaToolCall) : Option Str := call.function.bind (·.name)

def DeltaToolCall.args (call : DeltaToolCall) : Str := (call.function.bind (·.arguments)).getD []

structure ToolReading where
  id : Str
  name : Str
  args : Str
  named : Bool
  deriving DecidableEq, Repr

namespace ToolReading

def empty : ToolReading := ⟨[], [], [], false⟩

def take (r : ToolReading) (call : DeltaToolCall) : ToolReading :=
  let id := call.id.getD r.id
  let name := call.name.getD r.name
  ⟨id, name, r.args ++ call.args, r.named || (!id.isEmpty && !name.isEmpty)⟩

def hasPayload (r : ToolReading) : Bool := !r.args.isEmpty || !r.id.isEmpty || !r.name.isEmpty

end ToolReading

def readTool (calls : List DeltaToolCall) (k : Nat) : ToolReading :=
  (calls.filter fun call => call.index = k).foldl ToolReading.take .empty

def toolArguments (calls : List DeltaToolCall) (k : Nat) : Str :=
  (calls.filter fun call => call.index = k).flatMap DeltaToolCall.args

def Shown (k : Nat) : Prop :=
  (readTool (upstreamCalls inputs) k).named = true ∨
    finishes inputs = true ∧ (readTool (upstreamCalls inputs) k).hasPayload = true

instance (inputs : List Input) (k : Nat) : Decidable (Shown inputs k) :=
  inferInstanceAs (Decidable (_ ∨ _ ∧ _))

def Delta.IsEmpty (delta : Delta) : Prop :=
  delta.content.getD [] = [] ∧ delta.reasoning.getD [] = [] ∧ delta.toolCalls.getD [] = []

instance (delta : Delta) : Decidable delta.IsEmpty := inferInstanceAs (Decidable (_ ∧ _ ∧ _))

def QuietAfterFinish : Prop :=
  (upstreamChoices inputs).Pairwise fun choice later => choice.finishReason ≠ none → later.delta.IsEmpty

def NotCutAfter (before calls : List DeltaToolCall) : Prop :=
  Run.Along (fun before call => before ++ [call])
    (fun before call => ToolBlockState.countWhitespace 0 (readTool (before ++ [call]) call.index).args
      < infiniteWhitespaceThreshold) before calls

def NotCut (calls : List DeltaToolCall) : Prop := NotCutAfter [] calls

instance (calls : List DeltaToolCall) : Decidable (NotCut calls) :=
  inferInstanceAs (Decidable (Run.Along _ _ _ _))

section Append

variable (events more : List Event)

@[simp]
theorem sentText_append : sentText (events ++ more) = sentText events ++ sentText more :=
  flatMap_append

@[simp]
theorem sentThinking_append : sentThinking (events ++ more) = sentThinking events ++ sentThinking more :=
  flatMap_append

@[simp]
theorem sentJson_append (i : UInt32)
    : sentJson (events ++ more) i = sentJson events i ++ sentJson more i :=
  flatMap_append

@[simp]
theorem toolStarts_append : toolStarts (events ++ more) = toolStarts events ++ toolStarts more :=
  filterMap_append

end Append

section Silent

variable {events : List Event} (h : Silent events)

include h

theorem Silent.text : sentText events = [] := by
  apply flatMap_eq_nil_iff.mpr
  intro e he
  have := h e he
  cases e <;> first | rfl | contradiction

theorem Silent.thinking : sentThinking events = [] := by
  apply flatMap_eq_nil_iff.mpr
  intro e he
  have := h e he
  cases e <;> first | rfl | contradiction

theorem Silent.json (i : UInt32) : sentJson events i = [] := by
  apply flatMap_eq_nil_iff.mpr
  intro e he
  have := h e he
  cases e <;> first | rfl | contradiction

theorem Silent.starts : toolStarts events = [] := by
  apply filterMap_eq_nil_iff.mpr
  intro e he
  have := h e he
  cases e with
  | contentBlockStart i block => cases block <;> first | rfl | contradiction
  | _ => rfl

end Silent

theorem toolStarts_subset (events : List Event) : ∀ i ∈ toolStarts events, i ∈ startedBlocks events := by
  intro i hi
  obtain ⟨e, he, hstart⟩ := mem_filterMap.mp hi
  apply mem_filterMap.mpr
  refine ⟨e, he, ?_⟩
  cases e with
  | contentBlockStart j block =>
    cases block with
    | toolUse id name => exact hstart
    | _ => contradiction
  | _ => contradiction

theorem readTool_concat (calls : List DeltaToolCall) (call : DeltaToolCall) (k : Nat)
    : readTool (calls ++ [call]) k
      = if call.index = k then (readTool calls k).take call else readTool calls k := by
  unfold readTool
  rw [filter_append]
  split
  . next h =>
    rw [filter_cons_of_pos (by simp [h]), filter_nil, foldl_append]
    rfl
  . next h => rw [filter_cons_of_neg (by simp [h]), filter_nil, append_nil]

theorem foldl_take_args (calls : List DeltaToolCall) (r : ToolReading)
    : (calls.foldl ToolReading.take r).args = r.args ++ calls.flatMap DeltaToolCall.args := by
  induction calls generalizing r with
  | nil => exact (append_nil _).symm
  | cons call calls ih =>
    rw [foldl_cons, ih, flatMap_cons, ← append_assoc]
    rfl

theorem readTool_args (calls : List DeltaToolCall) (k : Nat)
    : (readTool calls k).args = toolArguments calls k := by
  exact foldl_take_args _ _

namespace ToolBlockState

theorem countWhitespace_append (n : Nat) (args args' : Str)
    : countWhitespace n (args ++ args') = countWhitespace (countWhitespace n args) args' :=
  foldl_append

variable {b : ToolBlockState} {call : DeltaToolCall}

theorem Receives.quiet (h : b.Receives b' call reaction)
    (hunstarted : b'.started = false)
    : b.started = false ∧ reaction.pendingAfterStart = none ∧ reaction.immediateDelta = none := by
  rw [h.started, Bool.or_eq_false_iff] at hunstarted
  refine ⟨hunstarted.1, h.pending hunstarted.2, ?_⟩
  have hforward := h.forward
  unfold forwards at hforward
  rw [hunstarted.1, hunstarted.2, Bool.or_self, Bool.and_false, Bool.false_and, Option.isSome_eq_false_iff,
    Option.isNone_iff_eq_none] at hforward
  exact hforward

structure Takes (b b' : ToolBlockState) (call : DeltaToolCall) (reaction : Reaction) : Prop where
  id : b'.id = call.id.getD b.id
  name : b'.name = call.name.getD b.name
  alive : b'.aborted = false
  spaces : b'.consecutiveWhitespace = countWhitespace b.consecutiveWhitespace call.args
  args : reaction.pendingAfterStart.getD [] ++ reaction.immediateDelta.getD [] ++ b'.pendingArgs
    = b.pendingArgs ++ call.args
  pending : b'.started = true → b'.pendingArgs = []

theorem start_started (b : ToolBlockState) (hpending : b.started = true → b.pendingArgs = [])
    : b.start.1.started = true → b.start.1.pendingArgs = [] := by
  unfold start
  split
  . intro _
    rfl
  . exact hpending

theorem start_args (b : ToolBlockState) : b.start.2.getD [] ++ b.start.1.pendingArgs = b.pendingArgs := by
  unfold start
  split
  . split
    . next h =>
      rw [List.isEmpty_iff] at h
      rw [h]
      rfl
    . exact append_nil _
  . rfl

theorem start_frame (b : ToolBlockState)
    : b.start.1.id = b.id ∧ b.start.1.name = b.name ∧ b.start.1.aborted = b.aborted ∧
      b.start.1.consecutiveWhitespace = b.consecutiveWhitespace := by
  unfold start
  split <;> exact ⟨rfl, rfl, rfl, rfl⟩

theorem takeArguments_takes (halive : b.aborted = false)
    (hpending : b.started = true → b.pendingArgs = [])
    (hspaces : countWhitespace b.consecutiveWhitespace (args.getD []) < infiniteWhitespaceThreshold)
    : (b.takeArguments args).1.id = b.id ∧ (b.takeArguments args).1.name = b.name ∧
      (b.takeArguments args).1.aborted = false ∧
      (b.takeArguments args).1.consecutiveWhitespace
        = countWhitespace b.consecutiveWhitespace (args.getD []) ∧
      (b.takeArguments args).2.getD [] ++ (b.takeArguments args).1.pendingArgs
        = b.pendingArgs ++ args.getD [] ∧
      ((b.takeArguments args).1.started = true → (b.takeArguments args).1.pendingArgs = []) := by
  cases args with
  | none => exact ⟨rfl, rfl, halive, rfl, (append_nil _).symm, hpending⟩
  | some args =>
    rw [Option.getD_some] at hspaces
    unfold takeArguments
    dsimp only
    rw [if_neg (Nat.not_le.mpr hspaces)]
    split
    . next hstarted =>
      have hnil := hpending hstarted
      refine ⟨rfl, rfl, halive, rfl, ?_, hpending⟩
      rw [hnil]
      exact append_nil _
    . next hunstarted => exact ⟨rfl, rfl, halive, rfl, rfl, fun h => absurd h hunstarted⟩

theorem receive_takes (halive : b.aborted = false) (hpending : b.started = true → b.pendingArgs = [])
    (hspaces : countWhitespace b.consecutiveWhitespace call.args < infiniteWhitespaceThreshold)
    : b.Takes (b.receive call).1 call (b.receive call).2 := by
  obtain ⟨hid, hname, haborted, hcount⟩ := (b.rename call).start_frame
  have hstarted := (b.rename call).start_started hpending
  have hargs := (b.rename call).start_args
  have hspaces' : countWhitespace (b.rename call).start.1.consecutiveWhitespace
      ((call.function.bind (·.arguments)).getD []) < infiniteWhitespaceThreshold := by
    rw [hcount]
    exact hspaces
  obtain ⟨hid', hname', halive', hspaces', hargs', hpending'⟩ :=
    takeArguments_takes (haborted.trans halive) hstarted hspaces'
  unfold receive
  rw [if_neg (by rw [halive]; exact Bool.false_ne_true)]
  constructor
  . exact hid'.trans hid
  . exact hname'.trans hname
  . exact halive'
  . exact hspaces'.trans (by rw [hcount]; rfl)
  . rw [append_assoc, hargs', ← append_assoc, hargs]
    rfl
  . exact hpending'

end ToolBlockState

namespace State

theorem toolDeltas_json (i j : UInt32) (args : Option Str)
    : sentJson (toolDeltas i args) j = if i = j then args.getD [] else [] := by
  cases args with
  | none => simp [toolDeltas, sentJson]
  | some args => simp [toolDeltas, sentJson, json]

theorem toolDeltas_rest (i : UInt32) (args : Option Str)
    : sentText (toolDeltas i args) = [] ∧ sentThinking (toolDeltas i args) = [] ∧
      toolStarts (toolDeltas i args) = [] := by
  cases args <;> exact ⟨rfl, rfl, rfl⟩

theorem silent_enterNonToolBlock (s : State) (type : NonToolBlock)
    : ∃ more, (s.enterNonToolBlock type).out = s.out ++ more ∧ Silent more := by
  rcases s.enterNonToolBlock_eq type with heq | heq <;> rw [heq]
  . exact ⟨[], (append_nil _).symm, silent_nil⟩
  . refine ⟨_, rfl, (silent_stops _).append (silent_singleton ?_)⟩
    cases type <;> trivial

theorem silent_close (s : State) : ∃ more, s.close.out = s.out ++ more ∧ Silent more := by
  obtain ⟨more, heq, hmore⟩ := s.sendMessageDelta_eq
  unfold close
  dsimp only
  split
  . rw [heq]
    split
    . exact ⟨more, rfl, hmore⟩
    . refine ⟨more ++ [.messageStop], ?_, hmore.append (silent_singleton (e := .messageStop) trivial)⟩
      rw [← append_assoc]
      rfl
  . exact ⟨[], (append_nil _).symm, silent_nil⟩

theorem lateEvents_starts (ls : List LateStart)
    : toolStarts (ls.flatMap LateStart.events) = ls.map (·.index) := by
  induction ls with
  | nil => rfl
  | cons l ls ih =>
    rw [flatMap_cons, toolStarts_append, ih]
    unfold LateStart.events
    rw [← singleton_append, toolStarts_append, (toolDeltas_rest _ _).2.2]
    rfl

theorem lateEvents_text (ls : List LateStart)
    : sentText (ls.flatMap LateStart.events) = [] ∧ sentThinking (ls.flatMap LateStart.events) = [] := by
  induction ls with
  | nil => exact ⟨rfl, rfl⟩
  | cons l ls ih =>
    rw [flatMap_cons, sentText_append, sentThinking_append, ih.1, ih.2]
    unfold LateStart.events
    rw [← singleton_append, sentText_append, sentThinking_append, (toolDeltas_rest _ _).1,
      (toolDeltas_rest _ _).2.1]
    exact ⟨rfl, rfl⟩

theorem lateStart_json (l : LateStart) (i : UInt32)
    : sentJson (LateStart.events l) i = if l.index = i then l.pending else [] := by
  unfold LateStart.events
  rw [← singleton_append, sentJson_append, toolDeltas_json]
  split
  . split
    . next h =>
      rw [List.isEmpty_iff] at h
      rw [h]
      rfl
    . rfl
  . rfl

variable {ls : List LateStart}

theorem lateEvents_json_of_not_mem (h : i ∉ ls.map (·.index))
    : sentJson (ls.flatMap LateStart.events) i = [] := by
  induction ls with
  | nil => rfl
  | cons l ls ih =>
    rw [map_cons, mem_cons, not_or] at h
    rw [flatMap_cons, sentJson_append, lateStart_json, if_neg (Ne.symm h.1), ih h.2]
    rfl

theorem lateEvents_json (hnodup : (ls.map (·.index)).Nodup) (h : l ∈ ls)
    : sentJson (ls.flatMap LateStart.events) l.index = l.pending := by
  induction ls with
  | nil => contradiction
  | cons l' ls ih =>
    rw [map_cons, nodup_cons] at hnodup
    rw [flatMap_cons, sentJson_append, lateStart_json]
    cases mem_cons.mp h with
    | inl heq =>
      rw [heq, if_pos rfl, lateEvents_json_of_not_mem hnodup.1, append_nil]
    | inr hmem =>
      have hne : l'.index ≠ l.index := by
        intro heq
        apply hnodup.1
        rw [heq]
        exact mem_map_of_mem hmem
      rw [if_neg hne, ih hnodup.2 hmem]
      rfl

end State

def Action.text : Action → Str
  | nonToolDelta .text text => text
  | _ => []

def Action.thinking : Action → Str
  | nonToolDelta .thinking thinking => thinking
  | _ => []

def Action.calls : Action → List DeltaToolCall
  | toolCall call => [call]
  | _ => []

def Action.isFinish : Action → Bool
  | finish _ _ => true
  | _ => false

namespace State

variable {s : State}

theorem sentText_act (h : s.Typed) (a : Action)
    : sentText (s.act a).out = sentText s.out ++ a.text ∧
      sentThinking (s.act a).out = sentThinking s.out ++ a.thinking := by
  have hsilent {more : List Event} (hmore : Silent more)
      : sentText (s.out ++ more) = sentText s.out ++ [] ∧
        sentThinking (s.out ++ more) = sentThinking s.out ++ [] := by
    rw [sentText_append, sentThinking_append, hmore.text, hmore.thinking]
    exact ⟨rfl, rfl⟩
  cases a with
  | readHeader chunk => exact ⟨(append_nil _).symm, (append_nil _).symm⟩
  | startMessage usage =>
    obtain ⟨more, heq, hmore⟩ := s.startMessage_eq usage
    rw [act, heq]
    exact hsilent hmore
  | leaveNonToolBlock =>
    rw [act, leaveNonToolBlock_out]
    exact hsilent (silent_stops _)
  | done =>
    obtain ⟨more, heq, hmore⟩ := s.done_eq
    rw [act, heq]
    exact hsilent hmore
  | nonToolDelta type text =>
    obtain ⟨i, _, heq⟩ := nonToolDelta_eq h type text
    obtain ⟨more, hout, hmore⟩ := s.silent_enterNonToolBlock type
    rw [act, heq]
    unfold emit
    rw [hout, sentText_append, sentThinking_append, (hsilent hmore).1, (hsilent hmore).2, append_nil,
      append_nil]
    cases type <;> simp [sentText, sentThinking, Event.text, Event.thinking, NonToolBlock.delta, Action.text,
      Action.thinking]
  | toolCall call =>
    rw [act, toolCall_eq, callEvents]
    simp only [sentText_append, sentThinking_append, (toolDeltas_rest _ _).1, (toolDeltas_rest _ _).2.1]
    split <;> exact ⟨rfl, rfl⟩
  | finish reason usage =>
    unfold act finish
    dsimp only
    split
    . exact ⟨(append_nil _).symm, (append_nil _).symm⟩
    . rw [finishBlocks_eq]
      simp only [sentText_append, sentThinking_append, (lateEvents_text _).1, (lateEvents_text _).2,
        (silent_stops _).text, (silent_stops _).thinking]
      simp [Action.text, Action.thinking]

structure ToolOk (out : List Event) (finished : Bool) (r : ToolReading) (b : ToolBlockState) : Prop where
  id : b.id = r.id
  name : b.name = r.name
  alive : b.aborted = false
  spaces : b.consecutiveWhitespace = ToolBlockState.countWhitespace 0 r.args
  started : b.started = (r.named || (finished && r.hasPayload))
  sent : sentJson out b.anthropicIndex = if b.started then r.args else []
  pending : b.pendingArgs = if b.started then [] else r.args
  starts : (toolStarts out).count b.anthropicIndex = if b.started then 1 else 0

structure Carries (calls : List DeltaToolCall) (s : State) : Prop where
  tools : ∀ k b, s.toolBlocksByIndex.get? k = some b →
    ToolOk s.out s.hasEmittedMessageDelta (readTool calls k) b
  unseen : ∀ k, s.toolBlocksByIndex.get? k = none → readTool calls k = .empty
  owned : ∀ i ∈ toolStarts s.out, ∃ k b, s.toolBlocksByIndex.get? k = some b ∧ b.started = true ∧
    b.anthropicIndex = i
  fresh : ∀ i, ¬i < s.nextContentIndex → sentJson s.out i = []

theorem init_carries : Carries [] init := by
  constructor
  . intro k b hb
    contradiction
  . intro k _
    rfl
  . intro i hi
    contradiction
  . intro i _
    rfl

theorem Carries.frame {calls : List DeltaToolCall} {s' : State} (h : s.Carries calls) {more : List Event}
    (hout : s'.out = s.out ++ more) (hjson : ∀ i, sentJson more i = []) (hstarts : toolStarts more = [])
    (htools : s'.toolBlocksByIndex = s.toolBlocksByIndex)
    (hfinished : s'.hasEmittedMessageDelta = s.hasEmittedMessageDelta)
    (hnext : ∀ i, i < s.nextContentIndex → i < s'.nextContentIndex)
    : s'.Carries calls := by
  have hjson' (i : UInt32) : sentJson s'.out i = sentJson s.out i := by
    rw [hout, sentJson_append, hjson, append_nil]
  have hstarts' : toolStarts s'.out = toolStarts s.out := by
    rw [hout, toolStarts_append, hstarts, append_nil]
  constructor
  . intro k b hb
    rw [htools] at hb
    have hok := h.tools k b hb
    refine ⟨hok.id, hok.name, hok.alive, hok.spaces, ?_, ?_, hok.pending, ?_⟩
    . rw [hfinished]
      exact hok.started
    . rw [hjson']
      exact hok.sent
    . rw [hstarts']
      exact hok.starts
  . rw [htools]
    exact h.unseen
  . rw [hstarts', htools]
    exact h.owned
  . intro i hi
    rw [hjson']
    apply h.fresh
    intro hlt
    exact hi (hnext i hlt)

end State

end CcSwitch.Proxy.Streaming
