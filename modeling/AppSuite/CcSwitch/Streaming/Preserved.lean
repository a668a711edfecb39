import AppSuite.CcSwitch.Streaming.Carrying

/-!
This module contains the content of a whole stream.
-/

open CcSwitch.Proxy.Streaming.Action

namespace CcSwitch.Proxy.Streaming

open List StreamChoice Input

section Actions

variable (choice : StreamChoice) (usage : Option Usage)

theorem StreamChoice.actions_text
    : (choice.actions usage).flatMap text = choice.delta.content.getD [] := by
  have hcalls (calls : List DeltaToolCall) : (calls.map toolCall).flatMap text = [] := by
    simp [flatMap_map, text]
  have hcontent (content : Str) : (if content.isEmpty then [] else
      [nonToolDelta .text content]).flatMap text = content := by
    split
    . next hempty => exact (List.isEmpty_iff.mp hempty).symm
    . exact append_nil _
  obtain ⟨⟨content, reasoning, toolCalls⟩, finishReason⟩ := choice
  unfold actions
  simp only [flatMap_append, flatMap_cons]
  cases content <;> cases reasoning <;> cases toolCalls <;> cases finishReason <;>
    simp only [hcontent] <;> simp [text, hcalls]

theorem StreamChoice.actions_thinking
    : (choice.actions usage).flatMap thinking = choice.delta.reasoning.getD [] := by
  have hcalls (calls : List DeltaToolCall) : (calls.map toolCall).flatMap thinking = [] := by
    simp [flatMap_map, thinking]
  obtain ⟨⟨content, reasoning, toolCalls⟩, finishReason⟩ := choice
  unfold actions
  cases content <;> cases reasoning <;> cases toolCalls <;> cases finishReason <;>
    simp [thinking, hcalls]

theorem StreamChoice.actions_calls
    : (choice.actions usage).flatMap Action.calls = choice.delta.toolCalls.getD [] := by
  have hcalls (calls : List DeltaToolCall) : (calls.map Action.toolCall).flatMap Action.calls = calls := by
    simp [flatMap_map, Action.calls]
  obtain ⟨⟨content, reasoning, toolCalls⟩, finishReason⟩ := choice
  unfold actions
  cases content <;> cases reasoning <;> cases toolCalls <;> cases finishReason <;>
    simp [calls, hcalls]

def StreamChoice.contentActions : List Action :=
  .startMessage usage ::
    (match choice.delta.reasoning with
      | some reasoning => [.nonToolDelta .thinking reasoning]
      | none => []) ++
    (match choice.delta.content with
      | some content => if content.isEmpty then [] else [.nonToolDelta .text content]
      | none => []) ++
    (match choice.delta.toolCalls with
      | some calls => .leaveNonToolBlock :: calls.map .toolCall
      | none => [])

theorem StreamChoice.isFinish_contentActions : ∀ a ∈ choice.contentActions usage, a.isFinish = false := by
  obtain ⟨⟨content, reasoning, toolCalls⟩, finishReason⟩ := choice
  unfold contentActions
  intro a ha
  simp only [mem_append, mem_cons] at ha
  rcases ha with ((rfl | ha) | ha) | ha
  . rfl
  . cases reasoning with
    | none => contradiction
    | some reasoning =>
      rw [mem_singleton.mp ha]
      rfl
  . cases content with
    | none => contradiction
    | some content =>
      dsimp only at ha
      split at ha
      . contradiction
      . rw [mem_singleton.mp ha]
        rfl
  . cases toolCalls with
    | none => contradiction
    | some calls =>
      rcases mem_cons.mp ha with rfl | ha
      . rfl
      . obtain ⟨call, _, rfl⟩ := mem_map.mp ha
        rfl

theorem StreamChoice.actions_eq
    : choice.actions usage
      = choice.contentActions usage ++ choice.finishReason.toList.map fun reason => .finish reason usage := by
  unfold actions contentActions
  cases choice.finishReason <;> rfl

theorem StreamChoice.any_isFinish
    : (choice.actions usage).any isFinish = choice.finishReason.isSome := by
  have hcontent : (choice.contentActions usage).any isFinish = false := by
    rw [any_eq_false]
    intro a ha
    rw [choice.isFinish_contentActions usage a ha]
    exact Bool.false_ne_true
  rw [actions_eq, any_append, hcontent]
  cases choice.finishReason <;> rfl

theorem StreamChoice.actions_quiet
    : (choice.actions usage).Pairwise fun a b => a.isFinish = true → b.calls = [] := by
  rw [actions_eq, pairwise_append]
  refine ⟨?_, ?_, ?_⟩
  . apply pairwise_of_forall_mem_list
    intro a ha b _ hfinish
    rw [choice.isFinish_contentActions usage a ha] at hfinish
    contradiction
  . cases choice.finishReason with
    | none => exact List.Pairwise.nil
    | some reason => exact pairwise_singleton _ _
  . intro a ha b _ hfinish
    rw [choice.isFinish_contentActions usage a ha] at hfinish
    contradiction

end Actions

theorem Input.actions_eq (input : Input)
    : ∃ header usage, input.actions = header :: (input.choice?.elim [] fun choice => choice.actions usage) ∧
      header.text = [] ∧ header.thinking = [] ∧ header.calls = [] ∧ header.isFinish = false := by
  cases input with
  | done => exact ⟨_, none, rfl, rfl, rfl, rfl, rfl⟩
  | chunk c =>
    refine ⟨.readHeader c, c.usage, ?_, rfl, rfl, rfl, rfl⟩
    unfold actions choice?
    dsimp only
    cases c.choices.head? <;> rfl

theorem flatMap_filterMap {α β γ : Type} (f : α → Option β) (g : β → List γ) (xs : List α)
    : (xs.filterMap f).flatMap g = xs.flatMap fun x => (f x).elim [] g := by
  induction xs with
  | nil => rfl
  | cons x xs ih =>
    cases hx : f x with
    | none | some y => simp [hx, ih]

theorem flatMap_actions {γ : Type} {read : Action → List γ} {readChoice : StreamChoice → List γ}
    (hheader : ∀ a : Action, a.text = [] → a.thinking = [] → a.calls = [] → read a = [])
    (hchoice : ∀ choice usage, (actions choice usage).flatMap read = readChoice choice)
    (inputs : List Input)
    : (inputs.flatMap actions).flatMap read = (upstreamChoices inputs).flatMap readChoice := by
  unfold upstreamChoices
  rw [flatMap_filterMap, flatMap_assoc]
  congr 1
  funext input
  obtain ⟨header, usage, heq, htext, hthinking, hcalls, _⟩ := input.actions_eq
  rw [heq, flatMap_cons, hheader header htext hthinking hcalls, nil_append]
  cases input.choice? with
  | none => rfl
  | some choice => exact hchoice choice usage

theorem any_isFinish_actions (inputs : List Input)
    : (inputs.flatMap actions).any isFinish = finishes inputs := by
  unfold finishes upstreamChoices
  rw [any_flatMap, any_filterMap]
  congr 1
  funext input
  obtain ⟨header, usage, heq, _, _, _, hfinish⟩ := input.actions_eq
  rw [heq, any_cons, hfinish, Bool.false_or]
  cases input.choice? with
  | none => rfl
  | some choice => exact choice.any_isFinish usage

variable {inputs : List Input}

theorem QuietAfterFinish.actions (h : QuietAfterFinish inputs)
    : (inputs.flatMap actions).Pairwise fun a b => a.isFinish = true → b.calls = [] := by
  unfold QuietAfterFinish upstreamChoices at h
  rw [pairwise_filterMap] at h
  rw [pairwise_flatMap]
  constructor
  . intro input _
    obtain ⟨header, usage, heq, _, _, _, hfinish⟩ := input.actions_eq
    rw [heq, pairwise_cons]
    constructor
    . intro a _ hheader
      rw [hfinish] at hheader
      contradiction
    . cases input.choice? with
      | none => exact List.Pairwise.nil
      | some choice => exact choice.actions_quiet usage
  . apply h.imp
    intro input later hpair a ha b hb hfinish
    obtain ⟨header, usage, heq, _, _, _, hheader⟩ := input.actions_eq
    obtain ⟨header', usage', heq', _, _, hcalls', _⟩ := later.actions_eq
    rw [heq, mem_cons] at ha
    rw [heq', mem_cons] at hb
    rcases ha with rfl | ha
    . rw [hheader] at hfinish
      contradiction
    rcases hb with rfl | hb
    . exact hcalls'
    cases hchoice : input.choice? with
    | none =>
      rw [hchoice] at ha
      contradiction
    | some choice =>
      cases hchoice' : later.choice? with
      | none =>
        rw [hchoice'] at hb
        contradiction
      | some choice' =>
        rw [hchoice] at ha
        rw [hchoice'] at hb
        have hsome : choice.finishReason ≠ none := by
          rw [← Option.isSome_iff_ne_none, ← choice.any_isFinish usage]
          exact any_eq_true.mpr ⟨a, ha, hfinish⟩
        have hempty := (hpair choice hchoice choice' hchoice' hsome).2.2
        rw [← choice'.actions_calls usage', flatMap_eq_nil_iff] at hempty
        exact hempty b hb

namespace State

theorem silent_ending (inputs : List Input) (ending : Ending)
    : ∃ more, createAnthropicStream inputs ending
      = ((inputs.flatMap actions).foldl act .init).out ++ more ∧ Silent more := by
  cases ending with
  | ended => exact silent_close _
  | failed message => exact ⟨[.error message], rfl, silent_singleton trivial⟩

theorem Conveys.shown_iff {inputs : List Input} {s : State}
    (h : s.Conveys (inputs.flatMap actions))
    (hcalls : (inputs.flatMap actions).flatMap calls = upstreamCalls inputs) (k : Nat)
    : (s.toolBlock k).started = true ↔ Shown inputs k := by
  have hok := h.carries.toolBlock h.tracks k
  rw [hok.started, h.finished, hcalls, any_isFinish_actions, Bool.or_eq_true, Bool.and_eq_true]
  rfl

end State

open State in
theorem conveys_of_inputs
    (hindices : Run.Along act HasIndex .init (inputs.flatMap actions))
    (hquiet : QuietAfterFinish inputs) (hcut : NotCut (upstreamCalls inputs))
    : ((inputs.flatMap actions).foldl act .init).Conveys (inputs.flatMap actions) ∧
      (inputs.flatMap actions).flatMap calls = upstreamCalls inputs := by
  have hcalls : (inputs.flatMap actions).flatMap calls = upstreamCalls inputs :=
    flatMap_actions (fun _ _ _ h => h) actions_calls inputs
  refine ⟨?_, hcalls⟩
  apply init_conveys.run hindices hquiet.actions
  rw [hcalls]
  exact hcut

theorem createAnthropicStream_content (inputs : List Input) (ending : Ending)
    (hindices : Run.Along State.act State.HasIndex .init (inputs.flatMap actions))
    (hquiet : QuietAfterFinish inputs) (hcut : NotCut (upstreamCalls inputs))
    : sentText (createAnthropicStream inputs ending) = upstreamContent inputs ∧
      sentThinking (createAnthropicStream inputs ending) = upstreamReasoning inputs ∧
      ∃ block : Nat → UInt32,
        (∀ k, Shown inputs k →
          (toolStarts (createAnthropicStream inputs ending)).count (block k) = 1 ∧
          sentJson (createAnthropicStream inputs ending) (block k)
            = toolArguments (upstreamCalls inputs) k) ∧
        (∀ k k', Shown inputs k → Shown inputs k' → block k = block k' → k = k') ∧
        (∀ i ∈ toolStarts (createAnthropicStream inputs ending), ∃ k, Shown inputs k ∧ block k = i) := by
  obtain ⟨h, hcalls⟩ := conveys_of_inputs hindices hquiet hcut
  obtain ⟨more, hout, hmore⟩ := State.silent_ending inputs ending
  have hshown := h.shown_iff hcalls
  generalize (inputs.flatMap actions).foldl State.act .init = s at h hout hshown
  simp only [hout, sentText_append, sentThinking_append, sentJson_append, toolStarts_append, hmore.text,
    hmore.thinking, hmore.json, hmore.starts, append_nil]
  refine ⟨?_, ?_, fun k => (s.toolBlock k).anthropicIndex, ?_, ?_, ?_⟩
  . rw [h.text]
    exact flatMap_actions (fun _ h _ _ => h) actions_text inputs
  . rw [h.thinking]
    exact flatMap_actions (fun _ _ h _ => h) actions_thinking inputs
  . intro k hk
    have hok := h.carries.toolBlock h.tracks k
    rw [hok.starts, hok.sent, (hshown k).mpr hk, hcalls, readTool_args]
    exact ⟨rfl, rfl⟩
  . intro k k' hk hk' heq
    have hget := State.toolBlock_of_started ((hshown k).mpr hk)
    have hget' := State.toolBlock_of_started ((hshown k').mpr hk')
    exact h.tracks.blocks.apart k k' _ _ hget hget' heq
  . intro i hi
    obtain ⟨k, b, hb, hstarted, hindex⟩ := h.carries.owned i hi
    have hblock : s.toolBlock k = b := by
      unfold State.toolBlock
      rw [hb]
      rfl
    refine ⟨k, ?_, ?_⟩
    . rw [← hshown, hblock]
      exact hstarted
    . dsimp only
      rw [hblock]
      exact hindex

def interleavedTools : List Input :=
  [.chunk ⟨['c'], ['m'], [⟨⟨some ['h'], none,
      some [⟨0, some ['t'], some ⟨some ['f'], some ['1']⟩⟩, ⟨1, none, some ⟨none, some ['2']⟩⟩]⟩, none⟩], none⟩,
    .chunk ⟨['c'], ['m'], [⟨⟨none, some ['r'],
      some [⟨1, some ['u'], none⟩, ⟨0, none, some ⟨none, some ['3']⟩⟩]⟩, some ['s']⟩], none⟩,
    .done]

theorem createAnthropicStream_content_interleavedTools
    : sentText (createAnthropicStream interleavedTools .ended) = ['h'] ∧
      ∃ block : Nat → UInt32,
        sentJson (createAnthropicStream interleavedTools .ended) (block 0) = ['1', '3'] ∧
        sentJson (createAnthropicStream interleavedTools .ended) (block 1) = ['2'] := by
  have hindices : Run.Along State.act State.HasIndex .init (interleavedTools.flatMap actions) := by
    decide
  obtain ⟨htext, _, block, hblock, _, _⟩ := createAnthropicStream_content interleavedTools .ended hindices
    (by unfold QuietAfterFinish; decide) (by decide)
  exact ⟨htext, block, (hblock 0 (by decide)).2, (hblock 1 (by decide)).2⟩

def callChunk (call : DeltaToolCall) (finishReason : Option Str) : Input :=
  .chunk ⟨['c'], ['m'], [⟨⟨none, none, some [call]⟩, finishReason⟩], none⟩

def brokenOff : List Input := [callChunk ⟨0, none, some ⟨none, some ['1']⟩⟩ none]

def idTakenBack : List Input :=
  [callChunk ⟨0, some ['t'], none⟩ none, callChunk ⟨0, some [], none⟩ (some ['s']), .done]

theorem createAnthropicStream_tool_not_shown
    : (QuietAfterFinish brokenOff ∧ NotCut (upstreamCalls brokenOff) ∧
        toolArguments (upstreamCalls brokenOff) 0 = ['1'] ∧
        toolStarts (createAnthropicStream brokenOff .ended) = []) ∧
      QuietAfterFinish idTakenBack ∧ NotCut (upstreamCalls idTakenBack) ∧
        (upstreamCalls idTakenBack).head? = some ⟨0, some ['t'], none⟩ ∧
        toolStarts (createAnthropicStream idTakenBack .ended) = [] := by
  unfold QuietAfterFinish
  decide

end CcSwitch.Proxy.Streaming
