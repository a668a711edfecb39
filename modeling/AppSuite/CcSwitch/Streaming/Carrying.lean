import AppSuite.CcSwitch.Streaming.Content

/-!
This module contains what the actions do to the content of the tools.
-/

open CcSwitch.Proxy.Streaming.Action

namespace CcSwitch.Proxy.Streaming

open List ToolBlockState

namespace State

variable (b : ToolBlockState) (call : DeltaToolCall)

theorem callEvents_json (i : UInt32)
    : sentJson (callEvents b call) i
      = if b.anthropicIndex = i then
          (b.receive call).2.pendingAfterStart.getD [] ++ (b.receive call).2.immediateDelta.getD []
        else [] := by
  have hstart : sentJson (if b.starts call then
      [Event.contentBlockStart b.anthropicIndex (.toolUse (b.receive call).1.id (b.receive call).1.name)]
      else []) i = [] := by
    split <;> rfl
  unfold callEvents
  rw [sentJson_append, sentJson_append, hstart, toolDeltas_json, toolDeltas_json, nil_append]
  split <;> rfl

theorem callEvents_starts
    : toolStarts (callEvents b call) = if b.starts call then [b.anthropicIndex] else [] := by
  unfold callEvents
  rw [toolStarts_append, toolStarts_append, (toolDeltas_rest _ _).2.2, (toolDeltas_rest _ _).2.2,
    append_nil, append_nil]
  split <;> rfl

theorem get?_toolCall (s : State) (call : DeltaToolCall) (k : Nat)
    : (s.toolCall call).toolBlocksByIndex.get? k
      = if call.index = k then some ((s.toolBlock call.index).receive call).1
        else s.toolBlocksByIndex.get? k := by
  rw [toolCall_eq]
  unfold noteToolCall enterToolBlock
  rw [OrderedMap.get?_set]
  split
  . rfl
  . next hne =>
    split
    . rfl
    . exact OrderedMap.get?_set_ne _ _ hne

variable {s : State} {calls : List DeltaToolCall} {out : List Event} {r : ToolReading}
  {b : ToolBlockState}

theorem lt_enterToolBlock (k : Nat) (hindex : s.toolBlocksByIndex.has k = false → s.IndexLeft)
    (hi : i < s.nextContentIndex)
    : i < (s.enterToolBlock k).nextContentIndex := by
  unfold enterToolBlock
  split
  . exact hi
  . next hnew => exact (lt_add_one_iff (hindex (Bool.eq_false_iff.mpr hnew))).mpr (.inl hi)

theorem Carries.toolBlock (h : s.Carries calls) (htracks : s.Tracks) (k : Nat)
    : ToolOk s.out s.hasEmittedMessageDelta (readTool calls k) (s.toolBlock k) := by
  unfold State.toolBlock
  cases hk : s.toolBlocksByIndex.get? k with
  | some b => exact h.tools k b hk
  | none =>
    rw [h.unseen k hk, Option.getD_none]
    have hunused : s.nextContentIndex ∉ toolStarts s.out := by
      intro hmem
      exact absurd (htracks.blocks.used _ (toolStarts_subset _ _ hmem)) (UInt32.lt_irrefl _)
    refine ⟨rfl, rfl, rfl, rfl, ?_, ?_, rfl, ?_⟩
    . exact (Bool.and_false _).symm
    . exact h.fresh _ (UInt32.lt_irrefl _)
    . exact count_eq_zero_of_not_mem hunused

variable {call : DeltaToolCall} {more : List Event} {a : Action} {as : List Action}

theorem ToolOk.receive (h : ToolOk out false r b)
    (hcut : countWhitespace 0 (r.take call).args < infiniteWhitespaceThreshold)
    : ToolOk (out ++ callEvents b call) false (r.take call) (b.receive call).1 := by
  have hreceives := b.receive_receives call
  have hpending : b.started = true → b.pendingArgs = [] := by
    intro hstarted
    rw [h.pending, if_pos hstarted]
  have hspaces : countWhitespace b.consecutiveWhitespace call.args
      = countWhitespace 0 (r.take call).args := by
    rw [h.spaces]
    exact (countWhitespace_append 0 r.args call.args).symm
  have htakes := receive_takes h.alive hpending (by rw [hspaces]; exact hcut)
  have hstarted := h.started
  rw [Bool.false_and, Bool.or_false] at hstarted
  have hstarts : b.starts call
      = (!r.named && (!(r.take call).id.isEmpty && !(r.take call).name.isEmpty)) := by
    unfold ToolBlockState.starts ToolBlockState.shouldStart
    rw [h.alive, Bool.not_false, Bool.true_and, Bool.and_assoc]
    unfold ToolBlockState.rename
    rw [hstarted, h.id, h.name]
    rfl
  have hstarted' : (b.receive call).1.started = (r.take call).named := by
    rw [hreceives.started, hstarts, hstarted]
    show _ = (r.named || (!(r.take call).id.isEmpty && !(r.take call).name.isEmpty))
    cases r.named <;> simp
  have hargs := htakes.args
  constructor
  . rw [htakes.id, h.id]
    rfl
  . rw [htakes.name, h.name]
    rfl
  . exact htakes.alive
  . rw [htakes.spaces, hspaces]
  . rw [hstarted', Bool.false_and, Bool.or_false]
  . rw [sentJson_append, callEvents_json, hreceives.index, if_pos rfl, h.sent]
    cases hnew : (b.receive call).1.started with
    | true =>
      rw [htakes.pending hnew, append_nil, h.pending] at hargs
      rw [hargs, if_pos rfl]
      cases b.started <;> rfl
    | false =>
      obtain ⟨hold, hnone, hnone'⟩ := hreceives.quiet hnew
      rw [hnone, hnone', hold]
      rfl
  . cases hnew : (b.receive call).1.started with
    | true =>
      exact htakes.pending hnew
    | false =>
      obtain ⟨hold, hnone, hnone'⟩ := hreceives.quiet hnew
      rw [hnone, hnone', h.pending, hold] at hargs
      exact hargs
  . rw [toolStarts_append, count_append, callEvents_starts, hreceives.index, h.starts,
      hreceives.started]
    cases hcase : b.starts call with
    | true =>
      rw [starts_unstarted hcase]
      simp
    | false => simp

theorem ToolOk.frame (h : ToolOk out finished r b)
    (hjson : sentJson more b.anthropicIndex = []) (hstarts : b.anthropicIndex ∉ toolStarts more)
    : ToolOk (out ++ more) finished r b := by
  refine ⟨h.id, h.name, h.alive, h.spaces, h.started, ?_, h.pending, ?_⟩
  . rw [sentJson_append, hjson, append_nil]
    exact h.sent
  . rw [toolStarts_append, count_append, count_eq_zero_of_not_mem hstarts]
    exact h.starts

theorem Carries.toolCall (h : s.Carries calls) (htracks : s.Tracks) (hindex : s.HasIndex (.toolCall call))
    (hemitted : s.hasEmittedMessageDelta = false)
    (hcut : countWhitespace 0 (readTool (calls ++ [call]) call.index).args < infiniteWhitespaceThreshold)
    : (s.toolCall call).Carries (calls ++ [call]) := by
  have hreceives := (s.toolBlock call.index).receive_receives call
  have htracks' := htracks.toolCall hindex
  have heq := s.toolCall_eq call
  rw [noteToolCall_eq] at heq
  have hemitted' : (s.toolCall call).hasEmittedMessageDelta = s.hasEmittedMessageDelta := by rw [heq]
  have hout : (s.toolCall call).out = s.out ++ callEvents (s.toolBlock call.index) call := by rw [heq]
  have hnext : (s.toolCall call).nextContentIndex = (s.enterToolBlock call.index).nextContentIndex := by
    rw [heq]
    rfl
  have hget : (s.toolCall call).toolBlocksByIndex.get? call.index
      = some ((s.toolBlock call.index).receive call).1 := by
    rw [get?_toolCall, if_pos rfl]
  constructor
  . intro k b hb
    rw [hout, hemitted', hemitted]
    by_cases hk : call.index = k
    . subst hk
      rw [hget] at hb
      injection hb with hb
      have hok := h.toolBlock htracks call.index
      rw [hemitted] at hok
      rw [readTool_concat, if_pos rfl] at hcut ⊢
      rw [← hb]
      exact hok.receive hcut
    . have hapart : (s.toolBlock call.index).anthropicIndex ≠ b.anthropicIndex := by
        rw [← hreceives.index]
        intro heq
        exact hk (htracks'.blocks.apart _ _ _ _ hget hb heq)
      rw [get?_toolCall, if_neg hk] at hb
      have hok := h.tools k b hb
      rw [hemitted] at hok
      rw [readTool_concat, if_neg hk]
      apply hok.frame
      . rw [callEvents_json, if_neg hapart]
      . rw [callEvents_starts]
        split
        . rw [mem_singleton]
          exact hapart.symm
        . exact not_mem_nil
  . intro k hk
    rw [get?_toolCall] at hk
    split at hk
    . contradiction
    . next hne =>
      rw [readTool_concat, if_neg hne]
      exact h.unseen k hk
  . intro i hi
    rw [hout, toolStarts_append, mem_append] at hi
    rcases hi with hi | hi
    . obtain ⟨k, b, hb, hstarted, rfl⟩ := h.owned i hi
      by_cases hk : call.index = k
      . subst hk
        have hblock : s.toolBlock call.index = b := by
          unfold State.toolBlock
          rw [hb]
          rfl
        refine ⟨_, _, hget, ?_, ?_⟩
        . rw [hreceives.started, hblock, hstarted]
          rfl
        . rw [hreceives.index, hblock]
      . refine ⟨k, b, ?_, hstarted, rfl⟩
        rw [get?_toolCall, if_neg hk]
        exact hb
    . rw [callEvents_starts] at hi
      split at hi
      . next hstarts =>
        rw [mem_singleton] at hi
        refine ⟨_, _, hget, ?_, ?_⟩
        . rw [hreceives.started, hstarts]
          exact Bool.or_true _
        . rw [hi]
          exact hreceives.index
      . contradiction
  . intro i hi
    have hreserved := htracks'.blocks.reserved _ _ hget
    rw [hreceives.index] at hreserved
    rw [hout, sentJson_append, callEvents_json, if_neg, append_nil]
    . apply h.fresh
      intro hlt
      apply hi
      rw [hnext]
      exact lt_enterToolBlock call.index hindex hlt
    . rintro rfl
      exact hi hreserved

theorem Tracks.mem_lateIndices (h : s.Tracks) (hb : s.toolBlocksByIndex.get? k = some b)
    : b.anthropicIndex ∈ s.lateStarts.map (·.index) ↔ b.startsLate = true := by
  rw [mem_map]
  constructor
  . rintro ⟨l, hl, hindex⟩
    obtain ⟨k', b', hb', hlate, rfl⟩ := mem_lateStarts.mp hl
    have hk := h.blocks.apart k' k b' b hb' hb hindex
    rw [hk, hb] at hb'
    injection hb' with hb'
    rw [hb']
    exact hlate
  . intro hlate
    exact ⟨_, mem_lateStarts.mpr ⟨k, b, hb, hlate, rfl⟩, rfl⟩

theorem ToolOk.startsLate_eq (h : ToolOk out false r b) : b.startsLate = (!b.started && r.hasPayload) := by
  unfold startsLate hasPayload ToolReading.hasPayload
  rw [h.pending, h.id, h.name]
  cases b.started <;> rfl

theorem ToolOk.startLate (h : ToolOk out false r b) (hlate : b.startsLate = true)
    (hjson : sentJson more b.anthropicIndex = b.pendingArgs)
    (hstarts : (toolStarts more).count b.anthropicIndex = 1)
    : ToolOk (out ++ more) true r { b with started := true, pendingArgs := [] } := by
  rw [h.startsLate_eq, Bool.and_eq_true, Bool.not_eq_true'] at hlate
  refine ⟨h.id, h.name, h.alive, h.spaces, ?_, ?_, rfl, ?_⟩
  . rw [hlate.2]
    exact (Bool.or_true _).symm
  . rw [sentJson_append, hjson, h.sent, h.pending, hlate.1]
    rfl
  . rw [toolStarts_append, count_append, hstarts, h.starts, hlate.1]
    rfl

theorem ToolOk.finish (h : ToolOk out false r b) (hlate : b.startsLate = false) : ToolOk out true r b := by
  refine ⟨h.id, h.name, h.alive, h.spaces, ?_, h.sent, h.pending, h.starts⟩
  have hstarted := h.started
  rw [h.startsLate_eq] at hlate
  rw [hstarted] at hlate ⊢
  revert hlate
  cases r.named <;> cases r.hasPayload <;> decide

theorem Carries.finish (h : s.Carries calls) (htracks : s.Tracks) (reason : Str) (usage : Option Usage)
    : (s.finish reason usage).Carries calls := by
  unfold State.finish
  split
  . exact ⟨h.tools, h.unseen, h.owned, h.fresh⟩
  . next hemitted =>
    rw [Bool.not_eq_true] at hemitted
    have heq := s.finishBlocks_eq
    generalize s.leaveNonToolBlock.startLateToolBlocks.stopToolBlocks = s' at heq
    generalize hlates : s.lateStarts.flatMap LateStart.events = lates at heq
    have hget (k : Nat)
        : s'.toolBlocksByIndex.get? k
          = (s.toolBlocksByIndex.get? k).map fun b =>
              if b.startsLate then { b with started := true, pendingArgs := [] } else b := by
      rw [heq]
      exact OrderedMap.get?_mapValues ..
    have hjson (i : UInt32) : sentJson s'.out i = sentJson (s.out ++ lates) i := by
      rw [heq]
      simp only [sentJson_append, (silent_stops _).json, append_nil]
    have hstarts : toolStarts s'.out = toolStarts (s.out ++ lates) := by
      rw [heq]
      simp only [toolStarts_append, (silent_stops _).starts, append_nil]
    have hlateStarts : toolStarts lates = s.lateStarts.map (·.index) := by
      rw [← hlates]
      exact lateEvents_starts _
    constructor
    . intro k b' hb'
      rw [hget, Option.map_eq_some_iff] at hb'
      obtain ⟨b, hb, rfl⟩ := hb'
      have hok := h.tools k b hb
      rw [hemitted] at hok
      suffices hlate : ToolOk (s.out ++ lates) true (readTool calls k)
          (if b.startsLate then { b with started := true, pendingArgs := [] } else b) by
        refine ⟨hlate.id, hlate.name, hlate.alive, hlate.spaces, hlate.started, ?_, hlate.pending, ?_⟩
        . rw [hjson]
          exact hlate.sent
        . rw [hstarts]
          exact hlate.starts
      have hmem := htracks.mem_lateIndices hb
      split
      . next hlate =>
        apply hok.startLate hlate
        . rw [← hlates]
          exact lateEvents_json htracks.lateStarts_nodup (mem_lateStarts.mpr ⟨k, b, hb, hlate, rfl⟩)
        . rw [hlateStarts]
          exact count_eq_one_of_mem htracks.lateStarts_nodup (hmem.mpr hlate)
      . next hlate =>
        rw [← hmem] at hlate
        apply ToolOk.frame
        . apply hok.finish
          rw [← Bool.not_eq_true, ← hmem]
          exact hlate
        . rw [← hlates]
          exact lateEvents_json_of_not_mem hlate
        . rw [hlateStarts]
          exact hlate
    . intro k hk
      rw [hget, Option.map_eq_none_iff] at hk
      exact h.unseen k hk
    . intro i hi
      rw [hstarts, toolStarts_append, mem_append, hlateStarts] at hi
      suffices hown : ∃ k b, s.toolBlocksByIndex.get? k = some b ∧ (b.started = true ∨ b.startsLate = true) ∧
          b.anthropicIndex = i by
        obtain ⟨k, b, hb, hshown, rfl⟩ := hown
        refine ⟨k, if b.startsLate then { b with started := true, pendingArgs := [] } else b, ?_, ?_, ?_⟩
        . rw [hget, hb]
          rfl
        . split
          . rfl
          . next hlate => exact hshown.resolve_right hlate
        . split <;> rfl
      rcases hi with hi | hi
      . obtain ⟨k, b, hb, hstarted, heq⟩ := h.owned i hi
        exact ⟨k, b, hb, .inl hstarted, heq⟩
      . obtain ⟨l, hl, rfl⟩ := mem_map.mp hi
        obtain ⟨k, b, hb, hlate, rfl⟩ := mem_lateStarts.mp hl
        exact ⟨k, b, hb, .inr hlate, rfl⟩
    . intro i hi
      rw [heq] at hi
      rw [hjson, sentJson_append, h.fresh i hi, ← hlates, nil_append]
      apply lateEvents_json_of_not_mem
      intro hmem
      obtain ⟨l, hl, rfl⟩ := mem_map.mp hmem
      obtain ⟨k, b, hb, _, rfl⟩ := mem_lateStarts.mp hl
      exact hi (htracks.blocks.reserved k b hb)

theorem frame_enterNonToolBlock {text : Str} (hindex : s.HasIndex (.nonToolDelta type text))
    : (s.enterNonToolBlock type).toolBlocksByIndex = s.toolBlocksByIndex ∧
      (s.enterNonToolBlock type).hasEmittedMessageDelta = s.hasEmittedMessageDelta ∧
      ∀ i, i < s.nextContentIndex → i < (s.enterNonToolBlock type).nextContentIndex := by
  by_cases htype : s.currentNonToolBlockType = some type
  . rw [enterNonToolBlock, if_pos htype]
    exact ⟨rfl, rfl, fun _ => id⟩
  . rcases s.enterNonToolBlock_eq type with heq | heq <;> rw [heq]
    . exact ⟨rfl, rfl, fun _ => id⟩
    . exact ⟨rfl, rfl, fun _ hi => (lt_add_one_iff (hindex htype)).mpr (.inl hi)⟩

theorem hasEmittedMessageDelta_act (htyped : s.Typed) (hindex : s.HasIndex a)
    : (s.act a).hasEmittedMessageDelta = (s.hasEmittedMessageDelta || a.isFinish) := by
  cases a with
  | readHeader chunk => exact (Bool.or_false _).symm
  | startMessage usage =>
    obtain ⟨more, heq, _⟩ := s.startMessage_eq usage
    rw [act, heq]
    exact (Bool.or_false _).symm
  | nonToolDelta type text =>
    obtain ⟨i, _, heq⟩ := nonToolDelta_eq htyped type text
    rw [act, heq]
    exact (frame_enterNonToolBlock hindex).2.1.trans (Bool.or_false _).symm
  | leaveNonToolBlock =>
    unfold act leaveNonToolBlock
    rw [takeNonToolBlock_eq]
    exact (Bool.or_false _).symm
  | toolCall call =>
    rw [act, toolCall_eq, noteToolCall_eq]
    exact (Bool.or_false _).symm
  | finish reason usage =>
    unfold act State.finish
    dsimp only
    split
    . next hemitted =>
      rw [hemitted]
      rfl
    . exact (Bool.or_true _).symm
  | done =>
    obtain ⟨more, heq, _⟩ := s.done_eq
    rw [act, heq]
    exact (Bool.or_false _).symm

theorem Carries.of_quiet (ha : a.calls = []) (h : s.Carries calls) : s.Carries (calls ++ a.calls) := by
  rw [ha, append_nil]
  exact h

theorem Carries.act (h : s.Carries calls) (htracks : s.Tracks) (htyped : s.Typed) (hindex : s.HasIndex a)
    (hquiet : s.hasEmittedMessageDelta = true → a.calls = []) (hcut : NotCutAfter calls a.calls)
    : (s.act a).Carries (calls ++ a.calls) := by
  cases a with
  | toolCall call =>
    apply h.toolCall htracks hindex _ hcut.1
    rw [← Bool.not_eq_true]
    intro hemitted
    exact absurd (hquiet hemitted) (cons_ne_nil _ _)
  | finish reason usage =>
    apply Carries.of_quiet rfl
    exact h.finish htracks reason usage
  | readHeader chunk =>
    apply Carries.of_quiet rfl
    exact ⟨h.tools, h.unseen, h.owned, h.fresh⟩
  | startMessage usage =>
    apply Carries.of_quiet rfl
    obtain ⟨more, heq, hmore⟩ := s.startMessage_eq usage
    rw [State.act, heq]
    exact h.frame rfl hmore.json hmore.starts rfl rfl fun _ => id
  | leaveNonToolBlock =>
    apply Carries.of_quiet rfl
    unfold State.act leaveNonToolBlock
    rw [takeNonToolBlock_eq]
    exact h.frame rfl (silent_stops _).json (silent_stops _).starts rfl rfl fun _ => id
  | nonToolDelta type text =>
    apply Carries.of_quiet rfl
    obtain ⟨i, _, heq⟩ := nonToolDelta_eq htyped type text
    obtain ⟨more, hout, hmore⟩ := s.silent_enterNonToolBlock type
    obtain ⟨htools, hemitted, hnext⟩ := frame_enterNonToolBlock hindex
    rw [State.act, heq]
    have hout' : ((s.enterNonToolBlock type).emit (.contentBlockDelta i (type.delta text))).out
        = s.out ++ (more ++ [.contentBlockDelta i (type.delta text)]) := by
      unfold emit
      rw [hout, List.append_assoc]
    apply h.frame hout' _ _ htools hemitted hnext
    . intro j
      rw [sentJson_append, hmore.json]
      cases type <;> rfl
    . rw [toolStarts_append, hmore.starts]
      rfl
  | done =>
    apply Carries.of_quiet rfl
    obtain ⟨more, heq, hmore⟩ := s.done_eq
    rw [State.act, heq]
    exact h.frame rfl hmore.json hmore.starts rfl rfl fun _ => id

structure Conveys (as : List Action) (s : State) : Prop where
  tracks : s.Tracks
  typed : s.Typed
  text : sentText s.out = as.flatMap text
  thinking : sentThinking s.out = as.flatMap thinking
  finished : s.hasEmittedMessageDelta = as.any isFinish
  carries : s.Carries (as.flatMap Action.calls)

theorem init_conveys : init.Conveys [] := by
  exact ⟨init_inv.tracks, init_inv.typed, rfl, rfl, rfl, init_carries⟩

theorem Conveys.act (h : s.Conveys as) (hindex : s.HasIndex a)
    (hquiet : as.any isFinish = true → a.calls = [])
    (hcut : NotCutAfter (as.flatMap Action.calls) a.calls)
    : (s.act a).Conveys (as ++ [a]) := by
  obtain ⟨htext, hthinking⟩ := sentText_act h.typed a
  rw [← h.finished] at hquiet
  constructor
  . exact h.tracks.act h.typed hindex
  . exact h.typed.act a
  . rw [htext, h.text, flatMap_append, flatMap_singleton]
  . rw [hthinking, h.thinking, flatMap_append, flatMap_singleton]
  . rw [hasEmittedMessageDelta_act h.typed hindex, h.finished, any_append]
    simp
  . rw [flatMap_append, flatMap_singleton]
    exact h.carries.act h.tracks h.typed hindex hquiet hcut

theorem Conveys.run (h : s.Conveys as)
    (hindices : Run.Along State.act HasIndex s bs)
    (hquiet : (as ++ bs).Pairwise fun a b => a.isFinish = true → b.calls = [])
    (hcut : NotCutAfter (as.flatMap Action.calls) (bs.flatMap Action.calls))
    : (bs.foldl State.act s).Conveys (as ++ bs) := by
  induction bs generalizing as s with
  | nil =>
    rw [append_nil]
    exact h
  | cons b bs ih =>
    rw [NotCutAfter, flatMap_cons, Run.along_append, Run.foldl_concat] at hcut
    have hfirst : as.any isFinish = true → b.calls = [] := by
      intro hany
      obtain ⟨a, ha, hfinish⟩ := any_eq_true.mp hany
      exact (pairwise_append.mp hquiet).2.2 a ha b (mem_cons_self) hfinish
    rw [append_cons] at hquiet ⊢
    apply ih (h.act hindices.1 hfirst hcut.1) hindices.2 hquiet
    rw [flatMap_append, flatMap_singleton]
    exact hcut.2

end State

end CcSwitch.Proxy.Streaming
