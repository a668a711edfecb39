import AppSuite.CcSwitch.Streaming.Sending

/-!
This module contains when the conversion sends a well-formed stream of events.
-/

namespace CcSwitch.Proxy.Streaming

open List

namespace State

variable {s : State}

theorem Tracks.readHeader (h : s.Tracks) (chunk : OpenAIStreamChunk) : (s.readHeader chunk).Tracks := by
  refine ⟨⟨h.flags.messageStart, h.flags.messageStop, ?_, ?_⟩, h.blocks⟩
  . intro hsent
    obtain ⟨hstop, hemitted, hpending⟩ := h.flags.messageDelta hsent
    refine ⟨hstop, hemitted, ?_⟩
    unfold State.readHeader
    rw [hpending]
    rfl
  . intro hpending
    apply h.flags.pending
    intro hnone
    apply hpending
    unfold State.readHeader
    rw [hnone]
    rfl

theorem Tracks.startMessage (h : s.Tracks) (usage : Option Usage) : (s.startMessage usage).Tracks := by
  unfold State.startMessage
  split
  . exact h
  . refine ⟨h.flags.start _ _ _, ?_⟩
    unfold emit
    rw [openBlocks_concat, startedBlocks_concat, append_nil]
    exact h.blocks

theorem Tracks.finish (h : s.Tracks) (reason : Str) (usage : Option Usage)
    : (s.finish reason usage).Tracks := by
  unfold State.finish
  split
  . next hemitted =>
    refine ⟨⟨h.flags.messageStart, h.flags.messageStop, ?_, fun _ => hemitted⟩, h.blocks⟩
    intro hsent
    obtain ⟨hstop, _, hpending⟩ := h.flags.messageDelta hsent
    refine ⟨hstop, hemitted, ?_⟩
    rw [hpending]
    rfl
  . next hemitted =>
    have hend := h.leaveNonToolBlock.startLateToolBlocks.stopToolBlocks
    refine ⟨⟨hend.flags.messageStart, hend.flags.messageStop, ?_, fun _ => rfl⟩, hend.blocks⟩
    intro hsent
    exfalso
    apply hemitted
    have hflag := (hend.flags.messageDelta hsent).2.1
    rwa [finishBlocks_eq] at hflag

theorem Tracks.sentMessageDelta_of_pending (h : s.Tracks) (hpending : s.pendingMessageDelta ≠ none)
    : sentMessageDelta s.out = false := by
  rw [← Bool.not_eq_true]
  intro hsent
  exact hpending (h.flags.messageDelta hsent).2.2

theorem Tracks.done (h : s.Tracks) : s.done.Tracks := by
  unfold State.done State.sendMessageDelta
  split
  . next stopReason usage hpending =>
    have hsome : s.pendingMessageDelta ≠ none := by
      rw [hpending]
      exact Option.some_ne_none _
    refine ⟨h.flags.complete hsome _ _, ?_⟩
    unfold emit buildMessageDeltaEvent
    rw [openBlocks_concat, openBlocks_concat, startedBlocks_concat, startedBlocks_concat, append_nil,
      append_nil]
    exact h.blocks
  . next hpending =>
    have hflags := h.flags
    rw [hpending] at hflags
    constructor
    . unfold emit
      rw [hpending]
      exact hflags.stop
    . unfold emit
      rw [openBlocks_concat, startedBlocks_concat, append_nil]
      exact h.blocks

theorem Tracks.act (h : s.Tracks) (htyped : s.Typed) (hindex : s.HasIndex a)
    : (s.act a).Tracks := by
  cases a with
  | readHeader chunk => exact h.readHeader chunk
  | startMessage usage => exact h.startMessage usage
  | leaveNonToolBlock => exact h.leaveNonToolBlock
  | toolCall call => exact h.toolCall hindex
  | finish reason usage => exact h.finish reason usage
  | done => exact h.done
  | nonToolDelta type text =>
    obtain ⟨i, _, heq⟩ := nonToolDelta_eq htyped type text
    rw [State.act, heq]
    exact (h.enterNonToolBlock hindex).emit_delta i (type.delta text)

theorem Typed.act (h : s.Typed) (a : Action) : (s.act a).Typed := by
  cases a with
  | readHeader chunk => exact h
  | startMessage usage =>
    obtain ⟨more, heq, _⟩ := s.startMessage_eq usage
    rw [State.act, heq]
    exact h
  | nonToolDelta type text =>
    obtain ⟨i, hi, heq⟩ := nonToolDelta_eq h type text
    rw [State.act, heq]
    intro _ hnone
    change (s.enterNonToolBlock type).currentNonToolBlockIndex = none at hnone
    rw [hi] at hnone
    contradiction
  | leaveNonToolBlock =>
    intro htype
    exact absurd rfl htype
  | toolCall call =>
    rw [State.act, toolCall_eq, noteToolCall_eq]
    exact h
  | done =>
    obtain ⟨more, heq, _⟩ := s.done_eq
    rw [State.act, heq]
    exact h
  | finish reason usage =>
    unfold State.act State.finish
    dsimp only
    split
    . exact h
    . rw [finishBlocks_eq]
      intro htype
      exact absurd rfl htype

end State

theorem wellFormed_stopped_iff (h : WellFormed out)
    (hstop : sentMessageStop out = true)
    : WellFormed (out ++ more) ↔ more = [] := by
  constructor
  . intro hwf
    by_contra hne
    exact not_wellFormed_of_stopped hstop hne hwf
  . rintro rfl
    rw [append_nil]
    exact h

namespace State

def NothingOpen (s : State) : Prop :=
  s.currentNonToolBlockIndex = none ∧ s.openToolBlockIndices.elems = []

instance (s : State) : Decidable s.NothingOpen := by
  unfold NothingOpen
  infer_instance

def Harmless (s : State) (a : Action) : Prop :=
  match a with
  | .readHeader _ => True
  | .startMessage _ => s.hasSentMessageStop = true → s.hasSentMessageStart = true
  | .nonToolDelta _ _ => s.hasSentMessageStop = false
  | .leaveNonToolBlock => s.hasSentMessageStop = true → s.currentNonToolBlockIndex = none
  | .toolCall call =>
    (s.hasSentMessageStop = true →
      (s.toolBlock call.index).starts call = false ∧ (s.toolBlock call.index).forwards call = false) ∧
    ((s.toolBlock call.index).forwards call = true → (s.toolBlock call.index).started = true →
      (s.toolBlock call.index).anthropicIndex ∈ s.openToolBlockIndices.elems)
  | .finish _ _ =>
    s.hasSentMessageStop = true →
      s.hasEmittedMessageDelta = true ∨
        (s.NothingOpen ∧ ∀ b ∈ s.toolBlocksByIndex.values, b.startsLate = false)
  | .done => s.hasSentMessageStop = false ∧ s.NothingOpen

instance (s : State) (a : Action) : Decidable (s.Harmless a) := by
  cases a <;> unfold Harmless <;> infer_instance

structure Inv (s : State) : Prop where
  tracks : s.Tracks
  typed : s.Typed
  wellFormed : WellFormed s.out

variable {s : State}

theorem Inv.stopped_iff (h : s.Inv) (hstop : s.hasSentMessageStop = true)
    : WellFormed (s.out ++ more) ↔ more = [] := by
  apply wellFormed_stopped_iff h.wellFormed
  rw [h.tracks.flags.messageStop]
  exact hstop

theorem Inv.running (h : s.Inv) (hstart : s.hasSentMessageStart = true)
    (hstop : s.hasSentMessageStop = false)
    : Running s.out := by
  refine ⟨h.wellFormed, h.tracks.flags.messageStart.trans hstart, ?_, h.tracks.flags.messageStop.trans hstop⟩
  rw [← Bool.not_eq_true]
  intro hsent
  rw [(h.tracks.flags.messageDelta hsent).1] at hstop
  contradiction

theorem startMessage_iff (h : s.Inv) (usage : Option Usage)
    : WellFormed (s.startMessage usage).out ↔ s.Harmless (.startMessage usage) := by
  unfold startMessage Harmless
  split
  . next hstart => simp [h.wellFormed, hstart]
  . next hstart =>
    unfold emit
    rw [wellFormed_concat]
    unfold Allowed
    rw [h.tracks.flags.messageStart, h.tracks.flags.messageStop]
    simp [h.wellFormed, hstart]

theorem enterNonToolBlock_out (s : State) (type : NonToolBlock)
    : ∃ more, (s.enterNonToolBlock type).out = s.out ++ more := by
  rcases s.enterNonToolBlock_eq type with heq | heq <;> rw [heq]
  . exact ⟨[], (append_nil _).symm⟩
  . exact ⟨_, rfl⟩

theorem nonToolDelta_iff (h : s.Inv) (hindex : s.HasIndex (.nonToolDelta type text))
    (hstart : s.hasSentMessageStart = true)
    : WellFormed (s.nonToolDelta type text).out ↔ s.Harmless (.nonToolDelta type text) := by
  obtain ⟨i, hi, heq⟩ := nonToolDelta_eq h.typed type text
  rw [heq]
  cases hstop : s.hasSentMessageStop with
  | true =>
    obtain ⟨more, hout⟩ := s.enterNonToolBlock_out type
    unfold emit Harmless
    rw [hout, append_assoc, h.stopped_iff hstop, hstop]
    simp
  | false =>
    have hrun := (h.running hstart hstop).enterNonToolBlock h.tracks type
    have hopen := ((h.tracks.enterNonToolBlock hindex).blocks.blocks i).mpr (.inl hi)
    exact iff_of_true (hrun.delta hopen _).wellFormed hstop

theorem leaveNonToolBlock_iff (h : s.Inv) (hstart : s.hasSentMessageStart = true)
    : WellFormed s.leaveNonToolBlock.out ↔ s.Harmless .leaveNonToolBlock := by
  unfold Harmless
  cases hstop : s.hasSentMessageStop with
  | true =>
    rw [leaveNonToolBlock_out, h.stopped_iff hstop]
    cases s.currentNonToolBlockIndex <;> simp
  | false =>
    have hrun := (h.running hstart hstop).takeNonToolBlock h.tracks
    exact iff_of_true hrun.wellFormed (fun hcontra => Bool.noConfusion hcontra)

theorem toolBlock_of_started (h : (s.toolBlock k).started = true)
    : s.toolBlocksByIndex.get? k = some (s.toolBlock k) := by
  unfold toolBlock at *
  cases hk : s.toolBlocksByIndex.get? k with
  | some b => rfl
  | none =>
    rw [hk] at h
    contradiction

theorem starts_of_started {b : ToolBlockState} (call : DeltaToolCall) (h : b.started = true)
    : b.starts call = false := by
  rw [← Bool.not_eq_true]
  intro hstarts
  rw [ToolBlockState.starts_unstarted hstarts] at h
  contradiction

theorem toolDeltas_eq_nil_iff : toolDeltas i args = [] ↔ args = none := by
  unfold toolDeltas
  cases args <;> simp

theorem Tracks.toolBlock_unused (h : s.Tracks) (hstarted : (s.toolBlock k).started = false)
    : (s.toolBlock k).anthropicIndex ∉ startedBlocks s.out := by
  unfold toolBlock at *
  cases hk : s.toolBlocksByIndex.get? k with
  | some b =>
    rw [hk] at hstarted
    exact h.blocks.unstarted k b hk hstarted
  | none =>
    intro hmem
    exact absurd (h.blocks.used _ hmem) (UInt32.lt_irrefl _)

theorem Tracks.toolCall_iff (h : s.Tracks) (hrun : Running s.out) (call : DeltaToolCall)
    : WellFormed (s.toolCall call).out ↔
      ((s.toolBlock call.index).forwards call = true → (s.toolBlock call.index).started = true →
        (s.toolBlock call.index).anthropicIndex ∈ s.openToolBlockIndices.elems) := by
  constructor
  . intro hwf hforwards hstarted
    have hreceives := (s.toolBlock call.index).receive_receives call
    have hstarts := starts_of_started call hstarted
    obtain ⟨args, hargs⟩ : ∃ args, ((s.toolBlock call.index).receive call).2.immediateDelta = some args := by
      apply Option.isSome_iff_exists.mp
      rw [hreceives.forward]
      exact hforwards
    rw [toolCall_eq, callEvents, hstarts, hreceives.pending hstarts, hargs, if_neg Bool.false_ne_true] at hwf
    have hallowed := (wellFormed_concat.mp hwf).2
    obtain hcurrent | hopen := (h.blocks.blocks _).mp hallowed.2.2
    . exact absurd hcurrent (h.blocks.separate _ _ (toolBlock_of_started hstarted))
    . exact hopen
  . intro hopen
    rw [toolCall_eq]
    apply (hrun.callEvents h.toolBlock_unused _).wellFormed
    intro hforwards hstarted
    exact (h.blocks.blocks _).mpr (.inr (hopen hforwards hstarted))

theorem toolCall_out_eq_iff (s : State) (call : DeltaToolCall)
    : ∃ more, (s.toolCall call).out = s.out ++ more ∧
      (more = [] ↔ (s.toolBlock call.index).starts call = false ∧
        (s.toolBlock call.index).forwards call = false) := by
  have hreceives := (s.toolBlock call.index).receive_receives call
  rw [toolCall_eq]
  refine ⟨_, rfl, ?_⟩
  unfold callEvents
  cases hstarts : (s.toolBlock call.index).starts call with
  | true => simp
  | false =>
    rw [hreceives.pending hstarts, ← hreceives.forward, if_neg Bool.false_ne_true, nil_append,
      append_eq_nil_iff, toolDeltas_eq_nil_iff, toolDeltas_eq_nil_iff]
    simp

theorem toolCall_iff (h : s.Inv) (hstart : s.hasSentMessageStart = true)
    (call : DeltaToolCall)
    : WellFormed (s.toolCall call).out ↔ s.Harmless (.toolCall call) := by
  unfold Harmless
  cases hstop : s.hasSentMessageStop with
  | false =>
    rw [h.tracks.toolCall_iff (h.running hstart hstop)]
    simp
  | true =>
    obtain ⟨more, hout, hmore⟩ := s.toolCall_out_eq_iff call
    rw [hout, h.stopped_iff hstop, hmore]
    constructor
    . intro hsilent
      refine ⟨fun _ => hsilent, ?_⟩
      intro hforwards
      rw [hsilent.2] at hforwards
      contradiction
    . intro hharmless
      exact hharmless.1 rfl

theorem lateStarts_eq_nil_iff
    : s.lateStarts = [] ↔ ∀ b ∈ s.toolBlocksByIndex.values, b.startsLate = false := by
  rw [eq_nil_iff_forall_not_mem]
  constructor
  . intro hnone b hb
    obtain ⟨k, hk⟩ := OrderedMap.mem_values_iff.mp hb
    rw [← Bool.not_eq_true]
    intro hlate
    exact hnone _ (mem_lateStarts.mpr ⟨k, b, hk, hlate, rfl⟩)
  . intro hnone l hl
    obtain ⟨k, b, hb, hlate, _⟩ := mem_lateStarts.mp hl
    rw [hnone b (OrderedMap.mem_values_iff.mpr ⟨k, hb⟩)] at hlate
    contradiction

theorem finishBlocks_out_eq_iff (s : State)
    : ∃ more, s.leaveNonToolBlock.startLateToolBlocks.stopToolBlocks.out = s.out ++ more ∧
      (more = [] ↔ s.NothingOpen ∧ ∀ b ∈ s.toolBlocksByIndex.values, b.startsLate = false) := by
  rw [finishBlocks_eq, append_assoc, append_assoc]
  refine ⟨_, rfl, ?_⟩
  rw [append_eq_nil_iff, append_eq_nil_iff, ← lateStarts_eq_nil_iff]
  unfold NothingOpen lateTools
  by_cases hnone : s.lateStarts = []
  . have hsorted : s.openToolBlockIndices.elems.insertionSort (· ≤ ·) = [] ↔ s.openToolBlockIndices.elems = [] := by
      rw [← length_eq_zero_iff, length_insertionSort, length_eq_zero_iff]
    rw [hnone, foldl_nil, map_eq_nil_iff, map_eq_nil_iff, hsorted, Option.toList_eq_nil_iff]
    simp
  . have hsome : s.lateStarts.flatMap LateStart.events ≠ [] := by
      intro hnil
      rw [flatMap_eq_nil_iff] at hnil
      obtain ⟨l, hl⟩ := exists_mem_of_ne_nil _ hnone
      have := hnil l hl
      contradiction
    simp [hsome, hnone]

theorem finish_iff (h : s.Inv) (hstart : s.hasSentMessageStart = true) (reason : Str) (usage : Option Usage)
    : WellFormed (s.finish reason usage).out ↔ s.Harmless (.finish reason usage) := by
  unfold finish Harmless
  by_cases hemitted : s.hasEmittedMessageDelta = true
  . rw [if_pos hemitted]
    exact iff_of_true h.wellFormed (fun _ => .inl hemitted)
  . rw [if_neg hemitted]
    cases hstop : s.hasSentMessageStop with
    | false =>
      have htracks := h.tracks.leaveNonToolBlock
      have hrun : Running s.leaveNonToolBlock.out := (h.running hstart hstop).takeNonToolBlock h.tracks
      have hend := (hrun.startLateToolBlocks htracks).stopToolBlocks htracks.startLateToolBlocks
      exact iff_of_true hend.wellFormed (fun hcontra => Bool.noConfusion hcontra)
    | true =>
      obtain ⟨more, hout, hmore⟩ := s.finishBlocks_out_eq_iff
      rw [hout, h.stopped_iff hstop, hmore]
      simp [hemitted]

theorem complete_iff (h : s.Inv)
    : WellFormed (s.sendMessageDelta.emit .messageStop).out ↔ s.hasSentMessageStop = false ∧ s.NothingOpen := by
  have hopen := h.tracks.openBlocks_eq_nil_iff
  unfold sendMessageDelta
  split
  . next stopReason usage hpending =>
    have hdelta : sentMessageDelta s.out = false := by
      apply h.tracks.sentMessageDelta_of_pending
      rw [hpending]
      exact Option.some_ne_none _
    unfold emit buildMessageDeltaEvent NothingOpen
    rw [wellFormed_concat, wellFormed_concat, ← hopen, ← h.tracks.flags.messageStop]
    unfold Allowed
    simp [h.wellFormed, hdelta, openAfter, Event.isMessageStop]
  . unfold emit NothingOpen
    rw [wellFormed_concat, ← hopen, ← h.tracks.flags.messageStop]
    unfold Allowed
    simp [h.wellFormed]

theorem done_iff (h : s.Inv) : WellFormed s.done.out ↔ s.Harmless .done := by
  exact complete_iff h

def EndsHarmlessly (s : State) : Prop :=
  s.pendingMessageDelta ≠ none → s.hasSentMessageStop = false ∧ s.NothingOpen

instance (s : State) : Decidable s.EndsHarmlessly := by
  unfold EndsHarmlessly
  infer_instance

theorem close_iff (h : s.Inv) : WellFormed s.close.out ↔ s.EndsHarmlessly := by
  unfold close EndsHarmlessly
  cases hpending : s.pendingMessageDelta with
  | none =>
    simp [h.wellFormed]
  | some e =>
    rw [if_pos (by simp)]
    have hsend : s.sendMessageDelta
        = { s.emit (buildMessageDeltaEvent e.1 e.2) with pendingMessageDelta := none } := by
      unfold sendMessageDelta
      rw [hpending]
    have hflag : s.sendMessageDelta.hasSentMessageStop = s.hasSentMessageStop := by
      rw [hsend]
      rfl
    dsimp only
    rw [hflag]
    cases hstop : s.hasSentMessageStop with
    | false =>
      rw [if_neg Bool.false_ne_true, complete_iff h, hstop]
      simp
    | true =>
      rw [if_pos rfl, hsend]
      unfold emit
      rw [h.stopped_iff hstop]
      simp

end State

def Action.NeedsStart : Action → Bool
  | readHeader _ => false
  | startMessage _ => false
  | done => false
  | _ => true

namespace State

variable {s : State}

theorem act_iff (h : s.Inv) (hindex : s.HasIndex a)
    (hstart : a.NeedsStart = true → s.hasSentMessageStart = true)
    : WellFormed (s.act a).out ↔ s.Harmless a := by
  cases a with
  | readHeader chunk => exact iff_of_true h.wellFormed trivial
  | startMessage usage => exact startMessage_iff h usage
  | nonToolDelta type text => exact nonToolDelta_iff h hindex (hstart rfl)
  | leaveNonToolBlock => exact leaveNonToolBlock_iff h (hstart rfl)
  | toolCall call => exact toolCall_iff h (hstart rfl) call
  | finish reason usage => exact finish_iff h (hstart rfl) reason usage
  | done => exact done_iff h

theorem act_isPrefix (s : State) (a : Action) : s.out <+: (s.act a).out := by
  cases a with
  | readHeader chunk => exact prefix_rfl
  | startMessage usage =>
    obtain ⟨more, heq, _⟩ := s.startMessage_eq usage
    rw [act, heq]
    apply prefix_append
  | nonToolDelta type text =>
    obtain ⟨more, hout⟩ := s.enterNonToolBlock_out type
    unfold act nonToolDelta
    dsimp only
    split
    . unfold emit
      rw [hout, append_assoc]
      apply prefix_append
    . rw [hout]
      apply prefix_append
  | leaveNonToolBlock =>
    rw [act, leaveNonToolBlock_out]
    apply prefix_append
  | toolCall call =>
    rw [act, toolCall_eq]
    apply prefix_append
  | finish reason usage =>
    unfold act finish
    dsimp only
    split
    . exact prefix_rfl
    . obtain ⟨more, hout, _⟩ := s.finishBlocks_out_eq_iff
      rw [hout]
      apply prefix_append
  | done =>
    obtain ⟨more, heq, _⟩ := s.done_eq
    rw [act, heq]
    apply prefix_append

theorem startMessage_started (s : State) (usage : Option Usage)
    : (s.startMessage usage).hasSentMessageStart = true := by
  obtain ⟨more, heq, _⟩ := s.startMessage_eq usage
  rw [heq]

theorem act_started (h : s.hasSentMessageStart = true) (a : Action)
    : (s.act a).hasSentMessageStart = true := by
  cases a with
  | readHeader chunk => exact h
  | startMessage usage => exact startMessage_started s usage
  | nonToolDelta type text =>
    have henter : (s.enterNonToolBlock type).hasSentMessageStart = true := by
      rcases s.enterNonToolBlock_eq type with heq | heq <;> rw [heq] <;> exact h
    unfold act nonToolDelta
    dsimp only
    split <;> exact henter
  | leaveNonToolBlock =>
    unfold act leaveNonToolBlock
    rw [takeNonToolBlock_eq]
    exact h
  | toolCall call =>
    rw [act, toolCall_eq, noteToolCall_eq]
    exact h
  | finish reason usage =>
    unfold act finish
    dsimp only
    split
    . exact h
    . rw [finishBlocks_eq]
      exact h
  | done =>
    obtain ⟨more, heq, _⟩ := s.done_eq
    rw [act, heq]
    exact h

def Started (s : State) (a : Action) : Prop := a.NeedsStart = true → s.hasSentMessageStart = true

theorem along_started_of_started (h : s.hasSentMessageStart = true) (as : List Action)
    : Run.Along act Started s as := by
  induction as generalizing s with
  | nil => trivial
  | cons a as ih => exact ⟨fun _ => h, ih (act_started h a)⟩

theorem along_started (s : State) (inputs : List Input)
    : Run.Along act Started s (inputs.flatMap Input.actions) := by
  induction inputs generalizing s with
  | nil => trivial
  | cons input inputs ih =>
    rw [flatMap_cons, Run.along_append]
    refine ⟨?_, ih _⟩
    cases input with
    | done => exact ⟨nofun, trivial⟩
    | chunk c =>
      refine ⟨nofun, ?_⟩
      cases c.choices.head? with
      | none => trivial
      | some choice =>
        refine ⟨nofun, ?_⟩
        apply along_started_of_started
        apply startMessage_started

theorem init_inv : init.Inv := by
  refine ⟨⟨⟨rfl, rfl, nofun, nofun⟩, ?_⟩, nofun, trivial⟩
  constructor <;> simp [openBlocks, startedBlocks, init, OrderedSet.empty, OrderedMap.get?_empty]

theorem inv_act (h : s.Inv) (hindex : s.HasIndex a) (hstart : s.Started a) (hok : s.Harmless a)
    : (s.act a).Inv := by
  exact ⟨h.tracks.act h.typed hindex, h.typed.act a, (act_iff h hindex hstart).mpr hok⟩

theorem close_isPrefix (s : State) : s.out <+: s.close.out := by
  unfold close sendMessageDelta
  dsimp only
  split
  . split
    . split
      . apply prefix_append
      . unfold emit
        rw [append_assoc]
        apply prefix_append
    . split
      . exact prefix_rfl
      . apply prefix_append
  . exact prefix_rfl

theorem createAnthropicStream_wellFormed_iff (inputs : List Input)
    (hindices : Run.Along act HasIndex .init (inputs.flatMap Input.actions))
    : WellFormed (createAnthropicStream inputs .ended) ↔
      Run.Along act Harmless .init (inputs.flatMap Input.actions) ∧
        ((inputs.flatMap Input.actions).foldl act .init).EndsHarmlessly := by
  have hadm := Run.along_and hindices (along_started .init inputs)
  have halways := Run.always_iff_along_of_along Inv (fun s a => s.HasIndex a ∧ s.Started a)
    (P := fun s => WellFormed s.out) (fun s h => h.wellFormed)
    (fun s a h hadm hok => inv_act h hadm.1 hadm.2 hok)
    (fun s a h hadm hbad hwf => hbad ((act_iff h hadm.1 hadm.2).mp hwf)) init_inv hadm
  have hinv : Run.Along act Harmless .init (inputs.flatMap Input.actions) →
      ((inputs.flatMap Input.actions).foldl act .init).Inv := by
    intro halong
    have hall := Run.always_of_along (P := Inv) Inv (fun s h => h)
      (fun s a h hok => inv_act h hok.1.1 hok.1.2 hok.2) init_inv (Run.along_and hadm halong)
    exact hall.last
  constructor
  . intro hwf
    have hlast := wellFormed_of_isPrefix (close_isPrefix _) hwf
    have halong := halways.mp (Run.always_of_last
      (fun s a h => wellFormed_of_isPrefix (act_isPrefix s a) h) hlast)
    exact ⟨halong, (close_iff (hinv halong)).mp hwf⟩
  . rintro ⟨halong, hends⟩
    exact (close_iff (hinv halong)).mpr hends

def textChunk (text : Str) (finishReason : Option Str) : Input :=
  .chunk ⟨['c'], ['m'], [⟨⟨some text, none, none⟩, finishReason⟩], none⟩

def argumentsChunk (id name : Option Str) (arguments : Str) (finishReason : Option Str) : Input :=
  .chunk ⟨['c'], ['m'],
    [⟨⟨none, none, some [⟨0, id, some ⟨name, some arguments⟩⟩]⟩, finishReason⟩], none⟩

def twoParts : List Input := [textChunk ['h'] none, textChunk ['i'] (some ['s', 't', 'o', 'p']), .done]

theorem createAnthropicStream_wellFormed_iff_twoParts
    : WellFormed (createAnthropicStream twoParts .ended) := by
  apply (createAnthropicStream_wellFormed_iff twoParts _).mpr
  . decide
  . decide

theorem createAnthropicStream_not_wellFormed
    : ¬WellFormed (createAnthropicStream [textChunk ['h'] (some ['s', 't', 'o', 'p']), .done, .done] .ended) ∧
      ¬WellFormed (createAnthropicStream
        [textChunk ['h'] (some ['s', 't', 'o', 'p']), textChunk ['i'] none, .done] .ended) ∧
      ¬WellFormed (createAnthropicStream
        [argumentsChunk (some ['t']) (some ['f']) ['1'] (some ['s', 't', 'o', 'p']),
          argumentsChunk none none ['2'] none, .done] .ended) := by
  refine ⟨?_, ?_, ?_⟩
  . decide
  . decide
  . decide

end State

end CcSwitch.Proxy.Streaming
