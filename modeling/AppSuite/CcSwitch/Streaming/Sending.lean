import AppSuite.CcSwitch.Streaming.Tracking

/-!
This module contains what the parts of the conversion send.
-/

namespace CcSwitch.Proxy.Streaming

open List OrderedMap State ToolBlockState

namespace ToolBlockState

variable (b : ToolBlockState) (call : DeltaToolCall)

def starts : Bool := !b.aborted && (b.rename call).shouldStart

def forwards : Bool :=
  !b.aborted && (b.started || b.starts call) &&
    (call.function.bind (·.arguments)).any fun args =>
      decide (countWhitespace b.consecutiveWhitespace args < infiniteWhitespaceThreshold)

theorem takeArguments_eq (args : Option Str)
    : (b.takeArguments args).1.anthropicIndex = b.anthropicIndex ∧
      (b.takeArguments args).1.started = b.started ∧
      (b.takeArguments args).2.isSome
        = (b.started && args.any fun args =>
            decide (countWhitespace b.consecutiveWhitespace args < infiniteWhitespaceThreshold)) := by
  unfold takeArguments
  cases args with
  | none => simp
  | some args =>
    dsimp only
    split
    . next h => simp [Nat.not_lt.mpr h]
    . next h =>
      split
      . next hstarted => simp [hstarted, Nat.not_le.mp h]
      . next hstarted => simp [hstarted]

theorem start_eq
    : b.start.1.anthropicIndex = b.anthropicIndex ∧
      b.start.1.started = (b.started || b.shouldStart) ∧
      b.start.1.consecutiveWhitespace = b.consecutiveWhitespace ∧
      (b.shouldStart = false → b.start.2 = none) := by
  unfold start
  split
  . next h => simp [h]
  . next h => simp [h]

structure Receives (b b' : ToolBlockState) (call : DeltaToolCall) (reaction : Reaction) : Prop where
  index : b'.anthropicIndex = b.anthropicIndex
  started : b'.started = (b.started || b.starts call)
  start : reaction.shouldStart = b.starts call
  pending : b.starts call = false → reaction.pendingAfterStart = none
  forward : reaction.immediateDelta.isSome = b.forwards call

theorem receive_receives : b.Receives (b.receive call).1 call (b.receive call).2 := by
  unfold receive
  by_cases haborted : b.aborted = true
  . constructor <;> simp [starts, forwards, haborted]
  . rw [if_neg haborted]
    rw [Bool.not_eq_true] at haborted
    have hstarts : b.starts call = (b.rename call).shouldStart := by simp [starts, haborted]
    obtain ⟨hindex, hstarted, hspace, hpending⟩ := (b.rename call).start_eq
    obtain ⟨hindex', hstarted', hforward⟩ :=
      (b.rename call).start.1.takeArguments_eq (call.function.bind (·.arguments))
    constructor
    . exact hindex'.trans hindex
    . rw [hstarts]
      exact hstarted'.trans hstarted
    . exact hstarts.symm
    . rw [hstarts]
      exact hpending
    . unfold forwards
      rw [haborted, hstarts, Bool.not_false, Bool.true_and]
      rw [hstarted, hspace] at hforward
      exact hforward

theorem starts_unstarted {b : ToolBlockState} {call : DeltaToolCall} (h : b.starts call = true)
    : b.started = false := by
  unfold starts shouldStart at h
  simp only [Bool.and_eq_true, Bool.not_eq_true'] at h
  exact h.2.1.1

theorem started_of_forwards {b : ToolBlockState} {call : DeltaToolCall} (h : b.forwards call = true)
    (hstarts : b.starts call = false)
    : b.started = true := by
  unfold forwards at h
  rw [hstarts, Bool.or_false, Bool.and_eq_true, Bool.and_eq_true] at h
  exact h.1.2

end ToolBlockState

def Event.IsSilent : Event → Prop
  | contentBlockStart _ (.toolUse _ _) => False
  | contentBlockDelta _ _ => False
  | _ => True

def Silent (events : List Event) : Prop := ∀ e ∈ events, e.IsSilent

theorem silent_nil : Silent [] := nofun

theorem silent_singleton {e : Event} (h : e.IsSilent) : Silent [e] := by
  exact forall_mem_singleton.mpr h

theorem Silent.append (h : Silent events) (h' : Silent more) : Silent (events ++ more) := by
  exact forall_mem_append.mpr ⟨h, h'⟩

theorem silent_stops (is : List UInt32) : Silent (is.map .contentBlockStop) := by
  intro e he
  obtain ⟨i, _, rfl⟩ := mem_map.mp he
  trivial

namespace State

def IndexLeft (s : State) : Prop := s.nextContentIndex.toNat + 1 < UInt32.size

-- An index is left where the action gives one out: for a block of another type and for a new tool.
def HasIndex (s : State) : Action → Prop
  | .nonToolDelta type _ => s.currentNonToolBlockType ≠ some type → s.IndexLeft
  | .toolCall call => s.toolBlocksByIndex.has call.index = false → s.IndexLeft
  | _ => True

instance (s : State) : (a : Action) → Decidable (s.HasIndex a)
  | .nonToolDelta _ _ | .toolCall _ => by
    unfold HasIndex IndexLeft
    infer_instance
  | .readHeader _ | .startMessage _ | .leaveNonToolBlock | .finish _ _ | .done => .isTrue trivial

def Typed (s : State) : Prop := s.currentNonToolBlockType ≠ none → s.currentNonToolBlockIndex ≠ none

def toolDeltas (i : UInt32) (args : Option Str) : List Event :=
  args.toList.map fun args => .contentBlockDelta i (.inputJsonDelta args)

def LateStart.events (l : LateStart) : List Event :=
  .contentBlockStart l.index (.toolUse l.id l.name) ::
    toolDeltas l.index (if l.pending.isEmpty then none else some l.pending)

def callEvents (b : ToolBlockState) (call : DeltaToolCall) : List Event :=
  (if b.starts call then
    [.contentBlockStart b.anthropicIndex (.toolUse (b.receive call).1.id (b.receive call).1.name)]
  else []) ++
    (toolDeltas b.anthropicIndex (b.receive call).2.pendingAfterStart ++
      toolDeltas b.anthropicIndex (b.receive call).2.immediateDelta)

/-! The parts of the conversion, each as the fields it changes. -/

section Equations

variable (s : State) (call : DeltaToolCall)

theorem startMessage_eq (usage : Option Usage)
    : ∃ more, s.startMessage usage = { s with hasSentMessageStart := true, out := s.out ++ more } ∧
      Silent more := by
  unfold startMessage
  split
  . next h =>
    refine ⟨[], ?_, silent_nil⟩
    rw [append_nil, ← h]
  . exact ⟨_, rfl, silent_singleton trivial⟩

theorem takeNonToolBlock_eq
    : s.takeNonToolBlock
      = { s with
          currentNonToolBlockIndex := none
          out := s.out ++ s.currentNonToolBlockIndex.toList.map .contentBlockStop } := by
  unfold takeNonToolBlock
  split
  . next i hi =>
    rw [hi]
    rfl
  . next hnone =>
    rw [hnone, Option.toList_none, map_nil, append_nil, ← hnone]

theorem leaveNonToolBlock_out
    : s.leaveNonToolBlock.out = s.out ++ s.currentNonToolBlockIndex.toList.map .contentBlockStop := by
  unfold leaveNonToolBlock
  rw [takeNonToolBlock_eq]

theorem enterNonToolBlock_eq (type : NonToolBlock)
    : s.enterNonToolBlock type = s ∨
      s.enterNonToolBlock type
        = { s with
            nextContentIndex := s.nextContentIndex + 1
            currentNonToolBlockType := some type
            currentNonToolBlockIndex := some s.nextContentIndex
            out := s.out ++ (s.currentNonToolBlockIndex.toList.map .contentBlockStop ++
              [.contentBlockStart s.nextContentIndex type.contentBlock]) } := by
  unfold enterNonToolBlock
  split
  . exact .inl rfl
  . right
    rw [takeNonToolBlock_eq, ← append_assoc]
    rfl

theorem toolDelta_eq (i : UInt32) (args : Option Str)
    : s.toolDelta i args = { s with out := s.out ++ toolDeltas i args } := by
  cases args with
  | none => exact congrArg (fun out => { s with out := out }) (append_nil s.out).symm
  | some args => rfl

def noteToolCall : State :=
  { s.enterToolBlock call.index with
    toolBlocksByIndex := (s.enterToolBlock call.index).toolBlocksByIndex.set call.index
      ((s.toolBlock call.index).receive call).1 }

def sendReaction (b : ToolBlockState) (reaction : Reaction) : State :=
  let s := if reaction.shouldStart then s.startToolBlock b.anthropicIndex b.id b.name else s
  (s.toolDelta b.anthropicIndex reaction.pendingAfterStart).toolDelta b.anthropicIndex reaction.immediateDelta

theorem toolCall_eq_sendReaction
    : s.toolCall call
      = (s.noteToolCall call).sendReaction ((s.toolBlock call.index).receive call).1
        ((s.toolBlock call.index).receive call).2 := by
  rfl

theorem noteToolCall_eq
    : s.noteToolCall call
      = { s with
          nextContentIndex := (s.noteToolCall call).nextContentIndex
          toolBlocksByIndex := (s.noteToolCall call).toolBlocksByIndex } := by
  unfold noteToolCall enterToolBlock
  split <;> rfl

theorem toolCall_eq
    : s.toolCall call
      = { s.noteToolCall call with
          openToolBlockIndices :=
            if (s.toolBlock call.index).starts call then
              s.openToolBlockIndices.add (s.toolBlock call.index).anthropicIndex
            else s.openToolBlockIndices
          out := s.out ++ callEvents (s.toolBlock call.index) call } := by
  have hreceives := (s.toolBlock call.index).receive_receives call
  rw [toolCall_eq_sendReaction]
  unfold sendReaction callEvents
  dsimp only
  rw [toolDelta_eq, toolDelta_eq, hreceives.index, hreceives.start]
  split
  . unfold startToolBlock emit
    rw [noteToolCall_eq]
    simp
  . rw [noteToolCall_eq]
    simp

def markLateStarts : State :=
  { s with
    toolBlocksByIndex := s.toolBlocksByIndex.mapValues fun _ b =>
      if b.startsLate then { b with started := true, pendingArgs := [] } else b }

theorem lateStart_eq (l : LateStart)
    : s.lateStart l
      = { s with
          openToolBlockIndices := s.openToolBlockIndices.add l.index
          out := s.out ++ LateStart.events l } := by
  unfold lateStart
  rw [toolDelta_eq]
  unfold startToolBlock emit LateStart.events
  rw [append_assoc, singleton_append]

theorem foldl_lateStart_eq (ls : List LateStart)
    : ls.foldl lateStart s
      = { s with
          openToolBlockIndices := ls.foldl (fun tools l => tools.add l.index) s.openToolBlockIndices
          out := s.out ++ ls.flatMap LateStart.events } := by
  induction ls generalizing s with
  | nil => exact congrArg (fun out => { s with out := out }) (append_nil s.out).symm
  | cons l ls ih =>
    rw [foldl_cons, ih, lateStart_eq]
    simp

def lateTools : OrderedSet UInt32 :=
  s.lateStarts.foldl (fun tools l => tools.add l.index) s.openToolBlockIndices

theorem startLateToolBlocks_eq
    : s.startLateToolBlocks
      = { s.markLateStarts with
          openToolBlockIndices := s.lateTools
          out := s.out ++ s.lateStarts.flatMap LateStart.events } := by
  exact s.markLateStarts.foldl_lateStart_eq s.lateStarts

theorem stopToolBlocks_eq
    : s.stopToolBlocks
      = { s with
          out := s.out ++ (s.openToolBlockIndices.elems.insertionSort (· ≤ ·)).map .contentBlockStop
          openToolBlockIndices := .empty } := by
  unfold stopToolBlocks
  generalize s.openToolBlockIndices.elems.insertionSort (· ≤ ·) = is
  have hfold : ∀ s : State, is.foldl (fun s index => s.emit (.contentBlockStop index)) s
      = { s with out := s.out ++ is.map .contentBlockStop } := by
    induction is with
    | nil =>
      intro s
      rw [map_nil, append_nil]
      rfl
    | cons i is ih =>
      intro s
      rw [foldl_cons, ih]
      simp [emit]
  rw [hfold]

theorem finishBlocks_eq
    : s.leaveNonToolBlock.startLateToolBlocks.stopToolBlocks
      = { s.markLateStarts with
          currentNonToolBlockType := none
          currentNonToolBlockIndex := none
          openToolBlockIndices := .empty
          out := s.out ++ s.currentNonToolBlockIndex.toList.map .contentBlockStop ++
            s.lateStarts.flatMap LateStart.events ++
            (s.lateTools.elems.insertionSort (· ≤ ·)).map .contentBlockStop } := by
  unfold leaveNonToolBlock
  rw [stopToolBlocks_eq, startLateToolBlocks_eq, takeNonToolBlock_eq]
  rfl

theorem sendMessageDelta_eq
    : ∃ more, s.sendMessageDelta = { s with pendingMessageDelta := none, out := s.out ++ more } ∧
      Silent more := by
  unfold sendMessageDelta
  split
  . exact ⟨_, rfl, silent_singleton trivial⟩
  . next hnone =>
    refine ⟨[], ?_, silent_nil⟩
    rw [append_nil, ← hnone]

theorem done_eq
    : ∃ more, s.done
        = { s with pendingMessageDelta := none, hasSentMessageStop := true, out := s.out ++ more } ∧
      Silent more := by
  obtain ⟨more, heq, hmore⟩ := s.sendMessageDelta_eq
  refine ⟨more ++ [.messageStop], ?_, hmore.append (silent_singleton (e := .messageStop) trivial)⟩
  unfold done
  rw [heq, ← append_assoc]
  rfl

end Equations

structure Tracks (s : State) : Prop where
  flags : FlagsOk s.out s.hasSentMessageStart s.hasSentMessageStop s.hasEmittedMessageDelta
    s.pendingMessageDelta
  blocks : BlocksOk (openBlocks s.out) (startedBlocks s.out) s.nextContentIndex s.currentNonToolBlockIndex
    s.toolBlocksByIndex s.openToolBlockIndices

variable {s : State} {k : Nat} {b b' : ToolBlockState} {i : UInt32} {call : DeltaToolCall}
  {reaction : Reaction} {l : LateStart}

theorem Tracks.openBlocks_eq_nil_iff (h : s.Tracks)
    : openBlocks s.out = [] ↔ s.currentNonToolBlockIndex = none ∧ s.openToolBlockIndices.elems = [] := by
  exact h.blocks.opened_eq_nil_iff

theorem Tracks.emit_delta (h : s.Tracks) (i : UInt32) (d : BlockDelta)
    : (s.emit (.contentBlockDelta i d)).Tracks := by
  constructor
  . exact h.flags.content rfl
  . unfold emit
    rw [openBlocks_concat, startedBlocks_concat, append_nil]
    exact h.blocks

theorem Tracks.takeNonToolBlock (h : s.Tracks) : s.takeNonToolBlock.Tracks := by
  unfold State.takeNonToolBlock
  split
  . next i hi =>
    have hblocks := h.blocks
    rw [hi] at hblocks
    constructor
    . exact h.flags.content rfl
    . unfold emit
      rw [openBlocks_concat, startedBlocks_concat, append_nil]
      exact hblocks.stopCurrent
  . exact h

theorem Tracks.startNonToolBlock (h : s.Tracks) (hnone : s.currentNonToolBlockIndex = none)
    (hindex : s.IndexLeft) (type : NonToolBlock)
    : (s.startNonToolBlock type).Tracks := by
  have hblocks := h.blocks
  rw [hnone] at hblocks
  constructor
  . exact h.flags.content rfl
  . unfold State.startNonToolBlock emit
    rw [openBlocks_concat, startedBlocks_concat]
    exact hblocks.startCurrent hindex

theorem IndexLeft.takeNonToolBlock (h : s.IndexLeft) : s.takeNonToolBlock.IndexLeft := by
  rwa [takeNonToolBlock_eq]

theorem Tracks.enterNonToolBlock (h : s.Tracks) (hindex : s.HasIndex (.nonToolDelta type text))
    : (s.enterNonToolBlock type).Tracks := by
  unfold State.enterNonToolBlock
  split
  . exact h
  . next htype =>
    apply h.takeNonToolBlock.startNonToolBlock _ (hindex htype).takeNonToolBlock
    rw [takeNonToolBlock_eq]

theorem Typed.enterNonToolBlock (h : s.Typed) (type : NonToolBlock)
    : ∃ i, (s.enterNonToolBlock type).currentNonToolBlockIndex = some i := by
  unfold State.enterNonToolBlock
  split
  . next htype =>
    apply Option.ne_none_iff_exists'.mp
    apply h
    rw [htype]
    exact Option.some_ne_none type
  . exact ⟨_, rfl⟩

theorem nonToolDelta_eq (h : s.Typed) (type : NonToolBlock) (text : Str)
    : ∃ i, (s.enterNonToolBlock type).currentNonToolBlockIndex = some i ∧
      s.nonToolDelta type text
        = (s.enterNonToolBlock type).emit (.contentBlockDelta i (type.delta text)) := by
  obtain ⟨i, hi⟩ := h.enterNonToolBlock type
  refine ⟨i, hi, ?_⟩
  unfold nonToolDelta
  dsimp only
  rw [hi]

theorem Tracks.leaveNonToolBlock (h : s.Tracks) : s.leaveNonToolBlock.Tracks := by
  exact ⟨h.takeNonToolBlock.flags, h.takeNonToolBlock.blocks⟩

theorem Tracks.enterToolBlock (h : s.Tracks) (k : Nat) (hindex : s.toolBlocksByIndex.has k = false → s.IndexLeft)
    : (s.enterToolBlock k).Tracks ∧ (s.enterToolBlock k).toolBlocksByIndex.get? k = some (s.toolBlock k) := by
  unfold State.enterToolBlock State.toolBlock
  cases hk : s.toolBlocksByIndex.get? k with
  | some b =>
    rw [if_pos (by rw [has, hk]; rfl)]
    exact ⟨h, hk⟩
  | none =>
    have hnew : s.toolBlocksByIndex.has k = false := by rw [has, hk]; rfl
    rw [if_neg (by rw [hnew]; exact Bool.false_ne_true)]
    refine ⟨⟨h.flags, h.blocks.enterTool hk (hindex hnew)⟩, ?_⟩
    apply get?_set_self

theorem Tracks.setToolBlock (h : s.Tracks) (hk : s.toolBlocksByIndex.get? k = some b)
    (hindex : b'.anthropicIndex = b.anthropicIndex) (hstarted : b'.started = false → b.started = false)
    : Tracks { s with toolBlocksByIndex := s.toolBlocksByIndex.set k b' } := by
  refine ⟨h.flags, h.blocks.mapTools ?_⟩
  intro k' x hx
  rcases get?_set_eq_some hx with ⟨rfl, rfl⟩ | ⟨_, hx⟩
  . exact ⟨b, hk, hindex, hstarted⟩
  . exact ⟨x, hx, rfl, id⟩

theorem Tracks.startToolBlock (h : s.Tracks) (hlt : i < s.nextContentIndex)
    (hcurrent : s.currentNonToolBlockIndex ≠ some i)
    (hothers : ∀ k b, s.toolBlocksByIndex.get? k = some b → b.started = false → b.anthropicIndex ≠ i)
    (id name : Str)
    : (s.startToolBlock i id name).Tracks := by
  constructor
  . exact h.flags.content rfl
  . unfold State.startToolBlock emit
    rw [openBlocks_concat, startedBlocks_concat]
    exact h.blocks.startTool hlt hcurrent hothers

theorem Tracks.toolDelta (h : s.Tracks) (i : UInt32) (args : Option Str) : (s.toolDelta i args).Tracks := by
  cases args with
  | none => exact h
  | some args => exact h.emit_delta i (.inputJsonDelta args)

structure Noted (s : State) (k : Nat) (b : ToolBlockState) : Prop where
  tracks : s.Tracks
  block : s.toolBlocksByIndex.get? k = some b

theorem Tracks.noteToolCall (h : s.Tracks) (hindex : s.HasIndex (.toolCall call))
    : (s.noteToolCall call).Noted call.index ((s.toolBlock call.index).receive call).1 := by
  have hreceives := (s.toolBlock call.index).receive_receives call
  obtain ⟨hentered, hblock⟩ := h.enterToolBlock call.index hindex
  constructor
  . apply hentered.setToolBlock hblock hreceives.index
    rw [hreceives.started, Bool.or_eq_false_iff]
    exact And.left
  . apply get?_set_self

theorem Noted.others (h : s.Noted k b') (hreceives : b.Receives b' call reaction)
    (hstart : reaction.shouldStart = true)
    : ∀ k' x, s.toolBlocksByIndex.get? k' = some x → x.started = false →
      x.anthropicIndex ≠ b'.anthropicIndex := by
  intro k' x hx hunstarted heq
  have := h.tracks.blocks.apart k' k x b' hx h.block heq
  rw [this, h.block] at hx
  injection hx with hx
  have hstarted := hreceives.started
  rw [← hreceives.start, hstart, Bool.or_true, hx, hunstarted] at hstarted
  contradiction

theorem Noted.sendReaction (h : s.Noted k b') (hreceives : b.Receives b' call reaction)
    : (s.sendReaction b' reaction).Tracks := by
  apply Tracks.toolDelta
  apply Tracks.toolDelta
  split
  . next hstart =>
    apply h.tracks.startToolBlock _ _ (h.others hreceives hstart)
    . exact h.tracks.blocks.reserved k b' h.block
    . exact h.tracks.blocks.separate k b' h.block
  . exact h.tracks

theorem Tracks.toolCall (h : s.Tracks) (hindex : s.HasIndex (.toolCall call))
    : (s.toolCall call).Tracks := by
  exact (h.noteToolCall hindex).sendReaction ((s.toolBlock call.index).receive_receives call)

theorem mem_lateStarts
    : l ∈ s.lateStarts ↔ ∃ k b, s.toolBlocksByIndex.get? k = some b ∧ b.startsLate = true ∧ l = .of k b := by
  unfold lateStarts
  rw [mem_insertionSort, mem_map]
  constructor
  . rintro ⟨⟨k, b⟩, hmem, rfl⟩
    rw [List.mem_filter] at hmem
    exact ⟨k, b, get?_eq_some_iff.mpr hmem.1, hmem.2, rfl⟩
  . rintro ⟨k, b, hb, hlate, rfl⟩
    exact ⟨(k, b), List.mem_filter.mpr ⟨get?_eq_some_iff.mp hb, hlate⟩, rfl⟩

theorem Tracks.lateStarts_nodup (h : s.Tracks) : (s.lateStarts.map (·.index)).Nodup := by
  unfold lateStarts
  rw [((perm_insertionSort _ _).map _).nodup_iff, map_map]
  apply Nodup.map_on
  . intro x hx y hy heq
    have hx' := get?_eq_some_iff.mpr (List.mem_filter.mp hx).1
    have hy' := get?_eq_some_iff.mpr (List.mem_filter.mp hy).1
    have hkey := h.blocks.apart x.1 y.1 x.2 y.2 hx' hy' heq
    rw [hkey, hy'] at hx'
    injection hx' with hx'
    exact Prod.ext hkey hx'.symm
  . exact (Nodup.of_map Prod.fst s.toolBlocksByIndex.nodup).filter _

structure Free (s : State) (l : LateStart) : Prop where
  lt : l.index < s.nextContentIndex
  current : s.currentNonToolBlockIndex ≠ some l.index
  others : ∀ k b, s.toolBlocksByIndex.get? k = some b → b.started = false → b.anthropicIndex ≠ l.index

theorem Free.lateStart (h : s.Free l) : (s.lateStart l').Free l := by
  rw [lateStart_eq]
  exact ⟨h.lt, h.current, h.others⟩

theorem Tracks.lateStart (h : s.Tracks) (hfree : s.Free l) : (s.lateStart l).Tracks := by
  apply Tracks.toolDelta
  exact h.startToolBlock hfree.lt hfree.current hfree.others l.id l.name

theorem Tracks.foldl_lateStart {ls : List LateStart} (h : s.Tracks) (hfree : ∀ l ∈ ls, s.Free l)
    : (ls.foldl State.lateStart s).Tracks := by
  induction ls generalizing s with
  | nil => exact h
  | cons l ls ih =>
    rw [forall_mem_cons] at hfree
    apply ih (h.lateStart hfree.1)
    intro l' hl'
    exact (hfree.2 l' hl').lateStart

theorem get?_markLateStarts (h : s.markLateStarts.toolBlocksByIndex.get? k = some b')
    : ∃ b, s.toolBlocksByIndex.get? k = some b ∧ b'.anthropicIndex = b.anthropicIndex ∧
      (b'.started = false → b.started = false ∧ b.startsLate = false) := by
  unfold markLateStarts at h
  rw [get?_mapValues, Option.map_eq_some_iff] at h
  obtain ⟨b, hb, rfl⟩ := h
  refine ⟨b, hb, ?_, ?_⟩
  . split <;> rfl
  . split
    . intro hstarted
      contradiction
    . next hlate =>
      intro hstarted
      exact ⟨hstarted, Bool.eq_false_of_not_eq_true hlate⟩

theorem Tracks.markLateStarts (h : s.Tracks) : s.markLateStarts.Tracks := by
  refine ⟨h.flags, h.blocks.mapTools ?_⟩
  intro k b' hb'
  obtain ⟨b, hb, hindex, hstarted⟩ := get?_markLateStarts hb'
  exact ⟨b, hb, hindex, fun h => (hstarted h).1⟩

theorem Tracks.free_lateStarts (h : s.Tracks) : ∀ l ∈ s.lateStarts, s.markLateStarts.Free l := by
  intro l hl
  obtain ⟨k, b, hb, hlate, rfl⟩ := mem_lateStarts.mp hl
  refine ⟨h.blocks.reserved k b hb, h.blocks.separate k b hb, ?_⟩
  intro k' x' hx' hunstarted heq
  obtain ⟨x, hx, hindex, hstarted⟩ := get?_markLateStarts hx'
  have hkey := h.blocks.apart k' k x b hx hb (hindex.symm.trans heq)
  rw [hkey, hb] at hx
  injection hx with hx
  rw [hx, (hstarted hunstarted).2] at hlate
  contradiction

theorem Tracks.startLateToolBlocks (h : s.Tracks) : s.startLateToolBlocks.Tracks := by
  exact h.markLateStarts.foldl_lateStart h.free_lateStarts

end State

variable (out : List Event) (is : List UInt32)

theorem openBlocks_append_stops
    : openBlocks (out ++ is.map .contentBlockStop) = (openBlocks out).filter (· ∉ is) := by
  induction is generalizing out with
  | nil => simp
  | cons i is ih =>
    rw [map_cons, ← singleton_append, ← append_assoc, ih, openBlocks_concat]
    unfold openAfter
    rw [filter_filter]
    apply filter_congr
    intro j _
    simp [Bool.and_comm]

theorem startedBlocks_append_stops
    : startedBlocks (out ++ is.map .contentBlockStop) = startedBlocks out := by
  induction is generalizing out with
  | nil => simp
  | cons i is ih =>
    rw [map_cons, ← singleton_append, ← append_assoc, ih, startedBlocks_concat,
      append_nil]

theorem State.Tracks.stopToolBlocks {s : State} (h : s.Tracks) : s.stopToolBlocks.Tracks := by
  rw [stopToolBlocks_eq]
  constructor
  . exact h.flags.stops _
  . rw [startedBlocks_append_stops, openBlocks_append_stops]
    apply h.blocks.stopTools
    intro i
    rw [List.mem_filter, decide_eq_true_iff, mem_insertionSort]

theorem openBlocks_append_deltas (i : UInt32) (args : Option Str)
    : openBlocks (out ++ toolDeltas i args) = openBlocks out := by
  cases args with
  | none => exact congrArg openBlocks (append_nil out)
  | some args => exact openBlocks_concat out _

theorem startedBlocks_append_deltas (i : UInt32) (args : Option Str)
    : startedBlocks (out ++ toolDeltas i args) = startedBlocks out := by
  cases args with
  | none => exact congrArg startedBlocks (append_nil out)
  | some args => exact (startedBlocks_concat out _).trans (append_nil _)

structure Running (out : List Event) : Prop where
  wellFormed : WellFormed out
  started : sentMessageStart out = true
  unclosed : sentMessageDelta out = false
  unstopped : sentMessageStop out = false

namespace Running

variable {out : List Event} {is : List UInt32} {i : UInt32}

theorem concat (h : Running out) (he : e.isContent = true) (hallowed : Allowed out e)
    : Running (out ++ [e]) := by
  obtain ⟨_, hdelta, hstop⟩ := Event.flags_of_isContent he
  constructor
  . exact wellFormed_concat.mpr ⟨h.wellFormed, hallowed⟩
  . rw [sentMessageStart_concat, h.started, Bool.true_or]
  . rw [sentMessageDelta_concat, h.unclosed, hdelta, Bool.or_false]
  . rw [sentMessageStop_concat, h.unstopped, hstop, Bool.or_false]

theorem start (h : Running out) (hi : i ∉ startedBlocks out) (block : ContentBlock)
    : Running (out ++ [.contentBlockStart i block]) := by
  exact h.concat rfl ⟨h.unstopped, h.started, h.unclosed, hi⟩

theorem delta (h : Running out) (hi : i ∈ openBlocks out) (d : BlockDelta)
    : Running (out ++ [.contentBlockDelta i d]) := by
  exact h.concat rfl ⟨h.unstopped, h.started, hi⟩

theorem stop (h : Running out) (hi : i ∈ openBlocks out) : Running (out ++ [.contentBlockStop i]) := by
  exact h.concat rfl ⟨h.unstopped, h.started, hi⟩

theorem stops (h : Running out) (hnodup : is.Nodup) (hopen : ∀ i ∈ is, i ∈ openBlocks out)
    : Running (out ++ is.map .contentBlockStop) := by
  induction is generalizing out with
  | nil =>
    rw [map_nil, append_nil]
    exact h
  | cons i is ih =>
    rw [nodup_cons] at hnodup
    rw [forall_mem_cons] at hopen
    rw [map_cons, ← singleton_append, ← append_assoc]
    apply ih (h.stop hopen.1) hnodup.2
    intro j hj
    rw [openBlocks_concat]
    unfold openAfter
    rw [List.mem_filter, decide_eq_true_iff]
    refine ⟨hopen.2 j hj, ?_⟩
    rintro rfl
    exact hnodup.1 hj

theorem deltas (h : Running out) (hi : args ≠ none → i ∈ openBlocks out)
    : Running (out ++ toolDeltas i args) := by
  cases args with
  | none =>
    unfold toolDeltas
    rw [Option.toList_none, map_nil, append_nil]
    exact h
  | some args => exact h.delta (hi (Option.some_ne_none args)) (.inputJsonDelta args)

theorem startTool (h : Running out) (hi : i ∉ startedBlocks out) (block : ContentBlock) (args : Option Str)
    : Running (out ++ .contentBlockStart i block :: toolDeltas i args) ∧
      i ∈ openBlocks (out ++ .contentBlockStart i block :: toolDeltas i args) := by
  have hopen : i ∈ openBlocks (out ++ [.contentBlockStart i block]) := by
    rw [openBlocks_concat]
    exact mem_append_right _ (mem_singleton.mpr rfl)
  rw [append_cons, openBlocks_append_deltas]
  exact ⟨(h.start hi block).deltas fun _ => hopen, hopen⟩

theorem callEvents {b : ToolBlockState} {call : DeltaToolCall} (h : Running out)
    (hunused : b.started = false → b.anthropicIndex ∉ startedBlocks out)
    (hopen : b.forwards call = true → b.started = true → b.anthropicIndex ∈ openBlocks out)
    : Running (out ++ callEvents b call) := by
  have hreceives := b.receive_receives call
  unfold State.callEvents
  cases hstarts : b.starts call with
  | true =>
    obtain ⟨hrun, hmem⟩ := h.startTool (hunused (starts_unstarted hstarts))
      (.toolUse (b.receive call).1.id (b.receive call).1.name) (b.receive call).2.pendingAfterStart
    rw [if_pos rfl, singleton_append, ← cons_append, ← append_assoc]
    exact hrun.deltas fun _ => hmem
  | false =>
    rw [hreceives.pending hstarts, if_neg Bool.false_ne_true]
    apply h.deltas
    intro himmediate
    have hforwards : b.forwards call = true := by
      rw [← hreceives.forward]
      exact Option.isSome_iff_ne_none.mpr himmediate
    exact hopen hforwards (started_of_forwards hforwards hstarts)

theorem lateEvents {ls : List LateStart} (h : Running out)
    (hunused : ∀ l ∈ ls, l.index ∉ startedBlocks out) (hnodup : (ls.map (·.index)).Nodup)
    : Running (out ++ ls.flatMap LateStart.events) := by
  induction ls generalizing out with
  | nil =>
    rw [flatMap_nil, append_nil]
    exact h
  | cons l ls ih =>
    rw [forall_mem_cons] at hunused
    rw [map_cons, nodup_cons] at hnodup
    rw [flatMap_cons, ← append_assoc]
    apply ih (h.startTool hunused.1 _ _).1 _ hnodup.2
    intro l' hl' hmem
    rw [append_cons, startedBlocks_append_deltas, startedBlocks_concat, mem_append, mem_singleton] at hmem
    cases hmem with
    | inl hmem => exact hunused.2 l' hl' hmem
    | inr heq =>
      apply hnodup.1
      rw [← heq]
      exact mem_map_of_mem hl'

variable {s : State}

theorem takeNonToolBlock (h : Running s.out) (htracks : s.Tracks) : Running s.takeNonToolBlock.out := by
  unfold State.takeNonToolBlock
  split
  . next i hi => exact h.stop ((htracks.blocks.blocks i).mpr (.inl hi))
  . exact h

theorem enterNonToolBlock (h : Running s.out) (htracks : s.Tracks) (type : NonToolBlock)
    : Running (s.enterNonToolBlock type).out := by
  unfold State.enterNonToolBlock
  split
  . exact h
  . apply (h.takeNonToolBlock htracks).start
    intro hmem
    exact absurd (htracks.takeNonToolBlock.blocks.used _ hmem) (UInt32.lt_irrefl _)

theorem startLateToolBlocks (h : Running s.out) (htracks : s.Tracks) : Running s.startLateToolBlocks.out := by
  rw [startLateToolBlocks_eq]
  apply h.lateEvents _ htracks.lateStarts_nodup
  intro l hl
  obtain ⟨k, b, hb, hlate, rfl⟩ := mem_lateStarts.mp hl
  apply htracks.blocks.unstarted k b hb
  unfold startsLate at hlate
  rw [Bool.and_eq_true, Bool.not_eq_true'] at hlate
  exact hlate.1

theorem stopToolBlocks (h : Running s.out) (htracks : s.Tracks) : Running s.stopToolBlocks.out := by
  rw [stopToolBlocks_eq]
  apply h.stops
  . rw [(perm_insertionSort _ _).nodup_iff]
    exact s.openToolBlockIndices.nodup
  . intro i hi
    rw [mem_insertionSort] at hi
    exact (htracks.blocks.blocks i).mpr (.inr hi)

end Running

end CcSwitch.Proxy.Streaming
