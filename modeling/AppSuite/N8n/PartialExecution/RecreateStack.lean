import AppSuite.Data.ExceptFold
import AppSuite.Data.OrderedSet
import AppSuite.N8n.PartialExecution.SourceDataGroups

/-!
This module contains `recreateNodeExecutionStack`, and what the entries it pushes on the stack stand
for.
-/

namespace N8n

open List ExceptFold PlainObject

structure RecreatedExecution where
  nodeExecutionStack : List IExecuteData
  waitingExecution : IWaitingForExecution
  waitingExecutionSource : IWaitingForExecutionSource

def RecreatedExecution.empty : RecreatedExecution := ⟨[], .empty, .empty⟩

section

variable {α : Type}

def addWaitingSlot (waiting : OrderedMap String (IndexMap (OrderedMap NodeConnectionType (List (Slot α)))))
    (nodeName : String) (runIndex : Nat) (inputType : NodeConnectionType) (inputIndex : Nat)
    (slot : Slot α) : OrderedMap String (IndexMap (OrderedMap NodeConnectionType (List (Slot α)))) :=
  let waitingObject := (waiting.get? nodeName).getD .empty
  let connections := (waitingObject.get? runIndex).getD .empty
  let list := (connections.get? inputType).getD []
  waiting.set nodeName
    (waitingObject.set runIndex (connections.set inputType (SparseArray.set list inputIndex slot)))

end

def addWaitingExecution (waitingExecution : IWaitingForExecution) (nodeName : String) (runIndex : Nat)
    (inputType : NodeConnectionType) (inputIndex : Nat) (executionData : Slot Batch)
    : IWaitingForExecution :=
  addWaitingSlot waitingExecution nodeName runIndex inputType inputIndex executionData

def addWaitingExecutionSource (waitingExecutionSource : IWaitingForExecutionSource)
    (nodeName : String) (runIndex : Nat) (inputType : NodeConnectionType) (inputIndex : Nat)
    (sourceData : Slot ISourceData) : IWaitingForExecutionSource :=
  addWaitingSlot waitingExecutionSource nodeName runIndex inputType inputIndex sourceData

namespace recreateNodeExecutionStack

def disabledMessage (node : INode) : String :=
  "Graph contains disabled nodes. This is not supported. Make sure to pass the graph through "
    ++ "\"findSubgraph\" before calling \"recreateNodeExecutionStack\". The node in question is \""
    ++ node.name ++ "\""

def noDataMessage (startNode : INode) (c : GraphConnection) : String :=
  "Start node(" ++ c.toNode.name ++ ") has an incoming connection with no run or pinned data. This is "
    ++ "not supported. The connection in question is \"" ++ c.fromNode.name ++ "->" ++ startNode.name
    ++ "\". Are you sure the start nodes come from the \"findStartNodes\" function?"

variable (runData : IRunData) (pinData : IPinData) (startNode : INode)

def pinned (name : String) : Option Batch :=
  match pinData.get? name with
  | some data => some data
  | none => if name ∈ inheritedKeys then some (.foreign (inheritedLength name)) else none

def incomingData (c : GraphConnection) : Except JsError (Option Batch × Nat) :=
  match pinned pinData c.fromNode.name with
  | some data => .ok (some data, 0)
  | none =>
    if finds runData c.fromNode.name then
      match getIncomingDataFromAnyRun runData c.fromNode.name c.type c.outputIndex with
      | .error e => .error e
      | .ok none => .ok (none, 0)
      | .ok (some (data, runIndex)) => .ok (some data, runIndex)
    else
      .error (.assertionError (noDataMessage startNode c))

structure Incoming where
  data : List (Slot Batch)
  source : List (Slot ISourceData)

def pushIncoming (incoming : Incoming) (c : GraphConnection) : Except JsError Incoming :=
  match incomingData runData pinData startNode c with
  | .error e => .error e
  | .ok (data, runIndex) =>
    .ok {
      data := incoming.data ++ data.toList.map .value
      source := incoming.source ++ [.value {
        previousNode := c.fromNode.name
        previousNodeOutput := c.outputIndex
        previousNodeRun := runIndex }] }

variable (r : RecreatedExecution) (connections : List GraphConnection)

def addCompleteGroup : Except JsError RecreatedExecution :=
  match connections.foldlM (pushIncoming runData pinData startNode) ⟨[], []⟩ with
  | .error e => .error e
  | .ok incoming =>
    .ok { r with nodeExecutionStack := r.nodeExecutionStack ++ [{
      node := some startNode
      data := onlyMain incoming.data
      source := some (onlyMain incoming.source)
      runIndex := none }] }

def addWaitingConnection (nodeName : String) (nextRunIndex : Nat) (r : RecreatedExecution)
    (c : GraphConnection) : Except JsError RecreatedExecution :=
  match getIncomingDataFromAnyRun runData c.fromNode.name c.type c.outputIndex with
  | .error e => .error e
  | .ok none => .ok r
  | .ok (some (data, _)) =>
    .ok { r with
      waitingExecution :=
        -- Under an inherited name both tables find one object, in which the source is written last.
        addWaitingExecution r.waitingExecution nodeName nextRunIndex c.type c.inputIndex
          (.value (if nodeName ∈ inheritedKeys then .foreign 0 else data))
      waitingExecutionSource :=
        addWaitingExecutionSource r.waitingExecutionSource nodeName nextRunIndex c.type c.inputIndex
          (.value {
            previousNode := c.fromNode.name
            previousNodeRun := nextRunIndex
            previousNodeOutput := c.outputIndex }) }

def nextRunIndex (waitingExecution : IWaitingForExecution) (nodeName : String) : Nat :=
  ((waitingExecution.get? nodeName).map IndexMap.size).getD 0

def addIncompleteGroup : Except JsError RecreatedExecution :=
  connections.foldlM
    (addWaitingConnection runData startNode.name (nextRunIndex r.waitingExecution startNode.name)) r

def addGroup (sourceData : SourceConnectionGroup) : Except JsError RecreatedExecution :=
  if sourceData.complete then
    addCompleteGroup runData pinData startNode r sourceData.connections
  else
    addIncompleteGroup runData startNode r sourceData.connections

def startEntry : IExecuteData where
  node := some startNode
  data := onlyMain [.value .emptyItem]
  source := none
  runIndex := none

variable (localeCompare : String → String → Int)

def addStartNode (graph : DirectedGraph) (runData : IRunData) (pinData : IPinData)
    (r : RecreatedExecution) (startNode : INode) : Except JsError RecreatedExecution :=
  match graph.getDirectParentConnections startNode with
  | .error e => .error e
  | .ok connections =>
    let incomingStartNodeConnections := connections.filter fun c => c.type = .main
    if incomingStartNodeConnections.isEmpty then
      .ok { r with nodeExecutionStack := r.nodeExecutionStack ++ [startEntry startNode] }
    else
      (getSourceDataGroups localeCompare graph startNode runData pinData).foldlM
        (addGroup runData pinData startNode) r

end recreateNodeExecutionStack

open recreateNodeExecutionStack

def recreateNodeExecutionStack (localeCompare : String → String → Int) (graph : DirectedGraph)
    (startNodes : OrderedSet INode) (runData : IRunData) (pinData : IPinData)
    : Except JsError RecreatedExecution :=
  match graph.nodes.values.find? (·.disabled) with
  | some node => .error (.assertionError (disabledMessage node))
  | none => startNodes.elems.foldlM (addStartNode localeCompare graph runData pinData) .empty

namespace recreateNodeExecutionStack

def Brings (runData : IRunData) (pinData : IPinData) (c : GraphConnection) (batch : Batch) (run : Nat)
    : Prop :=
  (pinData.get? c.fromNode.name = some batch ∧ run = 0)
    ∨ (pinData.get? c.fromNode.name = none ∧ c.FirstOutput runData batch run)

def OwnPin (pinData : IPinData) (c : GraphConnection) : Prop :=
  c.fromNode.name ∈ inheritedKeys → pinData.has c.fromNode.name = true

instance : Decidable (OwnPin pinData c) :=
  inferInstanceAs (Decidable (c.fromNode.name ∈ inheritedKeys → _))

theorem pinned_eq {pinData : IPinData} (h : OwnPin pinData c)
    : pinned pinData c.fromNode.name = pinData.get? c.fromNode.name := by
  unfold pinned
  split
  . next hpinned => rw [hpinned]
  . next hnone =>
    rw [if_neg, hnone]
    intro hname
    have hhas := h hname
    rw [OrderedMap.has, hnone] at hhas
    contradiction

theorem incomingData_ok {runData : IRunData} {pinData : IPinData} {startNode : INode}
    {c : GraphConnection} (hown : OwnPin pinData c)
    (h : incomingData runData pinData startNode c = .ok (data, runIndex)) (batch : Batch) (run : Nat)
    : Brings runData pinData c batch run ↔ data = some batch ∧ runIndex = run := by
  unfold incomingData at h
  rw [pinned_eq hown] at h
  unfold Brings
  split at h
  . next pinned hpinned =>
    simp only [Except.ok.injEq, Prod.mk.injEq] at h
    rw [← h.1, ← h.2, hpinned]
    simp [eq_comm]
  . next hpinned =>
    rw [hpinned]
    split at h
    . split at h
      . contradiction
      . next hany =>
        have hfirst := getIncomingDataFromAnyRun_ok hany batch run
        simp only [Except.ok.injEq, Prod.mk.injEq] at h
        rw [← h.1, ← hfirst]
        simp
      . next found foundRun hany =>
        have hfirst := getIncomingDataFromAnyRun_ok hany batch run
        simp only [Except.ok.injEq, Prod.mk.injEq] at h
        rw [← h.1, ← h.2, ← hfirst]
        simp
    . contradiction

section

variable {runData : IRunData} {pinData : IPinData} {startNode : INode}

variable {incoming incoming' : Incoming} {c : GraphConnection} {connections : List GraphConnection}

theorem pushIncoming_ok (h : pushIncoming runData pinData startNode incoming c = .ok incoming')
    : ∃ data runIndex, incomingData runData pinData startNode c = .ok (data, runIndex)
        ∧ incoming'.data = incoming.data ++ data.toList.map .value
        ∧ incoming'.source = incoming.source ++ [.value ⟨c.fromNode.name, c.outputIndex, runIndex⟩] := by
  unfold pushIncoming at h
  split at h
  . contradiction
  . next data runIndex hdata =>
    injection h with h
    rw [← h]
    exact ⟨data, runIndex, hdata, rfl, rfl⟩

theorem pushIncoming_appends
    (h : connections.foldlM (pushIncoming runData pinData startNode) incoming = .ok incoming')
    : incoming.data <+: incoming'.data ∧ incoming.source <+: incoming'.source
      ∧ incoming'.source.length = incoming.source.length + connections.length := by
  induction connections generalizing incoming with
  | nil =>
    injection h with h
    rw [h]
    exact ⟨prefix_refl _, prefix_refl _, rfl⟩
  | cons c connections ih =>
    have ⟨mid, hmid, hrest⟩ := foldlM_cons_eq_ok h
    have ⟨_, _, _, hdata, hsource⟩ := pushIncoming_ok hmid
    have ⟨hdata', hsource', hlength⟩ := ih hrest
    rw [hdata] at hdata'
    rw [hsource] at hsource' hlength
    refine ⟨(prefix_append _ _).trans hdata', (prefix_append _ _).trans hsource', ?_⟩
    rw [hlength, length_append, length_singleton, length_cons]
    omega

def Holds (runData : IRunData) (pinData : IPinData) (data : List (Slot Batch))
    (source : List (Slot ISourceData)) (c : GraphConnection) : Prop :=
  ∃ batch run, Brings runData pinData c batch run
    ∧ SparseArray.get data c.inputIndex = .value batch
    ∧ SparseArray.get source c.inputIndex = .value ⟨c.fromNode.name, c.outputIndex, run⟩

theorem holds_of_brings (hdata : incoming.data.length = k) (hsource : incoming.source.length = k)
    (hrange : connections.map (·.inputIndex) = range' k connections.length)
    (hown : ∀ c ∈ connections, OwnPin pinData c)
    (hbrings : ∀ c ∈ connections, ∃ batch run, Brings runData pinData c batch run)
    (h : connections.foldlM (pushIncoming runData pinData startNode) incoming = .ok incoming')
    : ∀ c ∈ connections, Holds runData pinData incoming'.data incoming'.source c := by
  induction connections generalizing incoming k with
  | nil => simp
  | cons c connections ih =>
    have ⟨mid, hmid, hrest⟩ := foldlM_cons_eq_ok h
    have ⟨data, runIndex, hincoming, hmidData, hmidSource⟩ := pushIncoming_ok hmid
    rw [forall_mem_cons] at hown hbrings ⊢
    have ⟨⟨batch, run, hb⟩, hbrings⟩ := hbrings
    have ⟨hbatch, hrun⟩ := (incomingData_ok hown.1 hincoming batch run).mp hb
    rw [hbatch] at hmidData
    rw [map_cons, length_cons, range'_succ, cons.injEq] at hrange
    have ⟨hidx, hrange⟩ := hrange
    constructor
    . have ⟨hpre, hpre', _⟩ := pushIncoming_appends hrest
      rw [hmidData] at hpre
      rw [hmidSource, hrun] at hpre'
      refine ⟨batch, run, hb, ?_, ?_⟩
      . rw [hidx, ← hdata]
        exact SparseArray.get_of_prefix hpre
      . rw [hidx, ← hsource]
        exact SparseArray.get_of_prefix hpre'
    . apply ih _ _ hrange hown.2 hbrings hrest
      . rw [hmidData]
        simp [hdata]
      . rw [hmidSource]
        simp [hsource]

def Aligned (runData : IRunData) (pinData : IPinData) (connections : List GraphConnection) : Prop :=
  (∀ c ∈ connections.head?, c.inputIndex = 0)
    ∧ ∀ c ∈ connections,
        pinData.has c.fromNode.name ∨ ∃ batch run, c.FirstOutput runData batch run

theorem exists_brings_iff
    : (∃ batch run, Brings runData pinData c batch run)
      ↔ pinData.has c.fromNode.name ∨ ∃ batch run, c.FirstOutput runData batch run := by
  unfold Brings OrderedMap.has
  cases pinData.get? c.fromNode.name <;> simp

theorem first_inputIndex
    (hrange : connections.map (·.inputIndex) = range' start connections.length)
    (hc : connections.head? = some c)
    : c.inputIndex = start := by
  have hhead := congrArg head? hrange
  rw [head?_map, hc, head?_range'] at hhead
  split at hhead
  . cases hhead
  . exact Option.some.inj hhead

theorem holds_iff_aligned (hcons : Consecutive connections) (hown : ∀ c ∈ connections, OwnPin pinData c)
    (h : connections.foldlM (pushIncoming runData pinData startNode) ⟨[], []⟩ = .ok incoming)
    : (∀ c ∈ connections, Holds runData pinData incoming.data incoming.source c)
      ↔ Aligned runData pinData connections := by
  have ⟨start, hrange⟩ := hcons
  apply Iff.intro
  . intro hholds
    apply And.intro
    . intro c hc
      have hfirst := first_inputIndex hrange hc
      have hmem : start + (connections.length - 1) ∈ connections.map (·.inputIndex) := by
        rw [hrange, mem_range'_1]
        cases connections with
        | nil => simp at hc
        | cons _ _ => simp
      rw [mem_map] at hmem
      have ⟨last, hlast, hidx⟩ := hmem
      have ⟨_, _, _, _, hsource⟩ := hholds last hlast
      have hlt : last.inputIndex < incoming.source.length := by
        apply Nat.lt_of_not_le
        intro hle
        rw [SparseArray.get_eq_default_of_le hle] at hsource
        contradiction
      rw [(pushIncoming_appends h).2.2, length_nil] at hlt
      omega
    . intro c hc
      have ⟨batch, run, hb, _, _⟩ := hholds c hc
      exact exists_brings_iff.mp ⟨batch, run, hb⟩
  . intro haligned
    have hzero : connections.map (·.inputIndex) = range' 0 connections.length := by
      cases hhead : connections.head? with
      | none =>
        rw [head?_eq_none_iff] at hhead
        rw [hhead]
        rfl
      | some c =>
        rw [hrange, ← first_inputIndex hrange hhead, haligned.1 c hhead]
    apply holds_of_brings rfl rfl hzero hown _ h
    intro c hc
    exact exists_brings_iff.mpr (haligned.2 c hc)

end

def incomingMain (graph : DirectedGraph) (startNode : INode) : List GraphConnection :=
  (graph.getConnections (some startNode)).filter fun c => c.type = .main

inductive Producer where
  | start (node : INode)
  | group (node : INode) (connections : List GraphConnection)

variable (localeCompare : String → String → Int) (graph : DirectedGraph)

def producersOf (runData : IRunData) (pinData : IPinData) (startNode : INode) : List Producer :=
  if (incomingMain graph startNode).isEmpty then
    [.start startNode]
  else
    (getSourceDataGroups localeCompare graph startNode runData pinData).flatMap fun group =>
      if group.complete then [.group startNode group.connections] else []

def producers (startNodes : OrderedSet INode) (runData : IRunData) (pinData : IPinData) : List Producer :=
  startNodes.elems.flatMap (producersOf localeCompare graph runData pinData)

namespace Producer

variable (runData : IRunData) (pinData : IPinData)

def Corresponds : Producer → IExecuteData → Prop
  | .start _, _ => True
  | .group node connections, item =>
    item.node = some node
      ∧ ∀ c ∈ connections,
          Holds runData pinData ((item.data.get? .main).getD [])
            ((item.source.bind (·.get? .main)).getD []) c

def InLine : Producer → Prop
  | .start _ => True
  | .group _ connections => Aligned runData pinData connections

def Made : Producer → IExecuteData → Prop
  | .start node, item => item = startEntry node
  | .group node connections, item =>
    ∃ incoming,
      connections.foldlM (pushIncoming runData pinData node) ⟨[], []⟩ = .ok incoming
        ∧ item = ⟨some node, onlyMain incoming.data, some (onlyMain incoming.source), none⟩

def InOrder : Producer → Prop
  | .start _ => True
  | .group _ connections => Consecutive connections ∧ ∀ c ∈ connections, OwnPin pinData c

theorem corresponds_iff_of_made {runData : IRunData} {pinData : IPinData} {p : Producer}
    {item : IExecuteData} (horder : p.InOrder pinData) (hmade : p.Made runData pinData item)
    : p.Corresponds runData pinData item ↔ p.InLine runData pinData := by
  cases p with
  | start node =>
    rfl
  | group node connections =>
    have ⟨incoming, hincoming, hitem⟩ := hmade
    rw [InLine, ← holds_iff_aligned horder.1 horder.2 hincoming, Corresponds, hitem]
    simp

end Producer

section

variable {localeCompare : String → String → Int} {graph : DirectedGraph} {runData : IRunData}
  {pinData : IPinData}

variable {startNodes : OrderedSet INode}

theorem inOrder_of_mem_producers (hown : ∀ c ∈ graph.connections.values, OwnPin pinData c)
    (h : p ∈ producers localeCompare graph startNodes runData pinData)
    : p.InOrder pinData := by
  unfold producers producersOf at h
  rw [mem_flatMap] at h
  have ⟨startNode, _, hp⟩ := h
  split at hp
  . rw [mem_singleton] at hp
    rw [hp]
    trivial
  . rw [mem_flatMap] at hp
    have ⟨group, hgroup, hp⟩ := hp
    split at hp
    . rw [mem_singleton] at hp
      rw [hp]
      exact ⟨consecutive_of_mem_getSourceDataGroups hgroup,
        fun c hc => hown c (mem_values_of_mem_getSourceDataGroups hgroup hc)⟩
    . contradiction

variable {startNode : INode} {r r' : RecreatedExecution}

theorem stack_addIncompleteGroup {connections : List GraphConnection}
    (h : addIncompleteGroup runData startNode r connections = .ok r')
    : r'.nodeExecutionStack = r.nodeExecutionStack := by
  apply inv_of_foldlM_ok
    (fun s : RecreatedExecution => s.nodeExecutionStack = r.nodeExecutionStack) _ rfl h
  intro s c s' _ hs hstep
  rw [← hs]
  unfold addWaitingConnection at hstep
  split at hstep
  . contradiction
  . injection hstep with hstep
    rw [hstep]
  . injection hstep with hstep
    rw [← hstep]

theorem stack_addGroup
    (h : addGroup runData pinData startNode r group = .ok r')
    : ∃ items, r'.nodeExecutionStack = r.nodeExecutionStack ++ items
      ∧ Forall₂ (Producer.Made runData pinData)
          (if group.complete then [.group startNode group.connections] else []) items := by
  unfold addGroup at h
  split at h
  . next hcomplete =>
    rw [if_pos hcomplete]
    unfold addCompleteGroup at h
    split at h
    . contradiction
    . next incoming hincoming =>
      injection h with h
      rw [← h]
      refine ⟨_, rfl, ?_⟩
      rw [forall₂_cons]
      exact ⟨⟨incoming, hincoming, rfl⟩, Forall₂.nil⟩
  . next hcomplete =>
    rw [if_neg hcomplete]
    refine ⟨[], ?_, Forall₂.nil⟩
    rw [append_nil]
    exact stack_addIncompleteGroup h

section

variable (h : addStartNode localeCompare graph runData pinData r startNode = .ok r')

include h

theorem addStartNode_ok
    : graph.nodes.get? startNode.name = some startNode
        ∧ (if (incomingMain graph startNode).isEmpty then
            r' = { r with nodeExecutionStack := r.nodeExecutionStack ++ [startEntry startNode] }
          else
            (getSourceDataGroups localeCompare graph startNode runData pinData).foldlM
              (addGroup runData pinData startNode) r = .ok r') := by
  unfold addStartNode DirectedGraph.getDirectParentConnections at h
  unfold incomingMain DirectedGraph.getConnections
  split at h
  . contradiction
  . next connections hconns =>
    split at hconns
    . next hexists =>
      injection hconns with hconns
      subst hconns
      refine ⟨by simpa [DirectedGraph.nodeExists] using hexists, ?_⟩
      dsimp only at h ⊢
      split at h
      . next hempty =>
        rw [if_pos hempty]
        injection h with h
        exact h.symm
      . next hne =>
        rw [if_neg hne]
        assumption
    . contradiction

theorem stack_addStartNode
    : ∃ items, r'.nodeExecutionStack = r.nodeExecutionStack ++ items
      ∧ Forall₂ (Producer.Made runData pinData)
          (producersOf localeCompare graph runData pinData startNode) items := by
  have hok := (addStartNode_ok h).2
  unfold producersOf
  split at hok
  . next hempty =>
    rw [if_pos hempty, hok]
    refine ⟨_, rfl, ?_⟩
    rw [forall₂_cons]
    exact ⟨rfl, Forall₂.nil⟩
  . next hne =>
    rw [if_neg hne]
    apply appended_of_foldlM_ok RecreatedExecution.nodeExecutionStack _ _ _ hok
    intro s group s' hgroup
    exact stack_addGroup hgroup

end

theorem made_of_recreate
    (h : recreateNodeExecutionStack localeCompare graph startNodes runData pinData = .ok r)
    : Forall₂ (Producer.Made runData pinData)
      (producers localeCompare graph startNodes runData pinData) r.nodeExecutionStack := by
  unfold recreateNodeExecutionStack at h
  split at h
  . contradiction
  . have hstep := appended_of_foldlM_ok RecreatedExecution.nodeExecutionStack
      (producersOf localeCompare graph runData pinData) (Producer.Made runData pinData)
      (fun s startNode s' hs => stack_addStartNode hs) h
    have ⟨items, hitems, hmade⟩ := hstep
    rw [hitems]
    exact hmade

end

def ranWith (slots : List (Slot Batch)) : List ITaskData := [⟨some (onlyMain slots), none⟩]

def onlyBRan : IRunData := OrderedMap.empty.set "B" (ranWith [.value (.output 1 3)])

def nothingFromA : IRunData := onlyBRan.set "A" (ranWith [.value (.output 0 0)])

end recreateNodeExecutionStack

end N8n
