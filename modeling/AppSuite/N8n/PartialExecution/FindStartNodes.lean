import AppSuite.N8n.DirectedGraph.ComponentsCorrect
import AppSuite.N8n.PartialExecution.SourceDataGroups

/-!
This module contains `findStartNodes`, and which nodes it returns.
-/

namespace N8n

open DepthFirst DirectedGraph ExceptFold Relation OrderedSet PlainObject

def isDirty (node : INode) (runData : IRunData) (pinData : IPinData) : Except JsError Bool := do
  let hasAnError ← match runData.get? node.name with
    -- what is inherited has no method `some`
    | none => if node.name ∈ inheritedKeys then throw .typeError else pure false
    | some runs => pure (runs.any (·.error.isSome))
  if hasAnError then
    return true
  return !finds pinData node.name && !finds runData node.name

-- `at(-1)` is the run before the end.
def lastOutput (runData : IRunData) (node : INode) (outputIndex : Nat) : Except JsError (Option Batch) :=
  getIncomingData runData node.name (getRunIndexLength runData node.name - 1) .main outputIndex

def isALoop (graph : DirectedGraph) (node : INode) : Except JsError Bool := do
  let children ← graph.getChildren node
  return children.has node

structure FindStartNodesOptions where
  graph : DirectedGraph
  trigger : INode
  destination : INode
  pinData : IPinData
  runData : IRunData

namespace FindStartNodesOptions

variable (o : FindStartNodesOptions)

-- The three checks after which the current node is added.
def isStartNode (current : INode) : Except JsError Bool := do
  if ← isDirty current o.runData o.pinData then
    return true
  if current = o.destination then
    return true
  if current.type = "n8n-nodes-base.splitInBatches" then
    let loops ← isALoop o.graph current
    let nodeRunData ← lastOutput o.runData current (if loops then 0 else 1)
    return nodeRunData.all (·.length = 0)
  return false

-- Without fuel the recursion ends with an error that is none of the errors of the source.
def findStartNodesRecursive
    : Nat → INode → OrderedSet INode → OrderedSet INode → Except (Option JsError) (OrderedSet INode)
  | 0, _, _, _ => .error none
  | fuel + 1, current, startNodes, seen => do
    if ← (o.isStartNode current).mapError some then
      return startNodes.add current
    if seen.has current then
      return startNodes
    let outGoingConnections ← (o.graph.getDirectChildConnections current).mapError some
    outGoingConnections.foldlM
      (fun startNodes c => do
        let nodeRunData ←
          (getIncomingDataFromAnyRun o.runData c.fromNode.name c.type c.outputIndex).mapError some
        if nodeRunData.all (·.1.length = 0) && !finds o.pinData c.fromNode.name then
          return startNodes
        findStartNodesRecursive fuel c.toNode startNodes (seen.add current)) startNodes

def findStartNodes : Except (Option JsError) (OrderedSet INode) :=
  o.findStartNodesRecursive (o.graph.nodes.values.length + 1) o.trigger .empty .empty

open Classical in
noncomputable def doneOutput (node : INode) : Nat := if TransGen o.graph.Leads node node then 0 else 1

def Stop (node : INode) : Prop :=
  isDirty node o.runData o.pinData = .ok true ∨ node = o.destination
    ∨ node.type = "n8n-nodes-base.splitInBatches"
      ∧ ∀ batch, lastOutput o.runData node (o.doneOutput node) = .ok (some batch) → batch.length = 0

def HasData (c : GraphConnection) : Prop :=
  o.pinData.has c.fromNode.name = true
    ∨ ∃ run batch, c.carried o.runData run = .ok (some batch) ∧ 0 < batch.length

def Passes (u v : INode) : Prop :=
  ¬o.Stop u ∧ ∃ c ∈ o.graph.connections.values, c.fromNode = u ∧ c.toNode = v ∧ o.HasData c

def Reaches (seen : OrderedSet INode) (current x : INode) : Prop :=
  o.Stop x ∧ ReflTransGen (fun u v => u ∉ seen.elems ∧ o.Passes u v) current x

def Outputs (name : String) (type : NodeConnectionType) : Prop :=
  ∀ runs ∈ o.runData.get? name, ∀ run ∈ runs, ∀ data ∈ run.data, data.has type = true

instance : Decidable (o.Outputs name type) :=
  inferInstanceAs (Decidable (∀ runs ∈ o.runData.get? name, ∀ run ∈ runs, ∀ data ∈ run.data, _))

structure Readable : Prop where
  closed : o.graph.Closed
  trigger : o.graph.nodes.get? o.trigger.name = some o.trigger
  names : ∀ node ∈ o.graph.nodes.values, node.name ∉ inheritedKeys
  connections : ∀ c ∈ o.graph.connections.values, o.Outputs c.fromNode.name c.type
  loops : ∀ node ∈ o.graph.nodes.values, node.type = "n8n-nodes-base.splitInBatches" →
    o.Outputs node.name .main

variable {o}

theorem getIncomingData_ne_error {type : NodeConnectionType} (hname : name ∉ inheritedKeys)
    (houtputs : o.Outputs name type)
    : getIncomingData o.runData name run type i ≠ .error e := by
  unfold getIncomingData
  split
  . simp [hname]
  . next runs hruns =>
    split
    . simp
    . next data hdata =>
      obtain ⟨task, htask, hdata⟩ := Option.bind_eq_some_iff.mp hdata
      have hhas := houtputs runs hruns task (List.mem_of_getElem? htask) data hdata
      rw [OrderedMap.has, Option.isSome_iff_exists] at hhas
      obtain ⟨outputs, houtputs⟩ := hhas
      rw [houtputs]
      dsimp only
      split <;> simp

theorem Readable.mem_values (h : o.Readable) (hnode : o.graph.nodes.get? node.name = some node)
    : node ∈ o.graph.nodes.values :=
  (mem_values_iff_of_closed h.closed).mpr hnode

theorem Readable.getIncomingDataFromAnyRun (h : o.Readable) (hc : c ∈ o.graph.connections.values)
    : Ends (fun _ => False)
        (fun r => (r.all (·.1.length = 0) && !finds o.pinData c.fromNode.name) = true ↔ ¬o.HasData c)
        (getIncomingDataFromAnyRun o.runData c.fromNode.name c.type c.outputIndex) := by
  have hname := h.names _ (h.mem_values (h.closed.ends c hc).1)
  have hsearched := searched o.runData c
  generalize N8n.getIncomingDataFromAnyRun o.runData c.fromNode.name c.type c.outputIndex = r at hsearched ⊢
  rw [finds_of_not_mem hname]
  cases hsearched with
  | none silent =>
    have hnone (run : Nat) (batch : Batch) (h : c.carried o.runData run = .ok (some batch))
        : ¬0 < batch.length := by
      rw [silent run (Nat.zero_le run) batch h]
      exact Nat.lt_irrefl 0
    simpa [Ends, HasData] using fun _ => hnone
  | some carried nonempty _ =>
    have hsome : ∃ run batch, c.carried o.runData run = .ok (some batch) ∧ 0 < batch.length :=
      ⟨_, _, carried, nonempty⟩
    simp [Ends, HasData, hsome, Nat.ne_of_gt nonempty]
  | error carried => exact getIncomingData_ne_error hname (h.connections c hc) carried

variable {current x : INode} {startNodes seen : OrderedSet INode}

theorem reaches_of_stop (hstop : o.Stop current) : o.Reaches seen current x ↔ x = current := by
  constructor
  . rintro ⟨_, hpath⟩
    rcases hpath.cases_head with heq | ⟨v, hstep, _⟩
    . exact heq.symm
    . exact absurd hstop hstep.2.1
  . rintro rfl
    exact ⟨hstop, .refl⟩

theorem reaches_iff (hstop : ¬o.Stop current)
    : o.Reaches seen current x ↔ current ∉ seen.elems
      ∧ ∃ c ∈ o.graph.connections.values, c.fromNode = current ∧ o.HasData c
        ∧ o.Reaches (seen.add current) c.toNode x := by
  constructor
  . rintro ⟨hx, hpath⟩
    have hne : x ≠ current := by
      rintro rfl
      exact hstop hx
    have ⟨v, ⟨hseen, _, c, hc, hfrom, hto, hdata⟩, hrest⟩ := Explore.exists_step_avoiding hpath hne
    refine ⟨hseen, c, hc, hfrom, hdata, hx, ?_⟩
    rw [hto]
    apply ReflTransGen.mono _ _ _ hrest
    rintro u w ⟨hu, hunseen, hpasses⟩
    rw [mem_add]
    exact ⟨not_or.mpr ⟨hunseen, hu⟩, hpasses⟩
  . rintro ⟨hseen, c, hc, hfrom, hdata, hx, hpath⟩
    refine ⟨hx, .head ⟨hseen, hstop, c, hc, hfrom, rfl, hdata⟩ ?_⟩
    apply ReflTransGen.mono _ _ _ hpath
    rintro u w ⟨hunseen, hpasses⟩
    rw [mem_add] at hunseen
    exact ⟨(not_or.mp hunseen).1, hpasses⟩

section

variable (h : o.Readable) (hcurrent : o.graph.nodes.get? current.name = some current)

include h hcurrent

theorem Readable.isALoop
    : Ends (fun _ => False) (fun loops => (if loops then 0 else 1) = o.doneOutput current)
        (isALoop o.graph current) := by
  unfold N8n.isALoop doneOutput
  have ⟨children, hok, hmem⟩ := exists_getChildren h.closed hcurrent
  have hhas : children.has current = true ↔ TransGen o.graph.Leads current current :=
    has_iff.trans (hmem current)
  rw [hok]
  classical exact if_congr hhas rfl rfl

theorem Readable.isDirty_ne_error : isDirty current o.runData o.pinData ≠ .error e := by
  have hname := h.names current (h.mem_values hcurrent)
  unfold isDirty
  cases o.runData.get? current.name with
  | none => simp [hname, pure, Except.pure, bind, Except.bind]
  | some runs =>
    simp only [pure, Except.pure, bind, Except.bind]
    split <;> nofun

theorem Readable.isStartNode
    : Ends (fun _ => False) (fun b => b = true ↔ o.Stop current) (o.isStartNode current) := by
  unfold FindStartNodesOptions.isStartNode Stop
  apply (Ends.intro (fun _ => id) fun e he => h.isDirty_ne_error hcurrent he).bind
  intro dirty hdirty
  split
  . next htrue => simp [Ends, pure, Except.pure, hdirty, htrue]
  . next hfalse =>
    split
    . next hdestination => simp [Ends, pure, Except.pure, hdestination]
    . next hdestination =>
      split
      . next htype =>
        have hvalues := h.mem_values hcurrent
        apply (h.isALoop hcurrent).bind
        intro loops hloops
        apply (Ends.intro (fun _ => id) fun e =>
          getIncomingData_ne_error (h.names current hvalues) (h.loops current hvalues htype)).bind
        intro nodeRunData hlast
        have hlast : lastOutput o.runData current (o.doneOutput current) = .ok nodeRunData := hloops ▸ hlast
        cases nodeRunData <;> simp [Ends, pure, Except.pure, hdirty, hfalse, hdestination, htype, hlast]
      . next htype => simp [Ends, pure, Except.pure, hdirty, hfalse, hdestination, htype]

theorem Readable.findStartNodesRecursive (hfuel : unvisited o.graph.nodes.values seen.elems < fuel)
    : Ends (fun _ => False)
        (fun s => ∀ x, x ∈ s.elems ↔ x ∈ startNodes.elems ∨ o.Reaches seen current x)
        (o.findStartNodesRecursive fuel current startNodes seen) := by
  induction fuel generalizing current startNodes seen with
  | zero => omega
  | succ fuel ih =>
    apply Ends.bind (Ends.mapError (h.isStartNode hcurrent))
    intro stops hstops
    split
    . next htrue =>
      intro x
      rw [reaches_of_stop (hstops.mp htrue)]
      exact mem_add
    . next hfalse =>
      have hstop := mt hstops.mpr hfalse
      split
      . next hseen =>
        rw [has_iff] at hseen
        intro x
        simp [reaches_iff hstop, hseen]
      . next hseen =>
        rw [has_iff] at hseen
        rw [getDirectChildConnections, if_pos ((nodeExists_iff _ current).mpr hcurrent)]
        have hlt := unvisited_lt (h.mem_values hcurrent) hseen
        have hfuel' : unvisited o.graph.nodes.values (seen.add current).elems < fuel := by
          rw [elems_add hseen]
          omega
        apply Ends.mono (Ends.foldlM_collect (fun _ => True) (fun s x => x ∈ s.elems)
          (P := fun c x => o.HasData c ∧ o.Reaches (seen.add current) c.toNode x) _ trivial)
        . rintro s ⟨_, hs⟩ x
          rw [hs, reaches_iff hstop]
          simp [hseen, and_assoc]
        . intro s c hc _
          have hc := List.mem_of_mem_filter hc
          apply Ends.bind (Ends.mapError (h.getIncomingDataFromAnyRun hc))
          intro r hr
          split
          . next hnone => simp [Ends, pure, Except.pure, hr.mp hnone]
          . next hsome =>
            have hdata := not_not.mp (mt hr.mpr hsome)
            simpa [hdata] using ih (h.closed.ends c hc).2 hfuel'

end

def loopRan : FindStartNodesOptions where
  graph := graphOf [node1, node2, node3] [(node1, node2), (node2, node1), (node2, node3)]
  trigger := node1
  destination := node3
  pinData := .empty
  runData := [node1, node2].foldl (fun m node => m.set node.name [⟨some (onlyMain [.value .emptyItem]), none⟩]) .empty

-- `node1` ran, with data on `main` only, and has a second connection of another type.
def toolMissing : FindStartNodesOptions where
  graph := { loopRan.graph with
    connections := loopRan.graph.connections.set "Node1-ai_tool-0-0-Node3" ⟨node1, node3, .aiTool, 0, 0⟩ }
  trigger := node1
  destination := node2
  pinData := .empty
  runData := loopRan.runData

end FindStartNodesOptions
end N8n
