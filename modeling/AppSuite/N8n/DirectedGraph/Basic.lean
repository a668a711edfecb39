import AppSuite.N8n.Interfaces

/-!
This module contains `DirectedGraph`, the editable graph the partial execution works on.
-/

namespace N8n

structure GraphConnection where
  fromNode : INode
  toNode : INode
  type : NodeConnectionType
  outputIndex : Nat
  inputIndex : Nat
  deriving DecidableEq, Repr

structure ConnectionInput where
  fromNode : INode
  toNode : INode
  type : Option NodeConnectionType
  outputIndex : Option Nat
  inputIndex : Option Nat
  deriving DecidableEq, Repr

def ConnectionInput.toConnection (connectionInput : ConnectionInput) : GraphConnection where
  fromNode := connectionInput.fromNode
  toNode := connectionInput.toNode
  type := connectionInput.type.getD .main
  outputIndex := connectionInput.outputIndex.getD 0
  inputIndex := connectionInput.inputIndex.getD 0

structure RemoveNodeBaseOptions where
  reconnectConnections : Bool
  skipConnectionFn : Option (GraphConnection → Bool)

def RemoveNodeBaseOptions.skips (options : RemoveNodeBaseOptions) (c : GraphConnection) : Bool :=
  match options.skipConnectionFn with
  | some skip => skip c
  | none => false

structure DirectedGraph where
  nodes : OrderedMap String INode
  connections : OrderedMap String GraphConnection

namespace DirectedGraph

def empty : DirectedGraph := ⟨.empty, .empty⟩

-- fromName-outputType-outputIndex-inputIndex-toName
def makeKey (c : GraphConnection) : String :=
  s!"{c.fromNode.name}-{c.type.toText}-{c.outputIndex}-{c.inputIndex}-{c.toNode.name}"

variable (g : DirectedGraph) (node : INode)

def nodeExists : Bool :=
  g.nodes.get? node.name = some node

def getConnections (to? : Option INode) : List GraphConnection :=
  g.connections.values.filter fun c =>
    match to? with
    | some node => c.toNode = node
    | none => true

def addNode : DirectedGraph :=
  { g with nodes := g.nodes.set node.name node }

def addNodes (nodes : List INode) : DirectedGraph :=
  nodes.foldl addNode g

def addConnection (connectionInput : ConnectionInput) : Except JsError DirectedGraph :=
  if g.nodeExists connectionInput.fromNode && g.nodeExists connectionInput.toNode then
    let connection := connectionInput.toConnection
    .ok { g with connections := g.connections.set (makeKey connection) connection }
  else
    .error (.assertionError "")

def getDirectChildConnections : Except JsError (List GraphConnection) :=
  if g.nodeExists node then
    .ok (g.connections.values.filter fun c => c.fromNode = node)
  else
    .error (.assertionError "")

def getDirectParentConnections : Except JsError (List GraphConnection) :=
  if g.nodeExists node then
    .ok (g.connections.values.filter fun c => c.toNode = node)
  else
    .error (.assertionError "")

def reconnected (options : RemoveNodeBaseOptions)
    (incomingConnections outgoingConnections : List GraphConnection) : List GraphConnection :=
  (incomingConnections.filter fun c => !options.skips c).flatMap fun incoming =>
    (outgoingConnections.filter fun c => !options.skips c).map fun outgoing =>
      { incoming with toNode := outgoing.toNode, inputIndex := outgoing.inputIndex }

def withoutNode : OrderedMap String GraphConnection :=
  g.connections.filter fun e => !(e.2.toNode = node || e.2.fromNode = node)

def removeNode (options : RemoveNodeBaseOptions)
    : Except JsError (DirectedGraph × Option (List GraphConnection)) :=
  if options.reconnectConnections then do
    let incomingConnections ← g.getDirectParentConnections node
    let outgoingConnections ← g.getDirectChildConnections node
    let newConnections := reconnected options incomingConnections outgoingConnections
    let connections := newConnections.foldl (fun m c => m.set (makeKey c) c) (g.withoutNode node)
    .ok (⟨g.nodes.delete node.name, connections⟩, some newConnections)
  else
    .ok (⟨g.nodes.delete node.name, g.withoutNode node⟩, none)

/--
Both ends of every connection are nodes of the graph, and every node is stored under its own name.
-/
structure Closed (g : DirectedGraph) : Prop where
  names : ∀ name node, g.nodes.get? name = some node → node.name = name
  ends : ∀ c ∈ g.connections.values,
    g.nodes.get? c.fromNode.name = some c.fromNode ∧ g.nodes.get? c.toNode.name = some c.toNode

def Keyed : Prop :=
  ∀ key c, g.connections.get? key = some c → key = makeKey c

@[simp]
theorem nodeExists_iff : g.nodeExists node = true ↔ g.nodes.get? node.name = some node := by
  simp [nodeExists]

variable {g : DirectedGraph} {options : RemoveNodeBaseOptions}

theorem addConnection_eq_ok
    (h : g.addConnection input = .ok g')
    : g.nodes.get? input.fromNode.name = some input.fromNode
        ∧ g.nodes.get? input.toNode.name = some input.toNode
        ∧ g' = { g with connections := g.connections.set (makeKey input.toConnection) input.toConnection } := by
  unfold addConnection at h
  split at h
  . next hends =>
    rw [Bool.and_eq_true, nodeExists_iff, nodeExists_iff] at hends
    injection h with h
    exact ⟨hends.1, hends.2, h.symm⟩
  . contradiction

theorem Keyed.set (h : g.Keyed) (c : GraphConnection)
    : Keyed { g with connections := g.connections.set (makeKey c) c } := by
  intro key d hget
  rcases OrderedMap.get?_set_eq_some hget with ⟨rfl, rfl⟩ | ⟨_, hget⟩
  . rfl
  . exact h key d hget

theorem forall_mem_set {P : GraphConnection → Prop} (hnew : P c) (h : ∀ d ∈ g.connections.values, P d)
    : ∀ d ∈ (g.connections.set key c).values, P d := by
  intro d hd
  have ⟨key, hget⟩ := OrderedMap.mem_values_iff.mp hd
  rcases OrderedMap.get?_set_eq_some hget with ⟨rfl, rfl⟩ | ⟨_, hget⟩
  . exact hnew
  . exact h d (OrderedMap.mem_values_iff.mpr ⟨key, hget⟩)

theorem mem_reconnected
    : c ∈ reconnected options ins outs
        ↔
      ∃ i ∈ ins, ∃ o ∈ outs, options.skips i = false ∧ options.skips o = false
        ∧ c = { i with toNode := o.toNode, inputIndex := o.inputIndex } := by
  unfold reconnected
  simp only [List.mem_flatMap, List.mem_filter, List.mem_map, Bool.not_eq_true']
  constructor
  . rintro ⟨i, ⟨hi, hiskip⟩, o, ⟨ho, hoskip⟩, rfl⟩
    exact ⟨i, hi, o, ho, hiskip, hoskip, rfl⟩
  . rintro ⟨i, hi, o, ho, hiskip, hoskip, rfl⟩
    exact ⟨i, ⟨hi, hiskip⟩, o, ⟨ho, hoskip⟩, rfl⟩

theorem removeNode_eq_ok {node : INode}
    (h : g.removeNode node options = .ok res)
    : (options.reconnectConnections = false
        ∧ res = (⟨g.nodes.delete node.name, g.withoutNode node⟩, none))
      ∨
      (options.reconnectConnections = true
        ∧ g.nodes.get? node.name = some node
        ∧ ∃ new, new = reconnected options (g.connections.values.filter fun c => c.toNode = node)
            (g.connections.values.filter fun c => c.fromNode = node)
          ∧ res = (⟨g.nodes.delete node.name,
              new.foldl (fun m c => m.set (makeKey c) c) (g.withoutNode node)⟩, some new)) := by
  unfold removeNode at h
  split at h
  . next hreconnect =>
    unfold getDirectParentConnections getDirectChildConnections at h
    split at h
    . next hexists =>
      rw [nodeExists_iff] at hexists
      injection h with h
      exact Or.inr ⟨hreconnect, hexists, _, rfl, h.symm⟩
    . contradiction
  . next hreconnect =>
    injection h with h
    exact Or.inl ⟨by simpa using hreconnect, h.symm⟩

end DirectedGraph

end N8n
