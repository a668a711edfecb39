import AppSuite.Data.ExceptFold
import AppSuite.N8n.Connections
import AppSuite.N8n.DirectedGraph.Basic

/-!
This module contains the way of a `DirectedGraph` to the nested connection format of a workflow and
back.
-/

namespace N8n

open List OrderedMap PlainObject ExceptFold
namespace DirectedGraph

def addConnections (g : DirectedGraph) (connectionInputs : List ConnectionInput)
    : Except JsError DirectedGraph :=
  connectionInputs.foldlM addConnection g

namespace toIConnections

variable (result : IConnections) (c : GraphConnection)

-- `result[from.name] ?? { [type]: [] }`. A name that every object inherits is found on the prototype,
-- so the default is not taken; what is found has no property for the type and the next access throws.
def resultConnection : Except JsError INodeConnections :=
  match result.get? c.fromNode.name with
  | some own => .ok own
  | none =>
    if c.fromNode.name ∈ inheritedKeys then
      .error .typeError
    else
      .ok (OrderedMap.empty.set c.type [])

def exportConnection : Except JsError IConnections := do
  let resultConnection ← resultConnection result c
  match resultConnection.get? c.type with
  | some outputs =>
    let group := (SparseArray.get outputs c.outputIndex).getD []
    let outputs :=
      SparseArray.set outputs c.outputIndex
        (some (group ++ [⟨c.toNode.name, c.type, c.inputIndex⟩]))
    .ok (result.set c.fromNode.name (resultConnection.set c.type outputs))
  | none => .error .typeError

end toIConnections

def toIConnections (g : DirectedGraph) : Except JsError IConnections :=
  g.connections.values.foldlM toIConnections.exportConnection .empty

namespace fromNodesAndConnections

variable (nodeMap : OrderedMap String INode) (fromNode : INode)

variable (outputType : NodeConnectionType) (outputIndex : Nat) (graph : DirectedGraph)

def importConnection (conn : IConnection) : Except JsError DirectedGraph :=
  match nodeMap.get? conn.node with
  | some toNode =>
    graph.addConnection ⟨fromNode, toNode, some outputType, some outputIndex, some conn.index⟩
  | none => .error (.assertionError "")

def importOutputs (output : NodeConnectionType × NodeInputConnections) : Except JsError DirectedGraph :=
  output.2.zipIdx.foldlM
    (fun graph conns =>
      (conns.1.getD []).foldlM (importConnection nodeMap fromNode output.1 conns.2) graph)
    graph

def importSource (source : String × INodeConnections) : Except JsError DirectedGraph :=
  match nodeMap.get? source.1 with
  | some fromNode => source.2.entries.foldlM (importOutputs nodeMap fromNode) graph
  | none => .error (.assertionError "")

end fromNodesAndConnections

def fromNodesAndConnections (nodes : List INode) (connections : IConnections)
    : Except JsError DirectedGraph :=
  let nodeMap := nodes.foldl (fun m node => m.set node.name node) OrderedMap.empty
  (ownEntries connections).foldlM (fromNodesAndConnections.importSource nodeMap)
    (empty.addNodes nodes)

def RoundTrips (nodes : List INode) (g : DirectedGraph) : Prop :=
  ∃ connections g',
    g.toIConnections = .ok connections
      ∧ fromNodesAndConnections nodes connections = .ok g'
      ∧ g'.nodes = g.nodes
      ∧ ∀ c, c ∈ g'.connections.values ↔ c ∈ g.connections.values

structure Exportable (g : DirectedGraph) : Prop where
  oneType : ∀ c ∈ g.connections.values, ∀ d ∈ g.connections.values,
    c.fromNode.name = d.fromNode.name → c.type = d.type
  ownNames : ∀ c ∈ g.connections.values, c.fromNode.name ∉ inheritedKeys

namespace toIConnections

variable {r r' : IConnections} {c : GraphConnection} {own : INodeConnections}
  {cs : List GraphConnection}

theorem resultConnection_get? (h : resultConnection r c = .ok own) (type : NodeConnectionType)
    (output : Nat)
    : connectionsAt r c.fromNode.name type output
      = ((own.get? type).bind fun outputs => SparseArray.get outputs output).getD [] := by
  unfold connectionsAt
  unfold resultConnection at h
  split at h
  . next hown =>
    injection h with h
    rw [hown, h]
    rfl
  . next hnone =>
    split at h
    . contradiction
    . injection h with h
      rw [hnone, ← h]
      rw [get?_set]
      split <;> simp [Option.default_eq_none]

theorem exportConnection_eq_ok (h : exportConnection r c = .ok r')
    : ∃ own outputs, resultConnection r c = .ok own ∧ own.get? c.type = some outputs
      ∧ r' = r.set c.fromNode.name (own.set c.type (SparseArray.set outputs c.outputIndex
          (some ((SparseArray.get outputs c.outputIndex).getD []
            ++ [⟨c.toNode.name, c.type, c.inputIndex⟩])))) := by
  unfold exportConnection at h
  cases hown : resultConnection r c with
  | error e =>
    rw [hown] at h
    contradiction
  | ok own =>
    rw [hown] at h
    dsimp [bind, Except.bind] at h
    split at h
    . next outputs houtputs =>
      injection h with h
      exact ⟨own, outputs, rfl, houtputs, h.symm⟩
    . contradiction

theorem conns_exportConnection (h : exportConnection r c = .ok r') (name : String)
    (type : NodeConnectionType) (output : Nat)
    : connectionsAt r' name type output
        =
      if c.fromNode.name = name ∧ c.type = type ∧ c.outputIndex = output then
        connectionsAt r name type output ++ [⟨c.toNode.name, c.type, c.inputIndex⟩]
      else
        connectionsAt r name type output := by
  have ⟨own, outputs, hown, houtputs, hr'⟩ := exportConnection_eq_ok h
  subst hr'
  by_cases hname : c.fromNode.name = name
  . subst hname
    rw [resultConnection_get? hown, connectionsAt, get?_set_self, Option.bind_some]
    by_cases htype : c.type = type
    . subst htype
      rw [get?_set_self, houtputs, Option.bind_some, Option.bind_some, SparseArray.get_set]
      by_cases hout : c.outputIndex = output
      . simp [hout]
      . simp [hout]
    . simp [htype, get?_set_ne]
  . simp [hname, connectionsAt, get?_set_ne]

theorem mem_conns_of_export (h : cs.foldlM exportConnection r = .ok r') (name : String)
    (type : NodeConnectionType) (output : Nat) (conn : IConnection)
    : conn ∈ connectionsAt r' name type output
        ↔
      conn ∈ connectionsAt r name type output
        ∨ ∃ c ∈ cs, c.fromNode.name = name ∧ c.type = type ∧ c.outputIndex = output
            ∧ conn = ⟨c.toNode.name, c.type, c.inputIndex⟩ := by
  induction cs generalizing r with
  | nil =>
    injection h with h
    simp [h]
  | cons c cs ih =>
    have ⟨mid, hmid, hrest⟩ := foldlM_cons_eq_ok h
    rw [ih hrest, conns_exportConnection hmid]
    simp only [mem_cons, exists_eq_or_imp]
    split
    . next hc => simp [hc, or_assoc]
    . next hc => tauto

theorem mem_keys_of_export (h : cs.foldlM exportConnection r = .ok r') (name : String)
    (hname : name ∈ r'.keys)
    : name ∈ r.keys ∨ ∃ c ∈ cs, c.fromNode.name = name := by
  have hinv := inv_of_foldlM_ok
    (fun r' => ∀ name ∈ r'.keys, name ∈ r.keys ∨ ∃ c ∈ cs, c.fromNode.name = name) ?_ (fun _ => .inl) h
  . exact hinv name hname
  . intro r c r' hc hkeys hadd name hname
    have ⟨own, outputs, _, _, hset⟩ := exportConnection_eq_ok hadd
    rw [hset, mem_keys_set] at hname
    cases hname with
    | inl heq => exact .inr ⟨c, hc, heq.symm⟩
    | inr hmem => exact hkeys name hmem

/-! When the export throws: the list of a source is made for the first type that is seen only. -/

def SingleType (r : IConnections) : Prop :=
  ∀ name own, r.get? name = some own → ∃ type, own.keys = [type]

def Fits (r : IConnections) (c : GraphConnection) : Prop :=
  match r.get? c.fromNode.name with
  | some own => own.keys = [c.type]
  | none => c.fromNode.name ∉ inheritedKeys

theorem exportConnection_of_fits (h : Fits r c)
    : ∃ r' own, exportConnection r c = .ok r' ∧ own.keys = [c.type]
      ∧ r' = r.set c.fromNode.name own := by
  have hown : ∃ own, resultConnection r c = .ok own ∧ own.keys = [c.type] := by
    unfold resultConnection
    unfold Fits at h
    split at h
    . next own hget =>
      exact ⟨own, rfl, h⟩
    . next hget =>
      refine ⟨OrderedMap.empty.set c.type [], ?_, ?_⟩
      . simp [h]
      . simp [OrderedMap.keys, OrderedMap.set, OrderedMap.setEntry, OrderedMap.empty]
  obtain ⟨own, hresult, hkeys⟩ := hown
  have houtputs : own.get? c.type ≠ none := by
    rw [Ne, get?_eq_none_iff, hkeys]
    simp
  unfold exportConnection
  rw [hresult]
  dsimp [bind, Except.bind]
  cases hget : own.get? c.type with
  | none => contradiction
  | some outputs =>
    refine ⟨_, own.set c.type _, rfl, ?_, rfl⟩
    rw [keys_set_of_mem]
    . assumption
    . simp [hkeys]

theorem fits_of_export (hr : SingleType r) (h : exportConnection r c = .ok r') : Fits r c := by
  have ⟨own, outputs, hown, houtputs, _⟩ := exportConnection_eq_ok h
  unfold resultConnection at hown
  unfold Fits
  split at hown
  . next own' hget =>
    injection hown with hown
    subst hown
    have ⟨type, hkeys⟩ := hr _ _ hget
    have hmem : c.type ∈ own'.keys := by
      apply mem_map.mpr
      exact ⟨(c.type, outputs), get?_eq_some_iff.mp houtputs, rfl⟩
    rw [hkeys] at hmem ⊢
    simp at hmem
    rw [hmem]
  . split at hown
    . contradiction
    . assumption

theorem singleType_set {type : NodeConnectionType} (hr : SingleType r)
    (hown : own.keys = [type])
    : SingleType (r.set name own) := by
  intro name' own' hget
  rcases get?_set_eq_some hget with ⟨rfl, rfl⟩ | ⟨_, hget⟩
  . exact ⟨type, hown⟩
  . apply hr
    assumption

theorem fits_set_iff (hc : Fits r c) (hown : own.keys = [c.type])
    : Fits (r.set c.fromNode.name own) d
      ↔ Fits r d ∧ (c.fromNode.name = d.fromNode.name → c.type = d.type) := by
  cases decEq c.fromNode.name d.fromNode.name with
  | isFalse hne =>
    unfold Fits
    rw [get?_set_ne _ _ hne]
    simp [hne]
  | isTrue heq =>
    have hset : Fits (r.set c.fromNode.name own) d ↔ c.type = d.type := by
      unfold Fits
      rw [← heq, get?_set_self]
      simp [hown]
    rw [hset]
    simp only [heq, true_implies]
    constructor
    . intro htype
      refine ⟨?_, htype⟩
      unfold Fits at hc ⊢
      rw [← heq, ← htype]
      assumption
    . intro h
      exact h.2

theorem export_ok_iff (hr : SingleType r)
    : (∃ r', cs.foldlM exportConnection r = .ok r')
        ↔
      (∀ c ∈ cs, Fits r c)
        ∧ ∀ c ∈ cs, ∀ d ∈ cs, c.fromNode.name = d.fromNode.name → c.type = d.type := by
  induction cs generalizing r with
  | nil =>
    simp only [not_mem_nil, false_implies, implies_true, and_true, iff_true]
    exact ⟨r, rfl⟩
  | cons c cs ih =>
    have hcons : (∃ r', (c :: cs).foldlM exportConnection r = .ok r')
        ↔ Fits r c ∧ (∀ d ∈ cs, Fits r d ∧ (c.fromNode.name = d.fromNode.name → c.type = d.type))
          ∧ ∀ d ∈ cs, ∀ e ∈ cs, d.fromNode.name = e.fromNode.name → d.type = e.type := by
      by_cases hc : Fits r c
      . have ⟨mid, own, hmid, hkeys, hset⟩ := exportConnection_of_fits hc
        rw [foldlM_cons_of_ok hmid, hset, ih (singleType_set hr hkeys)]
        simp only [fits_set_iff hc hkeys, hc, true_and]
      . refine iff_of_false ?_ (fun h => hc h.1)
        rintro ⟨r', h⟩
        have ⟨mid, hmid, _⟩ := foldlM_cons_eq_ok h
        exact hc (fits_of_export hr hmid)
    rw [hcons]
    simp only [forall_mem_cons, forall_and, true_implies, eq_comm (b := c.fromNode.name), eq_comm (b := c.type)]
    tauto

end toIConnections

theorem toIConnections_ok_iff (g : DirectedGraph) : (∃ r, g.toIConnections = .ok r) ↔ Exportable g := by
  unfold toIConnections
  rw [toIConnections.export_ok_iff]
  . constructor
    . intro h
      exact ⟨h.2, h.1⟩
    . intro h
      exact ⟨h.ownNames, h.oneType⟩
  . intro name own h
    simp at h

namespace fromNodesAndConnections

def Adds (nodes : OrderedMap String INode) (f : DirectedGraph → Except JsError DirectedGraph)
    (new : List GraphConnection) : Prop :=
  ∀ g, g.nodes = nodes →
    f g = .ok { g with connections := new.foldl (fun m c => m.set (makeKey c) c) g.connections }

theorem adds_foldlM {α : Type} {nodes : OrderedMap String INode} {xs : List α}
    {f : DirectedGraph → α → Except JsError DirectedGraph} {new : α → List GraphConnection}
    (h : ∀ x ∈ xs, Adds nodes (fun g => f g x) (new x))
    : Adds nodes (fun g => xs.foldlM f g) (xs.flatMap new) := by
  induction xs with
  | nil =>
    intro g hg
    rfl
  | cons x xs ih =>
    intro g hg
    dsimp
    rw [foldlM_cons_of_ok (h x (by simp) g hg)]
    have htail : ∀ y ∈ xs, Adds nodes (fun g => f g y) (new y) := by
      intro y hy
      apply h
      exact mem_cons_of_mem x hy
    have hrest := ih htail ⟨g.nodes, (new x).foldl (fun m c => m.set (makeKey c) c) g.connections⟩ hg
    dsimp at hrest
    rw [hrest]
    simp [foldl_append]

variable (nodeMap : OrderedMap String INode)

def resolve (fromNode : INode) (outputType : NodeConnectionType) (outputIndex : Nat) (conn : IConnection) : List GraphConnection :=
  (nodeMap.get? conn.node).toList.map fun toNode =>
    ⟨fromNode, toNode, outputType, outputIndex, conn.index⟩

def imported (connections : IConnections) : List GraphConnection :=
  (ownEntries connections).flatMap fun source =>
    (nodeMap.get? source.1).toList.flatMap fun fromNode =>
      source.2.entries.flatMap fun output =>
        output.2.zipIdx.flatMap fun conns =>
          (conns.1.getD []).flatMap (resolve nodeMap fromNode output.1 conns.2)

structure Resolves (nodeMap : OrderedMap String INode) (connections : IConnections) : Prop where
  names : ∀ name node, nodeMap.get? name = some node → node.name = name
  sources : ∀ source ∈ connections.entries, nodeMap.get? source.1 ≠ none
  targets : ∀ source ∈ connections.entries, ∀ output ∈ source.2.entries,
    ∀ conns ∈ output.2.zipIdx, ∀ conn ∈ conns.1.getD [], nodeMap.get? conn.node ≠ none

variable {nodeMap : OrderedMap String INode} {connections : IConnections}

theorem adds_importConnection (hnames : ∀ name node, nodeMap.get? name = some node → node.name = name)
    {fromNode : INode} (hfrom : nodeMap.get? fromNode.name = some fromNode)
    (hto : nodeMap.get? conn.node ≠ none) (outputType : NodeConnectionType) (outputIndex : Nat)
    : Adds nodeMap (fun g => importConnection nodeMap fromNode outputType outputIndex g conn)
      (resolve nodeMap fromNode outputType outputIndex conn) := by
  intro g hg
  dsimp [importConnection, resolve]
  cases hget : nodeMap.get? conn.node with
  | none => contradiction
  | some toNode =>
    have hself : nodeMap.get? toNode.name = some toNode := by
      rw [hnames _ _ hget]
      assumption
    simp [addConnection, nodeExists, hg, hfrom, hself, ConnectionInput.toConnection]

theorem adds_importSource (h : Resolves nodeMap connections) {source : String × INodeConnections}
    (hsource : source ∈ connections.entries)
    : Adds nodeMap (fun g => importSource nodeMap g source)
      ((nodeMap.get? source.1).toList.flatMap fun fromNode =>
        source.2.entries.flatMap fun output =>
          output.2.zipIdx.flatMap fun conns =>
            (conns.1.getD []).flatMap (resolve nodeMap fromNode output.1 conns.2)) := by
  unfold importSource
  cases hget : nodeMap.get? source.1 with
  | none => exact absurd hget (h.sources source hsource)
  | some fromNode =>
    have hfrom : nodeMap.get? fromNode.name = some fromNode := by
      rw [h.names _ _ hget]
      assumption
    simp only [Option.toList_some, flatMap_cons, flatMap_nil, append_nil]
    apply adds_foldlM
    intro output houtput
    apply adds_foldlM
    intro conns hconns
    apply adds_foldlM
    intro conn hconn
    apply adds_importConnection h.names hfrom
    exact h.targets source hsource output houtput conns hconns conn hconn

theorem mem_imported {c : GraphConnection}
    : c ∈ imported nodeMap connections
        ↔
      ∃ name, ∃ conn ∈ connectionsAt connections name c.type c.outputIndex,
        nodeMap.get? name = some c.fromNode ∧ nodeMap.get? conn.node = some c.toNode
          ∧ conn.index = c.inputIndex := by
  unfold imported resolve
  simp only [mem_flatMap, mem_map, Option.mem_toList]
  constructor
  . rintro ⟨source, hsource, fromNode, hfrom, output, houtput, conns, hconns, conn, hconn, toNode, hto, rfl⟩
    refine ⟨source.1, conn, mem_edgeList (e := ⟨source.1, output.1, conns.2, conn⟩).mp ?_, hfrom, hto, rfl⟩
    simp only [edgeList, edgesOf, mem_flatMap, mem_map]
    exact ⟨source, hsource, output, houtput, conns, hconns, conn, hconn, rfl⟩
  . rintro ⟨name, conn, hconn, hfrom, hto, hindex⟩
    have hedge := (mem_edgeList (e := ⟨name, c.type, c.outputIndex, conn⟩)).mpr hconn
    simp only [edgeList, edgesOf, mem_flatMap, mem_map] at hedge
    obtain ⟨source, hsource, output, houtput, conns, hconns, conn', hconn', heq⟩ := hedge
    injection heq with hname htype houtput' hsame
    subst hname hsame
    refine ⟨source, hsource, c.fromNode, hfrom, output, houtput, conns, hconns, _, hconn', c.toNode, hto, ?_⟩
    rw [htype, houtput', hindex]

theorem addNodes_eq (g : DirectedGraph) (nodes : List INode)
    : g.addNodes nodes
        = { g with nodes := nodes.foldl (fun m node => m.set node.name node) g.nodes } := by
  unfold addNodes
  induction nodes generalizing g with
  | nil => rfl
  | cons node nodes ih =>
    rw [foldl_cons, ih, foldl_cons]
    rfl

theorem eq_imported {nodes : List INode} (h : Resolves (empty.addNodes nodes).nodes connections)
    : fromNodesAndConnections nodes connections
        =
      .ok ⟨(empty.addNodes nodes).nodes,
        (imported (empty.addNodes nodes).nodes connections).foldl (fun m c => m.set (makeKey c) c)
          OrderedMap.empty⟩ := by
  have hadds : Adds (empty.addNodes nodes).nodes
      (fun g => (ownEntries connections).foldlM
        (importSource (empty.addNodes nodes).nodes) g)
      (imported (empty.addNodes nodes).nodes connections) := by
    apply adds_foldlM
    intro source hsource
    rw [mem_ownEntries] at hsource
    apply adds_importSource h hsource
  have hrun := hadds (empty.addNodes nodes) rfl
  unfold fromNodesAndConnections
  rw [addNodes_eq] at hrun ⊢
  exact hrun

end fromNodesAndConnections

structure Built (nodes : List INode) (g : DirectedGraph) : Prop extends Closed g where
  keyed : g.Keyed
  nodes_eq : g.nodes = (empty.addNodes nodes).nodes

theorem addNodes_names (nodes : List INode) (name : String) (node : INode)
    (h : (empty.addNodes nodes).nodes.get? name = some node)
    : node.name = name := by
  rw [fromNodesAndConnections.addNodes_eq] at h
  cases get?_foldl_set_some INode.name nodes _ h with
  | inl hmem => exact hmem.2
  | inr hget => simp [empty] at hget

variable {nodes : List INode} {g : DirectedGraph}

theorem built_addConnection (h : Built nodes g)
    (hadd : g.addConnection input = .ok g')
    : Built nodes g' := by
  have ⟨hfrom, hto, hg'⟩ := addConnection_eq_ok hadd
  subst hg'
  exact { h with ends := forall_mem_set ⟨hfrom, hto⟩ h.ends, keyed := h.keyed.set _ }

theorem built_of_ok
    (h : (empty.addNodes nodes).addConnections inputs = .ok g)
    : Built nodes g := by
  apply inv_of_foldlM_ok (Built nodes) _ _ h
  . intro g input g' _ hg hadd
    apply built_addConnection hg hadd
  . have hconnections : (empty.addNodes nodes).connections = OrderedMap.empty := by
      rw [fromNodesAndConnections.addNodes_eq]
      rfl
    refine { names := addNodes_names nodes, ends := ?_, keyed := ?_, nodes_eq := rfl }
    . rw [hconnections]
      simp [OrderedMap.values, OrderedMap.empty]
    . intro key c hget
      rw [hconnections] at hget
      simp at hget

variable {r : IConnections}

theorem resolves_export (hg : Built nodes g) (h : g.toIConnections = .ok r)
    : fromNodesAndConnections.Resolves (empty.addNodes nodes).nodes r := by
  rw [← hg.nodes_eq]
  refine { names := hg.names, sources := ?_, targets := ?_ }
  . intro source hsource
    have hkey : source.1 ∈ r.keys := mem_map.mpr ⟨source, hsource, rfl⟩
    cases toIConnections.mem_keys_of_export h source.1 hkey with
    | inl hmem => simp [OrderedMap.keys, OrderedMap.empty] at hmem
    | inr hex =>
      obtain ⟨c, hc, hname⟩ := hex
      rw [← hname, (hg.ends c hc).1]
      simp
  . intro source hsource output houtput conns hconns conn hconn
    have hmem : conn ∈ connectionsAt r source.1 output.1 conns.2 := by
      apply mem_edgeList (e := ⟨source.1, output.1, conns.2, conn⟩).mp
      simp only [edgeList, edgesOf, mem_flatMap, mem_map, mem_ownEntries]
      exact ⟨source, hsource, output, houtput, conns, hconns, conn, hconn, rfl⟩
    rw [toIConnections.mem_conns_of_export h] at hmem
    cases hmem with
    | inl hmem => simp [connectionsAt] at hmem
    | inr hex =>
      obtain ⟨c, hc, _, _, _, hconn⟩ := hex
      rw [hconn, (hg.ends c hc).2]
      simp

theorem mem_imported_export (hg : Built nodes g) (h : g.toIConnections = .ok r) (c : GraphConnection)
    : c ∈ fromNodesAndConnections.imported (empty.addNodes nodes).nodes r
      ↔ c ∈ g.connections.values := by
  rw [← hg.nodes_eq, fromNodesAndConnections.mem_imported]
  constructor
  . rintro ⟨name, conn, hconn, hfrom, hto, hindex⟩
    rw [toIConnections.mem_conns_of_export h] at hconn
    cases hconn with
    | inl hmem => simp [connectionsAt] at hmem
    | inr hex =>
      obtain ⟨d, hd, hdname, hdtype, hdout, hdconn⟩ := hex
      have hends := hg.ends d hd
      have heq : d = c := by
        cases d
        cases c
        simp_all
      rw [← heq]
      assumption
  . intro hc
    have hends := hg.ends c hc
    refine ⟨c.fromNode.name, ⟨c.toNode.name, c.type, c.inputIndex⟩, ?_, hends.1, hends.2, rfl⟩
    rw [toIConnections.mem_conns_of_export h]
    right
    exact ⟨c, hc, rfl, rfl, rfl, rfl⟩

theorem mem_values_restored (hg : g.Keyed) {cs : List GraphConnection}
    (hcs : ∀ c, c ∈ cs ↔ c ∈ g.connections.values) (c : GraphConnection)
    : c ∈ (cs.foldl (fun m c => m.set (makeKey c) c) OrderedMap.empty).values
      ↔ c ∈ g.connections.values := by
  have hinj : ∀ c ∈ cs, ∀ d ∈ cs, makeKey c = makeKey d → c = d := by
    intro c hc d hd hkey
    have ⟨k, hk⟩ := mem_values_iff.mp ((hcs c).mp hc)
    have ⟨l, hl⟩ := mem_values_iff.mp ((hcs d).mp hd)
    rw [hg k c hk] at hk
    rw [hg l d hl, ← hkey, hk] at hl
    injection hl
  rw [mem_values_iff]
  constructor
  . intro ⟨key, hget⟩
    cases get?_foldl_set_some makeKey cs _ hget with
    | inl hmem => exact (hcs c).mp hmem.1
    | inr hget => simp at hget
  . intro hc
    rw [← hcs] at hc
    exact ⟨makeKey c, get?_foldl_set_of_agree _ _ _ (fun x hx => hinj x hx c hc) (.inl ⟨hc, rfl⟩)⟩

theorem roundTrips_iff (nodes : List INode) (inputs : List ConnectionInput) (g : DirectedGraph)
    (hbuilt : (empty.addNodes nodes).addConnections inputs = .ok g)
    : RoundTrips nodes g ↔ Exportable g := by
  have hg := built_of_ok hbuilt
  rw [← toIConnections_ok_iff]
  constructor
  . intro ⟨r, _, hr, _⟩
    exact ⟨r, hr⟩
  . intro ⟨r, hr⟩
    refine ⟨r, _, hr, fromNodesAndConnections.eq_imported (resolves_export hg hr), ?_, ?_⟩
    . rw [hg.nodes_eq]
    . intro c
      apply mem_values_restored hg.keyed
      exact mem_imported_export hg hr

def agentNode : INode := ⟨0, "Agent", "n8n-nodes-base.noOp", false, .object []⟩
def toolNode : INode := ⟨1, "Tool", "n8n-nodes-base.noOp", false, .object []⟩

def sparseInputs : List ConnectionInput := [
  ⟨agentNode, toolNode, none, some 2, none⟩,
  ⟨agentNode, agentNode, none, some 2, some 1⟩]

theorem roundTrips_iff_sparse
    : ∃ g, (empty.addNodes [agentNode, toolNode]).addConnections sparseInputs = .ok g
      ∧ RoundTrips [agentNode, toolNode] g :=
  ⟨_, rfl, (roundTrips_iff [agentNode, toolNode] sparseInputs _ rfl).mpr ⟨by decide, by decide⟩⟩

def twoTypes : List ConnectionInput := [
  ⟨toolNode, agentNode, some .main, none, none⟩,
  ⟨toolNode, agentNode, some .aiTool, none, none⟩]

theorem not_roundTrips_twoTypes
    : ∃ g, (empty.addNodes [agentNode, toolNode]).addConnections twoTypes = .ok g
      ∧ g.toIConnections = .error .typeError
      ∧ ¬RoundTrips [agentNode, toolNode] g := by
  refine ⟨_, rfl, rfl, ?_⟩
  intro ⟨r, _, hr, _⟩
  contradiction

end DirectedGraph
end N8n
