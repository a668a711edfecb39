import AppSuite.N8n.DirectedGraph.Basic
import AppSuite.System.Run

/-!
This module contains the representation invariant of `DirectedGraph` over runs of its operations.
-/

namespace N8n

open OrderedMap
namespace DirectedGraph

inductive Op where
  | addNode (node : INode)
  | addConnection (connectionInput : ConnectionInput)
  | removeNode (node : INode) (options : RemoveNodeBaseOptions)

structure Tracked where
  graph : DirectedGraph
  added : List GraphConnection

namespace Tracked

def init : Tracked := ⟨.empty, []⟩

variable (t : Tracked) (op : Op)

-- A call that throws does so before it changes anything.
def step : Tracked :=
  match op with
  | .addNode node => { t with graph := t.graph.addNode node }
  | .addConnection connectionInput =>
    match t.graph.addConnection connectionInput with
    | .ok graph => ⟨graph, connectionInput.toConnection :: t.added⟩
    | .error _ => t
  | .removeNode node options =>
    match t.graph.removeNode node options with
    | .ok (graph, _) =>
      ⟨graph, t.added.filter fun c => c.fromNode.name ≠ node.name ∧ c.toNode.name ≠ node.name⟩
    | .error _ => t

structure Sound (t : Tracked) : Prop where
  ends : ∀ c ∈ t.graph.connections.values,
    t.graph.nodes.get? c.fromNode.name = some c.fromNode
      ∧ t.graph.nodes.get? c.toNode.name = some c.toNode
  kept : ∀ c ∈ t.added, c ∈ t.graph.connections.values

def Fresh : Prop :=
  match op with
  | .addNode node => t.graph.nodes.get? node.name = none
  | _ => True

def NameFree (g : DirectedGraph) (node : INode) : Prop :=
  ∀ stored ∈ g.nodes.get? node.name, stored ≠ node →
    ∀ c ∈ g.connections.values, c.fromNode ≠ stored ∧ c.toNode ≠ stored

def BridgeFree (node : INode) (options : RemoveNodeBaseOptions) : Prop :=
  (∀ c ∈ t.graph.connections.values, c.fromNode = node → c.toNode = node → options.skips c = true)
    ∧
  (∀ c ∈ t.added, c.fromNode ≠ node → c.toNode ≠ node →
    ∀ i ∈ t.graph.connections.values, i.toNode = node → options.skips i = false →
    ∀ o ∈ t.graph.connections.values, o.fromNode = node → options.skips o = false →
      makeKey { i with toNode := o.toNode, inputIndex := o.inputIndex } = makeKey c →
        { i with toNode := o.toNode, inputIndex := o.inputIndex } = c)

def Harmless : Prop :=
  match op with
  | .addNode _ => True
  | .addConnection connectionInput =>
    ∀ c ∈ t.added, makeKey c = makeKey connectionInput.toConnection → c = connectionInput.toConnection
  | .removeNode node options =>
    if options.reconnectConnections then BridgeFree t node options else NameFree t.graph node

instance (g : DirectedGraph) (node : INode) : Decidable (NameFree g node) := by
  unfold NameFree
  infer_instance

instance (t : Tracked) (node : INode) (options : RemoveNodeBaseOptions)
    : Decidable (BridgeFree t node options) :=
  inferInstanceAs (Decidable (_ ∧ _))

instance (t : Tracked) (op : Op) : Decidable (Fresh t op) := by
  cases op <;> unfold Fresh <;> infer_instance

instance (t : Tracked) (op : Op) : Decidable (Harmless t op) := by
  cases op <;> unfold Harmless <;> infer_instance

structure Inv (t : Tracked) : Prop extends Sound t where
  keyed : t.graph.Keyed

theorem inv_init : Inv init := by
  refine { ends := ?_, kept := ?_, keyed := ?_ }
  . simp [init, empty, OrderedMap.values, OrderedMap.empty]
  . simp [init]
  . intro key c h
    simp [init, empty] at h

variable {t : Tracked} {node : INode} {c : GraphConnection} {options : RemoveNodeBaseOptions}

theorem inv_addNode (h : Inv t) (hfresh : Fresh t (.addNode node)) : Inv (t.step (.addNode node)) := by
  have hne : ∀ name stored, t.graph.nodes.get? name = some stored → node.name ≠ name := by
    intro name stored hget heq
    dsimp [Fresh] at hfresh
    rw [heq, hget] at hfresh
    contradiction
  refine { ends := ?_, kept := h.kept, keyed := h.keyed }
  intro c hc
  have hends := h.ends c hc
  dsimp [step, addNode]
  rw [get?_set_ne _ _ (hne _ _ hends.1), get?_set_ne _ _ (hne _ _ hends.2)]
  assumption

theorem inv_addConnection (h : Inv t) (hok : Harmless t (.addConnection input))
    : Inv (t.step (.addConnection input)) := by
  unfold step
  dsimp
  split
  . next graph hadd =>
    have ⟨hfrom, hto, hgraph⟩ := addConnection_eq_ok hadd
    subst hgraph
    refine { ends := forall_mem_set ⟨hfrom, hto⟩ h.ends, kept := ?_, keyed := h.keyed.set _ }
    intro c hc
    rw [mem_values_iff]
    cases List.mem_cons.mp hc with
    | inl heq =>
      refine ⟨makeKey input.toConnection, ?_⟩
      rw [heq, get?_set_self]
    | inr hmem =>
      have hstored := h.kept c hmem
      have ⟨key, hget⟩ := mem_values_iff.mp hstored
      refine ⟨key, ?_⟩
      rw [get?_set]
      split
      . next heq =>
        rw [hok c hmem]
        rw [← h.keyed key c hget, heq]
      . assumption
  . assumption

variable {g : DirectedGraph} {key : String}

theorem mem_withoutNode
    : (g.withoutNode node).get? key = some c
      ↔ g.connections.get? key = some c ∧ c.fromNode ≠ node ∧ c.toNode ≠ node := by
  rw [get?_eq_some_iff, get?_eq_some_iff]
  simp [withoutNode]
  tauto

theorem nameFree_of_stored (h : g.nodes.get? node.name = some node) : NameFree g node := by
  intro stored hstored hne
  rw [h, Option.mem_def] at hstored
  injection hstored with hstored
  exact absurd hstored.symm hne

section

variable (h : Inv t) (hfree : NameFree t.graph node)

include h hfree

theorem get?_delete_from (hc : c ∈ t.graph.connections.values) (hne : c.fromNode ≠ node)
    : (t.graph.nodes.delete node.name).get? c.fromNode.name = some c.fromNode := by
  have hends := (h.ends c hc).1
  rw [get?_delete]
  split
  . next heq =>
    rw [← heq] at hends
    have := (hfree c.fromNode hends hne c hc).1
    contradiction
  . assumption

theorem get?_delete_to (hc : c ∈ t.graph.connections.values) (hne : c.toNode ≠ node)
    : (t.graph.nodes.delete node.name).get? c.toNode.name = some c.toNode := by
  have hends := (h.ends c hc).2
  rw [get?_delete]
  split
  . next heq =>
    rw [← heq] at hends
    have := (hfree c.toNode hends hne c hc).2
    contradiction
  . assumption

theorem ends_withoutNode (hc : (t.graph.withoutNode node).get? key = some c)
    : (t.graph.nodes.delete node.name).get? c.fromNode.name = some c.fromNode
      ∧ (t.graph.nodes.delete node.name).get? c.toNode.name = some c.toNode := by
  rw [mem_withoutNode] at hc
  have hmem := mem_values_iff.mpr ⟨key, hc.1⟩
  exact ⟨get?_delete_from h hfree hmem hc.2.1, get?_delete_to h hfree hmem hc.2.2⟩

end

theorem get?_withoutNode_of_added (h : Inv t)
    (hc : c ∈ t.added.filter fun c => c.fromNode.name ≠ node.name ∧ c.toNode.name ≠ node.name)
    : (t.graph.withoutNode node).get? (makeKey c) = some c := by
  rw [List.mem_filter, decide_eq_true_eq] at hc
  have ⟨key, hget⟩ := mem_values_iff.mp (h.kept c hc.1)
  have hkey := h.keyed key c hget
  subst hkey
  rw [mem_withoutNode]
  refine ⟨hget, ?_, ?_⟩
  . intro heq
    apply hc.2.1
    rw [heq]
  . intro heq
    apply hc.2.2
    rw [heq]

theorem ends_reconnected (h : Inv t) (hfree : NameFree t.graph node)
    (hloop : ∀ c ∈ t.graph.connections.values, c.fromNode = node → c.toNode = node → options.skips c = true)
    (hc : c ∈ reconnected options (t.graph.connections.values.filter fun c => c.toNode = node)
      (t.graph.connections.values.filter fun c => c.fromNode = node))
    : (t.graph.nodes.delete node.name).get? c.fromNode.name = some c.fromNode
      ∧ (t.graph.nodes.delete node.name).get? c.toNode.name = some c.toNode := by
  have ⟨i, hi, o, ho, hiskip, hoskip, heq⟩ := mem_reconnected.mp hc
  simp only [List.mem_filter, decide_eq_true_eq] at hi ho
  subst heq
  constructor
  . apply get?_delete_from h hfree hi.1
    intro hfrom
    have := hloop i hi.1 hfrom hi.2
    simp [this] at hiskip
  . apply get?_delete_to h hfree ho.1
    intro hto
    have := hloop o ho.1 ho.2 hto
    simp [this] at hoskip

theorem inv_removed (new : List GraphConnection) (h : Inv t) (hfree : NameFree t.graph node)
    (hends : ∀ c ∈ new, (t.graph.nodes.delete node.name).get? c.fromNode.name = some c.fromNode
      ∧ (t.graph.nodes.delete node.name).get? c.toNode.name = some c.toNode)
    (hagree : ∀ c ∈ t.added, c.fromNode ≠ node → c.toNode ≠ node → ∀ x ∈ new, makeKey x = makeKey c → x = c)
    : Inv ⟨⟨t.graph.nodes.delete node.name,
        new.foldl (fun m c => m.set (makeKey c) c) (t.graph.withoutNode node)⟩,
      t.added.filter fun c => c.fromNode.name ≠ node.name ∧ c.toNode.name ≠ node.name⟩ := by
  refine { ends := ?_, kept := ?_, keyed := ?_ }
  . intro c hc
    have ⟨key, hget⟩ := mem_values_iff.mp hc
    cases get?_foldl_set_some makeKey new _ hget with
    | inl hmem => exact hends c hmem.1
    | inr hold => apply ends_withoutNode h hfree hold
  . intro c hc
    have hget := get?_withoutNode_of_added h hc
    have ⟨_, hfrom, hto⟩ := mem_withoutNode.mp hget
    rw [mem_values_iff]
    refine ⟨makeKey c, ?_⟩
    apply get?_foldl_set_of_agree
    . exact hagree c (List.mem_of_mem_filter hc) hfrom hto
    . exact .inr hget
  . intro key c hget
    cases get?_foldl_set_some makeKey new _ hget with
    | inl hmem => exact hmem.2.symm
    | inr hold =>
      rw [mem_withoutNode] at hold
      apply h.keyed
      exact hold.1

theorem inv_removeNode (h : Inv t) (hok : Harmless t (.removeNode node options))
    : Inv (t.step (.removeNode node options)) := by
  unfold step
  dsimp
  split
  . next graph _ hremove =>
    cases removeNode_eq_ok hremove with
    | inl hplain =>
      have ⟨hopt, hres⟩ := hplain
      injection hres with hgraph
      subst hgraph
      simp only [Harmless, hopt, Bool.false_eq_true, ↓reduceIte] at hok
      exact inv_removed [] h hok nofun nofun
    | inr hreconnect =>
      have ⟨hopt, hstored, new, hnew, hres⟩ := hreconnect
      injection hres with hgraph
      subst hgraph
      subst hnew
      have hfree := nameFree_of_stored hstored
      simp only [Harmless, hopt, ↓reduceIte] at hok
      apply inv_removed _ h hfree
      . intro c hc
        exact ends_reconnected h hfree hok.1 hc
      . intro c hc hfrom hto x hx hkey
        have ⟨i, hi, o, ho, hiskip, hoskip, heq⟩ := mem_reconnected.mp hx
        simp only [List.mem_filter, decide_eq_true_eq] at hi ho
        subst heq
        apply hok.2 c hc hfrom hto i hi.1 hi.2 hiskip o ho.1 ho.2 hoskip hkey
  . assumption

theorem inv_step {op : Op} (h : Inv t) (hfresh : Fresh t op) (hok : Harmless t op) : Inv (t.step op) := by
  cases op with
  | addNode node => apply inv_addNode h hfresh
  | addConnection input => apply inv_addConnection h hok
  | removeNode node options => apply inv_removeNode h hok

end Tracked

theorem sound_of_harmless (ops : List Op)
    (h : Run.Along Tracked.step (fun t op => t.Fresh op ∧ t.Harmless op) .init ops)
    : Run.Always Tracked.step Tracked.Sound .init ops := by
  apply Run.always_of_along Tracked.Inv ?_ ?_ Tracked.inv_init h
  . intro t ht
    exact ht.toSound
  . intro t op ht hop
    apply Tracked.inv_step ht hop.1 hop.2

def nodeA : INode := ⟨0, "A", "n8n-nodes-base.noOp", false, .object []⟩
def nodeB : INode := ⟨1, "B", "n8n-nodes-base.noOp", false, .object []⟩
def nodeC : INode := ⟨2, "C", "n8n-nodes-base.noOp", false, .object []⟩

def bridgedChain : List Op := [
  .addNode nodeA, .addNode nodeB, .addNode nodeC,
  .addConnection ⟨nodeA, nodeB, none, none, none⟩,
  .addConnection ⟨nodeB, nodeC, none, none, some 1⟩,
  .removeNode nodeB ⟨true, none⟩]

theorem sound_of_harmless_bridgedChain
    : Run.Always Tracked.step Tracked.Sound .init bridgedChain
      ∧ (bridgedChain.foldl Tracked.step .init).graph.connections.values = [⟨nodeA, nodeC, .main, 0, 1⟩] :=
  ⟨sound_of_harmless bridgedChain (by decide), by decide⟩

def bridgedLoop : List Op := [
  .addNode nodeA,
  .addConnection ⟨nodeA, nodeA, none, none, none⟩,
  .removeNode nodeA ⟨true, none⟩]

def hyphenLong : INode := ⟨1, "A-main-0-0-B", "n8n-nodes-base.noOp", false, .object []⟩
def hyphenTail : INode := ⟨2, "B-main-0-0-C", "n8n-nodes-base.noOp", false, .object []⟩
def hyphenEnd : INode := ⟨3, "C", "n8n-nodes-base.noOp", false, .object []⟩

def sharedKey : List Op := [
  .addNode nodeA, .addNode hyphenLong, .addNode hyphenTail, .addNode hyphenEnd,
  .addConnection ⟨nodeA, hyphenTail, none, none, none⟩,
  .addConnection ⟨hyphenLong, hyphenEnd, none, none, none⟩]

theorem not_sound_loop_and_hyphen
    : (Run.Along Tracked.step Tracked.Fresh .init bridgedLoop
          ∧ ¬Run.Always Tracked.step Tracked.Sound .init bridgedLoop)
        ∧
      (Run.Along Tracked.step Tracked.Fresh .init sharedKey
          ∧ ¬Run.Always Tracked.step Tracked.Sound .init sharedKey) := by
  refine ⟨⟨by decide, ?_⟩, ⟨by decide, ?_⟩⟩
  . intro h
    have hends := h.last.ends ⟨nodeA, nodeA, .main, 0, 0⟩ (by decide)
    exact absurd hends (by decide)
  . intro h
    have hkept := h.last.kept ⟨nodeA, hyphenTail, .main, 0, 0⟩ (by decide)
    exact absurd hkept (by decide)

end DirectedGraph
end N8n
