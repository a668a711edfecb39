import AppSuite.Graph.Explore
import AppSuite.N8n.DirectedGraph.Basic

/-!
This module contains `getStronglyConnectedComponents`, and that its recursion is a depth first
search, and the two recursions that collect what lies behind a node and what leads to it.
-/

namespace N8n
namespace DirectedGraph

open DepthFirst

structure ComponentSearch where
  id : Nat
  visited : OrderedSet INode
  ids : OrderedMap INode Nat
  lowLinkValues : OrderedMap INode Nat
  stack : List INode
  stronglyConnectedComponents : List (OrderedSet INode)

namespace ComponentSearch

def empty : ComponentSearch := ⟨0, .empty, .empty, .empty, [], []⟩

variable (s : ComponentSearch) (node : INode)

def discover : ComponentSearch :=
  { s with
    visited := s.visited.add node
    lowLinkValues := s.lowLinkValues.set node s.id
    ids := s.ids.set node s.id
    id := s.id + 1
    stack := node :: s.stack }

def linkChild (node child : INode) : Except JsError ComponentSearch :=
  if child ∈ s.stack then
    match s.lowLinkValues.get? child, s.lowLinkValues.get? node with
    | some childLowLinkValue, some ownLowLinkValue =>
      let lowestLowLinkValue := min childLowLinkValue ownLowLinkValue
      .ok { s with lowLinkValues := s.lowLinkValues.set node lowestLowLinkValue }
    | _, _ => .error (.assertionError "")
  else
    .ok s

def popComponent (lowLinkValues : OrderedMap INode Nat) (ownId : Nat)
    : List INode → OrderedSet INode → List INode × OrderedSet INode
  | [], scc => ([], scc)
  | next :: stack, scc =>
    if lowLinkValues.get? next = some ownId then
      popComponent lowLinkValues ownId stack (scc.add next)
    else
      (next :: stack, scc)

def finish : Except JsError ComponentSearch :=
  match s.ids.get? node, s.lowLinkValues.get? node with
  | some ownId, some ownLowLinkValue =>
    if ownId = ownLowLinkValue then
      let popped := popComponent s.lowLinkValues ownId s.stack .empty
      .ok { s with
        stack := popped.1
        stronglyConnectedComponents :=
          if popped.2.size > 0 then
            s.stronglyConnectedComponents ++ [popped.2]
          else
            s.stronglyConnectedComponents }
    else
      .ok s
  | _, _ => .error (.assertionError "")

end ComponentSearch

def followNode (g : DirectedGraph) : Nat → INode → ComponentSearch → Except JsError ComponentSearch
  | 0, _, s => .ok s
  | fuel + 1, node, s =>
    if s.visited.has node then
      .ok s
    else
      match g.getDirectChildConnections node with
      | .error e => .error e
      | .ok connections => do
        let s ← (connections.map (·.toNode)).foldlM
          (fun s child => do
            let s ← followNode g fuel child s
            s.linkChild node child)
          (s.discover node)
        s.finish node

-- The recursion is not deeper than there are nodes.
def getStronglyConnectedComponents (g : DirectedGraph) : Except JsError (List (OrderedSet INode)) := do
  let s ← g.nodes.values.foldlM (fun s node => followNode g (g.nodes.values.length + 1) node s) .empty
  return s.stronglyConnectedComponents

def children (g : DirectedGraph) (node : INode) : List INode :=
  (g.connections.values.filter fun c => c.fromNode = node).map (·.toNode)

namespace ComponentSearch

def handle (s : ComponentSearch) (event : Event INode) : Except JsError ComponentSearch :=
  match event with
  | .enter node => .ok (s.discover node)
  | .edge node child => s.linkChild node child
  | .leave node => s.finish node

variable {s s' : ComponentSearch} {node : INode}

theorem visited_linkChild (h : s.linkChild node child = .ok s')
    : s'.visited = s.visited := by
  unfold linkChild at h
  split at h
  . split at h
    . injection h with h
      rw [← h]
    . contradiction
  . injection h with h
    rw [h]

theorem visited_finish (h : s.finish node = .ok s') : s'.visited = s.visited := by
  unfold finish at h
  split at h
  . split at h
    . injection h with h
      rw [← h]
    . injection h with h
      rw [h]
  . contradiction

end ComponentSearch

section

variable {g : DirectedGraph} {node : INode}

theorem mem_values_iff_of_closed (hclosed : g.Closed)
    : node ∈ g.nodes.values ↔ g.nodes.get? node.name = some node := by
  rw [OrderedMap.mem_values_iff]
  apply Iff.intro
  . intro h
    have ⟨name, hname⟩ := h
    rw [hclosed.names name node hname]
    assumption
  . intro h
    exact ⟨_, h⟩

theorem mem_values_of_children (hclosed : g.Closed) (h : child ∈ g.children node)
    : child ∈ g.nodes.values := by
  unfold children at h
  rw [List.mem_map] at h
  have ⟨c, hc, heq⟩ := h
  rw [mem_values_iff_of_closed hclosed, ← heq]
  exact (hclosed.ends c (List.mem_of_mem_filter hc)).2

def Follows (s : ComponentSearch) (result : Except JsError ComponentSearch)
    (search : List (Event INode) × List INode) : Prop :=
  result = search.1.foldlM ComponentSearch.handle s
    ∧ ∀ s', result = .ok s' → s'.visited.elems = search.2

namespace Follows

variable {s : ComponentSearch}

theorem stay (s : ComponentSearch) : Follows s (.ok s) ([], s.visited.elems) := by
  refine ⟨rfl, ?_⟩
  intro s' hs'
  injection hs' with hs'
  rw [hs']

variable {result : Except JsError ComponentSearch}

theorem bind {next : ComponentSearch → Except JsError ComponentSearch}
    {rest : List INode → List (Event INode) × List INode} (h : Follows s result first)
    (hnext : ∀ s', Follows s' (next s') (rest s'.visited.elems))
    : Follows s (result >>= next) (first.1 ++ (rest first.2).1, (rest first.2).2) := by
  unfold Follows
  rw [List.foldlM_append, ← h.1]
  cases hresult : result with
  | error e =>
    refine ⟨rfl, ?_⟩
    intro s' hs'
    contradiction
  | ok s' =>
    rw [← h.2 s' hresult]
    exact hnext s'

theorem event (event : Event INode) (hresult : s.handle event = result)
    (hvisited : ∀ s', result = .ok s' → s'.visited.elems = visited)
    : Follows s result ([event], visited) := by
  refine ⟨?_, hvisited⟩
  rw [List.foldlM_cons, hresult]
  cases result <;> rfl

end Follows

theorem follows_children
    (hfollow : ∀ child s, child ∈ g.nodes.values →
      Follows s (followNode g fuel child s) (visit g.children fuel child s.visited.elems))
    (hcs : ∀ c ∈ cs, c ∈ g.nodes.values) (s : ComponentSearch)
    : Follows s
      (cs.foldlM (fun s child => do
        let s ← followNode g fuel child s
        s.linkChild node child) s)
      (visitAll (visit g.children fuel) node cs s.visited.elems) := by
  induction cs generalizing s with
  | nil => exact Follows.stay s
  | cons c cs ih =>
    rw [List.forall_mem_cons] at hcs
    have hlink (s' : ComponentSearch)
        : Follows s' (s'.linkChild node c) ([.edge node c], s'.visited.elems) := by
      apply Follows.event (.edge node c) rfl
      intro s'' hs''
      rw [ComponentSearch.visited_linkChild hs'']
    have hall := ((hfollow c s hcs.1).bind hlink).bind (ih hcs.2)
    rw [List.append_assoc] at hall
    exact hall

theorem follows_followNode (hclosed : g.Closed) (fuel : Nat) (node : INode) (s : ComponentSearch)
    (hnode : node ∈ g.nodes.values)
    : Follows s (followNode g fuel node s) (visit g.children fuel node s.visited.elems) := by
  induction fuel generalizing node s with
  | zero => exact Follows.stay s
  | succ fuel ih =>
    unfold followNode visit
    by_cases hvisited : node ∈ s.visited.elems
    . rw [if_pos hvisited, if_pos (OrderedSet.has_iff.mpr hvisited)]
      exact Follows.stay s
    . have hhas : ¬s.visited.has node = true := by
        rw [OrderedSet.has_iff]
        assumption
      have hconns : g.getDirectChildConnections node
          = .ok (g.connections.values.filter fun c => c.fromNode = node) := by
        unfold getDirectChildConnections
        rw [if_pos]
        rw [nodeExists_iff, ← mem_values_iff_of_closed hclosed]
        assumption
      rw [if_neg hvisited, if_neg hhas, hconns]
      have hdiscover : (s.discover node).visited.elems = s.visited.elems ++ [node] := by
        unfold ComponentSearch.discover OrderedSet.add
        rw [dif_neg hvisited]
      have henter : Follows s (.ok (s.discover node)) ([.enter node], s.visited.elems ++ [node]) := by
        apply Follows.event (.enter node) rfl
        intro s' hs'
        injection hs' with hs'
        rw [← hs', hdiscover]
      have hchildren : ∀ c ∈ g.children node, c ∈ g.nodes.values := fun _ => mem_values_of_children hclosed
      have hleave (s' : ComponentSearch)
          : Follows s' (s'.finish node) ([.leave node], s'.visited.elems) := by
        apply Follows.event (.leave node) rfl
        intro s'' hs''
        rw [ComponentSearch.visited_finish hs'']
      exact (henter.bind (follows_children ih hchildren)).bind hleave

theorem follows_nodes (hclosed : g.Closed) (fuel : Nat) {nodes : List INode}
    (hnodes : ∀ node ∈ nodes, node ∈ g.nodes.values) (s : ComponentSearch)
    : Follows s (nodes.foldlM (fun s node => followNode g fuel node s) s)
      (search g.children fuel nodes s.visited.elems) := by
  induction nodes generalizing s with
  | nil => exact Follows.stay s
  | cons node nodes ih =>
    rw [List.forall_mem_cons] at hnodes
    exact (follows_followNode hclosed fuel node s hnodes.1).bind (ih hnodes.2)

end

open Explore Relation

variable (g : DirectedGraph) (node : INode)

def directChildren : Except JsError (List INode) := do
  let connections ← g.getDirectChildConnections node
  return connections.map (·.toNode)

def getChildrenRecursive : Nat → INode → OrderedSet INode → Except JsError (OrderedSet INode) :=
  explore g.directChildren id

-- A child is entered once, so that the recursion is not deeper than there are nodes.
def getChildren : Except JsError (OrderedSet INode) :=
  g.getChildrenRecursive (g.nodes.values.length + 1) node .empty

def getParentConnectionsRecursive
    : Nat → INode → OrderedSet GraphConnection → Except JsError (OrderedSet GraphConnection) :=
  explore g.getDirectParentConnections (·.fromNode)

def getParentConnections : Except JsError (OrderedSet GraphConnection) :=
  g.getParentConnectionsRecursive (g.connections.values.length + 1) node .empty

def Leads (u v : INode) : Prop :=
  ∃ c ∈ g.connections.values, c.fromNode = u ∧ c.toNode = v

variable {g : DirectedGraph} {node : INode}

theorem mem_children_iff : child ∈ g.children node ↔ g.Leads node child := by
  simp [children, Leads, and_assoc]

theorem getDirectChildConnections_ok (hnode : g.nodes.get? node.name = some node)
    : g.getDirectChildConnections node = .ok (g.connections.values.filter fun c => c.fromNode = node) :=
  if_pos (nodeExists_iff g node |>.mpr hnode)

theorem getDirectParentConnections_ok (hnode : g.nodes.get? node.name = some node)
    : g.getDirectParentConnections node = .ok (g.connections.values.filter fun c => c.toNode = node) :=
  if_pos (nodeExists_iff g node |>.mpr hnode)

theorem get?_of_getChildren {children : OrderedSet INode} (h : g.getChildren node = .ok children)
    : g.nodes.get? node.name = some node := by
  by_contra hnot
  have herror : g.getDirectChildConnections node = .error (.assertionError "") := by
    rw [getDirectChildConnections, if_neg]
    rw [nodeExists_iff]
    exact hnot
  rw [getChildren, getChildrenRecursive, explore, directChildren, herror] at h
  cases h

variable (hclosed : g.Closed) (hnode : g.nodes.get? node.name = some node)

include hclosed hnode

theorem exists_getChildren
    : ∃ children, g.getChildren node = .ok children
        ∧ ∀ x, x ∈ children.elems ↔ TransGen g.Leads node x := by
  have hnext (n : INode) (hn : g.nodes.get? n.name = some n)
      : g.directChildren n = .ok (g.children n) := by
    rw [directChildren, getDirectChildConnections_ok hn]
    rfl
  have ⟨children, hok, hmem⟩ := exists_explore_empty id g.children g.nodes.values
    (fun n => g.nodes.get? n.name = some n) hnext
    (fun n _ child hchild => by
      have hvalue := mem_values_of_children hclosed hchild
      exact ⟨hvalue, (mem_values_iff_of_closed hclosed).mp hvalue⟩) hnode
  refine ⟨children, hok, ?_⟩
  intro x
  rw [hmem, TransGen.head'_iff]
  simp only [Worklist.reach, Set.mem_ofPred_eq, id, mem_children_iff]

theorem exists_getParentConnections
    : ∃ cs, g.getParentConnections node = .ok cs
        ∧ ∀ c, c ∈ cs.elems ↔ c ∈ g.connections.values ∧ ReflTransGen g.Leads c.toNode node := by
  have ⟨cs, hok, hmem⟩ := exists_explore_empty (·.fromNode)
    (fun n => g.connections.values.filter fun c => c.toNode = n) g.connections.values
    (fun n => g.nodes.get? n.name = some n)
    (fun n hn => getDirectParentConnections_ok hn)
    (fun n _ c hc => by
      have hvalue := List.mem_of_mem_filter hc
      exact ⟨hvalue, (hclosed.ends c hvalue).1⟩) hnode
  refine ⟨cs, hok, ?_⟩
  intro c
  rw [hmem]
  simp only [Worklist.reach, Set.mem_ofPred_eq, List.mem_filter, decide_eq_true_eq]
  constructor
  . rintro ⟨first, hfirst, hpath⟩
    induction hpath with
    | refl =>
      rw [hfirst.2]
      exact ⟨hfirst.1, .refl⟩
    | tail _ hstep ih => exact ⟨hstep.1, ih.2.head ⟨_, ih.1, hstep.2.symm, rfl⟩⟩
  . rintro ⟨hc, hpath⟩
    generalize htarget : c.toNode = target at hpath
    induction hpath using ReflTransGen.head_induction_on generalizing c with
    | refl => exact ⟨c, ⟨hc, htarget⟩, .refl⟩
    | head hleads _ ih =>
      have ⟨d, hd, hfrom, hto⟩ := hleads
      have ⟨first, hfirst, hpath⟩ := ih d hd hto
      exact ⟨first, hfirst, hpath.tail ⟨hc, by rw [htarget, hfrom]⟩⟩

end DirectedGraph
end N8n
