import AppSuite.N8n.DirectedGraph.ComponentsCorrect

/-!
This module contains `findSubgraph`, and that it keeps every way from the trigger to the destination.
-/

namespace N8n

open DepthFirst DirectedGraph ExceptFold Relation

namespace DirectedGraph

def addConnectionAndNodes (newGraph : DirectedGraph) (c : GraphConnection) : Except JsError DirectedGraph :=
  (newGraph.addNodes [c.fromNode, c.toNode]).addConnection
    ⟨c.fromNode, c.toNode, some c.type, some c.outputIndex, some c.inputIndex⟩

def keepBranch (newGraph : DirectedGraph) (currentBranch : List GraphConnection)
    : Except JsError DirectedGraph :=
  currentBranch.foldlM addConnectionAndNodes newGraph

end DirectedGraph

structure FindSubgraphOptions where
  graph : DirectedGraph
  destination : INode
  trigger : INode

namespace FindSubgraphOptions

variable (o : FindSubgraphOptions)

-- Without fuel the recursion ends with an error that is none of the errors of the source.
def findSubgraphRecursive
    : Nat → INode → DirectedGraph → List GraphConnection → Except (Option JsError) DirectedGraph
  | 0, _, _, _ => .error none
  | fuel + 1, current, newGraph, currentBranch => do
    if current = o.trigger then
      ((newGraph.addNode o.trigger).keepBranch currentBranch).mapError some
    else
      let parentConnections ← (o.graph.getDirectParentConnections current).mapError some
      if parentConnections.isEmpty then
        return newGraph
      else if current = o.destination ∧ currentBranch.any (·.toNode = o.destination) then
        return newGraph
      else if currentBranch.any (·.toNode = current) then
        (newGraph.keepBranch currentBranch).mapError some
      else
        parentConnections.foldlM (fun newGraph c =>
          if c.type ≠ .main then
            .ok newGraph
          else
            findSubgraphRecursive fuel c.fromNode newGraph (currentBranch ++ [c])) newGraph

def addUtilities (subgraph : DirectedGraph) (node : INode) : Except JsError DirectedGraph := do
  let parentConnections ← o.graph.getParentConnections node
  parentConnections.elems.foldlM (fun subgraph c =>
    if c.type = .main then
      .ok subgraph
    else
      subgraph.addConnectionAndNodes c) subgraph

def findSubgraph : Except (Option JsError) DirectedGraph := do
  let subgraph ← o.findSubgraphRecursive (o.graph.nodes.values.length + 1) o.destination .empty []
  (subgraph.nodes.values.foldlM o.addUtilities subgraph).mapError some

end FindSubgraphOptions

namespace DirectedGraph

abbrev Part := INode ⊕ GraphConnection

def Holds (g : DirectedGraph) : Part → Prop
  | .inl node => g.nodes.get? node.name = some node
  | .inr c => g.connections.get? (makeKey c) = some c

structure Within (g sub : DirectedGraph) : Prop where
  nodes : sub.nodes.Submap g.nodes
  connections : sub.connections.Submap g.connections

def parts (c : GraphConnection) : List (Part) := [.inl c.fromNode, .inl c.toNode, .inr c]

-- The action ends, and what it adds to `sub` are parts of `g`.
def Adds {ε : Type} (g sub : DirectedGraph) (P : Part → Prop)
    (x : Except ε DirectedGraph) : Prop :=
  Ends (fun _ => False) (fun sub' => g.Within sub' ∧ ∀ p, sub'.Holds p ↔ sub.Holds p ∨ P p) x

variable {ε α : Type} {g sub : DirectedGraph} {node : INode} {c : GraphConnection}

namespace Adds

variable {P Q : Part → Prop} {x : Except ε DirectedGraph}

theorem exists_ok (h : Adds g sub P x) : ∃ sub', x = .ok sub' ∧ Adds g sub P (.ok sub' : Except ε _) := by
  cases x with
  | ok sub' => exact ⟨sub', rfl, h⟩
  | error e => exact h.elim

theorem congr (h : Adds g sub P x) (hPQ : ∀ p, P p ↔ Q p) : Adds g sub Q x := by
  simpa [Adds, hPQ] using h

theorem mapError {ε' : Type} (h : Adds g sub P x) (f : ε → ε') : Adds g sub P (x.mapError f) :=
  Ends.mapError h

theorem foldlM {f : DirectedGraph → α → Except ε DirectedGraph} {P : α → Part → Prop} {xs : List α}
    (hf : ∀ sub, ∀ x ∈ xs, g.Within sub → Adds g sub (P x) (f sub x)) (hsub : g.Within sub)
    : Adds g sub (fun p => ∃ x ∈ xs, P x p) (xs.foldlM f sub) :=
  Ends.foldlM_collect g.Within Holds hf hsub

end Adds

theorem Within.addNode (h : g.Within sub) (hnode : g.nodes.get? node.name = some node)
    : g.Within (sub.addNode node) ∧ ∀ p, (sub.addNode node).Holds p ↔ sub.Holds p ∨ p = .inl node := by
  have ⟨hnodes, hget⟩ := h.nodes.set hnode
  refine ⟨⟨hnodes, h.connections⟩, ?_⟩
  rintro (x | c)
  . apply (hget x.name x).trans
    rw [and_iff_right_of_imp (congrArg INode.name), Sum.inl.injEq]
    rfl
  . simp [Holds, DirectedGraph.addNode]

variable (hclosed : g.Closed) (hkeyed : g.Keyed)

include hclosed hkeyed

theorem adds_addConnectionAndNodes (hc : c ∈ g.connections.values) (hsub : g.Within sub)
    : Adds g sub (· ∈ parts c) (sub.addConnectionAndNodes c) := by
  have ⟨hfrom, hto⟩ := hclosed.ends c hc
  have ⟨hsub, hholds⟩ := hsub.addNode hfrom
  have ⟨hsub', hholds'⟩ := hsub.addNode hto
  have hkey : g.connections.get? (makeKey c) = some c := by
    have ⟨key, hget⟩ := OrderedMap.mem_values_iff.mp hc
    rwa [← hkeyed key c hget]
  have ⟨hconnections, hget⟩ := hsub'.connections.set hkey
  have hends : ((sub.addNodes [c.fromNode, c.toNode]).nodeExists c.fromNode
      && (sub.addNodes [c.fromNode, c.toNode]).nodeExists c.toNode) = true := by
    rw [Bool.and_eq_true, nodeExists_iff, nodeExists_iff]
    exact ⟨(hholds' (.inl _)).mpr (.inl ((hholds _).mpr (.inr rfl))), (hholds' (.inl _)).mpr (.inr rfl)⟩
  rw [addConnectionAndNodes, addConnection, if_pos hends]
  refine ⟨⟨hsub'.nodes, hconnections⟩, ?_⟩
  rintro (x | d)
  . apply (hholds' (.inl x)).trans
    rw [hholds]
    simp [parts, or_assoc]
  . apply (hget (makeKey d) d).trans
    rw [and_iff_right_of_imp (congrArg makeKey)]
    simp [parts, Holds, addNode]

theorem adds_keepBranch {branch : List GraphConnection} (hbranch : ∀ c ∈ branch, c ∈ g.connections.values)
    (hsub : g.Within sub)
    : Adds g sub (fun p => ∃ c ∈ branch, p ∈ parts c) (sub.keepBranch branch) :=
  Adds.foldlM (fun _ c hc => adds_addConnectionAndNodes hclosed hkeyed (hbranch c hc)) hsub

end DirectedGraph

namespace FindSubgraphOptions

variable (o : FindSubgraphOptions)

abbrev Branch := INode × List GraphConnection

def Goes (s t : Branch) : Prop :=
  s.1 ≠ o.trigger ∧ s.1 ∉ s.2.map (·.toNode)
    ∧ ∃ c ∈ o.graph.connections.values, c.toNode = s.1 ∧ c.type = .main ∧ t = (c.fromNode, s.2 ++ [c])

def Keeps (s : Branch) (p : Part) : Prop :=
  s.1 = o.trigger ∧ p = .inl o.trigger
    ∨ (s.1 = o.trigger ∨ s.1 ≠ o.destination ∧ s.1 ∈ s.2.map (·.toNode)) ∧ ∃ c ∈ s.2, p ∈ parts c

def Branches (s : Branch) (p : Part) : Prop :=
  ∃ t, ReflTransGen o.Goes s t ∧ o.Keeps t p

variable {o} {s : Branch} {p : Part}

theorem branches_iff : o.Branches s p ↔ o.Keeps s p ∨ ∃ u, o.Goes s u ∧ o.Branches u p := by
  constructor
  . rintro ⟨t, hpath, hkeeps⟩
    rcases hpath.cases_head with rfl | ⟨u, hgoes, hrest⟩
    . exact .inl hkeeps
    . exact .inr ⟨u, hgoes, t, hrest, hkeeps⟩
  . rintro (hkeeps | ⟨u, hgoes, t, hrest, hkeeps⟩)
    . exact ⟨s, .refl, hkeeps⟩
    . exact ⟨t, .head hgoes hrest, hkeeps⟩

theorem branches_of_stuck (h : s.1 = o.trigger ∨ s.1 ∈ s.2.map (·.toNode)) : o.Branches s p ↔ o.Keeps s p := by
  rw [branches_iff]
  have hstuck (u : Branch) : ¬o.Goes s u := by
    rintro ⟨htrigger, hnew, _⟩
    exact h.elim htrigger hnew
  simp [hstuck]

variable (hclosed : o.graph.Closed) (hkeyed : o.graph.Keyed)

include hclosed hkeyed

theorem adds_findSubgraphRecursive {fuel : Nat} {current : INode} {sub : DirectedGraph}
    {branch : List GraphConnection} (hnode : o.graph.nodes.get? current.name = some current)
    (hbranch : ∀ c ∈ branch, c ∈ o.graph.connections.values)
    (hfuel : unvisited o.graph.nodes.values (branch.map (·.toNode)) < fuel) (hsub : o.graph.Within sub)
    : Adds o.graph sub (o.Branches (current, branch)) (o.findSubgraphRecursive fuel current sub branch) := by
  induction fuel generalizing current sub branch with
  | zero => omega
  | succ fuel ih =>
    have hany (x : INode) : branch.any (·.toNode = x) = true ↔ x ∈ branch.map (·.toNode) := by simp
    rw [findSubgraphRecursive]
    split
    . next htrigger =>
      have ⟨hadded, hholds⟩ := hsub.addNode (htrigger ▸ hnode)
      apply Ends.mapError
      apply Ends.mono (adds_keepBranch hclosed hkeyed hbranch hadded)
      rintro sub' ⟨hsub', hholds'⟩
      refine ⟨hsub', ?_⟩
      intro p
      rw [hholds', hholds, branches_of_stuck (.inl htrigger)]
      simp [Keeps, htrigger, or_assoc]
    . next htrigger =>
      have hkeeps (p : Part) : o.Keeps (current, branch) p
          ↔ (current ≠ o.destination ∧ current ∈ branch.map (·.toNode)) ∧ ∃ c ∈ branch, p ∈ parts c := by
        simp [Keeps, htrigger]
      rw [getDirectParentConnections_ok hnode]
      dsimp only [Except.mapError, bind, Except.bind]
      split
      . next hempty =>
        have hnone : ∀ c ∈ o.graph.connections.values, c.toNode ≠ current := by simpa using hempty
        have hnew : current ∉ branch.map (·.toNode) := by
          rw [List.mem_map]
          rintro ⟨c, hc, hto⟩
          exact hnone c (hbranch c hc) hto
        have hgoes (u : Branch) : ¬o.Goes (current, branch) u := by
          rintro ⟨_, _, c, hc, hto, _⟩
          exact hnone c hc hto
        refine ⟨hsub, ?_⟩
        intro p
        rw [branches_iff, hkeeps]
        simp [hnew, hgoes]
      . split
        . next hdestination =>
          have ⟨heq, hseen⟩ := hdestination
          rw [hany, ← heq] at hseen
          refine ⟨hsub, ?_⟩
          intro p
          rw [branches_of_stuck (.inr hseen), hkeeps]
          simp [heq]
        . next hdestination =>
          split
          . next hseen =>
            have hne : current ≠ o.destination := by
              intro heq
              rw [heq] at hseen
              exact hdestination ⟨heq, hseen⟩
            rw [hany] at hseen
            apply ((adds_keepBranch hclosed hkeyed hbranch hsub).mapError some).congr
            intro p
            rw [branches_of_stuck (.inr hseen), hkeeps]
            simp [hne, hseen]
          . next hnew =>
            rw [hany] at hnew
            have hlt := unvisited_lt ((mem_values_iff_of_closed hclosed).mpr hnode) hnew
            apply Adds.congr (Adds.foldlM
              (P := fun c p => c.type = .main ∧ o.Branches (c.fromNode, branch ++ [c]) p) _ hsub)
            . intro p
              rw [branches_iff, hkeeps]
              simp [hnew, Goes, htrigger, and_assoc]
            . intro sub c hc hsub
              rw [List.mem_filter, decide_eq_true_eq] at hc
              split
              . next htype => exact ⟨hsub, by simp [htype]⟩
              . next htype =>
                have hmain := not_not.mp htype
                apply (ih (hclosed.ends c hc.1).1 _ _ hsub).congr
                . simp [hmain]
                . simpa [or_imp, forall_and] using ⟨hbranch, hc.1⟩
                . rw [List.map_append, List.map_singleton, hc.2]
                  omega

theorem adds_addUtilities {node : INode} {sub : DirectedGraph}
    (hnode : o.graph.nodes.get? node.name = some node) (hsub : o.graph.Within sub)
    : Adds o.graph sub
        (fun p => ∃ c ∈ o.graph.connections.values,
          ReflTransGen o.graph.Leads c.toNode node ∧ c.type ≠ .main ∧ p ∈ parts c)
        (o.addUtilities sub node) := by
  have ⟨cs, hok, hmem⟩ := exists_getParentConnections hclosed hnode
  rw [addUtilities, hok]
  apply Adds.congr (Adds.foldlM (P := fun c p => c.type ≠ .main ∧ p ∈ parts c) _ hsub)
  . simp [hmem, and_assoc]
  . intro sub c hc hsub
    split
    . next hmain => exact ⟨hsub, by simp [hmain]⟩
    . next hmain =>
      apply (adds_addConnectionAndNodes hclosed hkeyed ((hmem c).mp hc).1 hsub).congr
      simp [hmain]

theorem adds_findSubgraph (hdestination : o.graph.nodes.get? o.destination.name = some o.destination)
    : ∃ sub : DirectedGraph, o.graph.Within sub ∧ (∀ p, sub.Holds p ↔ o.Branches (o.destination, []) p)
      ∧ Adds o.graph sub
          (fun p => ∃ node ∈ sub.nodes.values, ∃ c ∈ o.graph.connections.values,
            ReflTransGen o.graph.Leads c.toNode node ∧ c.type ≠ .main ∧ p ∈ parts c)
          o.findSubgraph := by
  have hrec : Adds o.graph .empty (o.Branches (o.destination, []))
      (o.findSubgraphRecursive (o.graph.nodes.values.length + 1) o.destination .empty []) :=
    adds_findSubgraphRecursive hclosed hkeyed hdestination nofun
      (Nat.lt_succ_of_le (List.length_filter_le _ _)) ⟨nofun, nofun⟩
  have ⟨sub, hok, hsub, hholds⟩ := hrec.exists_ok
  refine ⟨sub, hsub, ?_, ?_⟩
  . intro p
    rw [hholds]
    cases p <;> simp [Holds, empty]
  . rw [findSubgraph, hok]
    apply Adds.mapError (Adds.foldlM _ hsub)
    intro sub' node hnode
    have ⟨name, hget⟩ := OrderedMap.mem_values_iff.mp hnode
    have hstored := hsub.nodes name node hget
    rw [← hclosed.names name node hstored] at hstored
    exact adds_addUtilities hclosed hkeyed hstored

omit hclosed hkeyed

variable (o)

structure OnWay (c : GraphConnection) : Prop where
  mem : c ∈ o.graph.connections.values
  main : c.type = .main
  fromNode_ne : c.fromNode ≠ o.destination
  toNode_ne : c.toNode ≠ o.trigger

def Flows (u v : INode) : Prop := ∃ c, o.OnWay c ∧ c.fromNode = u ∧ c.toNode = v

-- Walks of `Flows` visit the trigger only at their start and the destination only at their end.
def OnWalk : Part → Prop
  | .inl x => ReflTransGen o.Flows o.trigger x ∧ ReflTransGen o.Flows x o.destination
  | .inr c => o.OnWay c ∧ ReflTransGen o.Flows o.trigger c.fromNode ∧ ReflTransGen o.Flows c.toNode o.destination

def Fed (x : INode) : Prop :=
  ∃ z, (z = o.trigger ∨ TransGen o.Flows z z) ∧ ReflTransGen o.Flows z x

-- On its way to the destination a branch is kept that comes from the trigger or out of a cycle.
def Way : Part → Prop
  | .inl x => o.Fed x ∧ ReflTransGen o.Flows x o.destination
  | .inr c => o.OnWay c ∧ o.Fed c.fromNode ∧ ReflTransGen o.Flows c.toNode o.destination

def Reached (x : INode) : Prop :=
  ∃ branch, ReflTransGen o.Goes (o.destination, []) (x, branch) ∧ x ∉ branch.map (·.toNode)

variable {o} {x : INode} {c : GraphConnection}

theorem OnWay.goes (h : o.OnWay c) (hnew : c.toNode ∉ branch.map (·.toNode))
    : o.Goes (c.toNode, branch) (c.fromNode, branch ++ [c]) :=
  ⟨h.toNode_ne, hnew, c, h.mem, rfl, h.main, rfl⟩

theorem reached_of_goes (h : ReflTransGen o.Goes (o.destination, []) s)
    : ∀ y ∈ s.2.map (·.toNode), o.Reached y := by
  induction h with
  | refl => nofun
  | @tail s _ hpath hgoes ih =>
    have ⟨_, hnew, c, _, hto, _, heq⟩ := hgoes
    intro y hy
    rw [heq, List.map_append, List.mem_append, List.map_singleton, List.mem_singleton, hto] at hy
    rcases hy with hy | rfl
    . exact ih y hy
    . exact ⟨s.2, hpath, hnew⟩

theorem reached_of_flows (h : ReflTransGen o.Flows x o.destination) : o.Reached x := by
  induction h using ReflTransGen.head_induction_on with
  | refl => exact ⟨[], .refl, nofun⟩
  | head hstep _ ih =>
    have ⟨c, hc, hfrom, hto⟩ := hstep
    have ⟨branch, hpath, hnew⟩ := ih
    rw [← hto] at hpath hnew
    rw [← hfrom]
    have hpath := hpath.tail (hc.goes hnew)
    by_cases hseen : c.fromNode ∈ (branch ++ [c]).map (·.toNode)
    . exact reached_of_goes hpath _ hseen
    . exact ⟨_, hpath, hseen⟩

theorem way_of_onWalk (h : o.OnWalk p) : o.Way p := by
  cases p with
  | inl x => exact ⟨⟨_, .inl rfl, h.1⟩, h.2⟩
  | inr c => exact ⟨h.1, ⟨_, .inl rfl, h.2.1⟩, h.2.2⟩

theorem Fed.cases (h : o.Fed x) : x = o.trigger ∨ ∃ c, o.OnWay c ∧ c.toNode = x ∧ o.Fed c.fromNode := by
  have ⟨z, hz, hpath⟩ := h
  rcases hpath.cases_tail with rfl | ⟨_, hrest, c, hc, rfl, hto⟩
  . refine hz.imp_right fun hcycle => ?_
    have ⟨_, hrest, c, hc, hfrom, hto⟩ := TransGen.tail'_iff.mp hcycle
    exact ⟨c, hc, hto, x, .inr hcycle, hfrom ▸ hrest⟩
  . exact .inr ⟨c, hc, hto, z, hz, hrest⟩

section

variable (hclosed : o.graph.Closed)

include hclosed

-- A node that is entered is new to the branch, so that the branch ends: in the trigger or in itself.
theorem exists_keeps (h : o.Fed x) (hx : x ≠ o.destination) (branch : List GraphConnection)
    : ∃ t, ReflTransGen o.Goes (x, branch) t ∧ branch ⊆ t.2
      ∧ (t.1 = o.trigger ∨ t.1 ≠ o.destination ∧ t.1 ∈ t.2.map (·.toNode)) := by
  generalize hn : unvisited o.graph.nodes.values (branch.map (·.toNode)) = n
  induction n using Nat.strong_induction_on generalizing x branch with
  | h n ih =>
    rcases h.cases with heq | ⟨c, hc, rfl, hfed⟩
    . exact ⟨_, .refl, fun _ => id, .inl heq⟩
    . by_cases hseen : c.toNode ∈ branch.map (·.toNode)
      . exact ⟨_, .refl, fun _ => id, .inr ⟨hx, hseen⟩⟩
      . have hlt := unvisited_lt ((mem_values_iff_of_closed hclosed).mpr (hclosed.ends c hc.mem).2) hseen
        have hmap : branch.map (·.toNode) ++ [c.toNode] = (branch ++ [c]).map (·.toNode) := by simp
        rw [hmap, hn] at hlt
        have ⟨t, hpath, hsub, hkept⟩ := ih _ hlt hfed hc.fromNode_ne (branch ++ [c]) rfl
        exact ⟨t, hpath.head (hc.goes hseen), fun _ hd => hsub (List.mem_append_left _ hd), hkept⟩

theorem branches_of_way_connection (h : o.Way (.inr c)) (hp : p ∈ parts c)
    : o.Branches (o.destination, []) p := by
  have ⟨hc, hfed, hbehind⟩ := h
  have ⟨branch, hpath, hnew⟩ := reached_of_flows hbehind
  have ⟨t, hrest, hsub, hkept⟩ := exists_keeps hclosed hfed hc.fromNode_ne (branch ++ [c])
  refine ⟨t, (hpath.tail (hc.goes hnew)).trans hrest, .inr ⟨hkept, c, hsub ?_, hp⟩⟩
  simp

theorem branches_of_way (h : o.Way p) : o.Branches (o.destination, []) p := by
  cases p with
  | inr c => exact branches_of_way_connection hclosed h (by simp [parts])
  | inl x =>
    have ⟨hfed, hbehind⟩ := h
    rcases hbehind.cases_head with rfl | ⟨y, ⟨c, hc, rfl, rfl⟩, hrest⟩
    . rcases hfed.cases with heq | ⟨c, hc, hto, hfed⟩
      . exact ⟨_, .refl, .inl ⟨heq, by rw [heq]⟩⟩
      . exact branches_of_way_connection (c := c) hclosed ⟨hc, hfed, by rw [hto]⟩ (by simp [parts, hto])
    . exact branches_of_way_connection hclosed ⟨hc, hfed, hrest⟩ (by simp [parts])

end

theorem findSubgraph_complete (o : FindSubgraphOptions) (hclosed : o.graph.Closed) (hkeyed : o.graph.Keyed)
    (hdestination : o.graph.nodes.get? o.destination.name = some o.destination)
    : ∃ subgraph, o.findSubgraph = .ok subgraph ∧ ∀ p, o.OnWalk p → subgraph.Holds p := by
  have ⟨sub, _, hbranches, hadds⟩ := adds_findSubgraph hclosed hkeyed hdestination
  have ⟨subgraph, hok, _, hholds⟩ := hadds.exists_ok
  refine ⟨subgraph, hok, ?_⟩
  intro p hp
  exact (hholds p).mpr (.inl ((hbranches p).mpr (branches_of_way hclosed (way_of_onWalk hp))))

def cyclic : FindSubgraphOptions :=
  ⟨graphOf [node1, node2, node3] [(node1, node2), (node2, node3), (node3, node2)], node3, node1⟩

theorem findSubgraph_complete_cyclic
    : ∃ subgraph, cyclic.findSubgraph = .ok subgraph ∧ ∀ p, cyclic.OnWalk p → subgraph.Holds p := by
  have hentries : ∀ e ∈ cyclic.graph.connections.entries, e.1 = makeKey e.2 := by decide
  apply findSubgraph_complete cyclic (closed_of_entries (by decide) (by decide)) _ rfl
  intro key c h
  exact hentries (key, c) (OrderedMap.get?_eq_some_iff.mp h)

end FindSubgraphOptions

end N8n
