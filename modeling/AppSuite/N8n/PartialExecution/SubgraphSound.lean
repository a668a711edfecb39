import AppSuite.N8n.PartialExecution.FindSubgraph

/-!
This module contains what `findSubgraph` keeps and when all of it takes part in the data flow.
-/

namespace N8n

open DirectedGraph Relation

namespace DirectedGraph.Within

variable {g sub : DirectedGraph}

theorem mem_nodes (hsub : g.Within sub) (hclosed : g.Closed) : x ∈ sub.nodes.values ↔ sub.Holds (.inl x) := by
  rw [OrderedMap.mem_values_iff]
  constructor
  . rintro ⟨name, hget⟩
    rwa [← hclosed.names name x (hsub.nodes name x hget)] at hget
  . exact fun hget => ⟨_, hget⟩

theorem mem_connections (hsub : g.Within sub) (hkeyed : g.Keyed)
    : c ∈ sub.connections.values ↔ sub.Holds (.inr c) := by
  rw [OrderedMap.mem_values_iff]
  constructor
  . rintro ⟨key, hget⟩
    rwa [hkeyed key c (hsub.connections key c hget)] at hget
  . exact fun hget => ⟨_, hget⟩

end DirectedGraph.Within

namespace FindSubgraphOptions

variable {o : FindSubgraphOptions} {s : INode × List GraphConnection} {p : Part}

-- A branch either has just begun or has entered the destination, which it never enters again.
theorem traced (h : ReflTransGen o.Goes (o.destination, []) s)
    : (s = (o.destination, []) ∨ o.destination ∈ s.2.map (·.toNode))
      ∧ (s = (o.destination, []) ∨ s.1 ≠ o.destination
        → ReflTransGen o.Flows s.1 o.destination
          ∧ ∀ d ∈ s.2, o.OnWay d ∧ ReflTransGen o.Flows s.1 d.fromNode
            ∧ ReflTransGen o.Flows d.toNode o.destination) := by
  induction h with
  | refl => exact ⟨.inl rfl, fun _ => ⟨.refl, nofun⟩⟩
  | @tail s _ _ hgoes ih =>
    have ⟨htrigger, hnew, c, hc, hto, hmain, heq⟩ := hgoes
    rw [← hto] at htrigger hnew
    have ⟨hstart, htraced⟩ := ih
    have ⟨hbehind, hall⟩ := htraced (hstart.imp_right fun hseen heq => hnew (hto.trans heq ▸ hseen))
    rw [← hto] at hbehind hall
    rw [heq]
    constructor
    . right
      rcases hstart with hstart | hseen
      . simp [hto, hstart]
      . simp [hseen]
    . rintro (hstart | hne)
      . simp at hstart
      . have hway : o.OnWay c := ⟨hc, hmain, hne, htrigger⟩
        have hflow : o.Flows c.fromNode c.toNode := ⟨c, hway, rfl, rfl⟩
        refine ⟨hbehind.head hflow, List.forall_mem_append.mpr ⟨?_, ?_⟩⟩
        . intro d hd
          have ⟨hd, hfrom, hto⟩ := hall d hd
          exact ⟨hd, hfrom.head hflow, hto⟩
        . exact List.forall_mem_singleton.mpr ⟨hway, .refl, hbehind⟩

theorem way_of_branches (h : o.Branches (o.destination, []) p) : o.Way p := by
  by_cases hsame : o.destination = o.trigger
  . rw [branches_of_stuck (.inl hsame)] at h
    rcases h with ⟨_, rfl⟩ | ⟨_, c, hc, _⟩
    . exact ⟨⟨_, .inl rfl, .refl⟩, hsame ▸ .refl⟩
    . cases hc
  . have ⟨t, hpath, hkeeps⟩ := h
    have ⟨_, htraced⟩ := traced hpath
    rcases hkeeps with ⟨heq, rfl⟩ | ⟨hend, c, hc, hp⟩
    . have ⟨hbehind, _⟩ := htraced (.inr (heq ▸ Ne.symm hsame))
      exact ⟨⟨_, .inl rfl, .refl⟩, heq ▸ hbehind⟩
    . have hne : t.1 ≠ o.destination := hend.elim (fun heq => heq ▸ Ne.symm hsame) And.left
      have ⟨_, hall⟩ := htraced (.inr hne)
      have ⟨hway, hfrom, hto⟩ := hall c hc
      have hflow : o.Flows c.fromNode c.toNode := ⟨c, hway, rfl, rfl⟩
      have hfed {x : INode} (hx : ReflTransGen o.Flows t.1 x) : o.Fed x := by
        refine ⟨t.1, hend.imp_right fun ⟨_, hseen⟩ => ?_, hx⟩
        have ⟨d, hd, heq⟩ := List.mem_map.mp hseen
        have ⟨hd, hback, _⟩ := hall d hd
        exact .tail' hback ⟨d, hd, rfl, heq⟩
      simp only [parts, List.mem_cons, List.not_mem_nil, or_false] at hp
      rcases hp with rfl | rfl | rfl
      . exact ⟨hfed hfrom, hto.head hflow⟩
      . exact ⟨hfed (hfrom.tail hflow), hto⟩
      . exact ⟨hway, hfed hfrom, hto⟩

variable (o)

structure Utility (c : GraphConnection) : Prop where
  mem : c ∈ o.graph.connections.values
  not_main : c.type ≠ .main
  leads : ∃ x, o.Way (.inl x) ∧ ReflTransGen o.graph.Leads c.toNode x

def Kept (u v : INode) : Prop := ∃ c, (o.Way (.inr c) ∨ o.Utility c) ∧ c.fromNode = u ∧ c.toNode = v

def DataFlow (u v : INode) : Prop :=
  ∃ c ∈ o.graph.connections.values, c.type = .main ∧ c.fromNode = u ∧ c.toNode = v

def Supply (u v : INode) : Prop :=
  ∃ c ∈ o.graph.connections.values, c.type ≠ .main ∧ c.fromNode = u ∧ c.toNode = v

def TakesPart (x : INode) : Prop :=
  ∃ y, ReflTransGen o.Supply x y ∧ ReflTransGen o.DataFlow o.trigger y ∧ ReflTransGen o.DataFlow y o.destination

structure Sound (subgraph : DirectedGraph) : Prop where
  nodes : ∀ x ∈ subgraph.nodes.values, o.TakesPart x
  cycles : ∀ x, TransGen subgraph.Leads x x → ReflTransGen subgraph.Leads o.trigger x

structure Tidy : Prop where
  loops : ∀ x y, TransGen o.Flows x x → ReflTransGen o.Flows x y → ReflTransGen o.Flows y o.destination
    → o.TakesPart y
  utilities : ∀ c, o.Utility c → o.TakesPart c.toNode
  cycles : ∀ x, TransGen o.Kept x x → ReflTransGen o.Kept o.trigger x

variable {o}

theorem dataFlow_of_flows (h : o.Flows u v) : o.DataFlow u v := by
  obtain ⟨c, hc, hends⟩ := h
  exact ⟨c, hc.mem, hc.main, hends⟩

theorem kept_of_flows (hfrom : ReflTransGen o.Flows o.trigger x) (hto : ReflTransGen o.Flows x o.destination)
    : ReflTransGen o.Kept o.trigger x := by
  induction hfrom with
  | refl => exact .refl
  | tail hfrom hstep ih =>
    refine (ih (hto.head hstep)).tail ?_
    obtain ⟨c, hc, rfl, rfl⟩ := hstep
    exact ⟨c, .inl ⟨hc, ⟨_, .inl rfl, hfrom⟩, hto⟩, rfl, rfl⟩

theorem exists_findSubgraph (hclosed : o.graph.Closed) (hkeyed : o.graph.Keyed)
    (hdestination : o.graph.nodes.get? o.destination.name = some o.destination)
    : ∃ subgraph, o.findSubgraph = .ok subgraph ∧ subgraph.Leads = o.Kept
      ∧ ∀ x, x ∈ subgraph.nodes.values
        ↔ o.Way (.inl x) ∨ ∃ c, o.Utility c ∧ (x = c.fromNode ∨ x = c.toNode) := by
  have ⟨sub, hsub, hbranches, hadds⟩ := adds_findSubgraph hclosed hkeyed hdestination
  have ⟨subgraph, hok, hsubgraph, hholds⟩ := hadds.exists_ok
  have hway p : sub.Holds p ↔ o.Way p := (hbranches p).trans ⟨way_of_branches, branches_of_way hclosed⟩
  have hkept p : subgraph.Holds p ↔ o.Way p ∨ ∃ c, o.Utility c ∧ p ∈ parts c := by
    rw [hholds, hway]
    refine or_congr_right ⟨?_, ?_⟩
    . intro ⟨x, hx, c, hc, hleads, htype, hp⟩
      exact ⟨c, ⟨hc, htype, x, (hway _).mp ((hsub.mem_nodes hclosed).mp hx), hleads⟩, hp⟩
    . intro ⟨c, ⟨hc, htype, x, hx, hleads⟩, hp⟩
      exact ⟨x, (hsub.mem_nodes hclosed).mpr ((hway _).mpr hx), c, hc, hleads, htype, hp⟩
  refine ⟨subgraph, hok, ?_, ?_⟩
  . funext u v
    simp [Leads, Kept, hsubgraph.mem_connections hkeyed, hkept, parts]
  . intro x
    simp [hsubgraph.mem_nodes hclosed, hkept, parts]

theorem findSubgraph_sound_iff (o : FindSubgraphOptions) (hclosed : o.graph.Closed) (hkeyed : o.graph.Keyed)
    (hdestination : o.graph.nodes.get? o.destination.name = some o.destination)
    : ∃ subgraph, o.findSubgraph = .ok subgraph ∧ (o.Sound subgraph ↔ o.Tidy) := by
  have ⟨subgraph, hok, hleads, hnodes⟩ := exists_findSubgraph hclosed hkeyed hdestination
  refine ⟨subgraph, hok, ?_, ?_⟩
  . intro h
    refine ⟨?_, ?_, hleads ▸ h.cycles⟩
    . intro x y hloop hfrom hto
      exact h.nodes y ((hnodes y).mpr (.inl ⟨⟨x, .inr hloop, hfrom⟩, hto⟩))
    . intro c hc
      exact h.nodes _ ((hnodes _).mpr (.inr ⟨c, hc, .inr rfl⟩))
  . intro h
    refine ⟨?_, hleads.symm ▸ h.cycles⟩
    intro x hx
    rcases (hnodes x).mp hx with ⟨⟨z, hz, hfrom⟩, hto⟩ | ⟨c, hc, heq⟩
    . rcases hz with rfl | hloop
      . exact ⟨x, .refl, hfrom.lift id fun _ _ => dataFlow_of_flows, hto.lift id fun _ _ => dataFlow_of_flows⟩
      . exact h.loops z x hloop hfrom hto
    . have htarget := h.utilities c hc
      rcases heq with rfl | rfl
      . have ⟨y, hsupply, hflow⟩ := htarget
        exact ⟨y, hsupply.head ⟨c, hc.mem, hc.not_main, rfl, rfl⟩, hflow⟩
      . exact htarget

def looping : FindSubgraphOptions :=
  ⟨graphOf [node1, node2, node3, node4] [(node1, node2), (node2, node3), (node3, node2), (node3, node4)],
    node4, node1⟩

theorem tidy_looping : looping.Tidy := by
  have hmain : ∀ c ∈ looping.graph.connections.values, c.type = .main := by decide
  have hends : ∀ c ∈ looping.graph.connections.values, c.toNode ∈ [node2, node3, node4] := by decide
  have hflows (u v : INode)
      (h : ⟨u, v, .main, 0, 0⟩ ∈ looping.graph.connections.values ∧ u ≠ node4 ∧ v ≠ node1)
      : looping.Flows u v :=
    ⟨⟨u, v, .main, 0, 0⟩, ⟨h.1, rfl, h.2.1, h.2.2⟩, rfl, rfl⟩
  have h12 := hflows node1 node2 (by decide)
  have h23 := hflows node2 node3 (by decide)
  have h34 := hflows node3 node4 (by decide)
  have hway {c : GraphConnection} (hc : c ∈ looping.graph.connections.values)
      : ReflTransGen looping.Flows node1 c.toNode ∧ ReflTransGen looping.Flows c.toNode node4 := by
    have hto := hends c hc
    simp only [List.mem_cons, List.not_mem_nil, or_false] at hto
    rcases hto with hto | hto | hto <;> rw [hto]
    . exact ⟨.single h12, .head h23 (.single h34)⟩
    . exact ⟨.head h12 (.single h23), .single h34⟩
    . exact ⟨.head h12 (.head h23 (.single h34)), .refl⟩
  refine ⟨?_, fun c hc => absurd (hmain c hc.mem) hc.not_main, ?_⟩
  . intro x y hloop hfrom _
    have ⟨_, _, c, hc, _, hto⟩ := TransGen.tail'_iff.mp (hloop.trans_left hfrom)
    have ⟨hfrom, hend⟩ := hto ▸ hway hc.mem
    exact ⟨y, .refl, hfrom.lift id fun _ _ => dataFlow_of_flows, hend.lift id fun _ _ => dataFlow_of_flows⟩
  . intro x hcycle
    have ⟨_, _, c, hc, _, hto⟩ := TransGen.tail'_iff.mp hcycle
    have ⟨hfrom, hend⟩ := hto ▸ hway (hc.elim (fun hc => hc.1.mem) Utility.mem)
    exact kept_of_flows hfrom hend

theorem findSubgraph_sound_iff_looping
    : ∃ subgraph, looping.findSubgraph = .ok subgraph ∧ looping.Sound subgraph := by
  have hentries : ∀ e ∈ looping.graph.connections.entries, e.1 = makeKey e.2 := by decide
  have ⟨subgraph, hok, hiff⟩ := findSubgraph_sound_iff looping (closed_of_entries (by decide) (by decide))
    (fun key c h => hentries (key, c) (OrderedMap.get?_eq_some_iff.mp h)) rfl
  exact ⟨subgraph, hok, hiff.mpr tidy_looping⟩

def astray : FindSubgraphOptions :=
  ⟨graphOf [node1, node2, node3, node4] [(node1, node3), (node2, node4), (node4, node2), (node4, node3)],
    node3, node1⟩

theorem not_sound_astray
    : ∃ subgraph, astray.findSubgraph = .ok subgraph ∧ node2 ∈ subgraph.nodes.values
      ∧ ¬astray.Sound subgraph := by
  have hmain : ∀ c ∈ astray.graph.connections.values, c.type = .main := by decide
  have hclosed : ∀ c ∈ astray.graph.connections.values,
      c.fromNode ∈ [node1, node3] → c.toNode ∈ [node1, node3] := by decide
  have hreached {y : INode} (h : ReflTransGen astray.DataFlow node1 y) : y ∈ [node1, node3] := by
    induction h with
    | refl => decide
    | tail _ hstep ih =>
      have ⟨c, hc, _, hfrom, hto⟩ := hstep
      exact hto ▸ hclosed c hc (hfrom ▸ ih)
  refine ⟨_, rfl, by decide, ?_⟩
  intro h
  have ⟨y, hsupply, hflow, _⟩ := h.nodes node2 (by decide)
  rcases hsupply.cases_head with rfl | ⟨_, ⟨c, hc, hnot, _⟩, _⟩
  . revert hflow
    exact mt hreached (by decide)
  . exact hnot (hmain c hc)

end FindSubgraphOptions

end N8n
