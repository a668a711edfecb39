import AppSuite.N8n.DirectedGraph.ComponentsCorrect

/-!
This module contains `cleanRunData`, which removes the run data behind the nodes that are run again.
-/

namespace N8n
namespace DirectedGraph

open List Relation OrderedMap

def hasNode (g : DirectedGraph) (nodeName : String) : Bool := g.nodes.has nodeName

def cleanNode (g : DirectedGraph) (newRunData : IRunData) (node : INode) : Except JsError IRunData := do
  let subNodeConnections ← g.getParentConnections node
  return subNodeConnections.elems.foldl
    (fun newRunData c => if c.type = .main then newRunData else newRunData.delete c.fromNode.name)
    (newRunData.delete node.name)

variable (runData : IRunData) (g : DirectedGraph) (nodesToClean : OrderedSet INode)

def cleanRunData : Except JsError IRunData := do
  let newRunData ← nodesToClean.elems.foldlM
    (fun newRunData nodeToClean => do
      let children ← g.getChildren nodeToClean
      (nodeToClean :: children.elems).foldlM g.cleanNode (newRunData.delete nodeToClean.name))
    runData
  return newRunData.keys.foldl
    (fun newRunData nodeName => if g.hasNode nodeName then newRunData else newRunData.delete nodeName)
    newRunData

def Supplies (u v : INode) : Prop :=
  ∃ c ∈ g.connections.values, c.type ≠ .main ∧ c.fromNode = u ∧ c.toNode = v

def RunAgain (node : INode) : Prop :=
  ∃ start ∈ nodesToClean.elems, ReflTransGen g.Leads start node

def Outdated (node : INode) : Prop :=
  ∃ user, g.RunAgain nodesToClean user ∧ ReflTransGen g.Supplies node user

def CleansExactly : Prop :=
  ∃ newRunData, cleanRunData runData g nodesToClean = .ok newRunData
    ∧ ∀ name runs, runData.get? name = some runs →
      (newRunData.get? name = some runs
        ↔ ∃ node, g.nodes.get? name = some node ∧ ¬g.Outdated nodesToClean node)

section

variable {g : DirectedGraph} {nodesToClean : OrderedSet INode} {runData : IRunData}

def Deleted (g : DirectedGraph) (nodesToClean : OrderedSet INode) (node : INode) : Prop :=
  g.RunAgain nodesToClean node
    ∨ ∃ c ∈ g.connections.values, c.type ≠ .main ∧ c.fromNode = node
      ∧ ∃ user, g.RunAgain nodesToClean user ∧ ReflTransGen g.Leads c.toNode user

theorem deleted_of_outdated (h : g.Outdated nodesToClean node)
    : g.Deleted nodesToClean node := by
  have ⟨user, hagain, hpath⟩ := h
  cases hpath.cases_head with
  | inl heq =>
    rw [heq]
    exact .inl hagain
  | inr hstep =>
    have ⟨_, ⟨c, hc, htype, hfrom, hto⟩, hrest⟩ := hstep
    refine .inr ⟨c, hc, htype, hfrom, user, hagain, ?_⟩
    rw [hto]
    apply ReflTransGen.mono _ _ _ hrest
    rintro u v ⟨c, hc, _, hends⟩
    exact ⟨c, hc, hends⟩

variable (hclosed : g.Closed)

include hclosed

theorem get?_of_reaches (hstart : g.nodes.get? start.name = some start)
    (h : ReflTransGen g.Leads start node)
    : g.nodes.get? node.name = some node := by
  cases h.cases_tail with
  | inl heq =>
    rw [heq]
    exact hstart
  | inr hstep =>
    have ⟨_, _, c, hc, _, hto⟩ := hstep
    rw [← hto]
    exact (hclosed.ends c hc).2

theorem exists_cleanNode (hnode : g.nodes.get? node.name = some node) (m : IRunData)
    : ∃ m', g.cleanNode m node = .ok m'
        ∧ m.Without (fun name => name = node.name ∨ ∃ c ∈ g.connections.values, c.type ≠ .main
          ∧ name = c.fromNode.name ∧ ReflTransGen g.Leads c.toNode node) m' := by
  have ⟨cs, hok, hmem⟩ := exists_getParentConnections hclosed hnode
  refine ⟨_, by rw [cleanNode, hok]; rfl, ?_⟩
  have hdelete (m : IRunData) (c : GraphConnection)
      : m.Without (fun name => c.type ≠ .main ∧ name = c.fromNode.name)
          (if c.type = .main then m else m.delete c.fromNode.name) := by
    split
    . next htype => exact (Without.refl m).congr (by simp [htype])
    . next htype => exact (Without.delete m _).congr (by simp [htype])
  apply ((Without.delete m node.name).trans (.foldl _ hdelete cs.elems _)).congr
  intro name
  grind

theorem exists_cleanFrom (hstart : g.nodes.get? start.name = some start) (m : IRunData)
    : ∃ m', (do
          let children ← g.getChildren start
          (start :: children.elems).foldlM g.cleanNode (m.delete start.name)) = .ok m'
        ∧ m.Without (fun name => ∃ node, ReflTransGen g.Leads start node
          ∧ (name = node.name ∨ ∃ c ∈ g.connections.values, c.type ≠ .main
            ∧ name = c.fromNode.name ∧ ReflTransGen g.Leads c.toNode node)) m' := by
  have ⟨children, hok, hmem⟩ := exists_getChildren hclosed hstart
  have hreach (node : INode) : node ∈ start :: children.elems ↔ ReflTransGen g.Leads start node := by
    rw [mem_cons, hmem, reflTransGen_iff_eq_or_transGen]
  have ⟨m', hm', hloop⟩ := Without.foldlM (f := g.cleanNode) _
    (fun node hnode => exists_cleanNode hclosed (get?_of_reaches hclosed hstart ((hreach node).mp hnode)))
    (m.delete start.name)
  rw [hok]
  refine ⟨m', hm', ((Without.delete m start.name).trans hloop).congr ?_⟩
  intro name
  simp only [hreach]
  constructor
  . rintro (rfl | h)
    . exact ⟨start, .refl, .inl rfl⟩
    . exact h
  . exact .inr

theorem exists_cleanRunData (runData : IRunData)
    (hnodes : ∀ node ∈ nodesToClean.elems, g.nodes.get? node.name = some node)
    : ∃ newRunData, cleanRunData runData g nodesToClean = .ok newRunData
        ∧ ∀ name runs, newRunData.get? name = some runs ↔ runData.get? name = some runs
          ∧ ∃ node, g.nodes.get? name = some node ∧ ¬g.Deleted nodesToClean node := by
  have ⟨mid, hmid, hcleaned⟩ := Without.foldlM _
    (fun start hstart => exists_cleanFrom hclosed (hnodes start hstart)) runData
  have hdelete (m : IRunData) (nodeName : String)
      : m.Without (fun name => g.hasNode nodeName = false ∧ name = nodeName)
          (if g.hasNode nodeName then m else m.delete nodeName) := by
    split
    . next h => exact (Without.refl m).congr (by simp [h])
    . next h => exact (Without.delete m _).congr (by simp [h])
  refine ⟨_, by rw [cleanRunData, hmid]; rfl, ?_⟩
  intro name runs
  rw [(hcleaned.trans (.foldl _ hdelete mid.keys mid)) name runs, not_or]
  constructor
  . rintro ⟨hruns, hkept, hhas⟩
    have hkey : name ∈ mid.keys :=
      mem_map_of_mem (get?_eq_some_iff.mp ((hcleaned name runs).mpr ⟨hruns, hkept⟩))
    cases hnode : g.nodes.get? name with
    | none => exact absurd ⟨name, hkey, by rw [hasNode, has, hnode]; rfl, rfl⟩ hhas
    | some node =>
      have hname := hclosed.names name node hnode
      refine ⟨hruns, node, rfl, ?_⟩
      rintro (⟨start, hstart, hpath⟩ | ⟨c, hc, htype, hfrom, user, ⟨start, hstart, hpath⟩, hup⟩)
      . exact hkept ⟨start, hstart, node, hpath, .inl hname.symm⟩
      . exact hkept ⟨start, hstart, user, hpath, .inr ⟨c, hc, htype, by rw [hfrom, hname], hup⟩⟩
  . rintro ⟨hruns, node, hnode, hkept⟩
    refine ⟨hruns, ?_, ?_⟩
    . rintro ⟨start, hstart, user, hpath, rfl | ⟨c, hc, htype, rfl, hup⟩⟩
      . rw [get?_of_reaches hclosed (hnodes start hstart) hpath] at hnode
        cases hnode
        exact hkept (.inl ⟨start, hstart, hpath⟩)
      . rw [(hclosed.ends c hc).1] at hnode
        cases hnode
        exact hkept (.inr ⟨c, hc, htype, rfl, user, ⟨start, hstart, hpath⟩, hup⟩)
    . rintro ⟨_, _, hhas, rfl⟩
      rw [hasNode, has, hnode] at hhas
      cases hhas

omit hclosed in
theorem get?_of_cleanRunData
    (h : cleanRunData runData g nodesToClean = .ok newRunData)
    : ∀ node ∈ nodesToClean.elems, g.nodes.get? node.name = some node := by
  rw [cleanRunData, ExceptFold.bind_eq_ok] at h
  have ⟨mid, hmid, _⟩ := h
  apply ExceptFold.inv_processed_of_foldlM_ok
    (fun done _ => ∀ node ∈ done, g.nodes.get? node.name = some node) _ nofun hmid
  intro done node rest m m' _ hdone hstep
  rw [forall_mem_append, forall_mem_singleton]
  refine ⟨hdone, ?_⟩
  rw [ExceptFold.bind_eq_ok] at hstep
  have ⟨children, hchildren, _⟩ := hstep
  exact get?_of_getChildren hchildren

end

theorem cleansExactly_iff (runData : IRunData) (g : DirectedGraph) (nodesToClean : OrderedSet INode)
    (hclosed : g.Closed)
    : CleansExactly runData g nodesToClean
      ↔ (∀ node ∈ nodesToClean.elems, g.nodeExists node)
        ∧ ∀ c ∈ g.connections.values, c.type ≠ .main → (runData.get? c.fromNode.name).isSome →
          (∃ user, g.RunAgain nodesToClean user ∧ ReflTransGen g.Leads c.toNode user) →
          g.Outdated nodesToClean c.fromNode := by
  simp only [nodeExists_iff]
  constructor
  . rintro ⟨newRunData, hok, hexact⟩
    have hnodes := get?_of_cleanRunData hok
    obtain ⟨_, hok', hspec⟩ := exists_cleanRunData hclosed runData hnodes
    cases hok.symm.trans hok'
    refine ⟨hnodes, ?_⟩
    intro c hc htype hruns hup
    obtain ⟨runs, hruns⟩ := Option.isSome_iff_exists.mp hruns
    have hfrom := (hclosed.ends c hc).1
    by_contra hnot
    have hkept := (hexact c.fromNode.name runs hruns).mpr ⟨c.fromNode, hfrom, hnot⟩
    obtain ⟨_, node, hnode, hdeleted⟩ := (hspec c.fromNode.name runs).mp hkept
    rw [hfrom] at hnode
    cases hnode
    exact hdeleted (.inr ⟨c, hc, htype, rfl, hup⟩)
  . rintro ⟨hnodes, hsub⟩
    obtain ⟨newRunData, hok, hspec⟩ := exists_cleanRunData hclosed runData hnodes
    refine ⟨newRunData, hok, ?_⟩
    intro name runs hruns
    rw [hspec name runs, and_iff_right hruns]
    have hsame (node : INode) (hnode : g.nodes.get? name = some node)
        : g.Deleted nodesToClean node ↔ g.Outdated nodesToClean node := by
      constructor
      . rintro (hagain | ⟨c, hc, htype, rfl, hup⟩)
        . exact ⟨node, hagain, .refl⟩
        . apply hsub c hc htype _ hup
          rw [hclosed.names name _ hnode, hruns]
          rfl
      . exact deleted_of_outdated
    constructor
    . rintro ⟨node, hnode, hkept⟩
      exact ⟨node, hnode, by rwa [← hsame node hnode]⟩
    . rintro ⟨node, hnode, hkept⟩
      exact ⟨node, hnode, by rwa [hsame node hnode]⟩

def ranOnce (nodes : List INode) : IRunData :=
  nodes.foldl (fun m node => m.set node.name [⟨some (onlyMain []), none⟩]) .empty

theorem cleansExactly_chain
    : CleansExactly (ranOnce [node1, node2]) (graphOf [node1, node2] [(node1, node2)]) (.ofList [node2]) := by
  rw [cleansExactly_iff _ _ _ (closed_of_entries (by decide) (by decide))]
  have hmain : ∀ c ∈ (graphOf [node1, node2] [(node1, node2)]).connections.values, c.type = .main := by
    decide
  exact ⟨by decide, fun c hc htype => absurd (hmain c hc) htype⟩

def suppliedUpstream : DirectedGraph :=
  let g := graphOf [node1, node2, node3] [(node2, node3)]
  let c : GraphConnection := ⟨node1, node2, .aiTool, 0, 0⟩
  { g with connections := g.connections.set (makeKey c) c }

theorem not_cleansExactly_suppliedUpstream
    : ¬CleansExactly (ranOnce [node1]) suppliedUpstream (.ofList [node3]) := by
  have hfrom : ∀ c ∈ suppliedUpstream.connections.values, c.fromNode ≠ node3 := by decide
  have hto : ∀ c ∈ suppliedUpstream.connections.values, c.type ≠ .main → c.toNode ≠ node3 := by decide
  have hkept : ¬suppliedUpstream.Outdated (.ofList [node3]) node1 := by
    rintro ⟨user, ⟨start, hstart, hpath⟩, hsupply⟩
    rw [OrderedSet.mem_ofList, mem_singleton] at hstart
    rw [hstart] at hpath
    rcases hpath.cases_head with rfl | ⟨_, ⟨c, hc, hnode, _⟩, _⟩
    . rcases hsupply.cases_tail with heq | ⟨_, _, c, hc, htype, _, hnode⟩
      . exact absurd heq (by decide)
      . exact hto c hc htype hnode
    . exact hfrom c hc hnode
  rintro ⟨newRunData, hok, hexact⟩
  cases hok
  have hlost := (hexact node1.name _ rfl).mpr ⟨node1, by decide, hkept⟩
  cases hlost

end DirectedGraph
end N8n
