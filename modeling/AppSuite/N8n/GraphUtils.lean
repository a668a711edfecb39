import AppSuite.Data.OrderedSet
import AppSuite.N8n.Interfaces

/-!
This module contains the check whether a selection of nodes can be extracted into a sub-workflow.
-/

namespace N8n

open List OrderedSet Relation

abbrev IConnectionAdjacencyList := OrderedMap String (List IConnection)

inductive ExtractableErrorResult where
  | multipleInputNodes (nodes : OrderedSet String)
  | multipleOutputNodes (nodes : OrderedSet String)
  | inputEdgeToNonRootNode (node : String)
  | outputEdgeFromNonLeafNode (node : String)
  | noContinuousPathFromRootToLeaf (startNode endNode : String)

structure ExtractableSubgraphData where
  startNode : Option String
  endNode : Option String

variable (graphIds : OrderedSet String) (adjacencyList : IConnectionAdjacencyList)

def getInputEdges : List (String × IConnection) :=
  (adjacencyList.entries.filter fun e => !graphIds.has e.1).flatMap fun e =>
    (e.2.filter fun x => graphIds.has x.node).map fun x => (e.1, x)

def getOutputEdges : List (String × IConnection) :=
  (adjacencyList.entries.filter fun e => graphIds.has e.1).flatMap fun e =>
    (e.2.filter fun x => !graphIds.has x.node).map fun x => (e.1, x)

def mainTargets (nodeId : String) : List String :=
  (((adjacencyList.get? nodeId).getD []).filter fun x => x.type = .main).map fun x => x.node

def otherMainTargets (nodeId : String) : OrderedSet String :=
  .ofList ((((adjacencyList.get? nodeId).getD []).filter
    fun x => x.type = .main ∧ x.node ≠ nodeId).map fun x => x.node)

def MainEdge (x y : String) : Prop :=
  ∃ xs, adjacencyList.get? x = some xs ∧ ∃ c ∈ xs, c.type = .main ∧ c.node = y

theorem mem_mainTargets {adjacencyList : IConnectionAdjacencyList} {x y : String}
    : y ∈ mainTargets adjacencyList x ↔ MainEdge adjacencyList x y := by
  unfold mainTargets MainEdge
  cases adjacencyList.get? x <;> simp [and_assoc]

def getRootNodes : OrderedSet String :=
  let innerNodes := graphIds.elems.foldl
    (fun innerNodes nodeId => innerNodes.union (otherMainTargets adjacencyList nodeId)) .empty
  graphIds.difference innerNodes

def getLeafNodes : OrderedSet String :=
  graphIds.filter fun nodeId =>
    ((otherMainTargets adjacencyList nodeId).intersection graphIds).size = 0

namespace hasPath

def vertices (paths : List String) : Finset String :=
  ((adjacencyList.values.flatMap fun xs => xs.map fun x => x.node) ++ paths).toFinset

def unseen (paths seen : List String) : Nat :=
  (vertices adjacencyList paths \ seen.toFinset).card

def pushed (next : String) (seen : List String) : List String :=
  (ofList (mainTargets adjacencyList next)).elems.filter fun x => x ∉ seen

variable {adjacencyList : IConnectionAdjacencyList} {next : String} {seen paths : List String}

theorem mem_pushed {x : String}
    : x ∈ pushed adjacencyList next seen ↔ x ∈ mainTargets adjacencyList next ∧ x ∉ seen := by
  simp [pushed]

theorem vertices_pushed
    : vertices adjacencyList ((pushed adjacencyList next seen).reverse ++ paths)
      ⊆ vertices adjacencyList (next :: paths) := by
  intro x
  simp only [vertices, mem_toFinset, mem_append, mem_reverse, mem_pushed,
    mem_cons]
  rintro (hx | ⟨hx, -⟩ | hx)
  . exact .inl hx
  . have ⟨xs, hget, c, hc, _, hnode⟩ := mem_mainTargets.mp hx
    left
    rw [mem_flatMap]
    exact ⟨xs, OrderedMap.mem_values_iff.mpr ⟨next, hget⟩, mem_map.mpr ⟨c, hc, hnode⟩⟩
  . exact .inr (.inr hx)

theorem filter_pushed_append (hseen : next ∈ seen)
    : ((pushed adjacencyList next (next :: seen)).reverse ++ paths).filter (fun x => x ∈ next :: seen)
      = paths.filter fun x => x ∈ seen := by
  have hnew : (pushed adjacencyList next (next :: seen)).reverse.filter
      (fun x => x ∈ next :: seen) = [] := by
    rw [filter_eq_nil_iff]
    intro x hx
    rw [mem_reverse, mem_pushed] at hx
    simpa using hx.2
  rw [filter_append, hnew, nil_append]
  apply filter_congr
  intro x _
  simp only [mem_cons, decide_eq_decide]
  apply or_iff_right_of_imp
  intro hx
  rwa [hx]

theorem unseen_pushed_le (hseen : next ∈ seen)
    : unseen adjacencyList ((pushed adjacencyList next (next :: seen)).reverse ++ paths) (next :: seen)
      ≤ unseen adjacencyList (next :: paths) seen := by
  have hsame : (next :: seen).toFinset = seen.toFinset := by
    simp [hseen]
  unfold unseen
  rw [hsame]
  apply Finset.card_le_card
  exact Finset.sdiff_subset_sdiff vertices_pushed (Finset.Subset.refl _)

theorem unseen_pushed_lt (hseen : next ∉ seen)
    : unseen adjacencyList ((pushed adjacencyList next (next :: seen)).reverse ++ paths) (next :: seen)
      < unseen adjacencyList (next :: paths) seen := by
  apply Finset.card_lt_card
  rw [Finset.ssubset_iff_of_subset]
  . refine ⟨next, ?_, ?_⟩
    . simp [vertices, hseen]
    . simp
  . apply Finset.sdiff_subset_sdiff vertices_pushed
    intro x hx
    simp at hx ⊢
    exact Or.inr hx

theorem decreasing
    : Prod.Lex (· < ·) (· < ·)
      (unseen adjacencyList ((pushed adjacencyList next (next :: seen)).reverse ++ paths)
        (next :: seen),
        (((pushed adjacencyList next (next :: seen)).reverse ++ paths).filter
          fun x => x ∈ next :: seen).length)
      (unseen adjacencyList (next :: paths) seen,
        ((next :: paths).filter fun x => x ∈ seen).length) := by
  by_cases hseen : next ∈ seen
  . rw [filter_pushed_append hseen, filter_cons_of_pos (by simpa using hseen), length_cons]
    cases Nat.lt_or_eq_of_le (unseen_pushed_le hseen) with
    | inl hlt => exact Prod.Lex.left _ _ hlt
    | inr heq =>
      rw [heq]
      apply Prod.Lex.right
      omega
  . apply Prod.Lex.left
    apply unseen_pushed_lt hseen

def go (adjacencyList : IConnectionAdjacencyList) (endNode : String) (paths seen : List String)
    : Bool :=
  match paths with
  | [] => false
  | next :: paths =>
    if next = endNode then
      true
    else
      go adjacencyList endNode
        ((pushed adjacencyList next (next :: seen)).reverse ++ paths) (next :: seen)
termination_by
  (unseen adjacencyList paths seen, (paths.filter fun x => x ∈ seen).length)
decreasing_by
  exact decreasing

end hasPath

def hasPath (startNode endNode : String) (adjacencyList : IConnectionAdjacencyList) : Bool :=
  hasPath.go adjacencyList endNode [startNode] []

namespace parseExtractableSubgraphSelection

-- This filters out e.g. sub-nodes, which are technically parents
def inputNodes : OrderedSet String :=
  .ofList (((getInputEdges graphIds adjacencyList).filter fun x => x.2.type = .main).map
    fun x => x.2.node)

-- With no root a single input node is taken for it: this is a loop back to it from the selection.
def rootNodes : OrderedSet String :=
  if (getRootNodes graphIds adjacencyList).size = 0
      ∧ (inputNodes graphIds adjacencyList).size = 1 then
    inputNodes graphIds adjacencyList
  else
    getRootNodes graphIds adjacencyList

def outputNodes : OrderedSet String :=
  .ofList (((getOutputEdges graphIds adjacencyList).filter fun x => x.2.type = .main).map
    fun x => x.1)

def leafNodes : OrderedSet String :=
  if (getLeafNodes graphIds adjacencyList).size = 0
      ∧ (outputNodes graphIds adjacencyList).size = 1 then
    outputNodes graphIds adjacencyList
  else
    getLeafNodes graphIds adjacencyList

def borderErrors (wrongNode : String → ExtractableErrorResult)
    (multipleNodes : OrderedSet String → ExtractableErrorResult)
    (borderNodes allowedNodes : OrderedSet String) : List ExtractableErrorResult :=
  let errors := (borderNodes.difference allowedNodes).elems.map wrongNode
  let allowedBorderNodes := allowedNodes.intersection borderNodes
  if allowedBorderNodes.size > 1 then errors ++ [multipleNodes allowedBorderNodes] else errors

def pathErrors (startNode endNode : Option String) (adjacencyList : IConnectionAdjacencyList)
    : List ExtractableErrorResult :=
  match startNode, endNode with
  | some a, some b =>
    -- An empty name counts as no name.
    if a ≠ "" && b ≠ "" && !hasPath a b adjacencyList then
      [.noContinuousPathFromRootToLeaf a b]
    else
      []
  | _, _ => []

end parseExtractableSubgraphSelection

open parseExtractableSubgraphSelection in
def parseExtractableSubgraphSelection : Except (List ExtractableErrorResult) ExtractableSubgraphData :=
  let inputNodes := inputNodes graphIds adjacencyList
  let rootNodes := rootNodes graphIds adjacencyList
  let inputErrors := borderErrors .inputEdgeToNonRootNode .multipleInputNodes inputNodes rootNodes
  let outputNodes := outputNodes graphIds adjacencyList
  let leafNodes := leafNodes graphIds adjacencyList
  let outputErrors :=
    borderErrors .outputEdgeFromNonLeafNode .multipleOutputNodes outputNodes leafNodes
  let startNode := (rootNodes.intersection inputNodes).elems.head?
  let endNode := (leafNodes.intersection outputNodes).elems.head?
  let errors := inputErrors ++ outputErrors ++ pathErrors startNode endNode adjacencyList
  if errors.length > 0 then .error errors else .ok ⟨startNode, endNode⟩

def InnerEdge (x y : String) : Prop :=
  MainEdge adjacencyList x y ∧ x ∈ graphIds.elems ∧ y ∈ graphIds.elems

structure Extractable (graphIds : OrderedSet String) (adjacencyList : IConnectionAdjacencyList)
    (data : ExtractableSubgraphData) : Prop where
  entered : ∀ x y, MainEdge adjacencyList x y → x ∉ graphIds.elems → y ∈ graphIds.elems →
    data.startNode = some y
  left : ∀ x y, MainEdge adjacencyList x y → x ∈ graphIds.elems → y ∉ graphIds.elems →
    data.endNode = some x
  connected : ∀ a b, data.startNode = some a → data.endNode = some b →
    a ∈ graphIds.elems ∧ b ∈ graphIds.elems
      ∧ ReflTransGen (InnerEdge graphIds adjacencyList) a b

variable {adjacencyList : IConnectionAdjacencyList}

theorem hasPath.go_sound {paths seen : List String}
    (h : go adjacencyList endNode paths seen = true)
    : ∃ x ∈ paths, ReflTransGen (MainEdge adjacencyList) x endNode := by
  induction paths, seen using go.induct adjacencyList endNode with
  | case1 seen => simp [go] at h
  | case2 seen paths =>
    refine ⟨endNode, by simp, ?_⟩
    exact ReflTransGen.refl
  | case3 seen next paths hne ih =>
    unfold go at h
    simp only [hne, ↓reduceIte] at h
    have ⟨x, hx, hpath⟩ := ih h
    rw [mem_append, mem_reverse, mem_pushed] at hx
    cases hx with
    | inl hx =>
      refine ⟨next, by simp, ?_⟩
      apply ReflTransGen.head _ hpath
      exact mem_mainTargets.mp hx.1
    | inr hx => exact ⟨x, mem_cons_of_mem next hx, hpath⟩

-- A seen node is not the one that is looked for, and what it leads to is seen or on the stack.
theorem hasPath.go_complete {paths seen : List String}
    (hseen : ∀ x ∈ seen, x ≠ endNode ∧ ∀ y, MainEdge adjacencyList x y → y ∈ seen ∨ y ∈ paths)
    (hx : x ∈ seen ∨ x ∈ paths) (hpath : ReflTransGen (MainEdge adjacencyList) x endNode)
    : go adjacencyList endNode paths seen = true := by
  induction paths, seen using go.induct adjacencyList endNode with
  | case1 seen =>
    have hreached {y : String} (h : ReflTransGen (MainEdge adjacencyList) x y) : y ∈ seen := by
      induction h with
      | refl => simpa using hx
      | tail _ hedge ih => simpa using (hseen _ ih).2 _ hedge
    exact absurd rfl (hseen endNode (hreached hpath)).1
  | case2 seen paths => simp [go]
  | case3 seen next paths hne ih =>
    unfold go
    rw [if_neg hne]
    apply ih
    . intro x hx
      simp only [mem_append, mem_reverse, mem_pushed, mem_mainTargets, mem_cons] at hx ⊢
      grind
    . simp only [mem_append, mem_cons] at hx ⊢
      grind

variable {a b : String}

theorem hasPath_sound (h : hasPath a b adjacencyList = true)
    : ReflTransGen (MainEdge adjacencyList) a b := by
  have ⟨x, hx, hpath⟩ := hasPath.go_sound h
  simp at hx
  rw [← hx]
  assumption

theorem hasPath_iff (startNode endNode : String) (adjacencyList : IConnectionAdjacencyList)
    : hasPath startNode endNode adjacencyList = true
      ↔ ReflTransGen (MainEdge adjacencyList) startNode endNode := by
  apply Iff.intro hasPath_sound
  exact hasPath.go_complete nofun (.inr (mem_singleton_self startNode))

theorem innerPath_of_path {graphIds : OrderedSet String}
    (h : ReflTransGen (MainEdge adjacencyList) a b)
    (hleft : ∀ x y, MainEdge adjacencyList x y → x ∈ graphIds.elems → y ∉ graphIds.elems → x = b)
    (ha : a ∈ graphIds.elems)
    : ReflTransGen (InnerEdge graphIds adjacencyList) a b := by
  induction h using ReflTransGen.head_induction_on with
  | refl => exact ReflTransGen.refl
  | head hedge hrest ih =>
    rename_i x y
    cases Classical.em (y ∈ graphIds.elems) with
    | inl hy => exact ReflTransGen.head ⟨hedge, ha, hy⟩ (ih hy)
    | inr hy =>
      rw [hleft x y hedge ha hy]

namespace parseExtractableSubgraphSelection

variable {graphIds : OrderedSet String} {adjacencyList : IConnectionAdjacencyList}

theorem mem_inputNodes
    : y ∈ (inputNodes graphIds adjacencyList).elems
      ↔ ∃ x, MainEdge adjacencyList x y ∧ x ∉ graphIds.elems ∧ y ∈ graphIds.elems := by
  unfold inputNodes getInputEdges MainEdge
  simp only [mem_ofList, mem_map, List.mem_filter, mem_flatMap,
    decide_eq_true_eq, Bool.not_eq_true', ← Bool.not_eq_true, has_iff,
    OrderedMap.get?_eq_some_iff]
  constructor
  . rintro ⟨_, ⟨⟨e, ⟨he, hout⟩, c, ⟨hc, hin⟩, rfl⟩, htype⟩, rfl⟩
    exact ⟨e.1, ⟨e.2, he, c, hc, htype, rfl⟩, hout, hin⟩
  . rintro ⟨x, ⟨xs, hxs, c, hc, htype, rfl⟩, hout, hin⟩
    exact ⟨(x, c), ⟨⟨(x, xs), ⟨hxs, hout⟩, c, ⟨hc, hin⟩, rfl⟩, htype⟩, rfl⟩

variable {x : String}

theorem mem_outputNodes
    : x ∈ (outputNodes graphIds adjacencyList).elems
      ↔ ∃ y, MainEdge adjacencyList x y ∧ x ∈ graphIds.elems ∧ y ∉ graphIds.elems := by
  unfold outputNodes getOutputEdges MainEdge
  simp only [mem_ofList, mem_map, List.mem_filter, mem_flatMap,
    decide_eq_true_eq, Bool.not_eq_true', ← Bool.not_eq_true, has_iff,
    OrderedMap.get?_eq_some_iff]
  constructor
  . rintro ⟨_, ⟨⟨e, ⟨he, hin⟩, c, ⟨hc, hout⟩, rfl⟩, htype⟩, rfl⟩
    exact ⟨c.node, ⟨e.2, he, c, hc, htype, rfl⟩, hin, hout⟩
  . rintro ⟨y, ⟨xs, hxs, c, hc, htype, rfl⟩, hin, hout⟩
    exact ⟨(x, c), ⟨⟨(x, xs), ⟨hxs, hin⟩, c, ⟨hc, hout⟩, rfl⟩, htype⟩, rfl⟩

theorem borderErrors_eq_nil {wrongNode : String → ExtractableErrorResult}
    {multipleNodes : OrderedSet String → ExtractableErrorResult}
    (h : borderErrors wrongNode multipleNodes borderNodes allowedNodes = []) (hx : x ∈ borderNodes.elems)
    : (allowedNodes.intersection borderNodes).elems.head? = some x := by
  unfold borderErrors at h
  dsimp only at h
  split at h
  . simp at h
  . next hsize =>
    rw [map_eq_nil_iff] at h
    apply head?_of_size_le_one
    . omega
    . rw [mem_intersection]
      refine ⟨?_, hx⟩
      by_contra hnot
      have hmem := mem_difference.mpr ⟨hx, hnot⟩
      rw [h] at hmem
      contradiction

theorem eq_ok
    (h : parseExtractableSubgraphSelection graphIds adjacencyList = .ok data)
    : data.startNode = ((rootNodes graphIds adjacencyList).intersection
        (inputNodes graphIds adjacencyList)).elems.head?
      ∧ data.endNode = ((leafNodes graphIds adjacencyList).intersection
        (outputNodes graphIds adjacencyList)).elems.head?
      ∧ (∀ y ∈ (inputNodes graphIds adjacencyList).elems, data.startNode = some y)
      ∧ (∀ x ∈ (outputNodes graphIds adjacencyList).elems, data.endNode = some x)
      ∧ pathErrors data.startNode data.endNode adjacencyList = [] := by
  unfold parseExtractableSubgraphSelection at h
  dsimp only at h
  split at h
  . contradiction
  . next herrors =>
    injection h with h
    subst h
    have hnil := eq_nil_of_length_eq_zero (Nat.eq_zero_of_not_pos herrors)
    rw [append_eq_nil_iff, append_eq_nil_iff] at hnil
    refine ⟨rfl, rfl, ?_, ?_, hnil.2⟩
    . intro y hy
      apply borderErrors_eq_nil hnil.1.1 hy
    . intro x hx
      apply borderErrors_eq_nil hnil.1.2 hx

theorem hasPath_of_pathErrors {a b : String} (ha : a ≠ "") (hb : b ≠ "")
    (h : pathErrors (some a) (some b) adjacencyList = [])
    : hasPath a b adjacencyList = true := by
  simpa [pathErrors, ha, hb] using h

end parseExtractableSubgraphSelection

open parseExtractableSubgraphSelection in
theorem extractable_of_parse (graphIds : OrderedSet String)
    (adjacencyList : IConnectionAdjacencyList) (hnames : ∀ x ∈ graphIds.elems, x ≠ "")
    (data : ExtractableSubgraphData)
    (h : parseExtractableSubgraphSelection graphIds adjacencyList = .ok data)
    : Extractable graphIds adjacencyList data := by
  have ⟨hstart, hend, hin, hout, hpath⟩ := eq_ok h
  have hleft : ∀ x y, MainEdge adjacencyList x y → x ∈ graphIds.elems → y ∉ graphIds.elems →
      data.endNode = some x := by
    intro x y hedge hx hy
    apply hout
    rw [mem_outputNodes]
    exact ⟨y, hedge, hx, hy⟩
  refine { entered := ?_, left := hleft, connected := ?_ }
  . intro x y hedge hx hy
    apply hin
    rw [mem_inputNodes]
    exact ⟨x, hedge, hx, hy⟩
  . intro a b ha hb
    have hamem : a ∈ graphIds.elems := by
      rw [hstart] at ha
      have hmem := mem_of_head? ha
      rw [mem_intersection, mem_inputNodes] at hmem
      have ⟨_, _, _, hin⟩ := hmem.2
      assumption
    have hbmem : b ∈ graphIds.elems := by
      rw [hend] at hb
      have hmem := mem_of_head? hb
      rw [mem_intersection, mem_outputNodes] at hmem
      have ⟨_, _, hin, _⟩ := hmem.2
      assumption
    rw [ha, hb] at hpath
    refine ⟨hamem, hbmem, ?_⟩
    apply innerPath_of_path _ _ hamem
    . apply hasPath_sound
      apply hasPath_of_pathErrors (hnames a hamem) (hnames b hbmem) hpath
    . intro x y hedge hx hy
      have hx := hleft x y hedge hx hy
      rw [hb] at hx
      injection hx with hx
      exact hx.symm

def pipeline : IConnectionAdjacencyList :=
  ((OrderedMap.empty.set "Trigger" [⟨"A", .main, 0⟩]).set "A" [⟨"B", .main, 0⟩]).set "B"
    [⟨"Done", .main, 0⟩]

theorem hasPath_pipeline : hasPath "A" "B" pipeline = true := by
  unfold hasPath
  unfold hasPath.go
  unfold hasPath.go
  rfl

open parseExtractableSubgraphSelection in
theorem extractable_of_parse_pipeline
    : Extractable (.ofList ["A", "B"]) pipeline ⟨some "A", some "B"⟩ := by
  apply extractable_of_parse (.ofList ["A", "B"]) pipeline (by decide)
  have hstart : ((rootNodes (.ofList ["A", "B"]) pipeline).intersection
      (inputNodes (.ofList ["A", "B"]) pipeline)).elems.head? = some "A" := by decide
  have hend : ((leafNodes (.ofList ["A", "B"]) pipeline).intersection
      (outputNodes (.ofList ["A", "B"]) pipeline)).elems.head? = some "B" := by decide
  have hpath : pathErrors (some "A") (some "B") pipeline = [] := by
    simp [pathErrors, hasPath_pipeline]
  unfold parseExtractableSubgraphSelection
  dsimp only
  rw [hstart, hend, hpath]
  rfl

end N8n
