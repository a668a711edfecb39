import AppSuite.N8n.DirectedGraph.Basic

/-!
This module contains the two lookups that rebuild the input of a node from an earlier execution.
-/

namespace N8n

open List PlainObject

abbrev IPinData := OrderedMap String Batch

variable (runData : IRunData) (nodeName : String) (runIndex : Nat) (connectionType : NodeConnectionType)

def getIncomingData (outputIndex : Nat) : Except JsError (Option Batch) :=
  match runData.get? nodeName with
  -- what is inherited has no method `at`
  | none => if nodeName ∈ inheritedKeys then .error .typeError else .ok none
  | some runs =>
    match runs[runIndex]?.bind ITaskData.data with
    | none => .ok none
    | some data =>
      match data.get? connectionType with
      -- the `?.` chain ends before `.at`
      | none => .error .typeError
      | some outputs =>
        match SparseArray.get outputs outputIndex with
        | .value batch => .ok (some batch)
        | _ => .ok none

def getRunIndexLength : Nat :=
  match runData.get? nodeName with
  | none => inheritedLength nodeName
  | some runs => runs.length

def getIncomingDataFromAnyRun (outputIndex : Nat) : Except JsError (Option (Batch × Nat)) :=
  go 0 (getRunIndexLength runData nodeName)
where
  go (runIndex : Nat) : Nat → Except JsError (Option (Batch × Nat))
    | 0 => .ok none
    | remaining + 1 =>
      match getIncomingData runData nodeName runIndex connectionType outputIndex with
      | .error e => .error e
      | .ok none => go (runIndex + 1) remaining
      | .ok (some data) =>
        if data.length > 0 then
          .ok (some (data, runIndex))
        else
          go (runIndex + 1) remaining

namespace GraphConnection

def carried (c : GraphConnection) (runIndex : Nat) : Except JsError (Option Batch) :=
  getIncomingData runData c.fromNode.name runIndex c.type c.outputIndex

structure FirstOutput (runData : IRunData) (c : GraphConnection) (batch : Batch) (run : Nat)
    : Prop where
  carried : c.carried runData run = .ok (some batch)
  nonempty : 0 < batch.length
  first : ∀ i < run, ∀ earlier, c.carried runData i = .ok (some earlier) → earlier.length = 0

variable {c : GraphConnection} {i : Nat}

theorem FirstOutput.unique {runData : IRunData} (h : c.FirstOutput runData b i)
    (h' : c.FirstOutput runData b' i')
    : b = b' ∧ i = i' := by
  rcases Nat.lt_trichotomy i i' with hlt | rfl | hgt
  . exact absurd (h'.first i hlt b h.carried) (Nat.ne_of_gt h.nonempty)
  . cases h.carried.symm.trans h'.carried
    exact ⟨rfl, rfl⟩
  . exact absurd (h.first i' hgt b' h'.carried) (Nat.ne_of_gt h'.nonempty)

theorem not_carried_of_le {runData : IRunData} (h : getRunIndexLength runData c.fromNode.name ≤ i)
    : c.carried runData i ≠ .ok (some batch) := by
  unfold carried getIncomingData
  unfold getRunIndexLength at h
  cases hruns : runData.get? c.fromNode.name with
  | none =>
    dsimp only
    split <;> nofun
  | some runs =>
    rw [hruns] at h
    dsimp only
    rw [getElem?_eq_none h]
    nofun

end GraphConnection

section

variable (runData : IRunData) (c : GraphConnection)

def Silent (run : Nat) : Prop := ∀ batch, c.carried runData run = .ok (some batch) → batch.length = 0

inductive Searched (i : Nat) : Except JsError (Option (Batch × Nat)) → Prop
  | none (silent : ∀ j, i ≤ j → Silent runData c j) : Searched i (.ok none)
  | some {batch : Batch} {run : Nat} (carried : c.carried runData run = .ok (some batch))
      (nonempty : 0 < batch.length) (first : ∀ j, i ≤ j → j < run → Silent runData c j)
      : Searched i (.ok (some (batch, run)))
  | error {e : JsError} {run : Nat} (carried : c.carried runData run = .error e) : Searched i (.error e)

theorem searched_go {i remaining : Nat} (h : getRunIndexLength runData c.fromNode.name ≤ i + remaining)
    : Searched runData c i
        (getIncomingDataFromAnyRun.go runData c.fromNode.name c.type c.outputIndex i remaining) := by
  induction remaining generalizing i with
  | zero =>
    refine .none ?_
    intro j hj batch hbatch
    exact absurd hbatch (GraphConnection.not_carried_of_le (Nat.le_trans h hj))
  | succ remaining ih =>
    have hskip (hi : Silent runData c i) {result : Except JsError (Option (Batch × Nat))}
        (hrest : Searched runData c (i + 1) result)
        : Searched runData c i result := by
      have hfrom (j : Nat) (hj : i ≤ j) : i + 1 ≤ j ∨ j = i := by omega
      cases hrest with
      | none silent => exact .none fun j hj => (hfrom j hj).elim (silent j) (· ▸ hi)
      | some carried nonempty first =>
        exact .some carried nonempty fun j hj hlt => (hfrom j hj).elim (first j · hlt) (· ▸ hi)
      | error carried => exact .error carried
    have hrest := ih (i := i + 1) (by omega)
    unfold getIncomingDataFromAnyRun.go
    split
    . next hcarried => exact .error hcarried
    . next hnone =>
      apply hskip _ hrest
      intro batch hbatch
      cases hnone.symm.trans hbatch
    . next data hdata =>
      split
      . next hlen => exact .some hdata hlen (by omega)
      . next hlen =>
        apply hskip _ hrest
        intro batch hbatch
        cases hdata.symm.trans hbatch
        omega

theorem searched
    : Searched runData c 0 (getIncomingDataFromAnyRun runData c.fromNode.name c.type c.outputIndex) :=
  searched_go runData c (Nat.le_add_left _ _)

end

variable {runData : IRunData} {connections withData withoutData : List GraphConnection} {next : Nat}

variable {c : GraphConnection} {currentGroup : SourceConnectionGroup}
  {groups : List SourceConnectionGroup} {localeCompare : String → String → Int} {graph : DirectedGraph}
  {node : INode} {pinnedData : IPinData}

theorem getIncomingDataFromAnyRun_ok
    (h : getIncomingDataFromAnyRun runData c.fromNode.name c.type c.outputIndex = .ok result)
    : ∀ batch run, result = some (batch, run) ↔ c.FirstOutput runData batch run := by
  intro batch run
  have hsearched := searched runData c
  rw [h] at hsearched
  cases hsearched with
  | none silent =>
    refine iff_of_false nofun ?_
    intro hout
    have := silent run (Nat.zero_le run) batch hout.carried
    have := hout.nonempty
    omega
  | some carried nonempty first =>
    have hfound := GraphConnection.FirstOutput.mk carried nonempty fun j => first j (Nat.zero_le j)
    constructor
    . rintro ⟨⟩
      exact hfound
    . intro hout
      have ⟨hbatch, hrun⟩ := hfound.unique hout
      rw [hbatch, hrun]

structure SourceConnectionGroup where
  complete : Bool
  connections : List GraphConnection
  deriving DecidableEq

def newGroup : SourceConnectionGroup := ⟨true, []⟩

section

-- `String.prototype.localeCompare` depends on the locale of the process.
variable (localeCompare : String → String → Int)

def sortByInputIndexThenByName (connection1 connection2 : GraphConnection) : Int :=
  if connection1.inputIndex = connection2.inputIndex then
    localeCompare connection1.fromNode.name connection2.fromNode.name
  else
    connection1.inputIndex - connection2.inputIndex

def sortConnections (connections : List GraphConnection) : List GraphConnection :=
  connections.insertionSort fun c1 c2 => sortByInputIndexThenByName localeCompare c1 c2 ≤ 0

def leastInputIndex (connections : List GraphConnection) : Nat :=
  (connections.map (·.inputIndex)).min?.getD 0

def SourceConnectionGroup.push (group : SourceConnectionGroup) (c : GraphConnection)
    : SourceConnectionGroup :=
  { group with connections := group.connections ++ [c] }

-- The `while` loop, where `next` is `currentInputIndex + 1`. It is `none` when the fuel runs out.
def groupLoop (fuel : Nat) (withData withoutData : List GraphConnection) (next : Nat)
    (currentGroup : SourceConnectionGroup) (groups : List SourceConnectionGroup)
    : Option (List SourceConnectionGroup) :=
  match fuel with
  | 0 => none
  | fuel + 1 =>
    if withData.isEmpty && withoutData.isEmpty then
      some (groups ++ [currentGroup])
    else
      match withData.find? (·.inputIndex = next) with
      | some connection =>
        groupLoop fuel (withData.eraseP (·.inputIndex = next)) withoutData (next + 1)
          (currentGroup.push connection) groups
      | none =>
        match withoutData.find? (·.inputIndex = next) with
        | some connection =>
          groupLoop fuel withData (withoutData.eraseP (·.inputIndex = next)) (next + 1)
            { currentGroup.push connection with complete := false } groups
        | none =>
          groupLoop fuel withData withoutData (leastInputIndex (withData ++ withoutData))
            newGroup (groups ++ [currentGroup])

def hasData (runData : IRunData) (pinnedData : IPinData) (connection : GraphConnection) : Bool :=
  finds runData connection.fromNode.name || finds pinnedData connection.fromNode.name

section

variable (graph : DirectedGraph) (node : INode) (runData : IRunData) (pinnedData : IPinData)

def connectionsWithData : List GraphConnection :=
  sortConnections localeCompare ((graph.getConnections (some node)).filter (hasData runData pinnedData))

def connectionsWithoutData : List GraphConnection :=
  sortConnections localeCompare <| (graph.getConnections (some node)).filter fun c =>
    !hasData runData pinnedData c && c.type = .main

def groupFuel (withData withoutData : List GraphConnection) : Nat :=
  2 * (withData.length + withoutData.length) + 2

def getSourceDataGroups : List SourceConnectionGroup :=
  let withData := connectionsWithData localeCompare graph node runData pinnedData
  let withoutData := connectionsWithoutData localeCompare graph node runData pinnedData
  if withData.isEmpty && withoutData.isEmpty then
    []
  else
    (groupLoop (groupFuel withData withoutData) withData withoutData
      (leastInputIndex (withData ++ withoutData)) newGroup []).getD []

end

end

theorem exists_leastInputIndex (h : connections ≠ [])
    : ∃ c ∈ connections, c.inputIndex = leastInputIndex connections := by
  unfold leastInputIndex
  cases hmin : (connections.map (·.inputIndex)).min? with
  | none =>
    rw [min?_eq_none_iff, map_eq_nil_iff] at hmin
    contradiction
  | some least =>
    have hmem := min?_mem hmin
    rw [mem_map] at hmem
    have ⟨c, hc, heq⟩ := hmem
    exact ⟨c, hc, heq⟩

def Consecutive (connections : List GraphConnection) : Prop :=
  ∃ start, connections.map (·.inputIndex) = List.range' start connections.length

theorem Consecutive.nodup (h : Consecutive connections) : (connections.map (·.inputIndex)).Nodup := by
  have ⟨start, hrange⟩ := h
  rw [hrange]
  exact nodup_range'

def Filling (next : Nat) (connections : List GraphConnection) : Prop :=
  ∃ start, connections.map (·.inputIndex) = List.range' start connections.length
    ∧ next = start + connections.length

theorem Filling.nil (next : Nat) : Filling next [] := ⟨next, rfl, rfl⟩

theorem Filling.push (h : Filling next connections) (hc : c.inputIndex = next)
    : Filling (next + 1) (connections ++ [c]) := by
  have ⟨start, hmap, hnext⟩ := h
  refine ⟨start, ?_, ?_⟩
  . rw [map_append, hmap, length_append, length_singleton, range'_1_concat]
    simp [hc, hnext]
  . rw [length_append, length_singleton]
    omega

theorem Filling.consecutive (h : Filling next connections) : Consecutive connections := by
  have ⟨start, hmap, _⟩ := h
  exact ⟨start, hmap⟩

def taken (groups : List SourceConnectionGroup) : List GraphConnection := groups.flatMap (·.connections)

section

variable (hasData : GraphConnection → Bool)

def DataFirst (c d : GraphConnection) : Prop :=
  c.inputIndex = d.inputIndex → hasData d = true → hasData c = true

structure SourceConnectionGroup.Sound (group : SourceConnectionGroup) : Prop where
  nonempty : group.connections ≠ []
  consecutive : Consecutive group.connections
  complete : group.complete = group.connections.all hasData

structure Partitions (connections : List GraphConnection) (groups : List SourceConnectionGroup) : Prop where
  sound : ∀ g ∈ groups, g.Sound hasData
  dataFirst : (taken groups).Pairwise (DataFirst hasData)
  perm : (taken groups).Perm connections

structure Grouping (withData withoutData : List GraphConnection) (next : Nat)
    (currentGroup : SourceConnectionGroup) (groups : List SourceConnectionGroup)
    : Prop where
  sound : ∀ g ∈ groups, g.Sound hasData
  filling : Filling next currentGroup.connections
  complete : currentGroup.complete = currentGroup.connections.all hasData
  started : currentGroup.connections ≠ [] ∨ ∃ c ∈ withData ++ withoutData, c.inputIndex = next
  dataFirst : (taken (groups ++ [currentGroup])).Pairwise (DataFirst hasData)
  later : ∀ c ∈ taken (groups ++ [currentGroup]), ∀ d ∈ withData, DataFirst hasData c d
  withData : ∀ c ∈ withData, hasData c = true
  withoutData : ∀ c ∈ withoutData, hasData c = false

end

theorem Partitions.of_perm {hasData : GraphConnection → Bool}
    (h : Partitions hasData connections groups) (hperm : connections.Perm connections')
    : Partitions hasData connections' groups :=
  ⟨h.sound, h.dataFirst, h.perm.trans hperm⟩

theorem Partitions.congr {hasData recorded : GraphConnection → Bool}
    (h : Partitions hasData connections groups) (heq : ∀ c ∈ connections, hasData c = recorded c)
    : Partitions recorded connections groups := by
  have htaken (c : GraphConnection) (hc : c ∈ taken groups) := heq c (h.perm.mem_iff.mp hc)
  refine ⟨fun g hg => ?_, h.dataFirst.imp_of_mem ?_, h.perm⟩
  . have hsound := h.sound g hg
    refine ⟨hsound.nonempty, hsound.consecutive, ?_⟩
    rw [hsound.complete, Bool.eq_iff_iff, all_eq_true, all_eq_true]
    exact forall₂_congr fun c hc => by rw [htaken c (mem_flatMap.mpr ⟨g, hg, hc⟩)]
  . intro c d hc hd hfirst
    rwa [DataFirst, ← htaken c hc, ← htaken d hd]

section

variable {complete : Bool}

theorem taken_push
    : taken (groups ++ [⟨complete, currentGroup.connections ++ [c]⟩])
      = taken (groups ++ [currentGroup]) ++ [c] := by
  simp [taken]

theorem perm_push (h : connections.Perm (c :: rest))
    : (taken (groups ++ [⟨complete, currentGroup.connections ++ [c]⟩]) ++ rest).Perm
        (taken (groups ++ [currentGroup]) ++ connections) := by
  rw [taken_push, List.append_assoc]
  exact h.symm.append_left _

end

theorem perm_cons_eraseP {p : GraphConnection → Bool} (h : connections.find? p = some c)
    : connections.Perm (c :: connections.eraseP p) := by
  have ⟨hc, front, back, heq, hfront⟩ := find?_eq_some_iff_append.mp h
  rw [heq, eraseP_append_right _ (by simpa using hfront), eraseP_cons_of_pos hc]
  exact perm_middle

namespace Grouping

variable {hasData : GraphConnection → Bool} {withData' withoutData' : List GraphConnection}
  (h : Grouping hasData withData withoutData next currentGroup groups)

include h

theorem push (hc : c.inputIndex = next) (hwith : withData' ⊆ withData)
    (hwithout : withoutData' ⊆ withoutData)
    (hbefore : ∀ b ∈ taken (groups ++ [currentGroup]), DataFirst hasData b c)
    (hafter : ∀ d ∈ withData', DataFirst hasData c d) {complete : Bool}
    (hcomplete : complete = (currentGroup.complete && hasData c))
    : Grouping hasData withData' withoutData' (next + 1) ⟨complete, currentGroup.connections ++ [c]⟩
        groups := by
  refine ⟨h.sound, h.filling.push hc, ?_, .inl (by simp), ?_, ?_, ?_, ?_⟩
  . simp [hcomplete, h.complete]
  . rw [taken_push, pairwise_append]
    exact ⟨h.dataFirst, pairwise_singleton _ _, by simpa using hbefore⟩
  . rw [taken_push, forall_mem_append, forall_mem_singleton]
    exact ⟨fun b hb d hd => h.later b hb d (hwith hd), hafter⟩
  . exact fun d hd => h.withData d (hwith hd)
  . exact fun d hd => h.withoutData d (hwithout hd)

theorem close (hnone : ¬∃ c ∈ withData ++ withoutData, c.inputIndex = next)
    : ∀ g ∈ groups ++ [currentGroup], g.Sound hasData := by
  rw [forall_mem_append, forall_mem_singleton]
  exact ⟨h.sound, h.started.resolve_right hnone, h.filling.consecutive, h.complete⟩

-- Every connection takes two rounds at most: one that jumps to the least index, one that takes it.
theorem exists_groupLoop (fuel : Nat)
    (hfuel : 2 * (withData ++ withoutData).length + 1
      < fuel + if ∃ c ∈ withData ++ withoutData, c.inputIndex = next then 1 else 0)
    : ∃ result, groupLoop fuel withData withoutData next currentGroup groups = some result
      ∧ Partitions hasData (taken (groups ++ [currentGroup]) ++ (withData ++ withoutData)) result := by
  induction fuel generalizing withData withoutData next currentGroup groups with
  | zero => split at hfuel <;> omega
  | succ fuel ih =>
    have hnext {withData' withoutData' : List GraphConnection} {c : GraphConnection} {complete : Bool}
        (hpush : Grouping hasData withData' withoutData' (next + 1)
          ⟨complete, currentGroup.connections ++ [c]⟩ groups)
        (hperm : (withData ++ withoutData).Perm (c :: (withData' ++ withoutData'))) :=
      have hlen := hperm.length_eq.trans length_cons
      (ih hpush (by split at hfuel <;> split <;> omega)).imp fun _ hnext =>
        And.intro hnext.1 (hnext.2.of_perm (perm_push hperm))
    unfold groupLoop
    split
    . next hempty =>
      rw [Bool.and_eq_true, List.isEmpty_iff, List.isEmpty_iff] at hempty
      rw [hempty.1, hempty.2] at h ⊢
      exact ⟨_, rfl, h.close (by simp), h.dataFirst, by simp⟩
    . next hne =>
      split
      . next c hc =>
        have hmem := mem_of_find?_eq_some hc
        have hdata := h.withData c hmem
        refine hnext (h.push (by simpa using find?_some hc) eraseP_subset (Subset.refl _)
          (fun b hb => h.later b hb c hmem) (fun _ _ _ _ => hdata) ?_) ((perm_cons_eraseP hc).append_right _)
        rw [hdata, Bool.and_true]
      . next hwith =>
        rw [find?_eq_none] at hwith
        split
        . next c hc =>
          have hidx : c.inputIndex = next := by simpa using find?_some hc
          have hdata := h.withoutData c (mem_of_find?_eq_some hc)
          refine hnext (h.push hidx (Subset.refl _) eraseP_subset ?_ ?_ ?_)
            (((perm_cons_eraseP hc).append_left _).trans perm_middle)
          . intro b _ _ hc
            rw [hdata] at hc
            contradiction
          . intro d hd hsame
            exact absurd (decide_eq_true (hsame.symm.trans hidx)) (hwith d hd)
          . rw [hdata, Bool.and_false]
        . next hwithout =>
          rw [find?_eq_none] at hwithout
          have hnone : ¬∃ c ∈ withData ++ withoutData, c.inputIndex = next := by
            rintro ⟨c, hc, hidx⟩
            cases mem_append.mp hc with
            | inl hc => exact hwith c hc (decide_eq_true hidx)
            | inr hc => exact hwithout c hc (decide_eq_true hidx)
          have hleast := @exists_leastInputIndex (withData ++ withoutData) (by simpa using hne)
          rw [if_neg hnone] at hfuel
          have htaken : taken (groups ++ [currentGroup]) = taken (groups ++ [currentGroup] ++ [newGroup]) := by
            simp [taken, newGroup]
          have hfirst := h.dataFirst
          have hlater := h.later
          rw [htaken] at hfirst hlater ⊢
          refine ih ⟨h.close hnone, .nil _, rfl, .inr hleast, hfirst, hlater, h.withData, h.withoutData⟩ ?_
          rw [if_pos hleast]
          omega

end Grouping

def incoming (graph : DirectedGraph) (node : INode) (hasData : GraphConnection → Bool)
    : List GraphConnection :=
  (graph.getConnections (some node)).filter fun c => hasData c || c.type = .main

-- What the source has of its own, in the run data or pinned.
def recorded (runData : IRunData) (pinnedData : IPinData) (c : GraphConnection) : Bool :=
  runData.has c.fromNode.name || pinnedData.has c.fromNode.name

section

variable (localeCompare : String → String → Int) (graph : DirectedGraph) (node : INode)
  (runData : IRunData) (pinnedData : IPinData)

theorem perm_incoming
    : (connectionsWithData localeCompare graph node runData pinnedData
        ++ connectionsWithoutData localeCompare graph node runData pinnedData).Perm
      (incoming graph node (hasData runData pinnedData)) := by
  refine ((perm_insertionSort _ _).append (perm_insertionSort _ _)).trans ?_
  refine .trans (.of_eq ?_) (filter_append_perm (hasData runData pinnedData) _)
  simp only [incoming, filter_filter]
  congr 2 <;> ext c <;> cases hasData runData pinnedData c <;> simp

theorem partitions_getSourceDataGroups
    : Partitions (hasData runData pinnedData) (incoming graph node (hasData runData pinnedData))
        (getSourceDataGroups localeCompare graph node runData pinnedData) := by
  have hperm := perm_incoming localeCompare graph node runData pinnedData
  have hwith : ∀ c ∈ connectionsWithData localeCompare graph node runData pinnedData,
      hasData runData pinnedData c = true := by
    simp [connectionsWithData, sortConnections]
  have hwithout : ∀ c ∈ connectionsWithoutData localeCompare graph node runData pinnedData,
      hasData runData pinnedData c = false := by
    simp +contextual [connectionsWithoutData, sortConnections]
  unfold getSourceDataGroups
  generalize connectionsWithData localeCompare graph node runData pinnedData = withData at *
  generalize connectionsWithoutData localeCompare graph node runData pinnedData = withoutData at *
  dsimp only
  split
  . next hempty =>
    rw [Bool.and_eq_true, List.isEmpty_iff, List.isEmpty_iff] at hempty
    rw [hempty.1, hempty.2] at hperm
    exact ⟨nofun, .nil, hperm⟩
  . next hne =>
    have hleast := @exists_leastInputIndex (withData ++ withoutData) (by simpa using hne)
    have hstart : Grouping (hasData runData pinnedData) withData withoutData
        (leastInputIndex (withData ++ withoutData)) newGroup [] :=
      ⟨nofun, .nil _, rfl, .inr hleast, .nil, nofun, hwith, hwithout⟩
    have hfuel : 2 * (withData ++ withoutData).length + 1 < groupFuel withData withoutData + 1 := by
      rw [length_append, groupFuel]
      omega
    have ⟨groups, hgroups, hparts⟩ :=
      hstart.exists_groupLoop (groupFuel withData withoutData) (by rwa [if_pos hleast])
    rw [hgroups]
    exact hparts.of_perm hperm

end

section

variable (h : group ∈ getSourceDataGroups localeCompare graph node runData pinnedData)

include h

theorem consecutive_of_mem_getSourceDataGroups : Consecutive group.connections :=
  ((partitions_getSourceDataGroups localeCompare graph node runData pinnedData).sound group h).consecutive

theorem mem_values_of_mem_getSourceDataGroups (hc : c ∈ group.connections)
    : c ∈ graph.connections.values := by
  have hperm := (partitions_getSourceDataGroups localeCompare graph node runData pinnedData).perm
  exact mem_of_mem_filter (mem_of_mem_filter (hperm.mem_iff.mp (mem_flatMap.mpr ⟨group, h, hc⟩)))

end

def codePointCompare (a b : String) : Int :=
  if a.toList < b.toList then -1 else if a = b then 0 else 1

def nodeNamed (ref : Nat) (name : String) : INode := ⟨ref, name, "node", false, .null⟩

def fromA : GraphConnection := ⟨nodeNamed 0 "A", nodeNamed 2 "N", .main, 0, 0⟩

def fromB : GraphConnection := ⟨nodeNamed 1 "B", nodeNamed 2 "N", .main, 0, 1⟩

def twoInputs : DirectedGraph where
  nodes := ((OrderedMap.empty.set "A" (nodeNamed 0 "A")).set "B" (nodeNamed 1 "B")).set "N" (nodeNamed 2 "N")
  connections := (OrderedMap.empty.set "A-main-0-0-N" fromA).set "B-main-0-1-N" fromB

def pinnedA : IPinData := OrderedMap.empty.set "A" (.output 0 2)

def fromConstructor : GraphConnection := ⟨nodeNamed 0 "constructor", nodeNamed 2 "N", .main, 0, 0⟩

def inheritedSource : DirectedGraph :=
  ⟨.empty, OrderedMap.empty.set "constructor-main-0-0-N" fromConstructor⟩

end N8n
