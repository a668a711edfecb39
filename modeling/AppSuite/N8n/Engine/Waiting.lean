import AppSuite.System.Run
import AppSuite.N8n.Engine.AddNodeLemmas

/-!
This module contains what becomes of the batches that are delivered to a node with several inputs.
-/

namespace N8n

open List
namespace WorkflowExecute

def outputOf (slot : Slot Batch × Nat) : List (Nat × Batch) :=
  match slot with
  | (.value (.output ref length), i) => [(i, .output ref length)]
  | _ => []

def outputsAt (slots : List (Slot Batch)) : List (Nat × Batch) := slots.zipIdx.flatMap outputOf

def outputsIn (data : ITaskDataConnections) : List (Nat × Batch) :=
  outputsAt ((data.get? .main).getD [])

variable (w : Workflow) (nodeName : String)

def placedOnStack (stack : List IExecuteData) : List (Nat × Batch) :=
  stack.flatMap fun item => if item.node = w.nodes.get? nodeName then outputsIn item.data else []

def placedIn (entries : IndexMap ITaskDataConnections) : List (Nat × Batch) :=
  entries.entries.flatMap fun e => outputsIn e.2

def placed (s : RunExecutionData) : List (Nat × Batch) :=
  placedOnStack w nodeName s.nodeExecutionStack ++ placedIn (entriesOf s.waitingExecution nodeName)

structure Delivering where
  state : RunExecutionData
  history : List Delivery

namespace Delivering

variable (w : Workflow) (t : Delivering) (d : Delivery)

def step : Delivering :=
  ⟨(addNodeToBeExecuted w d t.state).1, t.history ++ [d]⟩

def deliveredBy : List (Nat × Batch) := outputOf (d.data, d.index)

def Conserved (nodeName : String) (initial : RunExecutionData) (t : Delivering) : Prop :=
  (placed w nodeName t.state).Perm (t.history.flatMap deliveredBy ++ placed w nodeName initial)

def HasRoom : Prop :=
  (∃ e ∈ (entriesOf t.state.waitingExecution d.node).entries,
      (SparseArray.get ((e.2.get? .main).getD []) d.index).truthy = false)
    ∨ (entriesOf t.state.waitingExecution d.node).size
        ∉ (entriesOf t.state.waitingExecution d.node).keys

instance (t : Delivering) (d : Delivery) : Decidable (t.HasRoom d) :=
  inferInstanceAs (Decidable (_ ∨ _))

end Delivering

variable {slots : List (Slot Batch)}

theorem outputsFrom_set {i ref length : Nat} (k : Nat) (hlt : i < slots.length)
    (hfree : (SparseArray.get slots i).truthy = false)
    : (((slots.set i (.value (.output ref length))).zipIdx k).flatMap outputOf).Perm
      ((k + i, .output ref length) :: (slots.zipIdx k).flatMap outputOf) := by
  induction slots generalizing i k with
  | nil => simp at hlt
  | cons slot slots ih =>
    cases i with
    | zero =>
      have hnone : outputOf (slot, k) = [] := by
        cases slot with
        | absent | null => rfl
        | value b => simp [SparseArray.get, Slot.truthy] at hfree
      rw [set_cons_zero, zipIdx_cons, zipIdx_cons, flatMap_cons,
        flatMap_cons, hnone]
      exact List.Perm.refl _
    | succ i =>
      have hlt' : i < slots.length := by simpa using hlt
      have hfree' : (SparseArray.get slots i).truthy = false := by
        simpa [SparseArray.get] using hfree
      have := ih (k + 1) hlt' hfree'
      rw [show k + 1 + i = k + (i + 1) by omega] at this
      exact (this.append_left _).trans perm_middle

theorem outputsAt_set {i : Nat} (ref length : Nat) (hlt : i < slots.length)
    (hfree : (SparseArray.get slots i).truthy = false)
    : (outputsAt (SparseArray.set slots i (.value (.output ref length)))).Perm
      ((i, .output ref length) :: outputsAt slots) := by
  rw [SparseArray.set_of_lt _ hlt]
  simpa [outputsAt] using outputsFrom_set 0 hlt hfree

theorem outputsAt_replicate_null (n : Nat) : outputsAt (List.replicate n .null) = [] := by
  unfold outputsAt
  rw [flatMap_eq_nil_iff]
  intro ⟨slot, i⟩ he
  have hnull : slot = .null := eq_of_mem_replicate (fst_mem_of_mem_zipIdx he)
  rw [hnull]
  rfl

theorem outputsIn_eq (h : data.get? .main = some slots)
    : outputsIn data = outputsAt slots := by
  unfold outputsIn
  rw [h]
  rfl

namespace Delivering

def DeliversTo (d : Delivery) : Prop :=
  d.node = nodeName ∧ d.index < numberOfInputs w nodeName ∧ deliveredBy d ≠ []

instance (w : Workflow) (nodeName : String) (d : Delivery) : Decidable (DeliversTo w nodeName d) :=
  inferInstanceAs (Decidable (_ ∧ _ ∧ _))

variable {w : Workflow} {nodeName : String} {d : Delivery} {t : Delivering} {initial : RunExecutionData}

theorem data_of_deliversTo (h : DeliversTo w nodeName d)
    : ∃ ref length, d.data = .value (.output ref length)
      ∧ deliveredBy d = [(d.index, .output ref length)] := by
  have hne := h.2.2
  unfold deliveredBy at hne ⊢
  cases hdata : d.data with
  | absent | null => simp [hdata, outputOf] at hne
  | value batch =>
    cases batch with
    | emptyItem | foreign _ => simp [hdata, outputOf] at hne
    | output ref length => exact ⟨ref, length, rfl, rfl⟩

structure Inv (w : Workflow) (nodeName : String) (initial : RunExecutionData) (t : Delivering)
    : Prop where
  conserved : t.Conserved w nodeName initial
  mains : Mains (entriesOf t.state.waitingExecution nodeName)
    (entriesOf t.state.waitingExecutionSource nodeName)
  length : ∀ e ∈ (entriesOf t.state.waitingExecution nodeName).entries, ∀ slots,
    e.2.get? .main = some slots → slots.length = numberOfInputs w nodeName
  nonempty : ∀ e ∈ (entriesOf t.state.waitingExecution nodeName).entries, ∀ slots,
    e.2.get? .main = some slots → outputsAt slots ≠ []

theorem outputs_others {slots : List (Slot Batch)} (htarget : Target w d t.state i slots)
    (hroom : t.HasRoom d)
    (hmains : Mains (entriesOf t.state.waitingExecution d.node)
      (entriesOf t.state.waitingExecutionSource d.node))
    : (placedIn (entriesOf t.state.waitingExecution d.node)).Perm
      (outputsAt slots ++ placedIn ((entriesOf t.state.waitingExecution d.node).delete i)) := by
  unfold placedIn
  cases htarget with
  | inl hold =>
    have ⟨entry, hentry, hslots, _⟩ := hold
    have := (IndexMap.perm_of_get? hentry).flatMap_right fun e => outputsIn e.2
    rw [flatMap_cons, outputsIn_eq hslots] at this
    exact this
  | inr hnew =>
    have ⟨hfull, hi, hslots⟩ := hnew
    have hfree : i ∉ (entriesOf t.state.waitingExecution d.node).keys := by
      cases hroom with
      | inl hmissing =>
        have ⟨e, he, hslot⟩ := hmissing
        have ⟨slots', hslots'⟩ := (hmains e.1 e.2 (IndexMap.get?_eq_some_iff.mpr he)).1
        rw [hslots', Option.getD_some, hfull e he slots' hslots'] at hslot
        contradiction
      | inr hkey =>
        rw [hi]
        exact hkey
    rw [hslots, outputsAt_replicate_null, IndexMap.delete_of_not_mem hfree]
    exact List.Perm.refl _

theorem placed_delivered {slots : List (Slot Batch)}
    (h : Delivered w d s s' i slots)
    : (placed w d.node s').Perm
      (outputsAt slots ++ (placedOnStack w d.node s.nodeExecutionStack
        ++ placedIn ((entriesOf s.waitingExecution d.node).delete i))) := by
  unfold placed placedOnStack placedIn
  rw [perm_iff_count]
  intro x
  cases h with
  | pushed _ item hnode hdata hstack hentries =>
    have hstack := (hstack.flatMap_right fun item =>
      if item.node = w.nodes.get? d.node then outputsIn item.data else []).count_eq x
    have hentries := (hentries.flatMap_right fun e => outputsIn e.2).count_eq x
    rw [flatMap_cons, if_pos hnode, outputsIn_eq hdata] at hstack
    simp only [count_append] at *
    omega
  | kept _ items hitems hstack entry hentry hentries =>
    have hstack := (hstack.flatMap_right fun item =>
      if item.node = w.nodes.get? d.node then outputsIn item.data else []).count_eq x
    have hentries := (hentries.flatMap_right fun e => outputsIn e.2).count_eq x
    have hnothing : (items.flatMap fun item =>
        if item.node = w.nodes.get? d.node then outputsIn item.data else []) = [] := by
      rw [flatMap_eq_nil_iff]
      intro item hitem
      rw [hitems item hitem]
      split
      . simp [outputsIn, outputsAt, outputOf]
      . rfl
    rw [flatMap_append, hnothing] at hstack
    rw [flatMap_cons, outputsIn_eq hentry] at hentries
    simp only [count_append, nil_append] at *
    omega

theorem step_state (hinputs : 1 < numberOfInputs w nodeName) (hd : DeliversTo w nodeName d)
    : (t.step w d).state = (addToWaiting w d t.state).1 := by
  unfold step addNodeToBeExecuted
  rw [hd.1, if_pos hinputs]

section

variable (hinputs : 1 < numberOfInputs w nodeName) (h : t.Inv w nodeName initial)
  (hd : DeliversTo w nodeName d)

include hinputs h hd

theorem inv_step (hroom : t.HasRoom d) : (t.step w d).Inv w nodeName initial := by
  have ⟨ref, length, hdata, hby⟩ := data_of_deliversTo hd
  have hstate := step_state hinputs hd (t := t)
  obtain ⟨rfl, hindex, -⟩ := hd
  have ⟨i, slots, htarget, hdelivered, hmains⟩ := addToWaiting_spec h.mains (w := w)
  have hwidth := htarget.main h.length length_replicate
  have hslots := outputsAt_set ref length (by rwa [hwidth]) htarget.free
  rw [← hstate, hdata] at hdelivered
  rw [← hstate] at hmains
  have hothers := outputs_others htarget hroom h.mains
  have hplaced := placed_delivered hdelivered
  refine ⟨?_, hmains, ?_, ?_⟩
  . have hconserved := h.conserved
    unfold Conserved step at *
    generalize placed w d.node initial = before at *
    rw [flatMap_append, flatMap_cons, flatMap_nil, hby]
    rw [perm_iff_count] at *
    intro x
    have hplaced := hplaced x
    have hothers := hothers x
    have hslots := hslots x
    have hconserved := hconserved x
    unfold placed at hconserved
    simp only [count_append, count_cons, count_nil] at *
    omega
  . apply hdelivered.forall_mains h.length
    rw [SparseArray.length_set, hwidth]
    omega
  . apply hdelivered.forall_mains h.nonempty
    intro hnil
    rw [hnil] at hslots
    simpa using hslots.length_eq

theorem not_conserved_step (hroom : ¬t.HasRoom d) : ¬(t.step w d).Conserved w nodeName initial := by
  intro hafter
  have ⟨ref, length, hdata, hby⟩ := data_of_deliversTo hd
  have hstate := step_state hinputs hd (t := t)
  obtain ⟨rfl, hindex, -⟩ := hd
  have ⟨i, slots, htarget, hdelivered, _⟩ := addToWaiting_spec h.mains (w := w)
  have hwidth := htarget.main h.length length_replicate
  have hslots := (outputsAt_set ref length (by rwa [hwidth]) htarget.free).length_eq
  rw [← hstate, hdata] at hdelivered
  have hplaced := (placed_delivered hdelivered).length_eq
  unfold HasRoom at hroom
  rw [not_or, not_not] at hroom
  cases htarget with
  | inl hold =>
    have ⟨entry, hentry, hmain, hfree⟩ := hold
    apply hroom.1
    refine ⟨(i, entry), IndexMap.get?_eq_some_iff.mp hentry, ?_⟩
    rw [hmain]
    exact hfree
  | inr hnew =>
    have ⟨_, hi, hnull⟩ := hnew
    rw [← hi] at hroom
    cases hentry : (entriesOf t.state.waitingExecution d.node).get? i with
    | none => exact absurd hroom.2 (IndexMap.get?_eq_none_iff.mp hentry)
    | some entry =>
      have ⟨lost, hlost⟩ := (h.mains i entry hentry).1
      have hlost : outputsIn entry ≠ [] := by
        rw [outputsIn_eq hlost]
        exact h.nonempty (i, entry) (IndexMap.get?_eq_some_iff.mp hentry) lost hlost
      have hpos := length_pos_iff.mpr hlost
      have hentries := ((IndexMap.perm_of_get? hentry).flatMap_right fun e => outputsIn e.2).length_eq
      have hbefore := h.conserved.length_eq
      have hafter := hafter.length_eq
      generalize placed w d.node initial = before at hbefore hafter
      rw [hnull, outputsAt_replicate_null] at hslots
      rw [hnull] at hplaced
      unfold step at hafter hplaced
      unfold placed placedIn at hbefore
      unfold placedIn at hplaced
      rw [flatMap_append, flatMap_cons, flatMap_nil, hby] at hafter
      rw [flatMap_cons] at hentries
      simp only [length_append, length_cons, length_nil] at *
      omega

end

theorem inv_init (hempty : initial.waitingExecution = .empty)
    : (Delivering.mk initial []).Inv w nodeName initial := by
  have hentries : entriesOf initial.waitingExecution nodeName = .empty := by
    simp [entriesOf, hempty]
  refine ⟨List.Perm.refl _, ?_, ?_, ?_⟩
  . rw [hentries]
    apply Mains.empty
  . simp [hentries, IndexMap.empty]
  . simp [hentries, IndexMap.empty]

theorem conserved_iff_hasRoom (w : Workflow) (nodeName : String) (initial : RunExecutionData)
    (deliveries : List Delivery) (hinputs : 1 < numberOfInputs w nodeName)
    (hempty : initial.waitingExecution = .empty) (hd : ∀ d ∈ deliveries, DeliversTo w nodeName d)
    : Run.Always (step w) (Conserved w nodeName initial) ⟨initial, []⟩ deliveries
      ↔ Run.Along (step w) HasRoom ⟨initial, []⟩ deliveries := by
  apply Run.always_iff_along (Inv w nodeName initial) (DeliversTo w nodeName) _ _ _ (inv_init hempty) hd
  . intro t ht
    exact ht.conserved
  . intro t d ht hd hroom
    apply inv_step hinputs ht hd hroom
  . intro t d ht hd hroom
    apply not_conserved_step hinputs ht hd hroom

def mergeNodes : List INode :=
  ["A", "B", "C", "D", "Merge"].zipIdx.map fun name =>
    ⟨name.2, name.1, "n8n-nodes-base.noOp", false, .object []⟩

def toMerge (index : Nat) : INodeConnections :=
  OrderedMap.empty.set .main [some [⟨"Merge", .main, index⟩]]

def mergeWorkflow : Workflow :=
  { (Workflow.empty.setNodes mergeNodes).setConnections
      (((OrderedMap.empty.set "A" (toMerge 0)).set "B" (toMerge 0)).set "C" (toMerge 1)
        |>.set "D" (toMerge 0)) with
    executionOrder := some .v1 }

def emptyRun : RunExecutionData := ⟨[], .empty, .empty, .empty⟩

def fromNode (parentNodeName : String) (index ref : Nat) : Delivery :=
  ⟨⟨"Merge", .main, index⟩, 0, parentNodeName, some [.value (.output ref 1)], 0, none⟩

def inOrder : List Delivery := [
  fromNode "A" 0 1, fromNode "B" 0 2, fromNode "C" 1 3, fromNode "C" 1 4, fromNode "D" 0 5]

theorem conserved_iff_hasRoom_inOrder
    : Run.Always (step mergeWorkflow) (Conserved mergeWorkflow "Merge" emptyRun) ⟨emptyRun, []⟩ inOrder
      ∧ placed mergeWorkflow "Merge" (inOrder.foldl (step mergeWorkflow) ⟨emptyRun, []⟩).state
          = [(0, .output 2 1), (1, .output 4 1), (0, .output 1 1), (1, .output 3 1), (0, .output 5 1)] :=
  ⟨(conserved_iff_hasRoom mergeWorkflow "Merge" emptyRun inOrder (by decide) rfl (by decide)).mpr
    (by decide), by decide⟩

def outOfOrder : List Delivery := [
  fromNode "A" 0 1, fromNode "B" 0 2, fromNode "C" 1 3, fromNode "D" 0 4]

theorem not_conserved_outOfOrder
    : 1 < numberOfInputs mergeWorkflow "Merge"
      ∧ (∀ d ∈ outOfOrder, DeliversTo mergeWorkflow "Merge" d)
      ∧ ¬Run.Always (step mergeWorkflow) (Conserved mergeWorkflow "Merge" emptyRun) ⟨emptyRun, []⟩
          outOfOrder
      ∧ placed mergeWorkflow "Merge" (outOfOrder.foldl (step mergeWorkflow) ⟨emptyRun, []⟩).state
          = [(0, .output 1 1), (1, .output 3 1), (0, .output 4 1)] := by
  refine ⟨by decide, by decide, ?_, by decide⟩
  intro h
  have := h.last.length_eq
  revert this
  decide

end Delivering

end WorkflowExecute
end N8n
