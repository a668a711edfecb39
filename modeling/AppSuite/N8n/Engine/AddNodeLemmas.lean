import AppSuite.N8n.Engine.AddNode

/-!
This module contains what `addNodeToBeExecuted` can do to the entries of a node with several inputs.
-/

namespace N8n

open List OrderedMap

namespace WorkflowExecute

section Entries

variable {ν : Type}

def entriesOf (waiting : OrderedMap String (IndexMap ν)) (nodeName : String) : IndexMap ν :=
  (waiting.get? nodeName).getD .empty

section

variable (waiting : OrderedMap String (IndexMap ν)) (nodeName : String) (i : Nat)

include waiting nodeName i

theorem waitingEntryOf_eq
    : waitingEntryOf waiting nodeName i = (entriesOf waiting nodeName).get? i := by
  unfold waitingEntryOf entriesOf
  cases waiting.get? nodeName <;> rfl

@[simp]
theorem entriesOf_setWaitingEntry (entry : ν)
    : entriesOf (setWaitingEntry waiting nodeName i entry) nodeName
      = (entriesOf waiting nodeName).set i entry := by
  simp [entriesOf, setWaitingEntry]

theorem entriesOf_deleteWaitingEntry
    : (entriesOf (deleteWaitingEntry waiting nodeName i) nodeName).entries
      = ((entriesOf waiting nodeName).delete i).entries := by
  unfold deleteWaitingEntry
  dsimp only
  split
  . next hempty =>
    have : ((entriesOf waiting nodeName).delete i).entries = [] := by
      apply eq_nil_of_length_eq_zero
      exact hempty
    rw [this]
    simp [entriesOf, get?_delete, IndexMap.empty]
  . simp [entriesOf]

end

end Entries

def Mains (entries : IndexMap ITaskDataConnections) (sources : IndexMap ITaskDataConnectionsSource)
    : Prop :=
  ∀ i entry, entries.get? i = some entry →
    (∃ slots, entry.get? .main = some slots)
      ∧ ∃ source slots, sources.get? i = some source ∧ source.get? .main = some slots

namespace Mains

variable {entries : IndexMap ITaskDataConnections} {sources : IndexMap ITaskDataConnectionsSource}

theorem empty : Mains .empty sources := by
  intro i entry h
  simp [IndexMap.empty, IndexMap.get?] at h

theorem set (h : Mains entries sources) (i : Nat) {entry : ITaskDataConnections}
    {slots : List (Slot Batch)}
    (hentry : entry.get? .main = some slots)
    (hsource : source.get? .main = some sourceSlots)
    : Mains (entries.set i entry) (sources.set i source) := by
  intro j entry' hj
  rw [IndexMap.get?_set] at hj
  rw [IndexMap.get?_set]
  split at hj
  . next heq =>
    injection hj with hj
    subst hj
    rw [if_pos heq]
    exact ⟨⟨slots, hentry⟩, source, sourceSlots, rfl, hsource⟩
  . next hne =>
    rw [if_neg hne]
    exact h j entry' hj

theorem delete (h : Mains entries sources) (i : Nat) : Mains (entries.delete i) (sources.delete i) := by
  intro j entry hj
  rw [IndexMap.get?_delete] at hj
  rw [IndexMap.get?_delete]
  split at hj
  . contradiction
  . next hne =>
    rw [if_neg hne]
    exact h j entry hj

end Mains

theorem entryWithout_cases (index : Nat) {entries : List (Nat × ITaskDataConnections)}
    (h : ∀ e ∈ entries, ∃ slots, e.2.get? .main = some slots)
    : (∃ i entry slots, entryWithout index entries = .ok (some i) ∧ (i, entry) ∈ entries
          ∧ entry.get? .main = some slots ∧ (SparseArray.get slots index).truthy = false)
      ∨
      (entryWithout index entries = .ok none ∧
        ∀ e ∈ entries, ∀ slots, e.2.get? .main = some slots →
          (SparseArray.get slots index).truthy = true) := by
  induction entries with
  | nil => exact .inr ⟨rfl, by simp⟩
  | cons e es ih =>
    rw [forall_mem_cons] at h
    have ⟨⟨slots, hslots⟩, hes⟩ := h
    unfold entryWithout
    rw [hslots]
    dsimp only
    split
    . next htruthy =>
      refine (ih hes).imp ?_ ?_
      . intro ⟨i, entry, slots', hok, hmem, hmain⟩
        exact ⟨i, entry, slots', hok, mem_cons_of_mem e hmem, hmain⟩
      . intro ⟨hok, hfull⟩
        refine ⟨hok, forall_mem_cons.mpr ⟨?_, hfull⟩⟩
        intro slots' hslots'
        rw [hslots] at hslots'
        injection hslots' with hslots'
        rwa [← hslots']
    . next hmissing => exact .inl ⟨e.1, e.2, slots, rfl, mem_cons_self, hslots, by simpa using hmissing⟩

structure Fills (s s' : RunExecutionData) : Prop where
  waiting : s'.waitingExecution = s.waitingExecution
  source : s'.waitingExecutionSource = s.waitingExecutionSource
  stack : ∃ items : List IExecuteData,
    (∀ item ∈ items, item.data = onlyMain [.value .emptyItem])
      ∧ s'.nodeExecutionStack.Perm (items ++ s.nodeExecutionStack)

theorem Fills.refl (s : RunExecutionData) : Fills s s := by
  refine ⟨rfl, rfl, [], ?_, ?_⟩ <;> simp

variable {s s' s'' : RunExecutionData} {d : Delivery} {i : Nat} {slots : List (Slot Batch)}
  {w : Workflow} {entry : ITaskDataConnections}

theorem Fills.trans (h : Fills s s') (h' : Fills s' s'') : Fills s s'' := by
  have ⟨items, hitems, hperm⟩ := h.stack
  have ⟨items', hitems', hperm'⟩ := h'.stack
  refine ⟨h'.waiting.trans h.waiting, h'.source.trans h.source, items' ++ items, ?_, ?_⟩
  . exact forall_mem_append.mpr ⟨hitems', hitems⟩
  . rw [append_assoc]
    exact hperm'.trans (hperm.append_left items')

theorem enqueue_perm (w : Workflow) (item : IExecuteData) (s : RunExecutionData)
    : (enqueue w item s).nodeExecutionStack.Perm (item :: s.nodeExecutionStack) := by
  unfold enqueue
  split
  . rfl
  . apply perm_append_singleton

section

variable (w : Workflow) (d : Delivery) (names : List String) (s : RunExecutionData)

theorem fills_addSibling (inputData : IConnection) : Fills s (addSibling w d names s inputData).1 := by
  unfold addSibling
  split
  . apply Fills.refl
  . dsimp only
    split
    . apply Fills.refl
    . apply Fills.refl
    . next nodeToAdd _ =>
      refine ⟨rfl, rfl, [emptyItemFor w d nodeToAdd], ?_, ?_⟩
      . simp [emptyItemFor]
      . apply enqueue_perm

theorem fills_addSiblings : Fills s (addSiblings w d s).1 := by
  unfold addSiblings
  split
  . apply Fills.refl
  . next names _ =>
    refine foldlRecOn (motive := fun o : Outcome => Fills s o.1) _ _ (Fills.refl s) ?_
    intro ⟨s', e⟩ h inputData _
    cases e with
    | none => exact h.trans (fills_addSibling w d names s' inputData)
    | some e => exact h

def Target (i : Nat) (slots : List (Slot Batch)) : Prop :=
  (∃ entry, (entriesOf s.waitingExecution d.node).get? i = some entry ∧ entry.get? .main = some slots
      ∧ (SparseArray.get slots d.index).truthy = false)
  ∨
  ((∀ e ∈ (entriesOf s.waitingExecution d.node).entries, ∀ slots, e.2.get? .main = some slots →
        (SparseArray.get slots d.index).truthy = true)
      ∧ i = (entriesOf s.waitingExecution d.node).size
      ∧ slots = replicate (numberOfInputs w d.node) .null)

end

def MainsAt (nodeName : String) (s : RunExecutionData) : Prop :=
  Mains (entriesOf s.waitingExecution nodeName) (entriesOf s.waitingExecutionSource nodeName)

structure Prepared (d : Delivery) (s s' : RunExecutionData) (i : Nat) (slots : List (Slot Batch))
    : Prop where
  entry : ∃ entry, (entriesOf s'.waitingExecution d.node).get? i = some entry
    ∧ entry.get? .main = some slots
  others : ((entriesOf s'.waitingExecution d.node).delete i).entries.Perm
    ((entriesOf s.waitingExecution d.node).delete i).entries
  mains : Mains (entriesOf s'.waitingExecution d.node) (entriesOf s'.waitingExecutionSource d.node)
  stack : s'.nodeExecutionStack = s.nodeExecutionStack

theorem prepared_addData (h : Prepared d s s' i slots)
    : ∃ written, addData d i s' = (written, none)
      ∧ Prepared d s written i (SparseArray.set slots d.index d.data) := by
  have ⟨entry, hentry, hslots⟩ := h.entry
  have ⟨_, source, sources, hsource, hsources⟩ := h.mains i entry hentry
  refine ⟨{ s' with
    waitingExecution := setWaitingEntry s'.waitingExecution d.node i
      (entry.set .main (SparseArray.set slots d.index d.data))
    waitingExecutionSource := setWaitingEntry s'.waitingExecutionSource d.node i
      (source.set .main (SparseArray.set sources d.index d.source)) }, ?_, ?_⟩
  . unfold addData setMainSlot
    rw [waitingEntryOf_eq, hentry]
    dsimp only
    rw [hslots]
    rw [waitingEntryOf_eq, hsource]
    dsimp only
    rw [hsources]
  . refine ⟨⟨entry.set .main (SparseArray.set slots d.index d.data), ?_, by simp⟩, ?_, ?_, h.stack⟩
    . rw [entriesOf_setWaitingEntry, IndexMap.get?_set_self]
    . rw [entriesOf_setWaitingEntry]
      exact (IndexMap.delete_set_perm _ _ _).trans h.others
    . rw [entriesOf_setWaitingEntry, entriesOf_setWaitingEntry]
      exact h.mains.set i (get?_set_self _ _ _) (get?_set_self _ _ _)

inductive Delivered (w : Workflow) (d : Delivery) (s s' : RunExecutionData) (i : Nat)
    (slots : List (Slot Batch)) : Prop where
  | pushed (hfound : allDataFound slots = true) (item : IExecuteData)
      (hnode : item.node = w.nodes.get? d.node) (hdata : item.data.get? .main = some slots)
      (hstack : s'.nodeExecutionStack.Perm (item :: s.nodeExecutionStack))
      (hentries : (entriesOf s'.waitingExecution d.node).entries.Perm
        ((entriesOf s.waitingExecution d.node).delete i).entries)
  | kept (hmissing : allDataFound slots = false) (items : List IExecuteData)
      (hitems : ∀ item ∈ items, item.data = onlyMain [.value .emptyItem])
      (hstack : s'.nodeExecutionStack.Perm (items ++ s.nodeExecutionStack))
      (entry : ITaskDataConnections) (hentry : entry.get? .main = some slots)
      (hentries : (entriesOf s'.waitingExecution d.node).entries.Perm
        ((i, entry) :: ((entriesOf s.waitingExecution d.node).delete i).entries))

variable {P : List (Slot Batch) → Prop}

def AllMains (P : List (Slot Batch) → Prop) (entries : IndexMap ITaskDataConnections) : Prop :=
  ∀ e ∈ entries.entries, ∀ slots, e.2.get? .main = some slots → P slots

theorem Delivered.forall_mains (h : Delivered w d s s' i slots)
    (hold : AllMains P (entriesOf s.waitingExecution d.node)) (hnew : P slots)
    : AllMains P (entriesOf s'.waitingExecution d.node) := by
  intro e he
  cases h with
  | pushed _ item hnode hdata hstack hentries =>
    exact hold e (mem_of_mem_filter (hentries.mem_iff.mp he))
  | kept _ items hitems hstack entry hentry hentries =>
    cases mem_cons.mp (hentries.mem_iff.mp he) with
    | inl heq =>
      subst heq
      intro slots' hslots'
      rw [hentry] at hslots'
      injection hslots' with hslots'
      rwa [← hslots']
    | inr hmem => exact hold e (mem_of_mem_filter hmem)

theorem Target.main (h : Target w d s i slots) (hold : AllMains P (entriesOf s.waitingExecution d.node))
    (hnew : P (replicate (numberOfInputs w d.node) .null))
    : P slots := by
  cases h with
  | inl hentry =>
    have ⟨entry, hget, hslots, _⟩ := hentry
    exact hold (i, entry) (IndexMap.get?_eq_some_iff.mp hget) slots hslots
  | inr hcreated =>
    rw [hcreated.2.2]
    assumption

theorem Target.free (h : Target w d s i slots) : (SparseArray.get slots d.index).truthy = false := by
  cases h with
  | inl hentry =>
    have ⟨_, _, _, hfree⟩ := hentry
    assumption
  | inr hcreated =>
    rw [hcreated.2.2]
    unfold SparseArray.get
    rw [getElem?_replicate]
    split <;> rfl

theorem delivered_pushWaiting (w : Workflow) (h : Prepared d s s' i slots)
    (hentry : entry.get? .main = some slots) (hfound : allDataFound slots = true)
    : Delivered w d s (pushWaiting w d.node i entry s') i slots
      ∧ MainsAt d.node (pushWaiting w d.node i entry s') := by
  constructor
  . refine .pushed hfound ⟨w.nodes.get? d.node, entry,
      waitingEntryOf s'.waitingExecutionSource d.node i, none⟩ rfl hentry ?_ ?_
    . rw [← h.stack]
      apply enqueue_perm
    . unfold pushWaiting enqueue
      rw [entriesOf_deleteWaitingEntry]
      exact h.others
  . intro j entry' hj
    unfold pushWaiting enqueue at hj ⊢
    dsimp only at hj ⊢
    rw [IndexMap.get?_eq_some_iff, entriesOf_deleteWaitingEntry, ← IndexMap.get?_eq_some_iff] at hj
    have hdelete := h.mains.delete i j entry' hj
    refine ⟨hdelete.1, ?_⟩
    split
    . simpa [entriesOf] using hdelete.2
    . next hgone =>
      exfalso
      rw [IndexMap.get?_eq_some_iff, ← entriesOf_deleteWaitingEntry] at hj
      simp only [has, Option.isSome_iff_ne_none, ne_eq, not_not] at hgone
      simp [entriesOf, hgone, IndexMap.empty] at hj

theorem keepWaiting_eq (w : Workflow)
    (hentry : (entriesOf s.waitingExecution d.node).get? i = some entry)
    (hslots : entry.get? .main = some (SparseArray.set slots d.index d.data))
    (hsource : (entriesOf s.waitingExecutionSource d.node).get? i = some source)
    : let s' := (keepWaiting w d i s).1
      s'.nodeExecutionStack = s.nodeExecutionStack
      ∧ entriesOf s'.waitingExecution d.node
          = ((entriesOf s.waitingExecution d.node).set i
              (onlyMain (replicate (numberOfInputs w d.node) .null))).set i
                (onlyMain (SparseArray.set slots d.index d.data))
      ∧ entriesOf s'.waitingExecutionSource d.node
          = ((entriesOf s.waitingExecutionSource d.node).set i
              (onlyMain (replicate (numberOfInputs w d.node) .null))).set i
                (onlyMain ((source.get? .main).getD [])) := by
  unfold keepWaiting prepareWaitingToExecution
  rw [waitingEntryOf_eq, waitingEntryOf_eq, hentry, hsource]
  simp [hslots, SparseArray.set_set]

theorem delivered_keepWaiting (w : Workflow)
    (h : Prepared d s s' i (SparseArray.set slots d.index d.data))
    (hmissing : allDataFound (SparseArray.set slots d.index d.data) = false)
    (hfills : Fills s' o.1) (hs'' : s'' = (Outcome.andThen o (keepWaiting w d i)).1)
    : Delivered w d s s'' i (SparseArray.set slots d.index d.data) ∧ MainsAt d.node s'' := by
  obtain ⟨⟨entry, hentry, hslots⟩, hothers, hmains, hstack⟩ := h
  have ⟨items, hitems, hperm⟩ := hfills.stack
  rw [hstack] at hperm
  have ⟨_, source, sources, hsource, hsources⟩ := hmains i entry hentry
  rw [← hfills.waiting] at hentry hothers hmains
  rw [← hfills.source] at hsource hmains
  obtain ⟨s', e⟩ := o
  cases e with
  | some e =>
    subst hs''
    refine ⟨.kept hmissing items hitems hperm entry hslots ?_, hmains⟩
    exact (IndexMap.perm_of_get? hentry).trans (hothers.cons (i, entry))
  | none =>
    have ⟨hkstack, hkentries, hksource⟩ := keepWaiting_eq w hentry hslots hsource
    have hs' : s'' = (keepWaiting w d i s').1 := hs''
    subst hs'
    constructor
    . refine .kept hmissing items hitems ?_ (onlyMain (SparseArray.set slots d.index d.data))
        (by simp) ?_
      . rw [hkstack]
        exact hperm
      . rw [hkentries]
        exact (IndexMap.set_perm _ _ _).trans (((IndexMap.delete_set_perm _ _ _).trans hothers).cons _)
    . unfold MainsAt
      rw [hkentries, hksource, hsources]
      apply Mains.set _ _ (get?_onlyMain _) (get?_onlyMain _)
      exact hmains.set _ (get?_onlyMain _) (get?_onlyMain _)

theorem delivered_of_prepared {nodeWasWaiting : Bool} (h : Prepared d s s' i slots)
    (hs'' : s'' = (Outcome.andThen (addData d i s') fun s =>
      match waitingEntryOf s.waitingExecution d.node i with
      | none => (s, some .typeError)
      | some entry =>
        if allDataFound ((entry.get? .main).getD []) then
          (pushWaiting w d.node i entry s, none)
        else
          Outcome.andThen (if nodeWasWaiting then (s, none) else addSiblings w d s)
            (keepWaiting w d i)).1)
    : Delivered w d s s'' i (SparseArray.set slots d.index d.data) ∧ MainsAt d.node s'' := by
  have ⟨written, hdata, hwritten⟩ := prepared_addData h
  have ⟨entry, hentry, hslots⟩ := hwritten.entry
  rw [hdata] at hs''
  dsimp only [Outcome.andThen] at hs''
  rw [waitingEntryOf_eq, hentry] at hs''
  dsimp only at hs''
  rw [hslots, Option.getD_some] at hs''
  split at hs''
  . next hfound =>
    subst hs''
    exact delivered_pushWaiting w hwritten hslots hfound
  . next hmissing =>
    apply delivered_keepWaiting w hwritten (by simpa using hmissing) ?_ hs''
    split
    . apply Fills.refl
    . apply fills_addSiblings

theorem created_spec (hmains : MainsAt d.node s)
    : ∃ s₀ : RunExecutionData,
        (if s.waitingExecution.has d.node then
          s
        else
          { s with
            waitingExecution := s.waitingExecution.set d.node .empty
            waitingExecutionSource := s.waitingExecutionSource.set d.node .empty }) = s₀
        ∧ entriesOf s₀.waitingExecution d.node = entriesOf s.waitingExecution d.node
        ∧ MainsAt d.node s₀ ∧ s₀.nodeExecutionStack = s.nodeExecutionStack := by
  refine ⟨_, rfl, ?_⟩
  split
  . exact ⟨rfl, hmains, rfl⟩
  . next hnot =>
    have hnone : s.waitingExecution.get? d.node = none := by
      simpa [has] using hnot
    have hentries : entriesOf s.waitingExecution d.node = .empty := by
      simp [entriesOf, hnone]
    rw [hentries]
    simp only [MainsAt, entriesOf, get?_set_self, Option.getD_some]
    exact ⟨trivial, Mains.empty, trivial⟩

theorem prepared_prepareWaitingToExecution
    (hentries : entriesOf s₀.waitingExecution d.node = entriesOf s.waitingExecution d.node)
    (hmains : MainsAt d.node s₀) (hstack : s₀.nodeExecutionStack = s.nodeExecutionStack)
    : Prepared d s
      (prepareWaitingToExecution d.node (numberOfInputs w d.node)
        (entriesOf s₀.waitingExecution d.node).size s₀)
      (entriesOf s.waitingExecution d.node).size
      (replicate (numberOfInputs w d.node) .null) := by
  unfold prepareWaitingToExecution
  refine ⟨⟨_, ?_, get?_onlyMain _⟩, ?_, ?_, hstack⟩
  . rw [entriesOf_setWaitingEntry, hentries, IndexMap.get?_set_self]
  . rw [entriesOf_setWaitingEntry, hentries]
    apply IndexMap.delete_set_perm
  . rw [entriesOf_setWaitingEntry, entriesOf_setWaitingEntry]
    exact hmains.set _ (get?_onlyMain _) (get?_onlyMain _)

theorem addToWaiting_spec (hmains : MainsAt d.node s)
    : ∃ i slots, Target w d s i slots
      ∧ Delivered w d s (addToWaiting w d s).1 i (SparseArray.set slots d.index d.data)
      ∧ MainsAt d.node (addToWaiting w d s).1 := by
  have ⟨s₀, hs₀, hentries₀, hmains₀, hstack₀⟩ := created_spec hmains
  have hall : ∀ e ∈ (entriesOf s₀.waitingExecution d.node).entries,
      ∃ slots, e.2.get? .main = some slots := by
    intro e he
    exact (hmains₀ e.1 e.2 (IndexMap.get?_eq_some_iff.mpr he)).1
  unfold addToWaiting
  dsimp only
  rw [hs₀]
  cases entryWithout_cases d.index hall with
  | inl hfound =>
    have ⟨i, entry, slots, hok, hmem, hslots, hfree⟩ := hfound
    have hget := IndexMap.get?_eq_some_iff.mpr hmem
    have hprepared : Prepared d s s₀ i slots := by
      refine ⟨⟨entry, hget, hslots⟩, ?_, hmains₀, hstack₀⟩
      rw [hentries₀]
    rw [hentries₀] at hget
    refine ⟨i, slots, Or.inl ⟨entry, hget, hslots, hfree⟩, ?_⟩
    apply delivered_of_prepared hprepared
    simp only [entriesOf] at hok
    rw [hok]
    rfl
  | inr hnone =>
    have ⟨hok, hfull⟩ := hnone
    refine ⟨_, _, Or.inr ⟨?_, rfl, rfl⟩, ?_⟩
    . rw [← hentries₀]
      exact hfull
    . apply delivered_of_prepared (prepared_prepareWaitingToExecution hentries₀ hmains₀ hstack₀)
      rw [← hentries₀]
      simp only [entriesOf] at hok ⊢
      rw [hok]
      rfl

end WorkflowExecute
end N8n
