import Mathlib

/-!
This module contains the positions of turns in a rollout, and the replay of the rollout into a
history.
-/

namespace Codex.History

open List

structure Classifiers (α : Type) where
  isApiMessage : α → Bool
  processItem : α → α
  isUserTurnBoundary : α → Bool
  isRealUserMessage : α → Bool
  isTriggerTurn : α → Bool
  isContextUpdate : α → Bool

structure Classifiers.Lawful {α : Type} (c : Classifiers α) : Prop where
  boundary_of_user {a} : c.isRealUserMessage a = true → c.isUserTurnBoundary a = true
  api_of_boundary {a} : c.isUserTurnBoundary a = true → c.isApiMessage a = true
  boundary_of_context {a} : c.isContextUpdate a = true → c.isUserTurnBoundary a = false
  boundary_process {a} : c.isUserTurnBoundary (c.processItem a) = c.isUserTurnBoundary a
  user_process {a} : c.isRealUserMessage (c.processItem a) = c.isRealUserMessage a

inductive RolloutItem (α : Type) where
  | responseItem (item : α)
  | threadRolledBack (numTurns : Nat)

variable {α : Type}

section Drop

variable (isBoundary isContext : α → Bool)

def userMessagePositions (items : List α) : List Nat :=
  items.zipIdx.filterMap fun (item, idx) => if isBoundary item then some idx else none

def trimPreTurnContextUpdates (snapshot : List α) (firstInstructionTurnIdx cutIdx : Nat) : Nat :=
  match cutIdx with
  | 0 => 0
  | cutIdx + 1 =>
    if firstInstructionTurnIdx < cutIdx + 1 ∧ snapshot[cutIdx]?.any isContext then
      trimPreTurnContextUpdates snapshot firstInstructionTurnIdx cutIdx
    else cutIdx + 1

def dropLastNUserTurns (items : List α) (numTurns : Nat) : List α :=
  if numTurns = 0 then items
  else
    let userPositions := userMessagePositions isBoundary items
    match userPositions.head? with
    | none => items
    | some firstInstructionTurnIdx =>
      let cutIdx :=
        if userPositions.length ≤ numTurns then firstInstructionTurnIdx
        else userPositions.getD (userPositions.length - numTurns) 0
      items.take (trimPreTurnContextUpdates isContext items firstInstructionTurnIdx cutIdx)

variable {isBoundary isContext}

theorem take_of_position {items : List α}
    (h : ((items.zipIdx start).filterMap fun p => if isBoundary p.1 then some p.2 else none)[k]? =
      some i)
    : start ≤ i ∧ (items.take (i - start)).filter isBoundary = (items.filter isBoundary).take k ∧
      items[i - start]? = (items.filter isBoundary)[k]? := by
  induction items generalizing start k with
  | nil => simp at h
  | cons item items ih =>
    rw [zipIdx_cons, filterMap_cons] at h
    cases hitem : isBoundary item with
    | true =>
      rw [hitem] at h
      cases k with
      | zero =>
        simp only [if_true, getElem?_cons_zero, Option.some.injEq] at h
        subst h
        simp [hitem]
      | succ k =>
        have ⟨hle, htake, hget⟩ := ih h
        rw [show i - start = i - (start + 1) + 1 by omega]
        refine ⟨by omega, ?_, ?_⟩
        . simp [hitem, htake]
        . simp [hitem, hget]
    | false =>
      rw [hitem] at h
      have ⟨hle, htake, hget⟩ := ih h
      rw [show i - start = i - (start + 1) + 1 by omega]
      refine ⟨by omega, ?_, ?_⟩
      . simp [hitem, htake]
      . simp [hitem, hget]

theorem take_of_userMessagePositions {items : List α}
    (h : (userMessagePositions isBoundary items)[k]? = some i)
    : (items.take i).filter isBoundary = (items.filter isBoundary).take k ∧
      items[i]? = (items.filter isBoundary)[k]? := by
  exact (take_of_position h).2

theorem length_userMessagePositions (isBoundary : α → Bool) (items : List α)
    : (userMessagePositions isBoundary items).length = (items.filter isBoundary).length := by
  unfold userMessagePositions
  generalize 0 = start
  induction items generalizing start with
  | nil => rfl
  | cons item items ih =>
    cases hitem : isBoundary item with
    | true | false => simp [hitem, ih]

theorem filter_take_trimPreTurnContextUpdates
    (h : ∀ item, isContext item = true → isBoundary item = false) (snapshot : List α)
    (firstInstructionTurnIdx cutIdx : Nat)
    : (snapshot.take (trimPreTurnContextUpdates isContext snapshot firstInstructionTurnIdx
        cutIdx)).filter isBoundary =
      (snapshot.take cutIdx).filter isBoundary := by
  induction cutIdx with
  | zero => rfl
  | succ cutIdx ih =>
    rw [trimPreTurnContextUpdates]
    split
    next hctx =>
      rw [ih, take_add_one, filter_append]
      have hany := hctx.2
      rw [Option.any_eq_true] at hany
      have ⟨item, hitem, hcontext⟩ := hany
      simp [hitem, h item hcontext]
    next => rfl

theorem filter_dropLastNUserTurns (h : ∀ item, isContext item = true → isBoundary item = false)
    (items : List α) (numTurns : Nat)
    : (dropLastNUserTurns isBoundary isContext items numTurns).filter isBoundary =
      (items.filter isBoundary).take ((items.filter isBoundary).length - numTurns) := by
  have hlen := length_userMessagePositions isBoundary items
  unfold dropLastNUserTurns
  split
  next hzero => simp [hzero]
  next hne =>
    dsimp only
    cases hfirst : (userMessagePositions isBoundary items).head? with
    | none =>
      rw [head?_eq_none_iff] at hfirst
      rw [hfirst, length_nil] at hlen
      simp [eq_nil_of_length_eq_zero hlen.symm]
    | some first =>
      rw [filter_take_trimPreTurnContextUpdates h]
      split
      next hle =>
        rw [head?_eq_getElem?] at hfirst
        rw [(take_of_userMessagePositions hfirst).1, show (items.filter isBoundary).length - numTurns = 0 by omega]
      next hlt =>
        have hidx : (userMessagePositions isBoundary items).length - numTurns <
            (userMessagePositions isBoundary items).length := by omega
        have hget := getElem?_eq_getElem hidx
        rw [getD_eq_getElem?_getD, hget, Option.getD_some, (take_of_userMessagePositions hget).1, hlen]

end Drop

section Users

variable (c : Classifiers α)

def userMessageStep (userPositions : List Nat) (entry : RolloutItem α × Nat) : List Nat :=
  match entry with
  | (.responseItem item, idx) =>
    if c.isRealUserMessage item then userPositions ++ [idx] else userPositions
  | (.threadRolledBack numTurns, _) => userPositions.take (userPositions.length - numTurns)

variable (items : List (RolloutItem α))

def userMessagePositionsInRollout : List Nat :=
  items.zipIdx.foldl (userMessageStep c) []

def replayStep (history : List (Nat × α)) (entry : RolloutItem α × Nat) : List (Nat × α) :=
  match entry with
  | (.responseItem item, idx) =>
    if c.isApiMessage item then history ++ [(idx, c.processItem item)] else history
  | (.threadRolledBack numTurns, _) =>
    dropLastNUserTurns (fun e => c.isUserTurnBoundary e.2) (fun e => c.isContextUpdate e.2) history
      numTurns

def replay : List (Nat × α) :=
  items.zipIdx.foldl (replayStep c) []

def survivingUserMessages : List Nat :=
  ((replay c items).filter fun e => c.isRealUserMessage e.2).map Prod.fst

def RemovesAlike (history : List (Nat × α)) (numTurns : Nat) : Prop :=
  let turns := history.filter fun e => c.isUserTurnBoundary e.2
  (∀ e ∈ turns.drop (turns.length - numTurns), c.isRealUserMessage e.2 = true) ∨
    ∀ e ∈ turns.take (turns.length - numTurns), c.isRealUserMessage e.2 = false

variable {c}

theorem userMessagePositionsInRollout_concat (item : RolloutItem α)
    : userMessagePositionsInRollout c (items ++ [item]) =
      userMessageStep c (userMessagePositionsInRollout c items) (item, items.length) := by
  simp [userMessagePositionsInRollout, zipIdx_append]

theorem replay_concat (item : RolloutItem α)
    : replay c (items ++ [item]) = replayStep c (replay c items) (item, items.length) := by
  simp [replay, zipIdx_append]

theorem filter_user_eq (hc : c.Lawful) (history : List (Nat × α))
    : (history.filter fun e => c.isRealUserMessage e.2) =
      (history.filter fun e => c.isUserTurnBoundary e.2).filter fun e =>
        c.isRealUserMessage e.2 := by
  rw [filter_filter]
  apply filter_congr
  intro e _
  rw [Bool.eq_iff_iff, Bool.and_eq_true]
  exact ⟨fun h => ⟨h, hc.boundary_of_user h⟩, fun h => h.1⟩

theorem take_eq_iff_removesAlike {turns : List (Nat × α)} (p : Nat × α → Bool) (numTurns : Nat)
    : ((turns.filter p).map Prod.fst).take ((turns.filter p).length - numTurns) =
        ((turns.take (turns.length - numTurns)).filter p).map Prod.fst ↔
      (∀ e ∈ turns.drop (turns.length - numTurns), p e = true) ∨
        ∀ e ∈ turns.take (turns.length - numTurns), p e = false := by
  generalize hk : turns.length - numTurns = k
  have hsplit : turns.filter p = (turns.take k).filter p ++ (turns.drop k).filter p := by
    rw [← filter_append, take_append_drop]
  have hlen := congrArg length hsplit
  rw [length_append] at hlen
  have htake := length_filter_le p (turns.take k)
  have hdrop := length_filter_le p (turns.drop k)
  rw [length_take] at htake
  rw [length_drop] at hdrop
  have hall : (∀ e ∈ turns.drop k, p e = true) ↔
      ((turns.drop k).filter p).length = turns.length - k := by
    rw [← length_drop, length_filter_eq_length_iff]
  have hnone : (∀ e ∈ turns.take k, p e = false) ↔ ((turns.take k).filter p).length = 0 := by
    simp only [length_eq_zero_iff, filter_eq_nil_iff, Bool.not_eq_true]
  have hstart : ((turns.take k).filter p).map Prod.fst =
      ((turns.filter p).map Prod.fst).take ((turns.take k).filter p).length := by
    rw [hsplit, map_append, take_left' (by rw [length_map])]
  rw [hall, hnone, hstart]
  constructor
  . intro h
    have h := congrArg length h
    simp only [length_take, length_map] at h
    omega
  . intro h
    congr 1
    omega

theorem survivingUserMessages_concat_threadRolledBack (hc : c.Lawful)
    (items : List (RolloutItem α)) (numTurns : Nat)
    : survivingUserMessages c (items ++ [.threadRolledBack numTurns]) =
      ((((replay c items).filter fun e => c.isUserTurnBoundary e.2).take
          (((replay c items).filter fun e => c.isUserTurnBoundary e.2).length - numTurns)).filter
            fun e => c.isRealUserMessage e.2).map Prod.fst := by
  unfold survivingUserMessages
  rw [filter_user_eq hc, replay_concat, replayStep, filter_dropLastNUserTurns]
  intro e he
  exact hc.boundary_of_context he

theorem survivingUserMessages_concat_responseItem (hc : c.Lawful) (items : List (RolloutItem α))
    (item : α)
    : survivingUserMessages c (items ++ [.responseItem item]) =
      survivingUserMessages c items ++
        if c.isRealUserMessage item then [items.length] else [] := by
  unfold survivingUserMessages
  rw [replay_concat, replayStep]
  cases huser : c.isRealUserMessage item with
  | true =>
    rw [if_pos (hc.api_of_boundary (hc.boundary_of_user huser))]
    simp [hc.user_process, huser]
  | false =>
    split
    . simp [hc.user_process, huser]
    . simp

theorem agree_concat_iff (hc : c.Lawful) {items : List (RolloutItem α)}
    (h : userMessagePositionsInRollout c items = survivingUserMessages c items)
    (item : RolloutItem α)
    : userMessagePositionsInRollout c (items ++ [item]) =
        survivingUserMessages c (items ++ [item]) ↔
      ∀ numTurns, item = .threadRolledBack numTurns →
        RemovesAlike c (replay c items) numTurns := by
  rw [userMessagePositionsInRollout_concat, h]
  cases item with
  | responseItem item =>
    rw [survivingUserMessages_concat_responseItem hc, userMessageStep]
    split <;> simp
  | threadRolledBack numTurns =>
    rw [survivingUserMessages_concat_threadRolledBack hc, userMessageStep, survivingUserMessages,
      filter_user_eq hc, length_map, take_eq_iff_removesAlike]
    simp [RemovesAlike]

theorem forall_isPrefix_concat {β : Type} {P : List β → Prop} {items : List β} {item : β}
    : (∀ pre, pre <+: items ++ [item] → P pre) ↔
      (∀ pre, pre <+: items → P pre) ∧ P (items ++ [item]) := by
  simp only [prefix_concat_iff, or_imp, forall_and, forall_eq]
  exact and_comm

theorem userMessagePositionsInRollout_eq_iff (c : Classifiers α) (hc : c.Lawful)
    (items : List (RolloutItem α))
    : (∀ pre, pre <+: items → userMessagePositionsInRollout c pre = survivingUserMessages c pre) ↔
      ∀ pre numTurns, pre ++ [.threadRolledBack numTurns] <+: items →
        RemovesAlike c (replay c pre) numTurns := by
  induction items using reverseRecOn with
  | nil =>
    constructor
    . intro _ pre numTurns h
      simp at h
    . intro _ pre h
      rw [prefix_nil] at h
      rw [h]
      rfl
  | append_singleton items item ih =>
    rw [forall_isPrefix_concat, ih]
    constructor
    . intro ⟨h, hlast⟩ pre numTurns hpre
      rw [prefix_concat_iff] at hpre
      cases hpre with
      | inl heq =>
        have ⟨hitems, hitem⟩ := append_inj' heq rfl
        simp only [cons.injEq, and_true] at hitem
        subst hitems
        have hagree := ih.mpr h pre (prefix_refl _)
        exact (agree_concat_iff hc hagree item).mp hlast numTurns hitem.symm
      | inr hpre => exact h pre numTurns hpre
    . intro h
      have hitems : ∀ pre numTurns, pre ++ [.threadRolledBack numTurns] <+: items →
          RemovesAlike c (replay c pre) numTurns := by
        intro pre numTurns hpre
        exact h pre numTurns (hpre.trans (prefix_append _ _))
      apply And.intro hitems
      apply (agree_concat_iff hc (ih.mpr hitems items (prefix_refl _)) item).mpr
      intro numTurns hitem
      subst hitem
      exact h items numTurns (prefix_refl _)

inductive SampleItem where
  | user
  | interAgent
  | answer
  deriving DecidableEq

def sampleClassifiers : Classifiers SampleItem where
  isApiMessage _ := true
  processItem item := item
  isUserTurnBoundary item := item = .user || item = .interAgent
  isRealUserMessage item := item = .user
  isTriggerTurn item := item = .interAgent
  isContextUpdate _ := false

theorem lawful_sampleClassifiers : sampleClassifiers.Lawful where
  boundary_of_user {a} := by cases a <;> simp [sampleClassifiers]
  api_of_boundary _ := rfl
  boundary_of_context h := by cases h
  boundary_process := rfl
  user_process := rfl

theorem userMessagePositionsInRollout_ne_interAgent
    : sampleClassifiers.Lawful ∧
      userMessagePositionsInRollout sampleClassifiers
          [.responseItem .user, .responseItem .interAgent, .threadRolledBack 1] ≠
        survivingUserMessages sampleClassifiers
          [.responseItem .user, .responseItem .interAgent, .threadRolledBack 1] :=
  ⟨lawful_sampleClassifiers, by decide⟩

theorem userMessagePositionsInRollout_eq_iff_user
    : (∀ pre, pre <+: [.responseItem .user, .responseItem .answer, .threadRolledBack 1] →
        userMessagePositionsInRollout sampleClassifiers pre =
          survivingUserMessages sampleClassifiers pre) ↔
      ∀ pre numTurns, pre ++ [.threadRolledBack numTurns] <+:
          [.responseItem .user, .responseItem .answer, .threadRolledBack 1] →
        RemovesAlike sampleClassifiers (replay sampleClassifiers pre) numTurns :=
  userMessagePositionsInRollout_eq_iff sampleClassifiers lawful_sampleClassifiers _

end Users

/-!
Turns to fork from: what indexing finds, and what is left when a marker removes everything from the
first turn it takes back.
-/

section Forks

variable (c : Classifiers α)

def isForkTurn (item : α) : Bool := c.isRealUserMessage item || c.isTriggerTurn item

def forkTurnStep (state : List Nat × List Nat) (entry : RolloutItem α × Nat) : List Nat × List Nat :=
  let (rollbackTurnPositions, forkTurnPositions) := state
  match entry with
  | (.responseItem item, idx) =>
    (if c.isUserTurnBoundary item then rollbackTurnPositions ++ [idx] else rollbackTurnPositions,
      if isForkTurn c item then forkTurnPositions ++ [idx] else forkTurnPositions)
  | (.threadRolledBack numTurns, _) =>
    if numTurns = 0 then state
    else
      let rollbackStartIdx? :=
        if numTurns ≤ rollbackTurnPositions.length then
          rollbackTurnPositions[rollbackTurnPositions.length - numTurns]?
        else rollbackTurnPositions.head?
      match rollbackStartIdx? with
      | none => state
      | some rollbackStartIdx =>
        (rollbackTurnPositions.take (rollbackTurnPositions.length - numTurns),
          forkTurnPositions.filter (· < rollbackStartIdx))

def forkTurnPositionsInRollout (items : List (RolloutItem α)) : List Nat :=
  (items.zipIdx.foldl (forkTurnStep c) ([], [])).2

def rollBack (survivors : List (Nat × α)) (numTurns : Nat) : List (Nat × α) :=
  if numTurns = 0 then survivors
  else
    let turns := userMessagePositions (fun e => c.isUserTurnBoundary e.2) survivors
    match turns[turns.length - numTurns]? with
    | none => survivors
    | some cut => survivors.take cut

def survivorStep (survivors : List (Nat × α)) (entry : RolloutItem α × Nat) : List (Nat × α) :=
  match entry with
  | (.responseItem item, idx) => survivors ++ [(idx, item)]
  | (.threadRolledBack numTurns, _) => rollBack c survivors numTurns

def survivors (items : List (RolloutItem α)) : List (Nat × α) :=
  items.zipIdx.foldl (survivorStep c) []

variable {c}

theorem take_eq_filter_lt {items : List (Nat × α)} (h : items.Pairwise (·.1 < ·.1))
    (hget : items[i]? = some e)
    : items.take i = items.filter (·.1 < e.1) := by
  induction items generalizing i with
  | nil => simp at hget
  | cons item items ih =>
    rw [pairwise_cons] at h
    cases i with
    | zero =>
      simp only [getElem?_cons_zero, Option.some.injEq] at hget
      subst hget
      rw [take_zero, eq_comm, filter_eq_nil_iff, forall_mem_cons]
      simpa using fun n a hx => Nat.le_of_lt (h.1 (n, a) hx)
    | succ i =>
      have hlt := h.1 e (mem_of_getElem? hget)
      rw [take_succ_cons, ih h.2 hget, filter_cons_of_pos (by simpa using hlt)]

structure Indexes (c : Classifiers α) (bound : Nat) (survivors : List (Nat × α))
    (state : List Nat × List Nat) : Prop where
  rollback : state.1 = (survivors.filter fun e => c.isUserTurnBoundary e.2).map Prod.fst
  fork : state.2 = (survivors.filter fun e => isForkTurn c e.2).map Prod.fst
  sorted : survivors.Pairwise (·.1 < ·.1)
  lt_bound : ∀ e ∈ survivors, e.1 < bound

variable {bound : Nat} {state : List Nat × List Nat}

section

variable {survivors : List (Nat × α)} (h : Indexes c bound survivors state)

include h

theorem indexes_take
    (hcut : (userMessagePositions (fun e => c.isUserTurnBoundary e.2) survivors)[k]? = some cut)
    : ∃ start, state.1[k]? = some start ∧
      Indexes c bound (survivors.take cut) (state.1.take k, state.2.filter (· < start)) := by
  have ⟨htake, hget⟩ := take_of_userMessagePositions hcut
  have hlt : k < (survivors.filter fun e => c.isUserTurnBoundary e.2).length := by
    rw [← length_userMessagePositions]
    exact (List.getElem?_eq_some_iff.mp hcut).1
  rw [getElem?_eq_getElem hlt] at hget
  exists ((survivors.filter fun e => c.isUserTurnBoundary e.2).get ⟨k, hlt⟩).1
  constructor
  . rw [h.rollback, getElem?_map, getElem?_eq_getElem hlt]
    rfl
  . constructor
    . rw [htake, h.rollback, map_take]
    . rw [take_eq_filter_lt h.sorted hget, h.fork, filter_map, filter_filter,
        filter_filter]
      simp only [Function.comp_def, Bool.and_comm]
      rfl
    . exact h.sorted.sublist (take_sublist _ _)
    . intro e he
      exact h.lt_bound e (mem_of_mem_take he)

theorem indexes_rollBack (numTurns : Nat)
    : Indexes c bound (rollBack c survivors numTurns)
      (forkTurnStep c state (.threadRolledBack numTurns, bound)) := by
  have hlen : (userMessagePositions (fun e => c.isUserTurnBoundary e.2) survivors).length =
      state.1.length := by
    rw [length_userMessagePositions, h.rollback, length_map]
  have hstart : (if numTurns ≤ state.1.length then state.1[state.1.length - numTurns]?
      else state.1.head?) = state.1[state.1.length - numTurns]? := by
    split
    next => rfl
    next hlt => rw [head?_eq_getElem?, show state.1.length - numTurns = 0 by omega]
  unfold rollBack forkTurnStep
  simp only [hstart, hlen]
  split
  next => exact h
  next hne =>
    cases hcut : (userMessagePositions (fun e => c.isUserTurnBoundary e.2) survivors)[
        state.1.length - numTurns]? with
    | none =>
      rw [getElem?_eq_none_iff, hlen] at hcut
      rw [getElem?_eq_none_iff.mpr hcut]
      exact h
    | some cut =>
      have ⟨start, hget, htake⟩ := indexes_take h hcut
      rw [hget]
      exact htake

theorem indexes_step (item : RolloutItem α)
    : Indexes c (bound + 1) (survivorStep c survivors (item, bound))
      (forkTurnStep c state (item, bound)) := by
  cases item with
  | responseItem item =>
    unfold survivorStep forkTurnStep
    constructor
    . cases hitem : c.isUserTurnBoundary item <;> simp [h.rollback, hitem]
    . cases hitem : isForkTurn c item <;> simp [h.fork, hitem]
    . rw [pairwise_append]
      refine ⟨h.sorted, pairwise_singleton _ _, ?_⟩
      intro e he e' he'
      rw [mem_singleton] at he'
      rw [he']
      exact h.lt_bound e he
    . intro e he
      rw [mem_append, mem_singleton] at he
      cases he with
      | inl he =>
        have := h.lt_bound e he
        omega
      | inr he => simp [he]
  | threadRolledBack numTurns =>
    have h' := indexes_rollBack h numTurns
    refine ⟨h'.rollback, h'.fork, h'.sorted, ?_⟩
    intro e he
    have := h'.lt_bound e he
    omega

end

theorem indexes_rollout (c : Classifiers α) (items : List (RolloutItem α))
    : Indexes c items.length (survivors c items)
      (items.zipIdx.foldl (forkTurnStep c) ([], [])) := by
  induction items using reverseRecOn with
  | nil => exact ⟨rfl, rfl, Pairwise.nil, by simp [survivors]⟩
  | append_singleton items item ih =>
    have h := indexes_step ih item
    simp only [survivors, zipIdx_append, foldl_append, length_append,
      length_singleton, zipIdx_singleton, Nat.zero_add, foldl_cons, foldl_nil]
    exact h

theorem forkTurnPositionsInRollout_eq (c : Classifiers α) (items : List (RolloutItem α))
    : forkTurnPositionsInRollout c items =
        ((survivors c items).filter fun e => isForkTurn c e.2).map Prod.fst ∧
      (forkTurnPositionsInRollout c items).Pairwise (· < ·) := by
  have h := indexes_rollout c items
  apply And.intro h.fork
  unfold forkTurnPositionsInRollout
  rw [h.fork, pairwise_map]
  exact h.sorted.sublist filter_sublist

end Forks

end Codex.History
