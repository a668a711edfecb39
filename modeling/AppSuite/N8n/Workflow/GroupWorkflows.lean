import AppSuite.N8n.Interfaces

/-!
This module contains `groupWorkflows`, which thins out the versions of a workflow.
-/

namespace N8n

open List

mutual

def determineNodeSize : NodeParameterValue → Nat
  | .string s => if s = "" then 1 else (s.toList.map fun c => if c.val < 0x10000 then 1 else 2).sum
  | .array items => determineItemsSize items
  | .object fields => determineFieldsSize fields
  | _ => 1

def determineItemsSize : List NodeParameterValue → Nat
  | [] => 1
  | item :: items => determineNodeSize item + determineItemsSize items

def determineFieldsSize : List (String × NodeParameterValue) → Nat
  | [] => 1
  | (_, value) :: fields => determineNodeSize value + determineFieldsSize fields

end

structure DiffMetaData where
  workflowSizeScore : Option Nat

abbrev DiffRule (W Diff : Type) := W → W → Diff → DiffMetaData → Bool

structure GroupedWorkflows (W : Type) where
  removed : List W
  remaining : List W

-- `nodes` are those of a version, and `changeSet` is the constructor of `WorkflowChangeSet`.
variable {W Diff : Type} (nodes : W → List INode) (changeSet : W → W → Diff)
  (rules skipRules : List (DiffRule W Diff)) (metaData : DiffMetaData)

def determineNodeParametersSize (workflow : W) : Nat :=
  ((nodes workflow).map fun node => determineNodeSize node.parameters).sum

namespace groupWorkflows

-- One turn of `diffLoop`. It is `none` where an index outside the list is read.
def compare (i : Nat) (s : GroupedWorkflows W) : Option (GroupedWorkflows W) := do
  let prev ← s.remaining[i - 1]?
  let next ← s.remaining[i]?
  let wcs := changeSet prev next
  if skipRules.any fun shouldSkip => shouldSkip prev next wcs metaData then
    return s
  else if rules.any fun rule => rule prev next wcs metaData then
    return ⟨s.removed ++ [prev], s.remaining.eraseIdx (i - 1)⟩
  else
    return s

def diffLoop (i : Nat) (s : GroupedWorkflows W) : Option (GroupedWorkflows W) :=
  match i with
  | 0 => some s
  | i + 1 => (compare changeSet rules skipRules metaData (i + 1) s).bind (diffLoop i)

def metaDataOf (workflows : List W) (workflowSizeScore : Bool) : Option DiffMetaData := do
  if workflowSizeScore then
    let middle ← workflows[workflows.length / 2]?
    let last ← workflows[workflows.length - 1]?
    return ⟨some (max (determineNodeParametersSize nodes middle) (determineNodeParametersSize nodes last))⟩
  else
    return ⟨none⟩

end groupWorkflows

open groupWorkflows

def groupWorkflows (workflows : List W) (workflowSizeScore : Bool) : Option (GroupedWorkflows W) :=
  if workflows.length ≤ 1 then
    some ⟨[], workflows⟩
  else do
    let metaData ← metaDataOf nodes workflows workflowSizeScore
    diffLoop changeSet rules skipRules metaData (workflows.length - 1) ⟨[], workflows⟩

namespace groupWorkflows

def Accepts (w w' : W) : Prop :=
  (∃ rule ∈ rules, rule w w' (changeSet w w') metaData) ∧
    ∀ shouldSkip ∈ skipRules, ¬shouldSkip w w' (changeSet w w') metaData

-- What is removed gives way to a later version, one of those at the end of what remains.
structure Thinned (accepts : W → W → Prop) (workflows : List W) (s : GroupedWorkflows W) : Prop where
  perm : (s.removed ++ s.remaining).Perm workflows
  sublist : s.remaining <+ workflows
  newest : s.remaining.getLast? = workflows.getLast?
  justified : ∀ w ∈ s.removed, ∃ earlier later w' kept, workflows = earlier ++ w :: later ∧
    w' :: kept <+ later ∧ w' :: kept <:+ s.remaining ∧ accepts w w'

namespace Thinned

variable {accepts : W → W → Prop} {workflows removed kept : List W} {w w' : W}

theorem refl (accepts : W → W → Prop) (workflows : List W) : Thinned accepts workflows ⟨[], workflows⟩ :=
  ⟨Perm.refl _, Sublist.refl _, rfl, nofun⟩

theorem keep (h : Thinned accepts workflows ⟨removed, kept⟩) (w : W)
    : Thinned accepts (w :: workflows) ⟨removed, w :: kept⟩ := by
  refine ⟨perm_middle.trans (h.perm.cons w), h.sublist.cons_cons w, ?_, ?_⟩
  . rw [getLast?_cons, getLast?_cons, h.newest]
  . intro gone hgone
    have ⟨earlier, later, w', last, hat, hlater, hsuffix, haccepts⟩ := h.justified gone hgone
    exact ⟨w :: earlier, later, w', last, congrArg (w :: ·) hat, hlater,
      hsuffix.trans (suffix_cons w kept), haccepts⟩

theorem remove (h : Thinned accepts workflows ⟨removed, w' :: kept⟩) (haccepts : accepts w w')
    : Thinned accepts (w :: workflows) ⟨removed ++ [w], w' :: kept⟩ := by
  refine ⟨?_, h.sublist.cons w, ?_, ?_⟩
  . rw [append_assoc]
    exact perm_middle.trans (h.perm.cons w)
  . have hnewest := h.newest
    rw [getLast?_cons] at hnewest ⊢
    rw [getLast?_cons, ← hnewest, Option.getD_some]
  . rw [forall_mem_append, forall_mem_singleton]
    constructor
    . intro gone hgone
      have ⟨earlier, later, last, kept', hat, hjustified⟩ := h.justified gone hgone
      exact ⟨w :: earlier, later, last, kept', congrArg (w :: ·) hat, hjustified⟩
    . exact ⟨[], workflows, w', kept, rfl, h.sublist, suffix_refl _, haccepts⟩

end Thinned

variable {changeSet rules skipRules metaData}

-- Before the turn for `i` the first `i` versions are still there, and what follows them stays.
theorem thinned_diffLoop {workflows removed kept : List W} {w' : W} (hi : i ≤ workflows.length)
    (h : Thinned (Accepts changeSet rules skipRules metaData) (workflows.drop i) ⟨removed, w' :: kept⟩)
    : ∃ result,
        diffLoop changeSet rules skipRules metaData i ⟨removed, workflows.take i ++ w' :: kept⟩ = some result ∧
        Thinned (Accepts changeSet rules skipRules metaData) workflows result := by
  induction i generalizing removed kept w' with
  | zero => exact ⟨_, rfl, h⟩
  | succ i ih =>
    have hlt : i < workflows.length := hi
    have htake : workflows.take (i + 1) = workflows.take i ++ [workflows[i]] := by simp
    have hdrop : workflows.drop i = workflows[i] :: workflows.drop (i + 1) := drop_eq_getElem_cons hlt
    generalize workflows[i] = w at htake hdrop
    have hkeep := ih hlt.le (hdrop ▸ h.keep w)
    have hprev : (workflows.take i ++ w :: w' :: kept)[i]? = some w := by simp [hlt.le]
    have hnext : (workflows.take i ++ w :: w' :: kept)[i + 1]? = some w' := by simp [hlt.le]
    have herase : (workflows.take i ++ w :: w' :: kept).eraseIdx i = workflows.take i ++ w' :: kept := by
      simp [eraseIdx_append_of_length_le, hlt.le]
    rw [htake, append_assoc, singleton_append]
    unfold diffLoop compare
    simp only [Nat.add_sub_cancel, hprev, hnext, herase, Option.bind_eq_bind, Option.bind_some]
    split
    . exact hkeep
    . next hskip =>
      split
      . next hmerge =>
        apply ih hlt.le
        rw [hdrop]
        apply h.remove
        exact ⟨by simpa using hmerge, by simpa using hskip⟩
      . exact hkeep

end groupWorkflows

theorem groupWorkflows_thins (nodes : W → List INode) (changeSet : W → W → Diff)
    (rules skipRules : List (DiffRule W Diff)) (workflows : List W) (workflowSizeScore : Bool)
    : ∃ result metaData,
      groupWorkflows nodes changeSet rules skipRules workflows workflowSizeScore = some result ∧
      (workflows.length ≤ 1 ∨ metaDataOf nodes workflows workflowSizeScore = some metaData) ∧
      Thinned (Accepts changeSet rules skipRules metaData) workflows result := by
  unfold groupWorkflows
  split
  . next hle => exact ⟨_, ⟨none⟩, rfl, .inl hle, .refl _ workflows⟩
  . next hlt =>
    have ⟨metaData, hmetaData⟩ : ∃ metaData, metaDataOf nodes workflows workflowSizeScore = some metaData := by
      unfold metaDataOf
      split
      . rw [getElem?_eq_getElem (by omega), getElem?_eq_getElem (by omega)]
        exact ⟨_, rfl⟩
      . exact ⟨_, rfl⟩
    have hne : workflows ≠ [] := ne_nil_of_length_pos (by omega)
    have hlast : workflows.take (workflows.length - 1) ++ [workflows.getLast hne] = workflows := by
      rw [← dropLast_eq_take]
      exact dropLast_append_getLast hne
    have hstart : Thinned (Accepts changeSet rules skipRules metaData)
        (workflows.drop (workflows.length - 1)) ⟨[], [workflows.getLast hne]⟩ := by
      rw [drop_length_sub_one hne]
      apply Thinned.refl
    have ⟨result, hresult, hthinned⟩ := thinned_diffLoop (Nat.sub_le _ _) hstart
    rw [hlast] at hresult
    exact ⟨result, metaData, by rw [hmetaData]; exact hresult, .inr hmetaData, hthinned⟩

end N8n
