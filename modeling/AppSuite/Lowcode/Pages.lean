import AppSuite.Lowcode.Store
import AppSuite.System.Run

/-!
This module contains the two copies that the store keeps of the page being edited.
-/

namespace Lowcode

open List

namespace ComponentInstance

variable {V : Type}

mutual

def targets (id : String) : ComponentInstance V → List (OrderedMap String V)
  | ⟨id', _, props, children, _, _⟩ => if id' = id then [props] else targetsOfChildren id children

def targetsOfChildren (id : String) : Option (List (ComponentInstance V)) → List (OrderedMap String V)
  | none => []
  | some components => targetsIn id components

def targetsIn (id : String) : List (ComponentInstance V) → List (OrderedMap String V)
  | [] => []
  | comp :: components => targets id comp ++ targetsIn id components

end

mutual

def ids : ComponentInstance V → List String
  | ⟨id, _, _, children, _, _⟩ => id :: idsOfChildren children

def idsOfChildren : Option (List (ComponentInstance V)) → List String
  | none => []
  | some components => idsIn components

def idsIn : List (ComponentInstance V) → List String
  | [] => []
  | comp :: components => ids comp ++ idsIn components

end

mutual

variable (id : String) (props : OrderedMap String V)

theorem update_eq_self_iff (comp : ComponentInstance V)
    : update id props comp = comp ↔ ∀ m ∈ targets id comp, m.assign props = m := by
  cases comp with
  | mk id' type props' children dataSource permissions =>
    unfold update targets
    split
    . simp
    . simp [updateChildren_eq_self_iff]

theorem updateChildren_eq_self_iff (children : Option (List (ComponentInstance V)))
    : updateChildren id props children = children
      ↔ ∀ m ∈ targetsOfChildren id children, m.assign props = m := by
  cases children with
  | none => simp [updateChildren, targetsOfChildren]
  | some components => simp [updateChildren, targetsOfChildren, updateRecursive_eq_self_iff]

theorem updateRecursive_eq_self_iff (components : List (ComponentInstance V))
    : updateRecursive id props components = components
      ↔ ∀ m ∈ targetsIn id components, m.assign props = m := by
  cases components with
  | nil => simp [updateRecursive, targetsIn]
  | cons comp components =>
    simp [updateRecursive, targetsIn, update_eq_self_iff, updateRecursive_eq_self_iff, or_imp,
      forall_and]

end

mutual

variable {id : String}

theorem deleteBelow_eq_self (comp : ComponentInstance V) (h : id ∉ ids comp)
    : deleteBelow id comp = comp := by
  cases comp with
  | mk id' type props' children dataSource permissions =>
    unfold ids at h
    unfold deleteBelow
    rw [deleteChildren_eq_self]
    intro hmem
    apply h
    simp [hmem]

theorem deleteChildren_eq_self (children : Option (List (ComponentInstance V)))
    (h : id ∉ idsOfChildren children)
    : deleteChildren id children = children := by
  cases children with
  | none => rfl
  | some components =>
    unfold deleteChildren
    rw [deleteRecursive_eq_self components h]

theorem deleteRecursive_eq_self (components : List (ComponentInstance V)) (h : id ∉ idsIn components)
    : deleteRecursive id components = components := by
  cases components with
  | nil => rfl
  | cons comp components =>
    unfold idsIn at h
    rw [mem_append, not_or] at h
    have hne : comp.id ≠ id := by
      intro heq
      apply h.1
      cases comp
      simp [ids, ← heq]
    unfold deleteRecursive
    rw [if_pos hne, deleteBelow_eq_self comp h.1, deleteRecursive_eq_self components h.2]

end

mutual

theorem not_mem_ids_deleteBelow (id : String) (comp : ComponentInstance V) (h : comp.id ≠ id)
    : id ∉ ids (deleteBelow id comp) := by
  cases comp with
  | mk id' type props' children dataSource permissions =>
    unfold deleteBelow ids
    rw [mem_cons, not_or]
    exact ⟨Ne.symm h, not_mem_ids_deleteChildren id children⟩

theorem not_mem_ids_deleteChildren (id : String) (children : Option (List (ComponentInstance V)))
    : id ∉ idsOfChildren (deleteChildren id children) := by
  cases children with
  | none => simp [deleteChildren, idsOfChildren]
  | some components => exact not_mem_ids_deleteRecursive id components

theorem not_mem_ids_deleteRecursive (id : String) (components : List (ComponentInstance V))
    : id ∉ idsIn (deleteRecursive id components) := by
  cases components with
  | nil => simp [deleteRecursive, idsIn]
  | cons comp components =>
    unfold deleteRecursive
    split
    . next hne =>
      unfold idsIn
      rw [mem_append, not_or]
      exact ⟨not_mem_ids_deleteBelow id comp hne, not_mem_ids_deleteRecursive id components⟩
    . exact not_mem_ids_deleteRecursive id components

end

theorem deleteRecursive_eq_self_iff {id : String} {components : List (ComponentInstance V)}
    : deleteRecursive id components = components ↔ id ∉ idsIn components := by
  constructor
  . intro h
    rw [← h]
    apply not_mem_ids_deleteRecursive
  . apply deleteRecursive_eq_self

end ComponentInstance

namespace AppState

variable {V : Type}

structure PagesSound (s : AppState V) : Prop where
  once : s.pages.countP (fun p => p.id = s.currentPage.id) = 1
  same : ∀ p ∈ s.pages, p.id = s.currentPage.id → p = s.currentPage
  returns : ∀ id, ((s.selectPage id).selectPage s.currentPage.id).currentPage = s.currentPage

def FreshPage (s : AppState V) : Action V → Prop
  | .addPage id _ => id ∉ s.pages.map PageConfig.id
  | _ => True

def KeepsCopies (s : AppState V) : Action V → Prop
  | .addComponent _ => False
  | .updateComponent id props => ∀ m ∈ ComponentInstance.targetsIn id s.currentPage.components,
    ∀ e ∈ props.entries, m.get? e.1 = some e.2
  | .deleteComponent id => id ∉ ComponentInstance.idsIn s.currentPage.components
  | .moveComponent activeId overId =>
    activeId ∈ s.currentPage.components.map ComponentInstance.id →
      overId ∈ s.currentPage.components.map ComponentInstance.id → activeId = overId
  | .publishPage id now => s.currentPage.id = id →
    ∀ i ∈ s.pages.findIdx? fun p => p.id = id, now i = now s.pages.length
  | _ => True

structure PagesInv (s : AppState V) : Prop where
  unique : (s.pages.map PageConfig.id).Nodup
  stored : s.currentPage ∈ s.pages

variable {s : AppState V} {components : List (ComponentInstance V)} {id : String}

theorem PagesInv.eq_currentPage (h : PagesInv s) (hp : p ∈ s.pages)
    (hid : p.id = s.currentPage.id)
    : p = s.currentPage :=
  inj_on_of_nodup_map h.unique hp h.stored hid

theorem pagesSound_of_inv (h : PagesInv s) : PagesSound s := by
  refine ⟨?_, ?_, ?_⟩
  . have hcount := count_eq_one_of_mem h.unique (mem_map_of_mem (f := PageConfig.id) h.stored)
    rw [count_eq_countP, countP_map] at hcount
    rw [← hcount]
    apply countP_congr
    intro p _
    simp
  . intro p hp
    apply h.eq_currentPage hp
  . intro id
    unfold selectPage
    rw [find?_of_nodup_map h.unique h.stored]
    rfl

theorem pagesSound_edit_iff (h : PagesInv s) (components : List (ComponentInstance V))
    (selected : Option String)
    : PagesSound
          { s with
            currentPage := { s.currentPage with components := components }
            selectedComponentId := selected }
        ↔ components = s.currentPage.components := by
  constructor
  . intro hsound
    have := hsound.same s.currentPage h.stored rfl
    rw [this]
  . intro heq
    rw [heq]
    apply pagesSound_of_inv
    exact ⟨h.unique, h.stored⟩

theorem exists_findIdx?_of_mem (h : id ∈ components.map ComponentInstance.id)
    : ∃ i, ∃ hi : i < components.length,
      (components.findIdx? fun c => c.id = id) = some i ∧ components[i].id = id := by
  obtain ⟨c, hc, hid⟩ := mem_map.mp h
  cases hfind : components.findIdx? fun c => c.id = id with
  | none =>
    have := findIdx?_eq_none_iff.mp hfind c hc
    simp [hid] at this
  | some i =>
    obtain ⟨hi, hp, _⟩ := findIdx?_eq_some_iff_getElem.mp hfind
    exact ⟨i, hi, rfl, by simpa using hp⟩

theorem findIdx?_eq_none_of_not_mem (h : id ∉ components.map ComponentInstance.id)
    : (components.findIdx? fun c => c.id = id) = none := by
  rw [findIdx?_eq_none_iff]
  intro c hc
  rw [decide_eq_false_iff_not]
  intro hid
  apply h
  rw [← hid]
  exact mem_map_of_mem hc

variable {i : Nat} {now : Nat → String} {a : Action V}

theorem insertIdx_eraseIdx_ne (hi : i < components.length) (hj : j < components.length)
    (h : components[i].id ≠ components[j].id)
    : (components.eraseIdx i).insertIdx j components[i] ≠ components := by
  intro heq
  apply h
  have hlen : j ≤ (components.eraseIdx i).length := by
    rw [length_eraseIdx_of_lt hi]
    omega
  have hget : ((components.eraseIdx i).insertIdx j components[i])[j]? = some components[i] := by
    rw [getElem?_insertIdx_self]
    simp [hlen]
  rw [heq, getElem?_eq_getElem hj] at hget
  injection hget with hget
  rw [hget]

theorem pagesSound_moveComponent_iff (h : PagesInv s) (activeId overId : String)
    : PagesSound (s.moveComponent activeId overId) ↔ KeepsCopies s (.moveComponent activeId overId) := by
  have hsound := pagesSound_of_inv h
  unfold KeepsCopies
  by_cases hactive : activeId ∈ s.currentPage.components.map ComponentInstance.id
  . by_cases hover : overId ∈ s.currentPage.components.map ComponentInstance.id
    . obtain ⟨i, hi, hfindi, hidi⟩ := exists_findIdx?_of_mem hactive
      obtain ⟨j, hj, hfindj, hidj⟩ := exists_findIdx?_of_mem hover
      unfold moveComponent
      dsimp only
      rw [hfindi, hfindj]
      dsimp only
      rw [getElem?_eq_getElem hi]
      rw [pagesSound_edit_iff h]
      constructor
      . intro heq _ _
        by_contra hne
        apply insertIdx_eraseIdx_ne hi hj _ heq
        rw [hidi, hidj]
        exact hne
      . intro hsame
        have heq := hsame hactive hover
        subst heq
        rw [hfindi] at hfindj
        injection hfindj with hij
        subst hij
        exact insertIdx_eraseIdx_getElem hi
    . have : s.moveComponent activeId overId = s := by
        unfold moveComponent
        simp [findIdx?_eq_none_of_not_mem hover]
      simp [this, hsound, hover]
  . have : s.moveComponent activeId overId = s := by
      unfold moveComponent
      simp [findIdx?_eq_none_of_not_mem hactive]
    simp [this, hsound, hactive]

section

variable (s : AppState V) (id : String) (now : Nat → String)

theorem getElem?_publishPage (i : Nat)
    : (s.publishPage id now).pages[i]?
      = s.pages[i]?.map fun p => if p.id = id then publish p (now i) else p := by
  unfold publishPage
  rw [getElem?_mapIdx]

theorem ids_publishPage
    : (s.publishPage id now).pages.map PageConfig.id = s.pages.map PageConfig.id := by
  apply ext_getElem?
  intro i
  rw [getElem?_map, getElem?_map, getElem?_publishPage, Option.map_map]
  congr 1
  funext p
  simp only [Function.comp_apply]
  split <;> rfl

end

section

variable (h : PagesInv s)

include h

theorem PagesInv.getElem?_findIdx? (hi : (s.pages.findIdx? fun p => p.id = s.currentPage.id) = some i)
    : s.pages[i]? = some s.currentPage := by
  obtain ⟨hlt, hid, _⟩ := findIdx?_eq_some_iff_getElem.mp hi
  rw [decide_eq_true_eq] at hid
  rw [getElem?_eq_getElem hlt, h.eq_currentPage (getElem_mem hlt) hid]

theorem pagesInv_publishPage (hnow : KeepsCopies s (.publishPage id now))
    : PagesInv (s.publishPage id now) := by
  constructor
  . rw [ids_publishPage]
    exact h.unique
  . by_cases hid : s.currentPage.id = id
    . subst hid
      have hcurrent : (s.publishPage s.currentPage.id now).currentPage
          = publish s.currentPage (now s.pages.length) := by
        simp [publishPage]
      cases hfind : s.pages.findIdx? fun p => p.id = s.currentPage.id with
      | none =>
        have := findIdx?_eq_none_iff.mp hfind s.currentPage h.stored
        simp at this
      | some i =>
        apply mem_of_getElem? (i := i)
        rw [getElem?_publishPage, h.getElem?_findIdx? hfind, hcurrent, ← hnow rfl i hfind]
        simp
    . have hcurrent : (s.publishPage id now).currentPage = s.currentPage := by
        simp [publishPage, hid]
      obtain ⟨i, hi⟩ := getElem?_of_mem h.stored
      apply mem_of_getElem? (i := i)
      rw [getElem?_publishPage, hi, hcurrent]
      simp [hid]

theorem keepsCopies_of_pagesSound_publishPage (hsound : PagesSound (s.publishPage id now))
    : KeepsCopies s (.publishPage id now) := by
  intro hid i hi
  subst hid
  have hpage : publish s.currentPage (now i) ∈ (s.publishPage s.currentPage.id now).pages := by
    apply mem_of_getElem? (i := i)
    rw [getElem?_publishPage, h.getElem?_findIdx? hi]
    simp
  have hcurrent : (s.publishPage s.currentPage.id now).currentPage
      = publish s.currentPage (now s.pages.length) := by
    simp [publishPage]
  have := hsound.same _ hpage (by rw [hcurrent]; rfl)
  rw [hcurrent] at this
  simpa [publish] using this

theorem pagesInv_addPage (name : String) (hfresh : id ∉ s.pages.map PageConfig.id)
    : PagesInv (s.addPage id name) := by
  constructor
  . unfold addPage
    rw [map_append, map_singleton, ← concat_eq_append]
    exact h.unique.concat hfresh
  . simp [addPage]

theorem pagesInv_selectPage (id : String) : PagesInv (s.selectPage id) := by
  refine ⟨h.unique, ?_⟩
  unfold selectPage
  cases hfind : s.pages.find? fun p => p.id = id with
  | none => exact h.stored
  | some p => exact mem_of_find?_eq_some hfind

theorem pagesSound_step_iff (hfresh : FreshPage s a) : PagesSound (s.step a) ↔ KeepsCopies s a := by
  have hsame {s' : AppState V} (h' : PagesInv s') : PagesSound s' ↔ True :=
    iff_of_true (pagesSound_of_inv h') trivial
  cases a with
  | addComponent component =>
    apply (pagesSound_edit_iff h _ _).trans
    simp [KeepsCopies]
  | updateComponent id props =>
    apply (pagesSound_edit_iff h _ _).trans
    simp only [ComponentInstance.updateRecursive_eq_self_iff, OrderedMap.assign_eq_self_iff, KeepsCopies]
  | deleteComponent id =>
    apply (pagesSound_edit_iff h _ _).trans
    apply ComponentInstance.deleteRecursive_eq_self_iff
  | moveComponent activeId overId => apply pagesSound_moveComponent_iff h
  | addPage id name => exact hsame (pagesInv_addPage h name hfresh)
  | selectPage id => exact hsame (pagesInv_selectPage h id)
  | publishPage id now =>
    constructor
    . apply keepsCopies_of_pagesSound_publishPage h
    . intro hnow
      apply pagesSound_of_inv
      apply pagesInv_publishPage h hnow
  | selectComponent id => exact hsame ⟨h.unique, h.stored⟩
  | addRole id name permissions | updateRole id role => exact hsame ⟨h.unique, h.stored⟩
  | deleteRole id | addUser id name roleId => exact hsame ⟨h.unique, h.stored⟩
  | updateUser id user | deleteUser id => exact hsame ⟨h.unique, h.stored⟩
  | login name =>
    have hlogin : (s.login name).1.pages = s.pages ∧ (s.login name).1.currentPage = s.currentPage := by
      unfold login
      split <;> exact ⟨rfl, rfl⟩
    apply hsame
    constructor
    . exact hlogin.1 ▸ h.unique
    . exact hlogin.1 ▸ hlogin.2 ▸ h.stored
  | logout => exact hsame ⟨h.unique, h.stored⟩

end

theorem pagesInv_of_pagesSound (hunique : (s.pages.map PageConfig.id).Nodup) (h : PagesSound s)
    : PagesInv s := by
  refine ⟨hunique, ?_⟩
  have hpos : 0 < s.pages.countP fun p => p.id = s.currentPage.id := by
    rw [h.once]
    omega
  obtain ⟨p, hp, hid⟩ := countP_pos_iff.mp hpos
  rw [decide_eq_true_eq] at hid
  rw [← h.same p hp hid]
  exact hp

theorem unique_step (h : PagesInv s) (hfresh : FreshPage s a)
    : ((s.step a).pages.map PageConfig.id).Nodup := by
  cases a with
  | addPage id name => exact (pagesInv_addPage h name hfresh).unique
  | publishPage id now =>
    apply Eq.mpr _ h.unique
    exact congrArg _ (ids_publishPage s id now)
  | moveComponent activeId overId =>
    simp only [step, moveComponent]
    split
    . split <;> exact h.unique
    . exact h.unique
  | login name =>
    simp only [step, login]
    split <;> exact h.unique
  | _ => exact h.unique

theorem always_pagesSound_iff {defaultPageId : String} {actions : List (Action V)}
    (hfresh : Run.Along step FreshPage (init defaultPageId) actions)
    : Run.Always step PagesSound (init defaultPageId) actions
      ↔ Run.Along step KeepsCopies (init defaultPageId) actions := by
  apply Run.always_iff_along_of_along PagesInv FreshPage _ _ _ _ hfresh
  . intro s h
    apply pagesSound_of_inv h
  . intro s a h hfresh ha
    apply pagesInv_of_pagesSound (unique_step h hfresh)
    exact (pagesSound_step_iff h hfresh).mpr ha
  . intro s a h hfresh hnot hsound
    apply hnot
    exact (pagesSound_step_iff h hfresh).mp hsound
  . constructor <;> simp [init]

theorem not_always_pagesSound_switched
    : ¬Run.Always step PagesSound (init "p1" : AppState Unit)
        [.addPage "p2" "next", .addComponent ⟨"c", .text, .empty, none, none, none⟩]
      ∧ (([.addPage "p2" "next", .addComponent ⟨"c", .text, .empty, none, none, none⟩, .selectPage "p1",
            .selectPage "p2"] : List (Action Unit)).foldl step (init "p1")).currentPage.components = [] := by
  constructor
  . intro h
    have := h.last.same ⟨"p2", "next", [], false, none⟩ (List.Mem.tail _ (List.Mem.head _)) rfl
    injection this with _ _ hcomponents
    contradiction
  . rfl

theorem always_pagesSound_iff_switching
    : Run.Along step FreshPage (init "p1" : AppState Unit)
        [.addPage "p2" "next", .selectPage "p1", .publishPage "p2" (fun _ => "now"), .selectPage "p2"]
      ∧ Run.Always step PagesSound (init "p1" : AppState Unit)
        [.addPage "p2" "next", .selectPage "p1", .publishPage "p2" (fun _ => "now"),
          .selectPage "p2"] := by
  have hfresh : Run.Along step FreshPage (init "p1" : AppState Unit)
      [.addPage "p2" "next", .selectPage "p1", .publishPage "p2" (fun _ => "now"), .selectPage "p2"] := by
    simp [Run.Along, FreshPage, init, defaultPage]
  refine ⟨hfresh, (always_pagesSound_iff hfresh).mpr ?_⟩
  simp [Run.Along, KeepsCopies]

end AppState

end Lowcode
