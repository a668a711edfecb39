import AppSuite.Lowcode.Store
import AppSuite.System.Run

/-!
This module contains the links between users, roles and the user who is logged in.
-/

namespace Lowcode

open List

section Preview

variable (roles : List Role) (currentUser : Option User)

def userRole : Option Role := currentUser.bind fun u => roles.find? fun r => r.id = u.roleId

def hasPermission (permission : String) : Bool :=
  match userRole roles currentUser with
  | none => false
  | some role => if role.permissions.contains "*" then true else role.permissions.contains permission

def hasPreviewPermission : Bool := hasPermission roles currentUser "preview"

def canEdit : Bool := hasPermission roles currentUser "design"

end Preview

namespace AppState

variable {V : Type}

def roleIds (s : AppState V) : List String := s.roles.map Role.id

def Submittable (s : AppState V) : Action V → Prop
  | .addUser id _ roleId => id ∉ s.users.map User.id ∧ roleId ∈ s.roleIds
  | .updateUser _ user => user.id = none ∧ ∀ roleId ∈ user.roleId, roleId ∈ s.roleIds
  | .updateRole _ role => role.id = none
  | _ => True

instance (s : AppState V) (a : Action V) : Decidable (s.Submittable a) := by
  cases a <;> unfold Submittable <;> infer_instance

structure Linked (s : AppState V) : Prop where
  roles : ∀ u ∈ s.users, u.roleId ∈ s.roleIds
  currentUser : ∀ u ∈ s.currentUser, (s.users.find? fun v => v.id = u.id) = some u

end AppState

structure Audited (V : Type) where
  app : AppState V
  deletedRoles : List String
  edited : Bool

namespace Audited

variable {V : Type}

def init (defaultPageId : String) : Audited V := ⟨.init defaultPageId, [], false⟩

def isCurrent (s : Audited V) (id : String) : Bool := s.app.currentUser.any fun u => u.id = id

def step (s : Audited V) (a : Action V) : Audited V :=
  { app := s.app.step a
    deletedRoles :=
      match a with
      | .deleteRole id => id :: s.deletedRoles
      | _ => s.deletedRoles
    edited :=
      match a with
      | .login name => if (s.app.login name).2 then false else s.edited
      | .logout => false
      | .updateUser id _ => s.edited || s.isCurrent id
      | .deleteUser id => s.edited || s.isCurrent id
      | _ => s.edited }

structure Linked (s : Audited V) : Prop where
  roles : ∀ u ∈ s.app.users, u.roleId ∈ s.app.roleIds ∨ u.roleId ∈ s.deletedRoles
  noRights : ∀ u ∈ s.app.users, u.roleId ∉ s.app.roleIds →
    hasPreviewPermission s.app.roles (some u) = false ∧ canEdit s.app.roles (some u) = false
  currentUser : s.edited = false → ∀ u ∈ s.app.currentUser,
    (s.app.users.find? fun v => v.id = u.id) = some u

structure Inv (s : Audited V) : Prop where
  unique : (s.app.users.map User.id).Nodup
  roles : ∀ u ∈ s.app.users, u.roleId ∈ s.app.roleIds ∨ u.roleId ∈ s.deletedRoles
  currentUser : s.edited = false → ∀ u ∈ s.app.currentUser, u ∈ s.app.users

variable {roles : List Role} {u : User} {id : String}

theorem hasPermission_of_not_mem (h : u.roleId ∉ roles.map Role.id) (permission : String)
    : hasPermission roles (some u) permission = false := by
  have : userRole roles (some u) = none := by
    unfold userRole
    rw [Option.bind_some, find?_eq_none]
    intro r hr hid
    apply h
    rw [← of_decide_eq_true hid]
    exact mem_map_of_mem hr
  unfold hasPermission
  rw [this]

variable {s : Audited V}

theorem linked_of_inv (h : Inv s) : Linked s := by
  refine ⟨h.roles, ?_, ?_⟩
  . intro u _ hrole
    exact ⟨hasPermission_of_not_mem hrole "preview", hasPermission_of_not_mem hrole "design"⟩
  . intro hedited u hu
    apply find?_of_nodup_map h.unique
    apply h.currentUser hedited u hu

theorem inv_init (defaultPageId : String) : Inv (init defaultPageId : Audited V) := by
  refine ⟨?_, ?_, ?_⟩
  . unfold init AppState.init
    dsimp only
    decide
  . unfold init AppState.init AppState.roleIds
    dsimp only
    decide
  . intro _ u hu
    contradiction

theorem inv_roles (h : Inv s) {deletedRoles : List String}
    (hroles : ∀ roleId, roleId ∈ s.app.roleIds ∨ roleId ∈ s.deletedRoles → roleId ∈ roles.map Role.id ∨ roleId ∈ deletedRoles)
    : Inv { s with app := { s.app with roles := roles }, deletedRoles := deletedRoles } := by
  refine ⟨h.unique, ?_, h.currentUser⟩
  intro u hu
  apply hroles
  exact h.roles u hu

theorem inv_updateRole (h : Inv s) (id : String) {role : PartialRole} (hid : role.id = none)
    : Inv (s.step (.updateRole id role)) := by
  apply inv_roles h
  intro roleId hmem
  have : (s.app.roles.map fun r => if r.id = id then r.assign role else r).map Role.id = s.app.roleIds := by
    rw [map_map]
    apply map_congr_left
    intro r _
    simp only [Function.comp_apply]
    split
    . simp [Role.assign, hid]
    . rfl
  rw [this]
  exact hmem

theorem inv_deleteRole (h : Inv s) (id : String) : Inv (s.step (.deleteRole id)) := by
  apply inv_roles h
  intro roleId hmem
  rw [mem_cons]
  by_cases heq : roleId = id
  . exact Or.inr (Or.inl heq)
  . rcases hmem with hmem | hmem
    . obtain ⟨r, hr, rfl⟩ := mem_map.mp hmem
      left
      apply mem_map_of_mem
      rw [List.mem_filter]
      exact ⟨hr, by simpa using heq⟩
    . exact Or.inr (Or.inr hmem)

theorem inv_addUser (h : Inv s)
    (hsubmit : s.app.Submittable (.addUser id name roleId))
    : Inv (s.step (.addUser id name roleId)) := by
  refine ⟨?_, ?_, ?_⟩
  . simp only [step, AppState.step]
    rw [map_append, map_singleton, ← concat_eq_append]
    exact h.unique.concat hsubmit.1
  . intro u hu
    rcases mem_append.mp hu with hu | hu
    . exact h.roles u hu
    . rw [mem_singleton.mp hu]
      exact Or.inl hsubmit.2
  . intro hedited u hu
    apply mem_append_left
    exact h.currentUser hedited u hu

theorem not_isCurrent (s : Audited V) (id : String) (hu : u ∈ s.app.currentUser)
    (h : (s.edited || s.isCurrent id) = false)
    : s.edited = false ∧ u.id ≠ id := by
  rw [Bool.or_eq_false_iff] at h
  refine ⟨h.1, ?_⟩
  have := h.2
  unfold isCurrent at this
  rw [Option.mem_def.mp hu] at this
  simpa using this

theorem inv_updateUser (h : Inv s) (hsubmit : s.app.Submittable (.updateUser id user))
    : Inv (s.step (.updateUser id user)) := by
  refine ⟨?_, ?_, ?_⟩
  . have : (s.app.users.map fun u => if u.id = id then u.assign user else u).map User.id
        = s.app.users.map User.id := by
      rw [map_map]
      apply map_congr_left
      intro u _
      simp only [Function.comp_apply]
      split
      . simp [User.assign, hsubmit.1]
      . rfl
    simp only [step, AppState.step]
    rw [this]
    exact h.unique
  . intro u hu
    obtain ⟨v, hv, rfl⟩ := mem_map.mp hu
    split
    . cases hrole : user.roleId with
      | none =>
        simp only [User.assign, hrole, Option.getD_none]
        exact h.roles v hv
      | some roleId =>
        simp only [User.assign, hrole, Option.getD_some]
        exact Or.inl (hsubmit.2 roleId hrole)
    . exact h.roles v hv
  . intro hedited u hu
    have ⟨hold, hne⟩ := not_isCurrent s id hu hedited
    apply mem_map.mpr
    exact ⟨u, h.currentUser hold u hu, if_neg hne⟩

theorem inv_deleteUser (h : Inv s) (id : String) : Inv (s.step (.deleteUser id)) := by
  have hsub : (s.step (.deleteUser id)).app.users.Sublist s.app.users := filter_sublist
  refine ⟨?_, ?_, ?_⟩
  . apply List.Nodup.sublist _ h.unique
    exact hsub.map User.id
  . intro u hu
    apply h.roles
    exact hsub.subset hu
  . intro hedited u hu
    have ⟨hold, hne⟩ := not_isCurrent s id hu hedited
    apply List.mem_filter.mpr
    exact ⟨h.currentUser hold u hu, by simpa using hne⟩

theorem inv_login (h : Inv s) (name : String) : Inv (s.step (.login name)) := by
  cases hfind : s.app.users.find? fun u => u.name = name with
  | none =>
    have : s.app.login name = (s.app, false) := by
      unfold AppState.login
      rw [hfind]
    simp only [step, AppState.step, this]
    exact ⟨h.unique, h.roles, h.currentUser⟩
  | some user =>
    have : s.app.login name = ({ s.app with currentUser := some user }, true) := by
      unfold AppState.login
      rw [hfind]
    simp only [step, AppState.step, this]
    refine ⟨h.unique, h.roles, ?_⟩
    intro _ u hu
    injection hu with hu
    rw [← hu]
    exact mem_of_find?_eq_some hfind

theorem inv_step (h : Inv s) {a : Action V} (hsubmit : s.app.Submittable a) : Inv (s.step a) := by
  cases a with
  | addRole id name permissions =>
    apply inv_roles h
    intro roleId hmem
    rw [map_append, mem_append]
    exact hmem.imp_left Or.inl
  | updateRole id role => exact inv_updateRole h id hsubmit
  | deleteRole id => apply inv_deleteRole h
  | addUser id name roleId => apply inv_addUser h hsubmit
  | updateUser id user => apply inv_updateUser h hsubmit
  | deleteUser id => apply inv_deleteUser h
  | login name => apply inv_login h
  | logout =>
    refine ⟨h.unique, h.roles, ?_⟩
    intro _ u hu
    contradiction
  | moveComponent activeId overId =>
    have hsame : (s.app.moveComponent activeId overId).users = s.app.users
        ∧ (s.app.moveComponent activeId overId).roles = s.app.roles
        ∧ (s.app.moveComponent activeId overId).currentUser = s.app.currentUser := by
      unfold AppState.moveComponent
      dsimp only
      split
      . split <;> exact ⟨rfl, rfl, rfl⟩
      . exact ⟨rfl, rfl, rfl⟩
    refine ⟨?_, ?_, ?_⟩ <;> simp only [step, AppState.step, AppState.roleIds, hsame]
    . exact h.unique
    . exact h.roles
    . exact h.currentUser
  | _ => exact ⟨h.unique, h.roles, h.currentUser⟩

theorem always_linked {defaultPageId : String} {actions : List (Action V)}
    (h : Run.Along step (fun s a => s.app.Submittable a) (init defaultPageId) actions)
    : Run.Always step Linked (init defaultPageId) actions := by
  apply Run.always_of_along Inv _ _ (inv_init defaultPageId) h
  . intro s h
    apply linked_of_inv h
  . intro s a h hsubmit
    apply inv_step h hsubmit

theorem always_linked_roleDeleted
    : Run.Along step (fun s a => s.app.Submittable a) (init "p" : Audited Unit)
        [.addRole "r" "tester" ["preview"], .addUser "4" "ann" "r", .login "ann", .deleteRole "r"]
      ∧ Run.Always step Linked (init "p" : Audited Unit)
        [.addRole "r" "tester" ["preview"], .addUser "4" "ann" "r", .login "ann", .deleteRole "r"] := by
  have h : Run.Along step (fun s a => s.app.Submittable a) (init "p" : Audited Unit)
      [.addRole "r" "tester" ["preview"], .addUser "4" "ann" "r", .login "ann", .deleteRole "r"] := by
    decide
  exact ⟨h, always_linked h⟩

end Audited

namespace AppState

theorem not_always_linked_deleted
    : Run.Along step Submittable (init "p" : AppState Unit) [.deleteRole "2"]
      ∧ ¬Run.Always step Linked (init "p" : AppState Unit) [.deleteRole "2"]
      ∧ Run.Along step Submittable (init "p" : AppState Unit) [.login "admin", .deleteUser "1"]
      ∧ ¬Run.Always step Linked (init "p" : AppState Unit) [.login "admin", .deleteUser "1"] := by
  refine ⟨by decide, ?_, by decide, ?_⟩
  . intro h
    have := h.last.roles ⟨"2", "developer", "2"⟩ (by decide)
    revert this
    decide
  . intro h
    have := h.last.currentUser ⟨"1", "admin", "1"⟩ rfl
    revert this
    decide

end AppState

end Lowcode
