import AppSuite.Data.OrderedMap

/-!
This module contains the store of the page designer, and the actions that change it.
-/

namespace Lowcode

inductive ComponentType where
  | input
  | textarea
  | number
  | select
  | radio
  | checkbox
  | switch
  | datePicker
  | upload
  | button
  | text
  | image
  | divider
  | container
  deriving DecidableEq, Repr

-- `V` is the type of property values.
structure ComponentInstance (V : Type) where
  id : String
  type : ComponentType
  props : OrderedMap String V
  children : Option (List (ComponentInstance V))
  dataSource : Option String
  permissions : Option (List String)

namespace ComponentInstance

variable {V : Type}

mutual

def update (id : String) (props : OrderedMap String V) : ComponentInstance V → ComponentInstance V
  | ⟨id', type, props', children, dataSource, permissions⟩ =>
    if id' = id then
      ⟨id', type, props'.assign props, children, dataSource, permissions⟩
    else
      ⟨id', type, props', updateChildren id props children, dataSource, permissions⟩

def updateChildren (id : String) (props : OrderedMap String V)
    : Option (List (ComponentInstance V)) → Option (List (ComponentInstance V))
  | none => none
  | some components => some (updateRecursive id props components)

def updateRecursive (id : String) (props : OrderedMap String V)
    : List (ComponentInstance V) → List (ComponentInstance V)
  | [] => []
  | comp :: components => update id props comp :: updateRecursive id props components

end

mutual

def deleteBelow (id : String) : ComponentInstance V → ComponentInstance V
  | ⟨id', type, props, children, dataSource, permissions⟩ =>
    ⟨id', type, props, deleteChildren id children, dataSource, permissions⟩

def deleteChildren (id : String)
    : Option (List (ComponentInstance V)) → Option (List (ComponentInstance V))
  | none => none
  | some components => some (deleteRecursive id components)

def deleteRecursive (id : String) : List (ComponentInstance V) → List (ComponentInstance V)
  | [] => []
  | comp :: components =>
    if comp.id ≠ id then
      deleteBelow id comp :: deleteRecursive id components
    else
      deleteRecursive id components

end

end ComponentInstance

structure PageConfig (V : Type) where
  id : String
  name : String
  components : List (ComponentInstance V)
  published : Bool
  publishedAt : Option String

structure Role where
  id : String
  name : String
  permissions : List String
  deriving DecidableEq, Repr

structure User where
  id : String
  name : String
  roleId : String
  deriving DecidableEq, Repr

structure PartialRole where
  id : Option String
  name : Option String
  permissions : Option (List String)
  deriving DecidableEq, Repr

structure PartialUser where
  id : Option String
  name : Option String
  roleId : Option String
  deriving DecidableEq, Repr

def Role.assign (r : Role) (p : PartialRole) : Role :=
  ⟨p.id.getD r.id, p.name.getD r.name, p.permissions.getD r.permissions⟩

def User.assign (u : User) (p : PartialUser) : User :=
  ⟨p.id.getD u.id, p.name.getD u.name, p.roleId.getD u.roleId⟩

structure AppState (V : Type) where
  currentPage : PageConfig V
  pages : List (PageConfig V)
  selectedComponentId : Option String
  roles : List Role
  users : List User
  currentUser : Option User

-- New ids are the ones that `uuidv4` returns, and `now i` is the time that the `i`-th callback of an
-- action reads from the clock.
inductive Action (V : Type) where
  | addComponent (component : ComponentInstance V)
  | updateComponent (id : String) (props : OrderedMap String V)
  | deleteComponent (id : String)
  | selectComponent (id : Option String)
  | moveComponent (activeId overId : String)
  | addPage (id name : String)
  | selectPage (id : String)
  | publishPage (id : String) (now : Nat → String)
  | addRole (id name : String) (permissions : List String)
  | updateRole (id : String) (role : PartialRole)
  | deleteRole (id : String)
  | addUser (id name roleId : String)
  | updateUser (id : String) (user : PartialUser)
  | deleteUser (id : String)
  | login (name : String)
  | logout

namespace AppState

variable {V : Type}

def defaultPage (id : String) : PageConfig V := ⟨id, "新页面", [], false, none⟩

def defaultRoles : List Role :=
  [⟨"1", "管理员", ["*"]⟩, ⟨"2", "开发者", ["design", "preview", "data"]⟩, ⟨"3", "用户", ["preview"]⟩]

def defaultUsers : List User := [⟨"1", "admin", "1"⟩, ⟨"2", "developer", "2"⟩, ⟨"3", "user", "3"⟩]

def init (defaultPageId : String) : AppState V :=
  ⟨defaultPage defaultPageId, [defaultPage defaultPageId], none, defaultRoles, defaultUsers, none⟩

def addComponent (s : AppState V) (component : ComponentInstance V) : AppState V :=
  { s with
    currentPage := { s.currentPage with components := s.currentPage.components ++ [component] }
    selectedComponentId := some component.id }

variable (s : AppState V) (id : String)

def updateComponent (props : OrderedMap String V) : AppState V :=
  { s with
    currentPage := { s.currentPage with
      components := ComponentInstance.updateRecursive id props s.currentPage.components } }

def deleteComponent : AppState V :=
  { s with
    currentPage := { s.currentPage with
      components := ComponentInstance.deleteRecursive id s.currentPage.components }
    selectedComponentId := if s.selectedComponentId = some id then none else s.selectedComponentId }

def moveComponent (activeId overId : String) : AppState V :=
  let components := s.currentPage.components
  match components.findIdx? fun c => c.id = activeId, components.findIdx? fun c => c.id = overId with
  | some activeIndex, some overIndex =>
    match components[activeIndex]? with
    | some activeComponent =>
      { s with
        currentPage := { s.currentPage with
          components := (components.eraseIdx activeIndex).insertIdx overIndex activeComponent } }
    | none => s
  | _, _ => s

def addPage (id name : String) : AppState V :=
  let newPage : PageConfig V := ⟨id, name, [], false, none⟩
  { s with
    pages := s.pages ++ [newPage]
    currentPage := newPage
    selectedComponentId := none }

def selectPage : AppState V :=
  { s with
    currentPage := (s.pages.find? fun p => p.id = id).getD s.currentPage
    selectedComponentId := none }

def publish (p : PageConfig V) (now : String) : PageConfig V :=
  { p with published := true, publishedAt := some now }

def publishPage (now : Nat → String) : AppState V :=
  { s with
    pages := s.pages.mapIdx fun i p => if p.id = id then publish p (now i) else p
    currentPage :=
      if s.currentPage.id = id then
        publish s.currentPage (now s.pages.length)
      else
        s.currentPage }

def login (name : String) : AppState V × Bool :=
  match s.users.find? fun u => u.name = name with
  | some user => ({ s with currentUser := some user }, true)
  | none => (s, false)

def step : Action V → AppState V
  | .addComponent component => s.addComponent component
  | .updateComponent id props => s.updateComponent id props
  | .deleteComponent id => s.deleteComponent id
  | .selectComponent id => { s with selectedComponentId := id }
  | .moveComponent activeId overId => s.moveComponent activeId overId
  | .addPage id name => s.addPage id name
  | .selectPage id => s.selectPage id
  | .publishPage id now => s.publishPage id now
  | .addRole id name permissions => { s with roles := s.roles ++ [⟨id, name, permissions⟩] }
  | .updateRole id role =>
    { s with roles := s.roles.map fun r => if r.id = id then r.assign role else r }
  | .deleteRole id => { s with roles := s.roles.filter fun r => r.id ≠ id }
  | .addUser id name roleId => { s with users := s.users ++ [⟨id, name, roleId⟩] }
  | .updateUser id user =>
    { s with users := s.users.map fun u => if u.id = id then u.assign user else u }
  | .deleteUser id => { s with users := s.users.filter fun u => u.id ≠ id }
  | .login name => (s.login name).1
  | .logout => { s with currentUser := none }

end AppState

theorem find?_of_nodup_map {α κ : Type} [DecidableEq κ] {key : α → κ} {rows : List α}
    (h : (rows.map key).Nodup) {row : α} (hrow : row ∈ rows)
    : (rows.find? fun other => key other = key row) = some row := by
  cases hfind : rows.find? fun other => key other = key row with
  | none =>
    have := List.find?_eq_none.mp hfind row hrow
    simp at this
  | some other =>
    have hkey := List.find?_some hfind
    rw [decide_eq_true_eq] at hkey
    rw [List.inj_on_of_nodup_map h (List.mem_of_find?_eq_some hfind) hrow hkey]

end Lowcode
