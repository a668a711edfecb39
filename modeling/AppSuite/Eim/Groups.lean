import AppSuite.Data.ExceptFold
import AppSuite.Data.OrderedMap
import AppSuite.Data.OrderedSet
import AppSuite.System.Run
import AppSuite.Text.Whitespace

/-!
This module contains the documents that the chat server stores, as their schemas cast and check them, and
the routes that create groups and edit their members.
-/

namespace Eim

-- Ids of requests are strings, or null; those of documents are `ObjectId`s.
structure ObjectIds (Id : Type) where
  cast : String → Option Id
  toString : Id → String
  cast_toString : ∀ id, cast (toString id) = some id

namespace ObjectIds

variable {Id : Type} (ids : ObjectIds Id)

def castRef : Option String → Option (Option Id)
  | none => some none
  | some s => (ids.cast s).map some

theorem toString_inj : ids.toString a = ids.toString b ↔ a = b := by
  constructor
  . intro h
    apply Option.some.inj
    rw [← ids.cast_toString a, h, ids.cast_toString]
  . intro h
    rw [h]

def plain : ObjectIds String := ⟨some, fun s => s, fun _ => rfl⟩

end ObjectIds

inductive Role where
  | owner
  | admin
  | member
  deriving DecidableEq, Repr

structure Member (Id : Type) where
  user : Option Id
  role : Role
  deriving DecidableEq, Repr

structure Group (Id : Type) where
  name : String
  description : Option String
  avatar : Option String
  owner : Id
  members : List (Member Id)
  deriving DecidableEq, Repr

-- `m.user.toString()` throws for a member whose user is null.
inductive TypeError where
  | nullUser
  deriving DecidableEq, Repr

namespace Group

variable {Id : Type} (ids : ObjectIds Id)

def memberText (m : Member Id) : Except TypeError String :=
  match m.user with
  | some user => pure (ids.toString user)
  | none => throw .nullUser

def isMember (g : Group Id) (userId : Id) : Except TypeError Bool :=
  g.members.anyM fun m => do return (← memberText ids m) == ids.toString userId

def getMemberRole (g : Group Id) (userId : Id) : Except TypeError (Option Role) := do
  let member ← g.members.findM? fun m => do return (← memberText ids m) == ids.toString userId
  return member.map Member.role

def nameMaxLength : Nat := 50

def validName (name : String) : Bool :=
  1 ≤ Text.Js.length name && Text.Js.length name ≤ nameMaxLength

end Group

inductive MessageType where
  | text
  | image
  | file
  | system
  deriving DecidableEq, Repr

structure Message (Id : Type) where
  sender : Id
  receiver : Option Id
  group : Option Id
  content : String
  messageType : MessageType
  readBy : OrderedSet Id
  isRead : Bool

namespace Message

variable {Id : Type} (ids : ObjectIds Id)

def save (sender : Id) (receiver group content : Option String) : Option (Message Id) := do
  let receiver ← ids.castRef receiver
  let group ← ids.castRef group
  let content ← content.map Text.Js.trim
  if content = "" then
    none
  else
    some ⟨sender, receiver, group, content, .text, .empty, false⟩

variable {sender : Id} {receiver group content : Option String} {m : Message Id}

section

variable (h : save ids sender receiver group content = some m)

include h

theorem save_eq_some
    : ∃ r g c, ids.castRef receiver = some r ∧ ids.castRef group = some g
      ∧ m = ⟨sender, r, g, c, .text, .empty, false⟩ := by
  unfold save at h
  cases hreceiver : ids.castRef receiver with
  | none => simp [hreceiver] at h
  | some r =>
    cases hgroup : ids.castRef group with
    | none => simp [hreceiver, hgroup] at h
    | some g =>
      cases content with
      | none => simp [hreceiver, hgroup] at h
      | some c =>
        simp only [hreceiver, hgroup, Option.map_some, Option.bind_eq_bind, Option.bind_some] at h
        split at h
        . contradiction
        . injection h with h
          exact ⟨r, g, Text.Js.trim c, rfl, rfl, h.symm⟩

theorem castRef_of_save
    : ids.castRef receiver = some m.receiver ∧ ids.castRef group = some m.group := by
  obtain ⟨r, g, c, hr, hg, rfl⟩ := save_eq_some ids h
  exact ⟨hr, hg⟩

theorem new_of_save : m.isRead = false ∧ m.readBy.elems = [] := by
  obtain ⟨r, g, c, _, _, rfl⟩ := save_eq_some ids h
  exact ⟨rfl, rfl⟩

end

end Message

abbrev GroupStore (Id : Type) := OrderedMap Id (Group Id)

inductive Response (Id : Type) where
  | group (status : Nat) (group : Group Id)
  | message (status : Nat) (text : String)

def serverError {Id : Type} : Response Id := .message 500 "Server error"

namespace GroupStore

-- A field that may be left out of the body is an `Option`, one that may also be null a double one.
inductive Request (Id : Type) where
  | create (groupId ownerId : Id) (name description : Option String)
      (memberIds : Option (List (Option String)))
  | update (user : Id) (id : String) (name : Option String)
      (description avatar : Option (Option String))
  | addMembers (user : Id) (id : String) (memberIds : Option (List (Option String)))
  | removeMember (user : Id) (id targetUserId : String)

variable {Id : Type} [DecidableEq Id] (ids : ObjectIds Id)

def orServerError {α : Type} : Except TypeError α → Except (Response Id) α
  | .ok a => pure a
  | .error _ => throw serverError

variable (s : GroupStore Id)

def findById (id : String) : Except (Response Id) (Id × Group Id) :=
  match ids.cast id with
  | none => throw serverError
  | some groupId =>
    match s.get? groupId with
    | none => throw (.message 404 "Group not found")
    | some group => pure (groupId, group)

def checkRole (role : Option Role) : Except (Response Id) Unit :=
  if role ≠ some .owner ∧ role ≠ some .admin then
    throw (.message 403 "Access denied")
  else
    pure ()

def orInvalid {α : Type} : Option α → Except (Response Id) α
  | some a => pure a
  | none => throw serverError

def create (groupId ownerId : Id) (name description : Option String)
    (memberIds : Option (List (Option String))) : Except (Response Id) (Id × Group Id) :=
  if name.getD "" = "" then
    throw (.message 400 "Group name is required")
  else do
    let users ← orInvalid ((memberIds.getD []).mapM ids.castRef)
    let members := ⟨some ownerId, .owner⟩ :: users.map fun user => ⟨user, .member⟩
    let name := Text.Js.trim (name.getD "")
    let description := Text.Js.trim (description.getD "")
    if !Group.validName name || s.has groupId then
      throw serverError
    else
      return (groupId, ⟨name, some description, some "", ownerId, members⟩)

variable (user : Id) (id : String)

def update (name : Option String) (description avatar : Option (Option String)) : Except (Response Id) (Id × Group Id) := do
  let (groupId, group) ← findById ids s id
  checkRole (← orServerError (group.getMemberRole ids user))
  let name := name.getD ""
  if name ≠ "" && !Group.validName (Text.Js.trim name) then
    throw serverError
  else
    return (groupId,
      { group with
        name := if name ≠ "" then Text.Js.trim name else group.name
        description := (description.map fun d => d.map Text.Js.trim).getD group.description
        avatar := avatar.getD group.avatar })

-- `memberIds.filter(userId => !existingMemberIds.includes(userId.toString()))`
def newMemberIds (existing : List String) : List (Option String) → Except TypeError (List String)
  | [] => pure []
  | none :: _ => throw .nullUser
  | some userId :: memberIds => do
    let rest ← newMemberIds existing memberIds
    return if userId ∈ existing then rest else userId :: rest

def addMembers (memberIds : Option (List (Option String))) : Except (Response Id) (Id × Group Id) := do
  let (groupId, group) ← findById ids s id
  checkRole (← orServerError (group.getMemberRole ids user))
  let existing ← orServerError (group.members.mapM (Group.memberText ids))
  let new ← orServerError (newMemberIds existing (memberIds.getD []))
  let users ← orInvalid (new.mapM ids.cast)
  return (groupId,
    { group with members := group.members ++ users.map fun user => ⟨some user, .member⟩ })

-- `members.filter(m => m.user.toString() !== targetUserId)`
def withoutUser (targetUserId : String) : List (Member Id) → Except TypeError (List (Member Id))
  | [] => pure []
  | m :: members => do
    let text ← Group.memberText ids m
    let rest ← withoutUser targetUserId members
    return if text ≠ targetUserId then m :: rest else rest

def removeMember (id targetUserId : String) : Except (Response Id) (Id × Group Id) := do
  let (groupId, group) ← findById ids s id
  let currentRole ← orServerError (group.getMemberRole ids user)
  if targetUserId = ids.toString user then
    let members ← orServerError (withoutUser ids targetUserId group.members)
    return (groupId, { group with members := members })
  else
    checkRole currentRole
    let members ← orServerError (withoutUser ids targetUserId group.members)
    return (groupId, { group with members := members })

def handle : Request Id → Except (Response Id) (Id × Group Id)
  | .create groupId ownerId name description memberIds =>
    create ids s groupId ownerId name description memberIds
  | .update user id name description avatar => update ids s user id name description avatar
  | .addMembers user id memberIds => addMembers ids s user id memberIds
  | .removeMember user id targetUserId => removeMember ids s user id targetUserId

def step (r : Request Id) : GroupStore Id :=
  match handle ids s r with
  | .ok (groupId, group) => s.set groupId group
  | .error _ => s

end GroupStore

namespace Group

variable {Id : Type}

def users (g : Group Id) : List Id := g.members.filterMap Member.user

structure Sound (g : Group Id) : Prop where
  once : g.users.Nodup
  owned : ⟨some g.owner, .owner⟩ ∈ g.members

def NoNull (g : Group Id) : Prop := ∀ m ∈ g.members, m.user ≠ none

end Group

namespace GroupStore

variable {Id : Type} [DecidableEq Id] (ids : ObjectIds Id)

def Sound (s : GroupStore Id) : Prop := ∀ groupId group, s.get? groupId = some group → group.Sound

def MayManage (g : Group Id) (user : Id) : Prop :=
  g.getMemberRole ids user = .ok (some .owner) ∨ g.getMemberRole ids user = .ok (some .admin)

def Harmless (s : GroupStore Id) : Request Id → Prop
  | .create groupId ownerId name _ memberIds =>
    groupId ∉ s.keys → Group.validName (Text.Js.trim (name.getD "")) = true →
      ∀ users ∈ (memberIds.getD []).mapM ids.castRef, (ownerId :: users.reduceOption).Nodup
  | .update _ _ _ _ _ => True
  | .addMembers user id memberIds =>
    ∀ groupId ∈ ids.cast id, ∀ group ∈ s.get? groupId, group.NoNull → MayManage ids group user →
      none ∉ memberIds.getD [] →
      ∀ users ∈ ((memberIds.getD []).reduceOption.filter
          fun userId => userId ∉ group.users.map ids.toString).mapM ids.cast,
        (group.users ++ users).Nodup
  | .removeMember user id targetUserId =>
    ∀ groupId ∈ ids.cast id, ∀ group ∈ s.get? groupId, group.NoNull →
      targetUserId = ids.toString group.owner → user ≠ group.owner ∧ ¬MayManage ids group user

variable {ids}

open ExceptFold Eim.Group List

omit [DecidableEq Id] in
theorem orServerError_eq_ok {α : Type} {x : Except TypeError α} {a : α}
    : (orServerError x : Except (Response Id) α) = .ok a ↔ x = .ok a := by
  cases x with
  | error e => simp [orServerError, throw_eq_ok]
  | ok b => simp [orServerError, pure_eq_ok]

omit [DecidableEq Id] in
theorem orInvalid_eq_ok {α : Type} {x : Option α} {a : α}
    : (orInvalid x : Except (Response Id) α) = .ok a ↔ x = some a := by
  cases x with
  | none => simp [orInvalid, throw_eq_ok]
  | some b => simp [orInvalid, pure_eq_ok]

variable {s : GroupStore Id} {id : String} {groupId user : Id} {saved : Id × Group Id}

variable {group g : Group Id} {members : List (Member Id)} {targetUserId : String}
  {name : Option String} {memberIds : Option (List (Option String))}

theorem findById_eq_ok
    : findById ids s id = .ok (groupId, group)
      ↔ ids.cast id = some groupId ∧ s.get? groupId = some group := by
  unfold findById
  cases ids.cast id with
  | none => simp [throw_eq_ok]
  | some groupId' =>
    dsimp only
    rw [Option.some.injEq]
    cases hget : s.get? groupId' with
    | none =>
      rw [throw_eq_ok, false_iff]
      rintro ⟨rfl, h⟩
      cases hget.symm.trans h
    | some group' =>
      rw [pure_eq_ok, Prod.mk.injEq]
      constructor
      . rintro ⟨rfl, rfl⟩
        exact ⟨rfl, hget⟩
      . rintro ⟨rfl, h⟩
        exact ⟨rfl, Option.some.inj (hget.symm.trans h)⟩

section

omit [DecidableEq Id]

theorem checkRole_eq_ok
    : (checkRole role : Except (Response Id) Unit) = .ok u
      ↔ role = some .owner ∨ role = some .admin := by
  unfold checkRole
  rw [guard_eq_ok, pure_eq_ok]
  tauto

theorem memberText_eq_ok
    : memberText ids m = .ok text ↔ ∃ user, m.user = some user ∧ ids.toString user = text := by
  unfold memberText
  split
  . next user huser => simp [pure_eq_ok, huser]
  . next huser => simp [throw_eq_ok, huser]

theorem memberTexts_eq_ok
    : members.mapM (memberText ids) = .ok texts
      ↔ (∀ m ∈ members, m.user ≠ none)
          ∧ (members.filterMap Member.user).map ids.toString = texts := by
  induction members generalizing texts with
  | nil => simp [pure_eq_ok]
  | cons m members ih =>
    simp only [mapM_cons, bind_eq_ok, pure_eq_ok, memberText_eq_ok, ih, forall_mem_cons]
    cases huser : m.user with
    | none => simp
    | some user => simp [huser]

theorem withoutUser_eq_ok
    : withoutUser ids targetUserId members = .ok kept
      ↔ (∀ m ∈ members, m.user ≠ none)
          ∧ members.filter (fun m => m.user.map ids.toString ≠ some targetUserId) = kept := by
  induction members generalizing kept with
  | nil => simp [withoutUser, pure_eq_ok]
  | cons m members ih =>
    simp only [withoutUser, bind_eq_ok, pure_eq_ok, memberText_eq_ok, ih, forall_mem_cons]
    cases huser : m.user with
    | none => simp
    | some user => simp [filter_cons, huser]

theorem newMemberIds_eq_ok {memberIds : List (Option String)}
    : newMemberIds existing memberIds = .ok new
      ↔ none ∉ memberIds
          ∧ memberIds.reduceOption.filter (fun userId => userId ∉ existing) = new := by
  induction memberIds generalizing new with
  | nil => simp [newMemberIds, pure_eq_ok, reduceOption]
  | cons memberId memberIds ih =>
    cases memberId with
    | none => simp [newMemberIds, throw_eq_ok]
    | some userId =>
      simp only [newMemberIds, bind_eq_ok, pure_eq_ok, ih]
      simp [filter_cons, reduceOption_cons_of_some]

theorem getMemberRole_of_noNull (h : g.NoNull) (user : Id)
    : ∃ role, g.getMemberRole ids user = .ok role := by
  unfold getMemberRole NoNull at *
  generalize g.members = members at h
  suffices hfind : ∃ member, (members.findM? fun m => do
      return (← memberText ids m) == ids.toString user) = .ok member by
    obtain ⟨member, hfind⟩ := hfind
    exact ⟨member.map Member.role, by rw [hfind]; rfl⟩
  induction members with
  | nil => exact ⟨none, rfl⟩
  | cons m members ih =>
    rw [forall_mem_cons] at h
    obtain ⟨user', huser⟩ := Option.ne_none_iff_exists'.mp h.1
    have htext : memberText ids m = .ok (ids.toString user') :=
      memberText_eq_ok.mpr ⟨user', huser, rfl⟩
    unfold findM?
    rw [htext]
    simp only [bind, Except.bind, pure, Except.pure]
    split
    . exact ⟨some m, rfl⟩
    . exact ih h.2

end

theorem sound_step_iff (h : Sound s) (r : Request Id)
    : Sound (step ids s r) ↔ ∀ groupId group, handle ids s r = .ok (groupId, group) → group.Sound := by
  unfold step
  split
  . next groupId group hok =>
    rw [hok]
    constructor
    . intro hsound groupId' group' heq
      injection heq with heq
      injection heq with hid hgroup
      rw [← hgroup]
      apply hsound groupId
      simp
    . intro hgroup groupId' group' hget
      rcases OrderedMap.get?_set_eq_some hget with ⟨rfl, rfl⟩ | ⟨_, hget⟩
      . apply hgroup groupId' _ rfl
      . apply h groupId' group' hget
  . next e herror =>
    rw [herror]
    simp [h]

theorem create_eq_ok {ownerId : Id} {description : Option String}
    : create ids s groupId ownerId name description memberIds = .ok saved
      ↔ ∃ users, (memberIds.getD []).mapM ids.castRef = some users
          ∧ groupId ∉ s.keys ∧ validName (Text.Js.trim (name.getD "")) = true
          ∧ (groupId,
              ⟨Text.Js.trim (name.getD ""), some (Text.Js.trim (description.getD "")), some "", ownerId,
                ⟨some ownerId, .owner⟩ :: users.map fun user => ⟨user, .member⟩⟩) = saved := by
  have hname : name.getD "" = "" → Group.validName (Text.Js.trim (name.getD "")) = false := by
    intro hempty
    rw [hempty]
    rfl
  unfold create
  simp only [bind_eq_ok, guard_eq_ok, pure_eq_ok, orInvalid_eq_ok, Bool.or_eq_true, not_or,
    OrderedMap.has_iff, Bool.not_eq_true', Bool.not_eq_false]
  constructor
  . rintro ⟨_, users, husers, ⟨hvalid, hnew⟩, hsaved⟩
    exact ⟨users, husers, hnew, hvalid, hsaved⟩
  . rintro ⟨users, husers, hnew, hvalid, hsaved⟩
    refine ⟨?_, users, husers, ⟨hvalid, hnew⟩, hsaved⟩
    intro hempty
    rw [hname hempty] at hvalid
    contradiction

theorem sound_create_iff (s : GroupStore Id) (groupId ownerId : Id) (name description : Option String)
    (memberIds : Option (List (Option String)))
    : (∀ groupId' group, create ids s groupId ownerId name description memberIds = .ok (groupId', group) →
        group.Sound)
      ↔ Harmless ids s (.create groupId ownerId name description memberIds) := by
  have husers (users : List (Option Id))
      : (users.map fun user => (⟨user, .member⟩ : Member Id)).filterMap Member.user
          = users.reduceOption := by
    simp [filterMap_map, reduceOption]
  constructor
  . intro h hnew hvalid users hcast
    have hsound := h _ _ (create_eq_ok.mpr ⟨users, hcast, hnew, hvalid, rfl⟩)
    have := hsound.once
    simpa [Group.users, husers] using this
  . intro h groupId' group hcreate
    obtain ⟨users, hcast, hnew, hvalid, hsaved⟩ := create_eq_ok.mp hcreate
    injection hsaved with _ hgroup
    rw [← hgroup]
    constructor
    . have := h hnew hvalid users hcast
      simpa [Group.users, husers] using this
    . exact mem_cons_self

theorem sound_update (h : Sound s) {description avatar : Option (Option String)}
    (hupdate : update ids s user id name description avatar = .ok (groupId, group))
    : group.Sound := by
  unfold update at hupdate
  simp only [bind_eq_ok, guard_eq_ok, pure_eq_ok, Prod.exists, findById_eq_ok] at hupdate
  obtain ⟨_, old, ⟨_, hget⟩, _, _, _, _, _, hsaved⟩ := hupdate
  injection hsaved with _ hgroup
  rw [← hgroup]
  have hold := h _ old hget
  exact ⟨hold.once, hold.owned⟩

omit [DecidableEq Id] in
theorem mayManage_iff
    : MayManage ids g user ↔ ∃ role, g.getMemberRole ids user = .ok role
      ∧ (role = some .owner ∨ role = some .admin) := by
  simp only [MayManage, and_or_left, exists_or, exists_eq_right]

theorem addMembers_eq_ok
    : addMembers ids s user id memberIds = .ok saved
        ↔ ∃ groupId group users, ids.cast id = some groupId ∧ s.get? groupId = some group
            ∧ group.NoNull ∧ MayManage ids group user ∧ none ∉ memberIds.getD []
            ∧ ((memberIds.getD []).reduceOption.filter
                fun userId => userId ∉ group.users.map ids.toString).mapM ids.cast = some users
            ∧ (groupId,
                { group with
                  members := group.members ++ users.map fun user => ⟨some user, .member⟩ }) = saved := by
  unfold addMembers
  simp only [bind_eq_ok, pure_eq_ok, Prod.exists, findById_eq_ok, orServerError_eq_ok, orInvalid_eq_ok,
    checkRole_eq_ok, memberTexts_eq_ok, newMemberIds_eq_ok, mayManage_iff]
  constructor
  . rintro ⟨groupId, group, ⟨hid, hget⟩, role, hrole, _, hmay, _, ⟨hnull, rfl⟩, _, ⟨hnew, rfl⟩, users, hcast,
      hsaved⟩
    exact ⟨groupId, group, users, hid, hget, hnull, ⟨role, hrole, hmay⟩, hnew, hcast, hsaved⟩
  . rintro ⟨groupId, group, users, hid, hget, hnull, ⟨role, hrole, hmay⟩, hnew, hcast, hsaved⟩
    exact ⟨groupId, group, ⟨hid, hget⟩, role, hrole, (), hmay, _, ⟨hnull, rfl⟩, _, ⟨hnew, rfl⟩, users, hcast,
      hsaved⟩

theorem sound_addMembers_iff (h : Sound s) (user : Id) (id : String)
    (memberIds : Option (List (Option String)))
    : (∀ groupId group, addMembers ids s user id memberIds = .ok (groupId, group) → group.Sound)
      ↔ Harmless ids s (.addMembers user id memberIds) := by
  have husers (group : Group Id) (users : List Id)
      : Group.users
            { group with members := group.members ++ users.map fun user => ⟨some user, .member⟩ }
          = group.users ++ users := by
    simp [Group.users, filterMap_map]
  constructor
  . intro hsound groupId hid group hget hnull hmay hnew users hcast
    rw [← husers]
    apply Sound.once
    apply hsound groupId
    exact addMembers_eq_ok.mpr ⟨groupId, group, users, hid, hget, hnull, hmay, hnew, hcast, rfl⟩
  . intro hok groupId' group' hadd
    obtain ⟨groupId, group, users, hid, hget, hnull, hmay, hnew, hcast, hsaved⟩ := addMembers_eq_ok.mp hadd
    injection hsaved with _ hgroup
    rw [← hgroup]
    constructor
    . rw [husers]
      apply hok groupId hid group hget hnull hmay hnew users hcast
    . apply mem_append_left
      exact (h groupId group hget).owned

theorem removeMember_eq_ok
    : removeMember ids s user id targetUserId = .ok saved
        ↔ ∃ groupId group, ids.cast id = some groupId ∧ s.get? groupId = some group ∧ group.NoNull
            ∧ (targetUserId = ids.toString user ∨ MayManage ids group user)
            ∧ (groupId,
                { group with
                  members := group.members.filter
                    fun m => m.user.map ids.toString ≠ some targetUserId }) = saved := by
  unfold removeMember
  simp only [bind_eq_ok, pure_eq_ok, ite_eq_iff, Prod.exists, findById_eq_ok, orServerError_eq_ok,
    withoutUser_eq_ok, checkRole_eq_ok, mayManage_iff]
  constructor
  . rintro ⟨groupId, group, ⟨hid, hget⟩, role, hrole, ⟨hself, _, ⟨hnull, rfl⟩, hsaved⟩ |
      ⟨_, _, hmay, _, ⟨hnull, rfl⟩, hsaved⟩⟩
    . exact ⟨groupId, group, hid, hget, hnull, Or.inl hself, hsaved⟩
    . exact ⟨groupId, group, hid, hget, hnull, Or.inr ⟨role, hrole, hmay⟩, hsaved⟩
  . rintro ⟨groupId, group, hid, hget, hnull, hallowed, hsaved⟩
    obtain ⟨role, hrole⟩ := getMemberRole_of_noNull hnull user
    refine ⟨groupId, group, ⟨hid, hget⟩, role, hrole, ?_⟩
    by_cases hself : targetUserId = ids.toString user
    . exact Or.inl ⟨hself, _, ⟨hnull, rfl⟩, hsaved⟩
    . obtain ⟨role', hrole', hmay⟩ := hallowed.resolve_left hself
      cases hrole.symm.trans hrole'
      exact Or.inr ⟨hself, (), hmay, _, ⟨hnull, rfl⟩, hsaved⟩

theorem sound_removeMember_iff (h : Sound s) (user : Id) (id targetUserId : String)
    : (∀ groupId group, removeMember ids s user id targetUserId = .ok (groupId, group) → group.Sound)
      ↔ Harmless ids s (.removeMember user id targetUserId) := by
  constructor
  . intro hsound groupId hid group hget hnull htarget
    have hnot : ¬(targetUserId = ids.toString user ∨ MayManage ids group user) := by
      intro hallowed
      have := (hsound _ _ (removeMember_eq_ok.mpr ⟨groupId, group, hid, hget, hnull, hallowed, rfl⟩)).owned
      simp [htarget] at this
    rw [htarget, ids.toString_inj, not_or] at hnot
    exact ⟨Ne.symm hnot.1, hnot.2⟩
  . intro hok groupId' group' hremove
    obtain ⟨groupId, group, hid, hget, hnull, hallowed, hsaved⟩ := removeMember_eq_ok.mp hremove
    injection hsaved with _ hgroup
    rw [← hgroup]
    have hold := h groupId group hget
    constructor
    . apply Nodup.sublist _ hold.once
      exact filter_sublist.filterMap Member.user
    . rw [mem_filter]
      refine ⟨hold.owned, ?_⟩
      rw [decide_eq_true_eq, Option.map_some, Ne, Option.some.injEq]
      intro htarget
      have := hok groupId hid group hget hnull htarget.symm
      rw [← htarget, ids.toString_inj] at hallowed
      exact hallowed.elim (fun heq => this.1 heq.symm) this.2

theorem sound_step_iff_harmless (h : Sound s) (r : Request Id)
    : Sound (step ids s r) ↔ Harmless ids s r := by
  rw [sound_step_iff h]
  cases r with
  | create groupId ownerId name description memberIds => apply sound_create_iff
  | update user id name description avatar =>
    apply iff_of_true _ trivial
    intro groupId group hupdate
    apply sound_update h hupdate
  | addMembers user id memberIds => apply sound_addMembers_iff h
  | removeMember user id targetUserId => apply sound_removeMember_iff h

theorem always_sound_iff_harmless (ids : ObjectIds Id) (requests : List (Request Id))
    : Run.Always (step ids) Sound .empty requests ↔ Run.Along (step ids) (Harmless ids) .empty requests := by
  apply Run.always_iff_along Sound (fun _ => True) _ _ _ _ (by simp)
  . intro s h
    exact h
  . intro s r h _ hr
    exact (sound_step_iff_harmless h r).mpr hr
  . intro s r h _ hnot hsound
    apply hnot
    exact (sound_step_iff_harmless h r).mp hsound
  . intro groupId group hget
    simp at hget

theorem not_always_sound_twice_and_left
    : ¬Run.Always (step .plain) Sound .empty
        [.create "g" "ann" (some "team") none (some [some "bob", some "bob"])]
      ∧ ¬Run.Always (step .plain) Sound .empty
        [.create "g" "ann" (some "team") none none, .removeMember "ann" "g" "ann"] := by
  constructor
  . intro h
    have := (h.last "g" _ rfl).once
    revert this
    decide
  . intro h
    have := (h.last "g" _ rfl).owned
    revert this
    decide

end GroupStore

end Eim
