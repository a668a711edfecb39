import AppSuite.Eim.Groups

/-!
This module contains the stored messages and who has read them.
-/

namespace Eim

structure Chat (Id : Type) where
  groups : GroupStore Id
  messages : List (Message Id)

namespace Chat

inductive Event (Id : Type) where
  | request (request : GroupStore.Request Id)
  | groupMessage (sender : Id) (groupId content : Option String)
  | privateMessage (sender : Id) (receiverId content : Option String)
  | markRead (user : Id) (targetId : Option String) (isGroup : Bool)
  | getGroup (user : Id) (groupId : String)

variable {Id : Type} [DecidableEq Id] (ids : ObjectIds Id)

def init : Chat Id := ⟨.empty, []⟩

variable (s : Chat Id)

def findGroup (groupId : Option String) : Option (Group Id) := do
  let id ← ids.cast (← groupId)
  s.groups.get? id

def newGroupMessage (sender : Id) (groupId content : Option String) : Option (Message Id) :=
  match s.findGroup ids groupId with
  | none => none
  | some group =>
    match group.isMember ids sender with
    | .ok true => Message.save ids sender none groupId content
    | .ok false => none
    | .error _ => none

def sent : Event Id → Option (Message Id)
  | .groupMessage sender groupId content => s.newGroupMessage ids sender groupId content
  | .privateMessage sender receiverId content => Message.save ids sender receiverId none content
  | _ => none

variable (messages : List (Message Id))

def updateMany (filter : Message Id → Bool) (update : Message Id → Message Id) : List (Message Id) :=
  messages.map fun m => if filter m then update m else m

variable (user : Id) (m : Message Id)

-- `{ $set: { isRead: true }, $addToSet: { readBy: user } }`
def read : Message Id :=
  { m with isRead := true, readBy := m.readBy.add user }

-- `{ $addToSet: { readBy: user } }`
def seen : Message Id := { m with readBy := m.readBy.add user }

def markRead (targetId : Option String) (isGroup : Bool) : List (Message Id) :=
  match ids.castRef targetId with
  | none => messages
  | some target =>
    if isGroup then
      updateMany messages (fun m => m.group = target && !m.isRead && m.sender ≠ user) (read user)
    else
      updateMany messages (fun m => some m.sender = target && m.receiver = some user && !m.isRead)
        (read user)

def getGroup (groupId : String) : List (Message Id) :=
  match ids.cast groupId with
  | none => messages
  | some group =>
    updateMany messages (fun m => m.group = some group && !m.isRead && m.sender ≠ user) (seen user)

def step (s : Chat Id) (e : Event Id) : Chat Id :=
  match e with
  | .request request => { s with groups := s.groups.step ids request }
  | .groupMessage _ _ _ => { s with messages := s.messages ++ (s.sent ids e).toList }
  | .privateMessage _ _ _ => { s with messages := s.messages ++ (s.sent ids e).toList }
  | .markRead user targetId isGroup =>
    { s with messages := markRead ids s.messages user targetId isGroup }
  | .getGroup user groupId => { s with messages := getGroup ids s.messages user groupId }

def run (events : List (Event Id)) : Chat Id := events.foldl (step ids) s

def AllRead (user group : Id) (s : Chat Id) : Prop :=
  ∀ m ∈ s.messages, m.group = some group → m.sender ≠ user → user ∈ m.readBy.elems

def ReadsFirst (sender user group : Id) : List (Event Id) → Prop
  | [] => True
  | .markRead reader targetId true :: events =>
    if ids.castRef targetId = some (some group) ∧ reader ≠ sender then
      reader = user
    else
      ReadsFirst sender user group events
  | .getGroup reader groupId :: events =>
    ids.cast groupId = some group ∧ reader = user ∨ ReadsFirst sender user group events
  | _ :: events => ReadsFirst sender user group events

def AlwaysFirst (user group : Id) (s : Chat Id) : List (Event Id) → Prop
  | [] => True
  | e :: events =>
    (∀ m ∈ s.sent ids e, m.group = some group → m.sender ≠ user →
      ReadsFirst ids m.sender user group events)
      ∧ AlwaysFirst user group (s.step ids e) events

instance ReadsFirst.decidable (sender user group : Id) (events : List (Event Id))
    : Decidable (ReadsFirst ids sender user group events) :=
  match events with
  | [] => isTrue trivial
  | e :: events => by
    have := ReadsFirst.decidable sender user group events
    rcases e with _ | _ | _ | ⟨_, _, _ | _⟩ | _ <;> unfold ReadsFirst <;> infer_instance

instance AlwaysFirst.decidable (user group : Id) (s : Chat Id) (events : List (Event Id))
    : Decidable (AlwaysFirst ids user group s events) :=
  match events with
  | [] => isTrue trivial
  | e :: events =>
    have := AlwaysFirst.decidable user group (s.step ids e) events
    inferInstanceAs (Decidable ((∀ m ∈ s.sent ids e, _) ∧ _))

def effect (e : Event Id) (m : Message Id) : Message Id :=
  match e with
  | .markRead user targetId true =>
    if some m.group = ids.castRef targetId ∧ m.isRead = false ∧ m.sender ≠ user then read user m else m
  | .markRead user targetId false =>
    if some (some m.sender) = ids.castRef targetId ∧ m.receiver = some user ∧ m.isRead = false then
      read user m
    else
      m
  | .getGroup user groupId =>
    if some m.group = (ids.cast groupId).map some ∧ m.isRead = false ∧ m.sender ≠ user then
      seen user m
    else
      m
  | _ => m

def effects (events : List (Event Id)) (m : Message Id) : Message Id :=
  events.foldl (fun m e => effect ids e m) m

variable {ids}

theorem messages_step (e : Event Id)
    : (s.step ids e).messages = s.messages.map (effect ids e) ++ (s.sent ids e).toList := by
  have hkept (h : ∀ m, effect ids e m = m) : s.messages.map (effect ids e) = s.messages :=
    List.map_id'' h s.messages
  cases e with
  | request request =>
    rw [hkept (fun _ => rfl)]
    simp [step, sent]
  | groupMessage sender groupId content | privateMessage sender receiverId content =>
    rw [hkept (fun _ => rfl)]
    rfl
  | markRead user targetId isGroup =>
    simp only [step, sent, Option.toList_none, List.append_nil, markRead]
    cases hcast : ids.castRef targetId with
    | none =>
      rw [hkept]
      intro m
      cases isGroup <;> simp [effect, hcast]
    | some target =>
      dsimp only
      split
      all_goals
        apply List.map_congr_left
        intro m _
        simp [*, effect, and_assoc]
  | getGroup user groupId =>
    simp only [step, sent, Option.toList_none, List.append_nil, getGroup]
    cases hcast : ids.cast groupId with
    | none =>
      rw [hkept]
      intro m
      simp [effect, hcast]
    | some target =>
      apply List.map_congr_left
      intro m _
      simp [effect, hcast, and_assoc]

variable {m : Message Id}

theorem effect_of_isRead (h : m.isRead = true) (e : Event Id) : effect ids e m = m := by
  unfold effect
  split <;> simp [h]

theorem effects_of_isRead (h : m.isRead = true) (events : List (Event Id)) : effects ids events m = m := by
  induction events with
  | nil => rfl
  | cons e events ih =>
    unfold effects at *
    rw [List.foldl_cons, effect_of_isRead h]
    exact ih

section Unread

variable {group : Id} {m : Message Id}

theorem effect_markRead_private (hreceiver : m.receiver = none) (reader : Id) (targetId : Option String)
    : effect ids (.markRead reader targetId false) m = m := by
  simp [effect, hreceiver]

theorem effect_markRead (hgroup : m.group = some group) (hread : m.isRead = false) (reader : Id)
    (targetId : Option String)
    : effect ids (.markRead reader targetId true) m
      = if ids.castRef targetId = some (some group) ∧ reader ≠ m.sender then read reader m else m := by
  unfold effect
  rw [hgroup]
  apply if_congr _ rfl rfl
  simp [hread, eq_comm]

theorem effect_getGroup (hgroup : m.group = some group) (hread : m.isRead = false) (reader : Id)
    (groupId : String)
    : effect ids (.getGroup reader groupId) m
      = if ids.cast groupId = some group ∧ reader ≠ m.sender then seen reader m else m := by
  unfold effect
  rw [hgroup]
  apply if_congr _ rfl rfl
  cases ids.cast groupId with
  | none => simp
  | some _ => simp [hread, eq_comm]

theorem mem_readBy_iff {user : Id}
    (htarget : ids.castRef targetId = some (some group)) (hgroup : m.group = some group)
    (hreceiver : m.receiver = none) (hsender : m.sender ≠ user) (hread : m.isRead = false)
    (events : List (Event Id))
    : user ∈ (effects ids (events ++ [.markRead user targetId true]) m).readBy.elems
      ↔ user ∈ m.readBy.elems ∨ ReadsFirst ids m.sender user group events := by
  induction events generalizing m with
  | nil => simp [effects, effect, htarget, hgroup, hread, hsender, read, OrderedSet.mem_add, ReadsFirst]
  | cons e events ih =>
    rw [List.cons_append]
    change user ∈ (effects ids _ (effect ids e m)).readBy.elems ↔ _
    cases e with
    | request request => apply ih hgroup hreceiver hsender hread
    | groupMessage sender groupId content => apply ih hgroup hreceiver hsender hread
    | privateMessage sender receiverId content => apply ih hgroup hreceiver hsender hread
    | markRead reader targetId' isGroup =>
      cases isGroup with
      | false =>
        rw [effect_markRead_private hreceiver]
        apply ih hgroup hreceiver hsender hread
      | true =>
        rw [effect_markRead hgroup hread]
        unfold ReadsFirst
        split
        . rw [effects_of_isRead (by rfl)]
          simp [read, OrderedSet.mem_add, eq_comm]
        . apply ih hgroup hreceiver hsender hread
    | getGroup reader groupId =>
      rw [effect_getGroup hgroup hread]
      unfold ReadsFirst
      split
      . next hfetch =>
        have hseen := ih (m := seen reader m) hgroup hreceiver hsender hread
        rw [hseen]
        simp [seen, OrderedSet.mem_add, hfetch.1, eq_comm, or_assoc]
      . next hfetch =>
        have hnot : ¬(ids.cast groupId = some group ∧ reader = user) := by
          rintro ⟨hcast, rfl⟩
          exact hfetch ⟨hcast, hsender.symm⟩
        rw [ih hgroup hreceiver hsender hread]
        simp [hnot]

end Unread

theorem sent_new {s : Chat Id} (h : s.sent ids e = some m)
    : m.isRead = false ∧ m.readBy.elems = [] ∧ (m.receiver = none ∨ m.group = none) := by
  have hgroup {sender : Id} {groupId content : Option String}
      (h : Message.save ids sender none groupId content = some m)
      : m.isRead = false ∧ m.readBy.elems = [] ∧ (m.receiver = none ∨ m.group = none) := by
    have hnew := Message.new_of_save ids h
    have hcast := (Message.castRef_of_save ids h).1
    injection hcast with hcast
    exact ⟨hnew.1, hnew.2, Or.inl hcast.symm⟩
  cases e with
  | request request => contradiction
  | groupMessage sender groupId content =>
    unfold sent newGroupMessage at h
    dsimp only at h
    split at h
    . contradiction
    . split at h
      . exact hgroup h
      . contradiction
      . contradiction
  | privateMessage sender receiverId content =>
    have hnew := Message.new_of_save ids h
    have hcast := (Message.castRef_of_save ids h).2
    injection hcast with hcast
    exact ⟨hnew.1, hnew.2, Or.inr hcast.symm⟩
  | markRead user targetId isGroup | getGroup user groupId => contradiction

theorem effect_group_sender (e : Event Id) (m : Message Id)
    : (effect ids e m).group = m.group ∧ (effect ids e m).sender = m.sender := by
  unfold effect
  split <;> first | split | skip
  all_goals exact ⟨rfl, rfl⟩

theorem allRead_run_iff {user group : Id}
    (htarget : ids.castRef targetId = some (some group)) (s : Chat Id) (events : List (Event Id))
    : AllRead user group (s.run ids (events ++ [.markRead user targetId true]))
      ↔ (∀ m ∈ s.messages, m.group = some group → m.sender ≠ user →
            user ∈ (effects ids (events ++ [.markRead user targetId true]) m).readBy.elems)
          ∧ AlwaysFirst ids user group s events := by
  induction events generalizing s with
  | nil =>
    have hstep : s.run ids ([] ++ [.markRead user targetId true])
        = s.step ids (.markRead user targetId true) := rfl
    unfold AllRead
    rw [hstep, messages_step]
    simp [sent, AlwaysFirst, effect_group_sender]
    rfl
  | cons e events ih =>
    have hstep : s.run ids (e :: events ++ [.markRead user targetId true])
        = (s.step ids e).run ids (events ++ [.markRead user targetId true]) := rfl
    rw [hstep, ih, messages_step, AlwaysFirst, ← and_assoc]
    apply and_congr_left
    intro _
    simp only [List.mem_append, or_imp, forall_and, List.forall_mem_map, effect_group_sender, Option.mem_toList]
    apply and_congr
    . rfl
    . apply forall_congr'
      intro m
      apply forall₃_congr
      intro hsent hgroup hsender
      obtain ⟨hread, hreadBy, hreceiver⟩ := sent_new hsent
      rw [mem_readBy_iff htarget hgroup _ hsender hread, hreadBy]
      . simp
      . exact hreceiver.resolve_right (by simp [hgroup])

theorem allRead_iff_alwaysFirst {targetId : String} {group : Id} (h : ids.cast targetId = some group)
    (user : Id) (events : List (Event Id))
    : AllRead user group (run ids init (events ++ [.markRead user (some targetId) true]))
      ↔ AlwaysFirst ids user group init events := by
  rw [allRead_run_iff (by simp [ObjectIds.castRef, h])]
  simp [init]

theorem not_allRead_secondReader
    : ¬AllRead "cid" "g"
      (run .plain init
        [.request (.create "g" "ann" (some "team") none (some [some "bob", some "cid"])),
          .groupMessage "ann" (some "g") (some "hello"), .markRead "bob" (some "g") true,
          .markRead "cid" (some "g") true]) := by
  intro h
  have := h ⟨"ann", none, some "g", "hello", .text, ⟨["bob"], by decide⟩, true⟩ (List.Mem.head _) rfl
    (by decide)
  revert this
  decide

theorem allRead_iff_alwaysFirst_fetched
    : AllRead "cid" "g"
      (run .plain init
        ([.request (.create "g" "ann" (some "team") none (some [some "bob", some "cid"])),
          .groupMessage "ann" (some "g") (some "hello"), .getGroup "cid" "g",
          .markRead "bob" (some "g") true] ++ [.markRead "cid" (some "g") true])) := by
  rw [allRead_iff_alwaysFirst rfl]
  decide

end Chat

end Eim
