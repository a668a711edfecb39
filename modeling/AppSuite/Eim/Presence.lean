import AppSuite.Eim.Groups

/-!
This module contains the map from users to sockets, over every interleaving of the socket events.
-/

namespace Eim

open List OrderedMap

-- The handlers of a socket are registered only after the `await` of its connection handler.
structure Socket (Id : Type) where
  id : Nat
  user : Id
  registered : Bool

structure Forwarding (Id : Type) where
  message : Message Id
  liveSockets : List Nat
  receiverSocketId : Option Nat

structure Presence (Id : Type) where
  connectedUsers : OrderedMap String Nat
  sockets : List (Socket Id)
  nextSocketId : Nat
  forwardings : List (Forwarding Id)

namespace Presence

inductive Event (Id : Type) where
  | connection (user : Id)
  | resume (socketId : Nat)
  | disconnect (socketId : Nat)
  | privateMessage (sender : Id) (receiverId content : Option String)

variable {Id : Type} [DecidableEq Id]

def init : Presence Id := ⟨.empty, [], 0, []⟩

def socketsOf (s : Presence Id) (user : Id) : List (Socket Id) :=
  s.sockets.filter fun k => k.user = user

variable (ids : ObjectIds Id) (s : Presence Id)

def connection (user : Id) : Presence Id :=
  { s with
    connectedUsers := s.connectedUsers.set (ids.toString user) s.nextSocketId
    sockets := s.sockets ++ [⟨s.nextSocketId, user, false⟩]
    nextSocketId := s.nextSocketId + 1 }

def resume (socketId : Nat) : Presence Id :=
  { s with
    sockets := s.sockets.map fun k => if k.id = socketId then { k with registered := true } else k }

def disconnect (socketId : Nat) : Presence Id :=
  match s.sockets.find? fun k => k.id = socketId with
  | none => s
  | some k =>
    { s with
      connectedUsers :=
        if k.registered then s.connectedUsers.delete (ids.toString k.user) else s.connectedUsers
      sockets := s.sockets.filter fun j => j.id ≠ socketId }

def privateMessage (sender : Id) (receiverId content : Option String) : Presence Id :=
  match Message.save ids sender receiverId none content with
  | none => s
  | some message =>
    { s with
      forwardings := s.forwardings
        ++ [⟨message, message.receiver.toList.flatMap fun user => (s.socketsOf user).map Socket.id,
            receiverId.bind s.connectedUsers.get?⟩] }

def step : Event Id → Presence Id
  | .connection user => s.connection ids user
  | .resume socketId => s.resume socketId
  | .disconnect socketId => s.disconnect ids socketId
  | .privateMessage sender receiverId content => s.privateMessage ids sender receiverId content

structure Sound (s : Presence Id) : Prop where
  present : ∀ user, ids.toString user ∈ s.connectedUsers.keys ↔ ∃ k ∈ s.sockets, k.user = user
  stored : ∀ userId socketId, s.connectedUsers.get? userId = some socketId →
    ∃ k ∈ s.sockets, k.id = socketId ∧ ids.toString k.user = userId
  forwarded : ∀ f ∈ s.forwardings, f.liveSockets ≠ [] →
    ∃ socketId ∈ f.liveSockets, f.receiverSocketId = some socketId

def Harmless : Event Id → Prop
  | .disconnect socketId => ∀ k ∈ s.sockets, k.id = socketId →
    if k.registered then
      ∀ j ∈ s.sockets, j.user = k.user → j.id = socketId
    else
      s.connectedUsers.get? (ids.toString k.user) ≠ some socketId
  | .privateMessage sender receiverId content =>
    ∀ message ∈ Message.save ids sender receiverId none content, ∀ user ∈ message.receiver,
      s.socketsOf user ≠ [] → receiverId = some (ids.toString user)
  | _ => True

structure Inv (s : Presence Id) : Prop extends Sound ids s where
  fresh : ∀ k ∈ s.sockets, k.id < s.nextSocketId
  unique : ∀ j ∈ s.sockets, ∀ k ∈ s.sockets, j.id = k.id → j = k

section

omit [DecidableEq Id]

theorem inv_init : Inv ids (init : Presence Id) := by
  refine ⟨⟨?_, ?_, ?_⟩, ?_, ?_⟩
  all_goals simp [init, OrderedMap.keys, empty, get?, get?.go]

variable {ids} {s : Presence Id} {socketId : Nat} {k : Socket Id}

theorem inv_connection (h : Inv ids s) (user : Id) : Inv ids (s.connection ids user) := by
  refine ⟨⟨?_, ?_, h.forwarded⟩, ?_, ?_⟩
  . intro user'
    unfold connection
    rw [mem_keys_set, ids.toString_inj, h.present]
    simp only [mem_append, mem_singleton]
    constructor
    . rintro (heq | ⟨k, hk, huser⟩)
      . exact ⟨_, Or.inr rfl, heq.symm⟩
      . exact ⟨k, Or.inl hk, huser⟩
    . rintro ⟨k, hk | hk, huser⟩
      . exact Or.inr ⟨k, hk, huser⟩
      . rw [hk] at huser
        exact Or.inl huser.symm
  . intro userId socketId hget
    unfold connection at hget ⊢
    simp only [mem_append, mem_singleton]
    rcases get?_set_eq_some hget with ⟨rfl, rfl⟩ | ⟨_, hget⟩
    . exact ⟨_, Or.inr rfl, rfl, rfl⟩
    . have ⟨k, hk, hid⟩ := h.stored userId socketId hget
      exact ⟨k, Or.inl hk, hid⟩
  . intro k hk
    simp only [connection, mem_append, mem_singleton] at hk ⊢
    cases hk with
    | inl hk =>
      have := h.fresh k hk
      omega
    | inr hk =>
      rw [hk]
      simp
  . intro j hj k hk heq
    simp only [connection, mem_append, mem_singleton] at hj hk
    rcases hj with hj | hj <;> rcases hk with hk | hk
    . exact h.unique j hj k hk heq
    . have := h.fresh j hj
      rw [hk] at heq
      dsimp only at heq
      omega
    . have := h.fresh k hk
      rw [hj] at heq
      dsimp only at heq
      omega
    . rw [hj, hk]

theorem exists_mem_resume {P : Nat → Id → Prop}
    : (∃ k ∈ (s.resume socketId).sockets, P k.id k.user) ↔ ∃ k ∈ s.sockets, P k.id k.user := by
  simp only [resume, mem_map, exists_exists_and_eq_and]
  have (k : Socket Id) :
      P (if k.id = socketId then { k with registered := true } else k).id
        (if k.id = socketId then { k with registered := true } else k).user ↔ P k.id k.user := by
    split <;> rfl
  simp [this]

theorem inv_resume (h : Inv ids s) (socketId : Nat) : Inv ids (s.resume socketId) := by
  refine ⟨⟨?_, ?_, h.forwarded⟩, ?_, ?_⟩
  . intro user
    rw [exists_mem_resume (P := fun _ u => u = user)]
    apply h.present
  . intro userId id hget
    rw [exists_mem_resume (P := fun i u => i = id ∧ ids.toString u = userId)]
    apply h.stored
    exact hget
  . intro k hk
    have ⟨j, hj, heq⟩ := (exists_mem_resume (P := fun i _ => i = k.id)).mp ⟨k, hk, rfl⟩
    rw [← heq]
    apply h.fresh
    assumption
  . intro j hj k hk heq
    simp only [resume, mem_map] at hj hk
    obtain ⟨j', hj', rfl⟩ := hj
    obtain ⟨k', hk', rfl⟩ := hk
    have : j'.id = k'.id := by
      split at heq <;> split at heq <;> exact heq
    rw [h.unique j' hj' k' hk' this]

theorem disconnect_eq_self (h : ∀ k ∈ s.sockets, k.id ≠ socketId) : s.disconnect ids socketId = s := by
  have : (s.sockets.find? fun k => k.id = socketId) = none := by
    simpa using h
  unfold disconnect
  rw [this]

theorem disconnect_eq (h : Inv ids s) (hk : k ∈ s.sockets)
    : s.disconnect ids k.id =
      { s with
        connectedUsers :=
          if k.registered then s.connectedUsers.delete (ids.toString k.user) else s.connectedUsers
        sockets := s.sockets.filter fun j => j.id ≠ k.id } := by
  unfold disconnect
  cases hfind : s.sockets.find? fun j => j.id = k.id with
  | none =>
    have := find?_eq_none.mp hfind k hk
    simp at this
  | some j =>
    have hid := find?_some hfind
    simp only [decide_eq_true_eq] at hid
    rw [h.unique j (mem_of_find?_eq_some hfind) k hk hid]

theorem inv_of_sound_disconnect (h : Inv ids s) (hsound : Sound ids (s.disconnect ids socketId))
    : Inv ids (s.disconnect ids socketId) := by
  have hsub : ∀ k ∈ (s.disconnect ids socketId).sockets, k ∈ s.sockets := by
    unfold disconnect
    split
    . simp
    . simp only [List.mem_filter]
      tauto
  have hnext : (s.disconnect ids socketId).nextSocketId = s.nextSocketId := by
    unfold disconnect
    split <;> rfl
  refine ⟨hsound, ?_, ?_⟩
  . intro k hk
    rw [hnext]
    apply h.fresh
    apply hsub
    assumption
  . intro j hj k hk
    apply h.unique j (hsub j hj) k (hsub k hk)

theorem stored_filter (h : Inv ids s) (hk : k ∈ s.sockets)
    (hget : s.connectedUsers.get? userId = some socketId)
    (hother : userId = ids.toString k.user → socketId ≠ k.id)
    : ∃ j ∈ s.sockets.filter (fun j => j.id ≠ k.id), j.id = socketId ∧ ids.toString j.user = userId := by
  have ⟨j, hj, hid, huser⟩ := h.stored userId socketId hget
  refine ⟨j, ?_, hid, huser⟩
  simp only [List.mem_filter, hj, decide_eq_true_eq, true_and]
  intro hsame
  apply hother _ (hid.symm.trans hsame)
  rw [← huser, h.unique j hj k hk hsame]

theorem sound_disconnect_registered (h : Inv ids s) (hk : k ∈ s.sockets) (hreg : k.registered = true)
    : Sound ids (s.disconnect ids k.id) ↔ ∀ j ∈ s.sockets, j.user = k.user → j.id = k.id := by
  rw [disconnect_eq h hk, if_pos hreg]
  constructor
  . intro hsound j hj huser
    by_contra hne
    have hmem := (hsound.present k.user).mpr ⟨j, by simp [hj, hne], huser⟩
    exact (mem_keys_delete.mp hmem).1 rfl
  . intro hlast
    refine ⟨?_, ?_, h.forwarded⟩
    . intro user
      rw [mem_keys_delete, h.present, Ne, ids.toString_inj]
      simp only [List.mem_filter, decide_eq_true_eq]
      constructor
      . rintro ⟨hne, j, hj, rfl⟩
        refine ⟨j, ⟨hj, ?_⟩, rfl⟩
        intro hid
        apply hne
        rw [h.unique j hj k hk hid]
      . rintro ⟨j, ⟨hj, hid⟩, rfl⟩
        refine ⟨?_, j, hj, rfl⟩
        intro huser
        exact hid (hlast j hj huser)
    . intro userId socketId hget
      have ⟨hne, hget⟩ := get?_delete_eq_some hget
      exact stored_filter h hk hget fun heq => absurd heq hne

theorem sound_disconnect_unregistered (h : Inv ids s) (hk : k ∈ s.sockets) (hreg : k.registered = false)
    : Sound ids (s.disconnect ids k.id)
      ↔ s.connectedUsers.get? (ids.toString k.user) ≠ some k.id := by
  rw [disconnect_eq h hk, if_neg (by simp [hreg])]
  constructor
  . intro hsound hget
    have ⟨j, hj, hid, _⟩ := hsound.stored _ _ hget
    simp [hid] at hj
  . intro hother
    have hstored {userId : String} {socketId : Nat}
        (hget : s.connectedUsers.get? userId = some socketId) :=
      stored_filter h hk hget (by rintro rfl rfl; exact hother hget)
    refine ⟨?_, fun _ _ => hstored, h.forwarded⟩
    intro user
    constructor
    . intro hmem
      cases hget : s.connectedUsers.get? (ids.toString user) with
      | none => exact absurd hmem (get?_eq_none_iff.mp hget)
      | some socketId =>
        have ⟨j, hj, _, huser⟩ := hstored hget
        exact ⟨j, hj, ids.toString_inj.mp huser⟩
    . rintro ⟨j, hj, huser⟩
      rw [h.present]
      exact ⟨j, (List.mem_filter.mp hj).1, huser⟩

end

section

variable {ids} {s : Presence Id} (h : Inv ids s)

include h

theorem sound_disconnect_iff (socketId : Nat)
    : Sound ids (s.disconnect ids socketId) ↔ Harmless ids s (.disconnect socketId) := by
  unfold Harmless
  by_cases hsome : ∃ k ∈ s.sockets, k.id = socketId
  . obtain ⟨k, hk, rfl⟩ := hsome
    have hone {P : Socket Id → Prop} : (∀ j ∈ s.sockets, j.id = k.id → P j) ↔ P k := by
      constructor
      . intro hall
        exact hall k hk rfl
      . intro hP j hj hid
        rw [h.unique j hj k hk hid]
        exact hP
    dsimp only
    rw [hone]
    cases hreg : k.registered with
    | true =>
      apply sound_disconnect_registered h hk hreg
    | false =>
      apply sound_disconnect_unregistered h hk hreg
  . have hnone : ∀ k ∈ s.sockets, k.id ≠ socketId := by
      intro k hk hid
      exact hsome ⟨k, hk, hid⟩
    rw [disconnect_eq_self hnone]
    constructor
    . intro _ k hk hid
      exact absurd hid (hnone k hk)
    . intro _
      exact h.toSound

theorem get?_mem_socketsOf (hlive : s.socketsOf user ≠ [])
    : ∃ socketId ∈ (s.socketsOf user).map Socket.id,
      s.connectedUsers.get? (ids.toString user) = some socketId := by
  have hmem : ids.toString user ∈ s.connectedUsers.keys := by
    rw [h.present]
    obtain ⟨k, hk⟩ := exists_mem_of_ne_nil _ hlive
    simp only [socketsOf, List.mem_filter, decide_eq_true_eq] at hk
    exact ⟨k, hk⟩
  cases hget : s.connectedUsers.get? (ids.toString user) with
  | none => exact absurd hmem (get?_eq_none_iff.mp hget)
  | some socketId =>
    have ⟨k, hk, hid, huser⟩ := h.stored _ _ hget
    refine ⟨socketId, ?_, rfl⟩
    rw [mem_map]
    refine ⟨k, ?_, hid⟩
    simp [socketsOf, hk, ids.toString_inj.mp huser]

theorem forwarded_iff (receiverId : String) (user : Id)
    : ((s.socketsOf user).map Socket.id ≠ [] →
      ∃ socketId ∈ (s.socketsOf user).map Socket.id, s.connectedUsers.get? receiverId = some socketId)
      ↔ (s.socketsOf user ≠ [] → receiverId = ids.toString user) := by
  rw [Ne, map_eq_nil_iff]
  constructor
  . intro hsent hlive
    obtain ⟨socketId, hmem, hget⟩ := hsent hlive
    obtain ⟨j, hj, hjid⟩ := mem_map.mp hmem
    obtain ⟨k, hk, hkid, huser⟩ := h.stored _ _ hget
    simp only [socketsOf, List.mem_filter, decide_eq_true_eq] at hj
    rw [← huser, h.unique k hk j hj.1 (hkid.trans hjid.symm), hj.2]
  . intro hname hlive
    rw [hname hlive]
    apply get?_mem_socketsOf h hlive

theorem sound_privateMessage_iff (sender : Id) (receiverId content : Option String)
    : Sound ids (s.privateMessage ids sender receiverId content)
      ↔ Harmless ids s (.privateMessage sender receiverId content) := by
  unfold Harmless privateMessage
  cases hsave : Message.save ids sender receiverId none content with
  | none =>
    simp [h.toSound, hsave]
  | some message =>
    have hreceiver := (Message.castRef_of_save ids hsave).1
    dsimp only
    rw [hsave]
    have hlast {f : Forwarding Id}
        : Sound ids { s with forwardings := s.forwardings ++ [f] }
            ↔ (f.liveSockets ≠ [] → ∃ socketId ∈ f.liveSockets, f.receiverSocketId = some socketId) := by
      constructor
      . intro hsound
        apply hsound.forwarded
        simp
      . intro hf
        refine ⟨h.present, h.stored, ?_⟩
        intro g hg
        rw [mem_append, mem_singleton] at hg
        cases hg with
        | inl hg => exact h.forwarded g hg
        | inr hg =>
          rw [hg]
          exact hf
    rw [hlast]
    cases receiverId with
    | none =>
      injection hreceiver with hreceiver
      simp [← hreceiver]
    | some raw =>
      cases hcast : ids.cast raw with
      | none => simp [ObjectIds.castRef, hcast] at hreceiver
      | some user =>
        simp only [ObjectIds.castRef, hcast, Option.map_some, Option.some.injEq] at hreceiver
        have := forwarded_iff h raw user
        simpa [← hreceiver] using this

theorem inv_privateMessage
    (hsound : Sound ids (s.privateMessage ids sender receiverId content))
    : Inv ids (s.privateMessage ids sender receiverId content) := by
  refine ⟨hsound, ?_, ?_⟩
  all_goals
    unfold privateMessage
    split
  . apply h.fresh
  . apply h.fresh
  . apply h.unique
  . apply h.unique

theorem sound_step_iff (e : Event Id) : Sound ids (s.step ids e) ↔ Harmless ids s e := by
  cases e with
  | connection user => exact iff_of_true (inv_connection h user).toSound trivial
  | resume socketId => exact iff_of_true (inv_resume h socketId).toSound trivial
  | disconnect socketId => apply sound_disconnect_iff h
  | privateMessage sender receiverId content => apply sound_privateMessage_iff h

theorem inv_step (he : Harmless ids s e) : Inv ids (s.step ids e) := by
  have hsound := (sound_step_iff h e).mpr he
  cases e with
  | connection user => apply inv_connection h
  | resume socketId => apply inv_resume h
  | disconnect socketId => apply inv_of_sound_disconnect h hsound
  | privateMessage sender receiverId content => apply inv_privateMessage h hsound

end

theorem always_sound_iff (ids : ObjectIds Id) (events : List (Event Id))
    : Run.Always (step ids) (Sound ids) init events
      ↔ Run.Along (step ids) (Harmless ids) init events := by
  apply Run.always_iff_along (Inv ids) (fun _ => True) _ _ _ (inv_init ids) (by simp)
  . intro s h
    exact h.toSound
  . intro s e h _ he
    apply inv_step h he
  . intro s e h _ hnot hsound
    apply hnot
    exact (sound_step_iff h e).mp hsound

theorem not_always_sound_reconnect
    : ¬Run.Always (step ObjectIds.plain) (Sound ObjectIds.plain) init
      [.connection "ann", .resume 0, .connection "ann", .resume 1, .disconnect 0,
        .privateMessage "bob" (some "ann") (some "hello")] := by
  intro h
  have hsent := h.last.forwarded ⟨⟨"bob", some "ann", none, "hello", .text, .empty, false⟩, [1], none⟩
    (List.Mem.head _) (by simp)
  simp at hsent

end Presence

end Eim
