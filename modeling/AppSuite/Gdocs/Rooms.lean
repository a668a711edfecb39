import AppSuite.Gdocs.Server
import AppSuite.System.Run

/-!
This module contains what the sockets may rely on over every interleaving of their events.
-/

namespace Gdocs

open List OrderedMap Server

namespace Server

variable {S : Type}

def liveDocs (s : Server S) (docId : String) : List (YDoc S) :=
  (s.rooms.get? docId).toList.map Room.doc
    ++ (s.pending.filter fun p => p.docId = docId).map PendingJoin.doc
    ++ (s.abandoned.filter fun d => d.1 = docId).map Prod.snd

theorem perm_cons_eraseIdx {α : Type} {xs : List α} {i : Nat} {x : α} (h : xs[i]? = some x)
    : xs.Perm (x :: xs.eraseIdx i) := by
  have ⟨hi, hx⟩ := List.getElem?_eq_some_iff.mp h
  rw [← hx]
  exact (getElem_cons_eraseIdx_perm hi).symm

theorem length_liveDocs (s : Server S) (docId : String)
    : (s.liveDocs docId).length
      = (s.rooms.get? docId).toList.length + s.pending.countP (fun p => p.docId = docId)
          + s.abandoned.countP (fun d => d.1 = docId) := by
  simp [liveDocs, countP_eq_length_filter]
  omega

variable {s : Server S} {docId : String} {room : Room S}

theorem length_liveDocs_set (hroom : s.rooms.get? docId = some room) (room' : Room S) (docId' : String)
    : ({ s with rooms := s.rooms.set docId room' }.liveDocs docId').length
        = (s.liveDocs docId').length := by
  rw [length_liveDocs, length_liveDocs]
  rw [get?_set]
  split
  . next heq =>
    rw [← heq, hroom]
    rfl
  . rfl

structure SameShape (s s' : Server S) : Prop where
  users : ∀ docId, (s'.rooms.get? docId).map Room.users = (s.rooms.get? docId).map Room.users
  currentDocId : s'.currentDocId = s.currentDocId
  pending : s'.pending = s.pending
  abandoned : s'.abandoned = s.abandoned

theorem SameShape.length_liveDocs (h : SameShape s s') (docId : String)
    : (s'.liveDocs docId).length = (s.liveDocs docId).length := by
  rw [Server.length_liveDocs, Server.length_liveDocs, h.pending, h.abandoned]
  have := h.users docId
  cases hs : s.rooms.get? docId <;> cases hs' : s'.rooms.get? docId <;> simp [hs, hs'] at this ⊢

theorem sameShape_refl (s : Server S) : SameShape s s := by
  constructor <;> simp

theorem sameShape_create (s : Server S) (kind : StateKind) (docId : String)
    : SameShape s (s.create kind docId) := by
  unfold create createVersion createSnapshot
  cases kind <;> dsimp only <;> split <;> constructor <;> simp

variable [SemilatticeSup S] [DecidableEq S]

theorem sameShape_applyUpdate (hroom : s.rooms.get? docId = some room) (update : S)
    : SameShape s (s.applyUpdate docId room update) := by
  unfold applyUpdate saveDocumentState
  dsimp only
  split
  . apply sameShape_refl
  . constructor <;> dsimp only
    intro docId'
    rw [get?_set]
    split
    . next heq =>
      rw [← heq, hroom]
      rfl
    . rfl

theorem sameShape_applyDocumentUpdate (s : Server S) (docId : String) (state : S)
    : SameShape s (s.applyDocumentUpdate docId state) := by
  unfold applyDocumentUpdate
  split
  . next hroom => apply sameShape_applyUpdate hroom
  . apply sameShape_refl

theorem sameShape_yjsMessage (s : Server S) (socket : Nat) (message : YjsMessage S)
    : SameShape s (s.yjsMessage socket message) := by
  unfold yjsMessage
  split
  . next docId room hroom =>
    cases message with
    | syncStep1 => apply sameShape_refl
    | syncUpdate update => apply sameShape_applyUpdate (roomOf_eq_some hroom)
    | awareness => apply sameShape_refl
  . apply sameShape_refl

theorem sameShape_restore (s : Server S) (kind : StateKind) (docId : String) (id : Nat)
    : SameShape s (s.restore kind docId id) := by
  cases hstate : s.recordedState kind id with
  | none =>
    rw [restore_of_none hstate]
    apply sameShape_refl
  | some state =>
    rw [restore_eq hstate]
    have h := sameShape_applyDocumentUpdate (s.saveDocumentState docId state) docId state
    exact ⟨h.users, h.currentDocId, h.pending, h.abandoned⟩

end Server

structure Session (S : Type) where
  server : Server S
  finished : List (Nat × String)
  disconnected : List Nat
  dropped : List Nat

namespace Session

variable {S : Type}

def init (statePath : String → String) : Session S := ⟨.init statePath, [], [], []⟩

structure Sound (t : Session S) : Prop where
  oneDoc : ∀ docId, (t.server.liveDocs docId).length ≤ 1
  member : ∀ socket docId, (socket, docId) ∈ t.finished → socket ∉ t.disconnected →
    ∃ room, t.server.rooms.get? docId = some room ∧ socket ∈ room.users.elems
  delivered : t.dropped = []

def Unraced (t : Session S) (e : Event S) : Prop :=
  match e with
  | .join _ docId =>
    docId ≠ "" ∧ (docId ∉ t.server.rooms.keys → ∀ p ∈ t.server.pending, p.docId ≠ docId)
  | .yjsMessage socket _ =>
    socket ∈ t.finished.map Prod.fst → ∀ p ∈ t.server.pending, p.socket = socket →
      t.server.currentDocId.get? socket ≠ some p.docId
  | _ => True

instance (t : Session S) (e : Event S) : Decidable (t.Unraced e) := by
  cases e <;> unfold Unraced <;> infer_instance

structure Inv (t : Session S) : Prop extends Sound t where
  kept : t.server.abandoned = []
  current : ∀ socket docId, t.server.currentDocId.get? socket = some docId →
    docId ≠ ""
      ∧ ((socket, docId) ∈ t.finished ∨ ∃ p ∈ t.server.pending, p.socket = socket ∧ p.docId = docId)
  known : ∀ socket, (socket ∈ t.finished.map Prod.fst ∨ ∃ p ∈ t.server.pending, p.socket = socket) →
    socket ∈ t.server.currentDocId.keys

theorem inv_init (statePath : String → String) : Inv (init statePath : Session S) := by
  refine ⟨⟨?_, ?_, rfl⟩, rfl, ?_, ?_⟩
  . intro docId
    simp [init, Server.init, Server.liveDocs]
  . intro socket docId h
    simp [init] at h
  . intro socket docId h
    simp [init, Server.init] at h
  . intro socket h
    simp [init, Server.init] at h

variable {t : Session S} {socket : Nat} {docId : String}

theorem inv_sameShape {server : Server S} (h : Inv t) (hshape : SameShape t.server server)
    : Inv { t with server := server } := by
  refine ⟨⟨?_, ?_, h.delivered⟩, ?_, ?_, ?_⟩
  . intro docId
    rw [hshape.length_liveDocs]
    apply h.oneDoc
  . intro socket docId hfin hconn
    have ⟨room, hroom, hmem⟩ := h.member socket docId hfin hconn
    have husers := hshape.users docId
    rw [hroom] at husers
    cases hroom' : server.rooms.get? docId with
    | none => simp [hroom'] at husers
    | some room' =>
      simp only [hroom', Option.map_some, Option.some.injEq] at husers
      refine ⟨room', rfl, ?_⟩
      rw [husers]
      assumption
  . rw [hshape.abandoned]
    exact h.kept
  . rw [hshape.currentDocId, hshape.pending]
    exact h.current
  . rw [hshape.currentDocId, hshape.pending]
    exact h.known

variable {index socket' : Nat} {room : Room S} {docId' : String}

theorem alone_of_pending {p : PendingJoin S} (h : Inv t) (hp : t.server.pending[index]? = some p)
    : t.server.rooms.get? p.docId = none
      ∧ (t.server.pending.eraseIdx index).countP (fun q => q.docId = p.docId) = 0 := by
  have hone := h.oneDoc p.docId
  rw [length_liveDocs] at hone
  have hcount := (perm_cons_eraseIdx hp).countP_eq (fun q => q.docId = p.docId)
  rw [countP_cons_of_pos (by simp)] at hcount
  constructor
  . cases hroom : t.server.rooms.get? p.docId with
    | none => rfl
    | some room =>
      simp [hroom] at hone
      omega
  . omega

theorem Sound.mem_users (h : Sound t) (hroom : t.server.rooms.get? docId = some room)
    (hfin : (socket, docId) ∈ t.finished) (hconn : socket ∉ t.disconnected)
    : socket ∈ room.users.elems := by
  have ⟨room', hroom', hmem⟩ := h.member socket docId hfin hconn
  rw [hroom] at hroom'
  injection hroom' with hroom'
  rw [hroom']
  assumption

theorem member_enter (h : Sound t) (room : Room S)
    (hroom : ∀ socket', (socket', docId) ∈ t.finished → socket' ∉ t.disconnected → socket' ∈ room.users.elems)
    (hfin : (socket', docId') ∈ t.finished ++ [(socket, docId)]) (hconn : socket' ∉ t.disconnected)
    : ∃ room', (t.server.enter docId room socket).rooms.get? docId' = some room'
      ∧ socket' ∈ room'.users.elems := by
  unfold enter
  rw [get?_set]
  rw [mem_append, mem_singleton, Prod.mk.injEq] at hfin
  split
  . next heq =>
    subst heq
    refine ⟨_, rfl, ?_⟩
    rw [OrderedSet.mem_add]
    exact hfin.imp (fun hold => hroom socket' hold hconn) And.left
  . next hdoc =>
    cases hfin with
    | inl hold => exact h.member socket' docId' hold hconn
    | inr hnew => exact absurd hnew.2.symm hdoc

theorem current_join (h : Inv t) (hne : docId ≠ "") {finished : List (Nat × String)}
    {pending : List (PendingJoin S)} (hfinished : t.finished ⊆ finished)
    (hpending : t.server.pending ⊆ pending)
    (hself : (socket, docId) ∈ finished ∨ ∃ p ∈ pending, p.socket = socket ∧ p.docId = docId)
    (hcurrent : (t.server.currentDocId.set socket docId).get? socket' = some docId')
    : docId' ≠ ""
      ∧ ((socket', docId') ∈ finished ∨ ∃ p ∈ pending, p.socket = socket' ∧ p.docId = docId') := by
  rcases get?_set_eq_some hcurrent with ⟨rfl, rfl⟩ | ⟨_, hcurrent⟩
  . exact ⟨hne, hself⟩
  . have ⟨hne', hcases⟩ := h.current socket' docId' hcurrent
    exact ⟨hne', hcases.imp (fun hfin => hfinished hfin) fun ⟨p, hp, hp'⟩ => ⟨p, hpending hp, hp'⟩⟩

theorem roomOf_of_joined (h : Inv t) (hfin : socket ∈ t.finished.map Prod.fst)
    (hconn : socket ∉ t.disconnected)
    (hidle : ∀ p ∈ t.server.pending, p.socket = socket →
      t.server.currentDocId.get? socket ≠ some p.docId)
    : (t.server.roomOf socket).isSome := by
  have hkey := h.known socket (Or.inl hfin)
  cases hcurrent : t.server.currentDocId.get? socket with
  | none => exact absurd hkey (get?_eq_none_iff.mp hcurrent)
  | some docId =>
    have ⟨hne, hcases⟩ := h.current socket docId hcurrent
    cases hcases with
    | inl hjoined =>
      have ⟨room, hroom, _⟩ := h.member socket docId hjoined hconn
      rw [roomOf_of_current hcurrent hne hroom]
      rfl
    | inr hpending =>
      have ⟨p, hp, hsocket, hdocId⟩ := hpending
      exact absurd (hdocId ▸ hcurrent) (hidle p hp hsocket)

variable [SemilatticeSup S] [OrderBot S]

theorem inv_join_room (h : Inv t) (hne : docId ≠ "") (hroom : t.server.rooms.get? docId = some room)
    : Inv { t with
        server := t.server.join socket docId
        finished := t.finished ++ [(socket, docId)] } := by
  have hjoin : t.server.join socket docId = { t.server with
      currentDocId := t.server.currentDocId.set socket docId
      rooms := t.server.rooms.set docId { room with users := room.users.add socket } } := by
    simp [join, hroom, enter]
  rw [hjoin]
  refine ⟨⟨?_, ?_, h.delivered⟩, h.kept, ?_, ?_⟩
  . intro docId'
    refine (Nat.le_of_eq ?_).trans (h.oneDoc docId')
    apply length_liveDocs_set hroom
  . intro socket' docId' hfin hconn
    apply member_enter h.toSound room _ hfin hconn
    intro socket'' hfin hconn
    apply h.mem_users hroom hfin hconn
  . intro socket' docId' hcurrent
    apply current_join h hne _ _ _ hcurrent
    . apply subset_append_left
    . apply List.Subset.refl
    . simp
  . intro socket' hsocket
    rw [mem_keys_set]
    rw [map_append, map_singleton, mem_append, mem_singleton, or_assoc, or_left_comm] at hsocket
    exact hsocket.imp_right (h.known socket')

theorem inv_join_pending (h : Inv t) (hne : docId ≠ "") (hroom : t.server.rooms.get? docId = none)
    (hfree : ∀ p ∈ t.server.pending, p.docId ≠ docId)
    : Inv { t with server := t.server.join socket docId } := by
  have hjoin : t.server.join socket docId = { t.server with
      currentDocId := t.server.currentDocId.set socket docId
      pending := t.server.pending
        ++ [⟨socket, docId, ⟨t.server.nextId, ⊥⟩, t.server.loadDocumentState docId⟩]
      nextId := t.server.nextId + 1 } := by
    simp [join, hroom, loadDocumentState]
  rw [hjoin]
  refine ⟨⟨?_, h.member, h.delivered⟩, h.kept, ?_, ?_⟩
  . intro docId'
    have := h.oneDoc docId'
    rw [length_liveDocs] at *
    cases decEq docId docId' with
    | isFalse hdoc => simpa [hdoc] using this
    | isTrue hdoc =>
      subst hdoc
      have hnone : t.server.pending.countP (fun p => p.docId = docId) = 0 := by
        rw [countP_eq_zero]
        intro p hp
        simp [hfree p hp]
      simp [hroom, hnone, h.kept]
  . intro socket' docId' hcurrent
    apply current_join h hne _ _ _ hcurrent
    . apply List.Subset.refl
    . apply subset_append_left
    . simp
  . intro socket' hsocket
    rw [mem_keys_set]
    simp only [mem_append, mem_singleton, or_and_right, exists_or, exists_eq_left, ← or_assoc] at hsocket
    exact hsocket.symm.imp Eq.symm (h.known socket')

variable [DecidableEq S]

def step (t : Session S) (e : Event S) : Session S :=
  match e with
  | .join socket docId =>
    if socket ∈ t.disconnected then
      t
    else
      { t with
        server := t.server.join socket docId
        finished :=
          if t.server.rooms.has docId then t.finished ++ [(socket, docId)] else t.finished }
  | .resume index =>
    { t with
      server := t.server.resume index
      finished := t.finished ++ t.server.pending[index]?.toList.map fun p => (p.socket, p.docId) }
  | .yjsMessage socket message =>
    if socket ∈ t.disconnected then
      t
    else
      { t with
        server := t.server.yjsMessage socket message
        dropped :=
          if socket ∈ t.finished.map Prod.fst ∧ (t.server.roomOf socket).isNone then
            t.dropped ++ [socket]
          else
            t.dropped }
  | .disconnect socket =>
    if socket ∈ t.disconnected then
      t
    else
      { t with
        server := t.server.disconnect socket
        disconnected := t.disconnected ++ [socket] }
  | .create kind docId => { t with server := t.server.create kind docId }
  | .restore kind docId id => { t with server := t.server.restore kind docId id }

theorem inv_join (h : Inv t) (hok : t.Unraced (.join socket docId))
    : Inv (t.step (.join socket docId)) := by
  have ⟨hne, hfree⟩ := hok
  unfold step
  dsimp only
  split
  . assumption
  . cases hroom : t.server.rooms.get? docId with
    | none =>
      simp only [has, hroom, Option.isSome_none, Bool.false_eq_true, ↓reduceIte]
      apply inv_join_pending h hne hroom
      apply hfree
      rw [← get?_eq_none_iff]
      assumption
    | some room =>
      simp only [has, hroom, Option.isSome_some, ↓reduceIte]
      apply inv_join_room h hne hroom

theorem inv_resume (h : Inv t) : Inv (t.step (.resume index)) := by
  unfold step resume
  dsimp only
  cases hp : t.server.pending[index]? with
  | none => simpa [hp] using h
  | some p =>
    obtain ⟨hroom, hcount⟩ := alone_of_pending h hp
    have hpending {P : PendingJoin S → Prop}
        : (∃ q ∈ t.server.pending, P q) ↔ P p ∨ ∃ q ∈ t.server.pending.eraseIdx index, P q := by
      simp [(perm_cons_eraseIdx hp).mem_iff]
    simp only [Option.toList_some, map_cons, map_nil, hroom, Option.toList_none,
      append_nil, enter]
    refine ⟨⟨?_, ?_, h.delivered⟩, h.kept, ?_, ?_⟩
    . intro docId
      have := h.oneDoc docId
      rw [length_liveDocs] at *
      dsimp only
      rw [get?_set]
      split
      . next heq =>
        subst heq
        simp [hcount, h.kept]
      . have hsub := (eraseIdx_sublist t.server.pending index).countP_le (p := fun q => q.docId = docId)
        omega
    . intro socket docId hfin hconn
      apply member_enter h.toSound ⟨PendingJoin.loaded p, .empty⟩ _ hfin hconn
      intro socket' hfin hconn
      obtain ⟨room, hroom', _⟩ := h.member socket' p.docId hfin hconn
      rw [hroom] at hroom'
      contradiction
    . intro socket docId hcurrent
      obtain ⟨hne, hcases⟩ := h.current socket docId hcurrent
      refine ⟨hne, ?_⟩
      rw [hpending, ← or_assoc] at hcases
      rwa [mem_append, mem_singleton, Prod.mk.injEq, eq_comm (a := socket), eq_comm (a := docId)]
    . intro socket hsocket
      apply h.known
      rw [hpending, ← or_assoc]
      rwa [map_append, map_singleton, mem_append, mem_singleton, eq_comm (a := socket)] at hsocket

theorem inv_yjsMessage {message : YjsMessage S} (h : Inv t) (hok : t.Unraced (.yjsMessage socket message))
    : Inv (t.step (.yjsMessage socket message)) := by
  unfold step
  dsimp only
  split
  . assumption
  . next hconn =>
    split
    . next hlost =>
      have := roomOf_of_joined h hlost.1 hconn (hok hlost.1)
      simp [Option.isNone_iff_eq_none.mp hlost.2] at this
    . apply inv_sameShape h
      apply sameShape_yjsMessage

theorem inv_disconnect (h : Inv t) : Inv (t.step (.disconnect socket)) := by
  unfold step
  dsimp only
  split
  . assumption
  . have hother {socket' : Nat} (hconn : socket' ∉ t.disconnected ++ [socket])
        : socket' ∉ t.disconnected ∧ socket' ≠ socket := by
      rwa [mem_append, mem_singleton, not_or] at hconn
    unfold disconnect
    cases hroomOf : t.server.roomOf socket with
    | none =>
      refine ⟨⟨h.oneDoc, ?_, h.delivered⟩, h.kept, h.current, h.known⟩
      intro socket' docId hfin hconn
      exact h.member socket' docId hfin (hother hconn).1
    | some found =>
      obtain ⟨docId, room⟩ := found
      have hroom := roomOf_eq_some hroomOf
      have hstays {socket' : Nat} (hfin : (socket', docId) ∈ t.finished)
          (hconn : socket' ∉ t.disconnected ++ [socket])
          : socket' ∈ (room.users.delete socket).elems := by
        rw [OrderedSet.mem_delete]
        exact ⟨h.mem_users hroom hfin (hother hconn).1, (hother hconn).2⟩
      dsimp only
      split
      . next hempty =>
        refine ⟨⟨?_, ?_, h.delivered⟩, h.kept, h.current, h.known⟩
        . intro docId'
          have := h.oneDoc docId'
          rw [length_liveDocs] at *
          rw [get?_delete]
          split
          . simp only [Option.toList_none, length_nil]
            omega
          . exact this
        . intro socket' docId' hfin hconn
          rw [get?_delete]
          split
          . next heq =>
            rw [← heq] at hfin
            exact absurd hempty (OrderedSet.size_ne_zero_of_mem (hstays hfin hconn))
          . exact h.member socket' docId' hfin (hother hconn).1
      . refine ⟨⟨?_, ?_, h.delivered⟩, h.kept, h.current, h.known⟩
        . intro docId'
          refine (Nat.le_of_eq ?_).trans (h.oneDoc docId')
          apply length_liveDocs_set hroom
        . intro socket' docId' hfin hconn
          rw [get?_set]
          split
          . next heq =>
            rw [← heq] at hfin
            exact ⟨_, rfl, hstays hfin hconn⟩
          . exact h.member socket' docId' hfin (hother hconn).1

theorem inv_step {e : Event S} (h : Inv t) (hok : t.Unraced e) : Inv (t.step e) := by
  cases e with
  | join socket docId => apply inv_join h hok
  | resume index => apply inv_resume h
  | yjsMessage socket message => apply inv_yjsMessage h hok
  | disconnect socket => apply inv_disconnect h
  | create kind docId =>
    apply inv_sameShape h
    apply sameShape_create
  | restore kind docId id =>
    apply inv_sameShape h
    apply sameShape_restore

theorem sound_of_unraced (statePath : String → String) (events : List (Event S))
    (h : Run.Along step Unraced (init statePath) events)
    : Run.Always step Sound (init statePath) events := by
  apply Run.always_of_along Inv ?_ ?_ (inv_init statePath) h
  . intro t ht
    exact ht.toSound
  . intro t e ht hok
    apply inv_step ht hok

def twoUsers : List (Event (Finset Nat)) := [
  .join 1 "doc", .resume 0, .join 2 "other", .join 2 "doc", .yjsMessage 2 (.syncUpdate {5}), .disconnect 1]

theorem sound_of_unraced_twoUsers
    : Run.Always step Sound (init id) twoUsers
      ∧ ((twoUsers.foldl step (init id)).server.rooms.entries.map fun e => e.2.users.elems) = [[2]] :=
  ⟨sound_of_unraced id twoUsers (by decide), by decide⟩

def simultaneousJoins : List (Event (Finset Nat)) := [
  .join 1 "doc", .join 2 "doc", .resume 0, .resume 0, .disconnect 2,
  .yjsMessage 1 (.syncUpdate {5})]

theorem not_sound_simultaneousJoins
    : ¬Run.Always step Sound (init id) simultaneousJoins
      ∧ ((simultaneousJoins.take 2).foldl step (init id : Session (Finset Nat))).server.liveDocs "doc"
          = [⟨0, ∅⟩, ⟨1, ∅⟩]
      ∧ (simultaneousJoins.foldl step (init id : Session (Finset Nat))).dropped = [1] := by
  refine ⟨?_, by decide, by decide⟩
  intro h
  have := h.last.delivered
  revert this
  decide

end Session

end Gdocs
