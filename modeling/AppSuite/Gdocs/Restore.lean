import AppSuite.Gdocs.Server

/-!
This module contains what the restore routes leave behind.
-/

namespace Gdocs

open OrderedMap

def Event.Quiet {S : Type} : Event S → Prop
  | .yjsMessage _ (.syncUpdate _) => False
  | .restore _ _ _ => False
  | _ => True

namespace Server

variable {S : Type} [SemilatticeSup S]

structure Overwritable (s : Server S) (docId : String) (state : S) : Prop where
  live : ∀ room, s.rooms.get? docId = some room → room.doc.state ≤ state
  waiting : ∀ p ∈ s.pending, p.docId = docId → (PendingJoin.loaded p).state = state

structure Settled (s : Server S) (docId : String) (state : S) : Prop where
  alone : ∀ docId', s.statePath docId' = s.statePath docId → docId' = docId
  persisted : s.states.get? (s.statePath docId) = some state
  live : ∀ room, s.rooms.get? docId = some room → room.doc.state = state
  waiting : ∀ p ∈ s.pending, p.docId = docId → (PendingJoin.loaded p).state = state

variable {s : Server S} {docId : String} {state : S} {room : Room S}

omit [SemilatticeSup S] in
theorem live_set {P : Room S → Prop}
    (h : ∀ room, s.rooms.get? docId = some room → P room) (hset : docId' = docId → P room')
    : ∀ room, (s.rooms.set docId' room').get? docId = some room → P room := by
  intro room hroom
  rcases get?_set_eq_some hroom with ⟨heq, rfl⟩ | ⟨_, hroom⟩
  . exact hset heq.symm
  . exact h room hroom

theorem settled_resume (h : Settled s docId state) (index : Nat)
    : Settled (s.resume index) docId state := by
  unfold resume enter
  split
  . next p hp =>
    refine ⟨h.alone, h.persisted, live_set h.live (h.waiting p (List.mem_of_getElem? hp)), ?_⟩
    intro q hq
    exact h.waiting q (List.mem_of_mem_eraseIdx hq)
  . assumption

theorem settled_disconnect (h : Settled s docId state) (socket : Nat)
    : Settled (s.disconnect socket) docId state := by
  unfold disconnect
  split
  . next docId' room hfound =>
    have hroom := roomOf_eq_some hfound
    dsimp only
    split
    . refine ⟨h.alone, h.persisted, ?_, h.waiting⟩
      intro room' hroom'
      exact h.live room' (get?_delete_eq_some hroom').2
    . refine ⟨h.alone, h.persisted, live_set h.live ?_, h.waiting⟩
      intro heq
      exact h.live room (heq ▸ hroom)
  . assumption

theorem settled_create (h : Settled s docId state) (kind : StateKind) (docId' : String)
    : Settled (s.create kind docId') docId state := by
  unfold create createVersion createSnapshot
  cases kind <;> dsimp only <;> split <;> exact ⟨h.alone, h.persisted, h.live, h.waiting⟩

section

variable [OrderBot S]

theorem settled_join {s : Server S} {docId : String} {state : S} (h : Settled s docId state)
    (socket : Nat) (docId' : String)
    : Settled (s.join socket docId') docId state := by
  unfold join enter
  dsimp only
  split
  . next room hroom =>
    refine ⟨h.alone, h.persisted, live_set h.live ?_, h.waiting⟩
    intro heq
    exact h.live room (heq ▸ hroom)
  . refine ⟨h.alone, h.persisted, h.live, ?_⟩
    rw [List.forall_mem_append, List.forall_mem_singleton]
    refine ⟨h.waiting, ?_⟩
    rintro rfl
    simp [PendingJoin.loaded, loadDocumentState, h.persisted]

end

variable [DecidableEq S]

theorem get?_applyUpdate (hroom : s.rooms.get? docId = some room) (update : S)
    : (s.applyUpdate docId room update).rooms.get? docId
        = some { room with doc := { room.doc with state := room.doc.state ⊔ update } } := by
  unfold applyUpdate saveDocumentState
  dsimp only
  split
  . next heq => rw [hroom, heq]
  . simp

theorem applyUpdate_other (room : Room S) (update : S) (hne : docId ≠ docId')
    (hfile : s.statePath docId ≠ s.statePath docId')
    : (s.applyUpdate docId room update).rooms.get? docId' = s.rooms.get? docId'
      ∧ (s.applyUpdate docId room update).states.get? (s.statePath docId')
        = s.states.get? (s.statePath docId') := by
  unfold applyUpdate saveDocumentState
  dsimp only
  split
  . exact ⟨rfl, rfl⟩
  . rw [get?_set_ne _ _ hne, get?_set_ne _ _ hfile]
    exact ⟨rfl, rfl⟩

theorem states_applyUpdate (h : s.states.get? (s.statePath docId) = some room.doc.state)
    : (s.applyUpdate docId room update).states.get? (s.statePath docId) = some (room.doc.state ⊔ update) := by
  unfold applyUpdate saveDocumentState
  dsimp only
  split
  . next heq => rw [h, heq]
  . simp

theorem pending_applyUpdate (s : Server S) (docId : String) (room : Room S) (update : S)
    : (s.applyUpdate docId room update).pending = s.pending := by
  unfold applyUpdate saveDocumentState
  dsimp only
  split <;> rfl

theorem agree_of_settled (h : Settled s docId state) (socket : Nat) (update : S)
    (hroom : (s.yjsMessage socket (.syncUpdate update)).rooms.get? docId = some room)
    : (s.yjsMessage socket (.syncUpdate update)).states.get? (s.statePath docId)
        = some room.doc.state := by
  unfold yjsMessage at *
  split at hroom
  . next docId' room' hfound =>
    have hroom' := roomOf_eq_some hfound
    cases decEq docId' docId with
    | isTrue heq =>
      subst heq
      have hstate := h.live room' hroom'
      rw [get?_applyUpdate hroom'] at hroom
      injection hroom with hroom
      subst hroom
      apply states_applyUpdate
      rw [hstate]
      exact h.persisted
    | isFalse hne =>
      have ⟨hrooms, hstates⟩ := applyUpdate_other (s := s) room' update hne (mt (h.alone docId') hne)
      rw [hrooms] at hroom
      rw [hstates, h.live room hroom]
      exact h.persisted
  . rw [h.live room hroom]
    exact h.persisted

theorem settled_of_overwritable (halone : ∀ docId', s.statePath docId' = s.statePath docId → docId' = docId)
    (h : Overwritable s docId state)
    : Settled ((s.saveDocumentState docId state).applyDocumentUpdate docId state) docId state := by
  have hsaved : (s.saveDocumentState docId state).states.get? (s.statePath docId) = some state := by
    simp [saveDocumentState]
  unfold applyDocumentUpdate
  split
  . next room hroom =>
    have hmerged : room.doc.state ⊔ state = state := sup_eq_right.mpr (h.live room hroom)
    have hpath := statePath_applyUpdate (s.saveDocumentState docId state) docId room state
    refine ⟨hpath ▸ halone, ?_, ?_, ?_⟩
    . rw [hpath]
      unfold applyUpdate
      dsimp only
      split
      . exact hsaved
      . simp [saveDocumentState, hmerged]
    . intro room' hroom'
      rw [get?_applyUpdate hroom, hmerged] at hroom'
      injection hroom' with hroom'
      rw [← hroom']
    . intro p hp
      rw [pending_applyUpdate] at hp
      exact h.waiting p hp
  . next hnone =>
    refine ⟨halone, hsaved, ?_, h.waiting⟩
    intro room hroom
    rw [hnone] at hroom
    contradiction

variable [OrderBot S]

structure Restored (s : Server S) (docId : String) (state : S) : Prop where
  persisted : s.states.get? (s.statePath docId) = some state
  live : ∀ room, s.rooms.get? docId = some room → room.doc.state = state
  agree : ∀ events : List (Event S), (∀ e ∈ events, e.Quiet) →
    ∀ socket update room,
      ((events.foldl step s).yjsMessage socket (.syncUpdate update)).rooms.get? docId = some room →
      ((events.foldl step s).yjsMessage socket (.syncUpdate update)).states.get? (s.statePath docId)
        = some room.doc.state

theorem settled_step (h : Settled s docId state) (hquiet : e.Quiet)
    : Settled (s.step e) docId state := by
  cases e with
  | join socket docId' => apply settled_join h
  | resume index => apply settled_resume h
  | disconnect socket => apply settled_disconnect h
  | create kind docId' => apply settled_create h
  | restore kind docId' id => contradiction
  | yjsMessage socket message =>
    cases message with
    | syncUpdate update => contradiction
    | _ =>
      dsimp only [step, yjsMessage]
      split <;> exact h

theorem settled_foldl {events : List (Event S)} (h : Settled s docId state) (hquiet : ∀ e ∈ events, e.Quiet)
    : Settled (events.foldl step s) docId state :=
  List.foldlRecOn (motive := fun s => Settled s docId state) events step h
    fun _ h e he => settled_step h (hquiet e he)

theorem restored_of_settled (h : Settled s docId state) : Restored s docId state := by
  refine ⟨h.persisted, h.live, ?_⟩
  intro events hquiet socket update room hroom
  rw [← statePath_foldl s events]
  apply agree_of_settled (settled_foldl h hquiet) socket update hroom

theorem yjsMessage_bot (s : Server S) (socket : Nat) : s.yjsMessage socket (.syncUpdate ⊥) = s := by
  unfold yjsMessage applyUpdate
  split <;> simp

theorem overwritable_of_restored
    (h : Restored ((s.saveDocumentState docId state).applyDocumentUpdate docId state) docId state)
    : Overwritable s docId state := by
  constructor
  . intro room hroom
    have hafter : ((s.saveDocumentState docId state).applyDocumentUpdate docId state).rooms.get? docId
        = some { room with doc := { room.doc with state := room.doc.state ⊔ state } } := by
      have hroom' : (s.saveDocumentState docId state).rooms.get? docId = some room := hroom
      unfold applyDocumentUpdate
      rw [hroom']
      apply get?_applyUpdate hroom'
    have := h.live _ hafter
    rw [← this]
    apply le_sup_left
  . -- the waiting `join` opens the document with what it has loaded
    intro p hp hdocId
    have hpending : ((s.saveDocumentState docId state).applyDocumentUpdate docId state).pending
        = s.pending := by
      unfold applyDocumentUpdate
      split
      . rw [pending_applyUpdate]
        rfl
      . rfl
    rw [← hpending] at hp
    have hpersisted := h.persisted
    have hagree := h.agree
    generalize (s.saveDocumentState docId state).applyDocumentUpdate docId state = restored at *
    have ⟨index, hindex⟩ := List.mem_iff_getElem?.mp hp
    have hresumed : (restored.resume index).rooms.get? docId
        = some ⟨PendingJoin.loaded p, OrderedSet.empty.add p.socket⟩ := by
      unfold resume enter
      rw [hindex, ← hdocId]
      simp
    have hstates : (restored.resume index).states = restored.states := by
      unfold resume enter
      rw [hindex]
    have hquiet : ∀ e ∈ [Event.resume (S := S) index], e.Quiet := by
      simp [Event.Quiet]
    have := hagree _ hquiet 0 ⊥ ⟨PendingJoin.loaded p, OrderedSet.empty.add p.socket⟩
    rw [yjsMessage_bot] at this
    have := this hresumed
    rw [List.foldl_cons, List.foldl_nil, step, hstates, hpersisted] at this
    injection this with this
    exact this.symm

def editedBefore : List (Event (Finset Nat)) := [
  .join 1 "doc", .resume 0, .yjsMessage 1 (.syncUpdate {1}), .create .version "doc"]

end Server

end Gdocs
