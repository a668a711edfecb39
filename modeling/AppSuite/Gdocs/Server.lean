import AppSuite.Data.OrderedMap
import AppSuite.Data.OrderedSet

/-!
This module contains the collaboration server. The state of a `Y.Doc` is an element of a join
semilattice: `applyUpdate` is the join, `encodeStateAsUpdate` returns the whole state and a new
document is the least element. The only `await` that others can overtake is the one in the `join`
handler.
-/

namespace Gdocs

structure YDoc (S : Type) where
  ref : Nat
  state : S
  deriving DecidableEq, Repr

structure Room (S : Type) where
  doc : YDoc S
  users : OrderedSet Nat

-- A `join` handler that waits for `loadDocumentState`. Its document is already there, but in no room.
structure PendingJoin (S : Type) where
  socket : Nat
  docId : String
  doc : YDoc S
  savedState : Option S

inductive YjsMessage (S : Type) where
  | syncStep1
  | syncUpdate (update : S)
  | awareness

inductive StateKind where
  | version
  | snapshot
  deriving DecidableEq, Repr

structure RecordedState (S : Type) where
  id : Nat
  documentId : String
  state : S

-- `statePath` is `path.join(STATES_DIR, docId + '.yjs')`: two docIds may have the same file.
structure Server (S : Type) where
  statePath : String → String
  rooms : OrderedMap String (Room S)
  currentDocId : OrderedMap Nat String
  pending : List (PendingJoin S)
  abandoned : List (String × YDoc S)
  states : OrderedMap String S
  versions : List (RecordedState S)
  snapshots : List (RecordedState S)
  nextId : Nat

inductive Event (S : Type) where
  | join (socket : Nat) (docId : String)
  | resume (index : Nat)
  | yjsMessage (socket : Nat) (message : YjsMessage S)
  | disconnect (socket : Nat)
  | create (kind : StateKind) (docId : String)
  | restore (kind : StateKind) (docId : String) (id : Nat)

namespace Server

variable {S : Type}

def init (statePath : String → String) : Server S :=
  ⟨statePath, .empty, .empty, [], [], .empty, [], [], 0⟩

variable (s : Server S) (docId : String)

def saveDocumentState (state : S) : Server S :=
  { s with states := s.states.set (s.statePath docId) state }

def loadDocumentState : Option S := s.states.get? (s.statePath docId)

-- The room that the handlers of a connected socket find. `!currentDocId` also holds for `''`.
def roomOf (socket : Nat) : Option (String × Room S) :=
  match s.currentDocId.get? socket with
  | some docId => if docId = "" then none else (s.rooms.get? docId).map fun room => (docId, room)
  | none => none

def enter (room : Room S) (socket : Nat) : Server S :=
  { s with rooms := s.rooms.set docId { room with users := room.users.add socket } }

def disconnect (socket : Nat) : Server S :=
  match s.roomOf socket with
  | some (docId, room) =>
    let users := room.users.delete socket
    if users.size = 0 then
      { s with rooms := s.rooms.delete docId }
    else
      { s with rooms := s.rooms.set docId { room with users := users } }
  | none => s

def stateToRecord : Option S :=
  match s.rooms.get? docId with
  | some room => some room.doc.state
  | none => s.loadDocumentState docId

def createVersion : Server S :=
  match s.stateToRecord docId with
  | some state =>
    { s with versions := s.versions ++ [⟨s.nextId, docId, state⟩], nextId := s.nextId + 1 }
  | none => s

def createSnapshot : Server S :=
  match s.stateToRecord docId with
  | some state =>
    { s with snapshots := s.snapshots ++ [⟨s.nextId, docId, state⟩], nextId := s.nextId + 1 }
  | none => s

def create (kind : StateKind) (docId : String) : Server S :=
  match kind with
  | .version => s.createVersion docId
  | .snapshot => s.createSnapshot docId

def recordedState (kind : StateKind) (id : Nat) : Option S :=
  let rows :=
    match kind with
    | .version => s.versions
    | .snapshot => s.snapshots
  (rows.find? fun row => row.id = id).map RecordedState.state

variable {s : Server S} {docId : String} {socket : Nat} {room : Room S}

theorem roomOf_eq_some (h : s.roomOf socket = some (docId, room))
    : s.rooms.get? docId = some room := by
  unfold roomOf at h
  split at h
  . split at h
    . contradiction
    . have ⟨_, hroom, heq⟩ := Option.map_eq_some_iff.mp h
      cases heq
      exact hroom
  . contradiction

theorem roomOf_of_current (hcurrent : s.currentDocId.get? socket = some docId) (hne : docId ≠ "")
    (hroom : s.rooms.get? docId = some room)
    : s.roomOf socket = some (docId, room) := by
  unfold roomOf
  simp [hcurrent, hne, hroom]

variable [SemilatticeSup S]

def PendingJoin.loaded (p : PendingJoin S) : YDoc S :=
  match p.savedState with
  | some savedState => { p.doc with state := p.doc.state ⊔ savedState }
  | none => p.doc

def resume (s : Server S) (index : Nat) : Server S :=
  match s.pending[index]? with
  | some p =>
    let replaced := (s.rooms.get? p.docId).toList.map fun room => (p.docId, Room.doc room)
    { s with
      pending := s.pending.eraseIdx index
      abandoned := s.abandoned ++ replaced }
      |>.enter p.docId ⟨PendingJoin.loaded p, .empty⟩ p.socket
  | none => s

variable [DecidableEq S]

section

variable (s : Server S) (docId : String)

-- `Y.applyUpdate` on the document of a room: the `update` event, which saves the document, is only
-- emitted if something changed.
def applyUpdate (room : Room S) (update : S) : Server S :=
  let state := room.doc.state ⊔ update
  if state = room.doc.state then
    s
  else
    { s with rooms := s.rooms.set docId { room with doc := { room.doc with state := state } } }
      |>.saveDocumentState docId state

def applyDocumentUpdate (state : S) : Server S :=
  match s.rooms.get? docId with
  | some room => s.applyUpdate docId room state
  | none => s

def yjsMessage (socket : Nat) (message : YjsMessage S) : Server S :=
  match s.roomOf socket with
  | some (docId, room) =>
    match message with
    | .syncStep1 => s
    | .syncUpdate update => s.applyUpdate docId room update
    | .awareness => s
  | none => s

def restoreVersion (versionId : Nat) : Server S :=
  match s.recordedState .version versionId with
  | some state => (s.saveDocumentState docId state).applyDocumentUpdate docId state
  | none => s

def restoreSnapshot (snapshotId : Nat) : Server S :=
  match s.recordedState .snapshot snapshotId with
  | some state =>
    let s := s.saveDocumentState docId state
    match s.loadDocumentState docId with
    | some restoredState => s.applyDocumentUpdate docId restoredState
    | none => s
  | none => s

def restore (kind : StateKind) (docId : String) (id : Nat) : Server S :=
  match kind with
  | .version => s.restoreVersion docId id
  | .snapshot => s.restoreSnapshot docId id

end

theorem restore_eq {kind : StateKind} {id : Nat} {state : S} (h : s.recordedState kind id = some state)
    : s.restore kind docId id
      = (s.saveDocumentState docId state).applyDocumentUpdate docId state := by
  cases kind with
  | version =>
    unfold restore restoreVersion
    simp [h]
  | snapshot =>
    unfold restore restoreSnapshot
    simp [h, loadDocumentState, saveDocumentState]

theorem statePath_applyUpdate (s : Server S) (docId : String) (room : Room S) (update : S)
    : (s.applyUpdate docId room update).statePath = s.statePath := by
  simp only [applyUpdate, saveDocumentState]
  split <;> rfl

theorem restore_of_none {kind : StateKind} {id : Nat} (h : s.recordedState kind id = none)
    : s.restore kind docId id = s := by
  cases kind <;> simp [restore, restoreVersion, restoreSnapshot, h]

variable [OrderBot S]

def join (s : Server S) (socket : Nat) (docId : String) : Server S :=
  let s := { s with currentDocId := s.currentDocId.set socket docId }
  match s.rooms.get? docId with
  | some room => s.enter docId room socket
  | none =>
    { s with
      pending := s.pending ++ [⟨socket, docId, ⟨s.nextId, ⊥⟩, s.loadDocumentState docId⟩]
      nextId := s.nextId + 1 }

def step (s : Server S) (e : Event S) : Server S :=
  match e with
  | .join socket docId => s.join socket docId
  | .resume index => s.resume index
  | .yjsMessage socket message => s.yjsMessage socket message
  | .disconnect socket => s.disconnect socket
  | .create kind docId => s.create kind docId
  | .restore kind docId id => s.restore kind docId id

theorem statePath_step (s : Server S) (e : Event S) : (s.step e).statePath = s.statePath := by
  cases e with
  | join socket docId =>
    simp only [step, join, enter]
    split <;> rfl
  | resume index =>
    simp only [step, resume, enter]
    split <;> rfl
  | yjsMessage socket message =>
    simp only [step, yjsMessage]
    split
    . cases message <;> simp [statePath_applyUpdate]
    . rfl
  | disconnect socket =>
    simp only [step, disconnect]
    split
    . split <;> rfl
    . rfl
  | create kind docId => cases kind <;> simp only [step, create, createVersion, createSnapshot] <;> split <;> rfl
  | restore kind docId id =>
    rw [step]
    cases hstate : s.recordedState kind id with
    | none => rw [restore_of_none hstate]
    | some state =>
      rw [restore_eq hstate, applyDocumentUpdate]
      split
      . exact statePath_applyUpdate ..
      . rfl

def run (statePath : String → String) (history : List (Event S)) : Server S :=
  history.foldl step (init statePath)

theorem statePath_foldl (s : Server S) (events : List (Event S))
    : (events.foldl step s).statePath = s.statePath :=
  List.foldlRecOn (motive := fun t => t.statePath = s.statePath) events step rfl
    fun t h e _ => (statePath_step t e).trans h

end Server

end Gdocs
