import AppSuite.Gdocs.Server
import AppSuite.System.Run

/-!
This module contains the routes for documents and comments next to the live rooms.
-/

namespace Gdocs

open List

structure Document where
  id : String
  title : String
  ownerId : String
  deriving DecidableEq, Repr

structure Comment where
  id : String
  documentId : String
  userId : String
  userName : String
  content : String
  position : Option String
  parentId : Option String
  resolved : Bool
  deriving DecidableEq, Repr

structure Store (S : Type) where
  server : Server S
  documents : List Document
  comments : List Comment

-- `value || fallback`, where the empty string counts as absent
def orElse (value : Option String) (fallback : String) : String :=
  if value.getD "" = "" then fallback else value.getD ""

def orNull (value : Option String) : Option String := value.filter (· ≠ "")

namespace Store

-- The ids of new documents and comments are the ones that `uuidv4` returns.
inductive Route (S : Type) where
  | live (event : Event S)
  | createDocument (id : String)
  | updateDocument (id : String) (title : Option String)
  | deleteDocument (id : String)
  | addComment (id docId : String) (content userId userName position parentId : Option String)
  | resolveComment (id : String) (resolved : Option Bool)
  | deleteComment (id : String)

variable {S : Type}

def init (statePath : String → String) : Store S := ⟨.init statePath, [], []⟩

variable (s : Store S) (id : String)

def createDocument : Store S :=
  { s with documents := s.documents ++ [⟨id, "无标题文档", "anonymous"⟩] }

def updateFirst {α : Type} (p : α → Bool) (f : α → α) : List α → List α
  | [] => []
  | x :: xs => if p x then f x :: xs else x :: updateFirst p f xs

def updateDocument (title : Option String) : Store S :=
  if title.getD "" = "" then
    s
  else
    { s with
      documents := updateFirst (fun d => d.id = id) (fun d => { d with title := title.getD "" })
        s.documents }

def deleteDocument : Store S :=
  { server := { s.server with
      versions := s.server.versions.filter fun v => v.documentId ≠ id
      snapshots := s.server.snapshots.filter fun v => v.documentId ≠ id
      states := s.server.states.delete (s.server.statePath id) }
    documents := s.documents.filter fun d => d.id ≠ id
    comments := s.comments.filter fun c => c.documentId ≠ id }

def addComment (id docId : String) (content userId userName position parentId : Option String) : Store S :=
  if content.getD "" = "" then
    s
  else
    { s with
      comments := s.comments
        ++ [⟨id, docId, orElse userId "anonymous", orElse userName "匿名用户", content.getD "",
            orNull position, orNull parentId, false⟩] }

def resolveComment (resolved : Option Bool) : Store S :=
  { s with
    comments := updateFirst (fun c => c.id = id) (fun c => { c with resolved := resolved ≠ some false })
      s.comments }

def deleteComment : Store S :=
  { s with comments := s.comments.eraseP fun c => c.id = id }

variable [SemilatticeSup S] [DecidableEq S] [OrderBot S]

def step (s : Store S) : Route S → Store S
  | .live event => { s with server := s.server.step event }
  | .createDocument id => s.createDocument id
  | .updateDocument id title => s.updateDocument id title
  | .deleteDocument id => s.deleteDocument id
  | .addComment id docId content userId userName position parentId =>
    s.addComment id docId content userId userName position parentId
  | .resolveComment id resolved => s.resolveComment id resolved
  | .deleteComment id => s.deleteComment id

end Store

-- What is kept about a document: a row with its id, or its state file.
inductive Reference where
  | row (documentId : String)
  | file (path : String)
  deriving DecidableEq

namespace Server

variable {S : Type}

def Mentions (s : Server S) : Reference → Prop
  | .row docId =>
    docId ∈ s.versions.map RecordedState.documentId ∨ docId ∈ s.snapshots.map RecordedState.documentId
  | .file path => path ∈ s.states.keys

variable [SemilatticeSup S] [DecidableEq S] [OrderBot S]

def written (s : Server S) : Event S → Option Reference
  | .yjsMessage socket (.syncUpdate update) =>
    match s.roomOf socket with
    | some (docId, room) =>
      if room.doc.state ⊔ update = room.doc.state then none else some (.file (s.statePath docId))
    | none => none
  | .create _ docId => if (s.stateToRecord docId).isSome then some (.row docId) else none
  | .restore kind docId id =>
    if (s.recordedState kind id).isSome then some (.file (s.statePath docId)) else none
  | _ => none

variable {s : Server S} {docId : String} {r : Reference}

omit [SemilatticeSup S] [DecidableEq S] [OrderBot S] in
theorem mentions_saveDocumentState
    : (s.saveDocumentState docId state).Mentions r ↔ s.Mentions r ∨ .file (s.statePath docId) = r := by
  cases r with
  | row docId => simp [Mentions, saveDocumentState]
  | file path => simp [Mentions, saveDocumentState, OrderedMap.mem_keys_set, eq_comm, or_comm]

omit [OrderBot S] in
theorem mentions_applyUpdate
    : (s.applyUpdate docId room update).Mentions r
      ↔ s.Mentions r ∨ room.doc.state ⊔ update ≠ room.doc.state ∧ .file (s.statePath docId) = r := by
  unfold applyUpdate
  dsimp only
  split
  . next h => simp [h]
  . next h =>
    rw [mentions_saveDocumentState]
    cases r <;> simp [h, Mentions]

variable {kind : StateKind}

omit [SemilatticeSup S] [DecidableEq S] [OrderBot S] in
theorem mentions_create
    : (s.create kind docId).Mentions r
      ↔ s.Mentions r ∨ (s.stateToRecord docId).isSome ∧ .row docId = r := by
  cases hstate : s.stateToRecord docId with
  | none => cases kind <;> simp [create, createVersion, createSnapshot, hstate]
  | some state =>
    cases kind <;> cases r
    all_goals
      simp only [create, createVersion, createSnapshot, hstate, Mentions, map_append, map_cons, map_nil,
        mem_append, mem_singleton, Option.isSome_some, true_and, Reference.row.injEq, reduceCtorEq, or_false,
        eq_comm]
    all_goals tauto

omit [OrderBot S] in
theorem mentions_restore {id : Nat}
    : (s.restore kind docId id).Mentions r
      ↔ s.Mentions r ∨ (s.recordedState kind id).isSome ∧ .file (s.statePath docId) = r := by
  cases hstate : s.recordedState kind id with
  | none => simp [restore_of_none hstate]
  | some state =>
    rw [restore_eq hstate]
    unfold applyDocumentUpdate
    split
    . rw [mentions_applyUpdate, mentions_saveDocumentState, saveDocumentState]
      simp
      tauto
    . simp [mentions_saveDocumentState]

theorem mentions_step (s : Server S) (e : Event S) (r : Reference)
    : (s.step e).Mentions r ↔ s.Mentions r ∨ s.written e = some r := by
  cases e with
  | join socket docId' =>
    simp only [step, join, written]
    split <;> cases r <;> simp [Mentions, enter]
  | resume index =>
    simp only [step, resume, written]
    split <;> cases r <;> simp [Mentions, enter]
  | yjsMessage socket message =>
    simp only [step, yjsMessage]
    cases hroom : s.roomOf socket with
    | none => cases message <;> simp [written, hroom]
    | some found =>
      cases message with
      | syncStep1 | awareness => simp [written]
      | syncUpdate update => simp [written, hroom, mentions_applyUpdate]
  | disconnect socket =>
    simp only [step, disconnect, written]
    split
    . split <;> cases r <;> simp [Mentions]
    . simp
  | create kind docId' => simp [step, mentions_create, written]
  | restore kind docId' id => simp [step, mentions_restore, written]

end Server

namespace Store

variable {S : Type}

def documentIds (s : Store S) : List String := s.documents.map Document.id

def stateFiles (s : Store S) : List String := s.documentIds.map s.server.statePath

def Known (s : Store S) : Reference → Prop
  | .row docId => docId ∈ s.documentIds
  | .file path => path ∈ s.stateFiles

instance (s : Store S) (r : Reference) : Decidable (s.Known r) := by
  cases r <;> unfold Known <;> infer_instance

structure Sound (s : Store S) : Prop where
  versions : ∀ v ∈ s.server.versions, v.documentId ∈ s.documentIds
  snapshots : ∀ v ∈ s.server.snapshots, v.documentId ∈ s.documentIds
  comments : ∀ c ∈ s.comments, c.documentId ∈ s.documentIds
  parents : ∀ c ∈ s.comments, ∀ parentId ∈ c.parentId,
    ∃ parent ∈ s.comments, parent.id = parentId ∧ parent.documentId = c.documentId
  states : ∀ path ∈ s.server.states.keys, path ∈ s.stateFiles

variable {s : Store S}

theorem rows_iff
    : (∀ r, s.server.Mentions r → s.Known r)
      ↔ (∀ v ∈ s.server.versions, v.documentId ∈ s.documentIds)
          ∧ (∀ v ∈ s.server.snapshots, v.documentId ∈ s.documentIds)
          ∧ ∀ path ∈ s.server.states.keys, path ∈ s.stateFiles := by
  have hsplit : (∀ r, s.server.Mentions r → s.Known r)
      ↔ (∀ docId, s.server.Mentions (.row docId) → s.Known (.row docId))
        ∧ ∀ path, s.server.Mentions (.file path) → s.Known (.file path) :=
    ⟨fun h => ⟨fun _ => h _, fun _ => h _⟩, fun h r => r.casesOn h.1 h.2⟩
  rw [hsplit]
  simp only [Server.Mentions, Known, or_imp, forall_and, mem_map, forall_exists_index, and_imp,
    forall_apply_eq_imp_iff₂, and_assoc]

def Fresh (s : Store S) : Route S → Prop
  | .addComment id _ _ _ _ _ parentId => id ∉ s.comments.map Comment.id ∧ parentId ≠ some id
  | _ => True

instance (s : Store S) (r : Route S) : Decidable (s.Fresh r) := by
  cases r <;> unfold Fresh <;> infer_instance

structure Inv (s : Store S) : Prop extends Sound s where
  unique : (s.comments.map Comment.id).Nodup
  notOwn : ∀ c ∈ s.comments, c.parentId ≠ some c.id

theorem inv_init (statePath : String → String) : Inv (init statePath : Store S) := by
  refine ⟨⟨?_, ?_, ?_, ?_, ?_⟩, ?_, ?_⟩ <;> simp [init, Server.init, OrderedMap.keys, OrderedMap.empty]

theorem inv_documents {documents : List Document} (h : Inv s)
    (hsub : s.documentIds ⊆ documents.map Document.id)
    : Inv { s with documents } := by
  refine ⟨⟨?_, ?_, ?_, h.parents, ?_⟩, h.unique, h.notOwn⟩
  . intro v hv
    exact hsub (h.versions v hv)
  . intro v hv
    exact hsub (h.snapshots v hv)
  . intro c hc
    exact hsub (h.comments c hc)
  . intro path hmem
    exact map_subset _ hsub (h.states path hmem)

theorem inv_createDocument (h : Inv s) (id : String) : Inv (s.createDocument id) := by
  apply inv_documents h
  rw [map_append]
  apply subset_append_left

omit S in
theorem map_updateFirst {α β : Type} {p : α → Bool} {f : α → α} {g : α → β} (h : ∀ x, g (f x) = g x)
    (xs : List α)
    : (updateFirst p f xs).map g = xs.map g := by
  induction xs with
  | nil => rfl
  | cons x xs ih =>
    unfold updateFirst
    split
    . simp [h]
    . simp [ih]

theorem inv_updateDocument (h : Inv s) (id : String) (title : Option String)
    : Inv (s.updateDocument id title) := by
  unfold updateDocument
  split
  . exact h
  . apply inv_documents h
    rw [map_updateFirst]
    . apply Subset.refl
    . intro d
      rfl

variable {id docId : String} {r : Route S}

theorem mem_documentIds_deleteDocument
    : docId ∈ (s.deleteDocument id).documentIds ↔ docId ∈ s.documentIds ∧ docId ≠ id := by
  simp only [documentIds, deleteDocument, mem_map, mem_filter, decide_eq_true_eq]
  constructor
  . rintro ⟨d, ⟨hd, hne⟩, rfl⟩
    exact ⟨⟨d, hd, rfl⟩, hne⟩
  . rintro ⟨⟨d, hd, rfl⟩, hne⟩
    exact ⟨d, ⟨hd, hne⟩, rfl⟩

theorem forall_filter_deleteDocument {α : Type} {f : α → String} {xs : List α}
    (h : ∀ x ∈ xs, f x ∈ s.documentIds)
    : ∀ x ∈ xs.filter (fun x => f x ≠ id), f x ∈ (s.deleteDocument id).documentIds := by
  intro x hx
  have hx := List.mem_filter.mp hx
  rw [mem_documentIds_deleteDocument]
  exact ⟨h x hx.1, of_decide_eq_true hx.2⟩

theorem inv_deleteDocument (h : Inv s) (id : String) : Inv (s.deleteDocument id) := by
  have hsub : (s.deleteDocument id).comments.Sublist s.comments := filter_sublist
  refine ⟨⟨forall_filter_deleteDocument h.versions, forall_filter_deleteDocument h.snapshots,
    forall_filter_deleteDocument h.comments, ?_, ?_⟩, ?_, ?_⟩
  . intro c hc parentId hparent
    have hc := mem_filter.mp hc
    have ⟨parent, hmem, hid, hdoc⟩ := h.parents c hc.1 parentId hparent
    refine ⟨parent, mem_filter.mpr ⟨hmem, ?_⟩, hid, hdoc⟩
    rw [hdoc]
    exact hc.2
  . intro path hmem
    have hmem := OrderedMap.mem_keys_delete.mp hmem
    obtain ⟨docId, hdoc, rfl⟩ := mem_map.mp (h.states path hmem.2)
    refine mem_map.mpr ⟨docId, mem_documentIds_deleteDocument.mpr ⟨hdoc, ?_⟩, rfl⟩
    rintro rfl
    exact hmem.1 rfl
  . apply Nodup.sublist _ h.unique
    exact hsub.map Comment.id
  . intro c hc
    apply h.notOwn
    exact hsub.subset hc

omit S in
theorem exists_mem_of_map_eq {α β : Type} {f : α → β} {xs ys : List α} (h : xs.map f = ys.map f) {x : α}
    (hx : x ∈ xs)
    : ∃ y ∈ ys, f y = f x := by
  have := mem_map_of_mem (f := f) hx
  rw [h, mem_map] at this
  exact this

theorem inv_resolveComment (h : Inv s) (id : String) (resolved : Option Bool)
    : Inv (s.resolveComment id resolved) := by
  have hlinks : (s.resolveComment id resolved).comments.map (fun c => (c.id, c.documentId, c.parentId))
      = s.comments.map (fun c => (c.id, c.documentId, c.parentId)) := by
    apply map_updateFirst
    intro c
    rfl
  have hfrom : ∀ c ∈ (s.resolveComment id resolved).comments,
      ∃ c' ∈ s.comments, c'.id = c.id ∧ c'.documentId = c.documentId ∧ c'.parentId = c.parentId := by
    intro c hc
    simpa using exists_mem_of_map_eq hlinks hc
  have hto : ∀ c ∈ s.comments, ∃ c' ∈ (s.resolveComment id resolved).comments,
      c'.id = c.id ∧ c'.documentId = c.documentId ∧ c'.parentId = c.parentId := by
    intro c hc
    simpa using exists_mem_of_map_eq hlinks.symm hc
  refine ⟨⟨h.versions, h.snapshots, ?_, ?_, h.states⟩, ?_, ?_⟩
  . intro c hc
    obtain ⟨c', hc', _, hdoc, _⟩ := hfrom c hc
    rw [← hdoc]
    exact h.comments c' hc'
  . intro c hc parentId hparent
    obtain ⟨c', hc', _, hdoc, hpar⟩ := hfrom c hc
    rw [← hpar] at hparent
    obtain ⟨parent, hmem, hid, hsame⟩ := h.parents c' hc' parentId hparent
    obtain ⟨parent', hmem', hid', hdoc', _⟩ := hto parent hmem
    exact ⟨parent', hmem', hid'.trans hid, hdoc'.trans (hsame.trans hdoc)⟩
  . have : (s.resolveComment id resolved).comments.map Comment.id = s.comments.map Comment.id := by
      apply map_updateFirst
      intro c
      rfl
    rw [this]
    exact h.unique
  . intro c hc
    obtain ⟨c', hc', hid, _, hpar⟩ := hfrom c hc
    rw [← hid, ← hpar]
    exact h.notOwn c' hc'

omit S in
theorem eraseP_eq_filter {α β : Type} [DecidableEq β] (key : α → β) {xs : List α}
    (h : (xs.map key).Nodup) (k : β)
    : xs.eraseP (fun x => key x = k) = xs.filter fun x => key x ≠ k := by
  induction xs with
  | nil => rfl
  | cons x xs ih =>
    rw [map_cons, nodup_cons] at h
    by_cases heq : key x = k
    . have hrest : xs.filter (fun x => key x ≠ k) = xs := by
        rw [filter_eq_self]
        intro y hy
        rw [decide_eq_true_eq, ← heq]
        exact fun hk => h.1 (hk ▸ mem_map_of_mem hy)
      rw [eraseP_cons_of_pos (by simpa using heq), filter_cons_of_neg (by simpa using heq),
        hrest]
    . rw [eraseP_cons_of_neg (by simpa using heq), filter_cons_of_pos (by simpa using heq),
        ih h.2]

theorem sound_deleteComment_iff (h : Inv s) (id : String)
    : Sound (s.deleteComment id) ↔ ∀ c ∈ s.comments, c.parentId ≠ some id := by
  have hcomments : (s.deleteComment id).comments = s.comments.filter fun c => c.id ≠ id :=
    eraseP_eq_filter Comment.id h.unique id
  constructor
  . intro hsound c hc hparent
    have hid : c.id ≠ id := by
      intro hid
      apply h.notOwn c hc
      rw [hid]
      exact hparent
    obtain ⟨parent, hmem, hpid, _⟩ := hsound.parents c (by simp [hcomments, hc, hid]) id hparent
    rw [hcomments, mem_filter] at hmem
    exact of_decide_eq_true hmem.2 hpid
  . intro hnone
    refine ⟨h.versions, h.snapshots, ?_, ?_, h.states⟩
    . intro c hc
      rw [hcomments] at hc
      exact h.comments c (mem_filter.mp hc).1
    . intro c hc parentId hparent
      rw [hcomments] at hc ⊢
      have hc := (mem_filter.mp hc).1
      obtain ⟨parent, hmem, hid, hdoc⟩ := h.parents c hc parentId hparent
      refine ⟨parent, mem_filter.mpr ⟨hmem, ?_⟩, hid, hdoc⟩
      rw [decide_eq_true_eq, hid]
      intro heq
      rw [heq] at hparent
      exact hnone c hc hparent

theorem sound_addComment_iff (h : Inv s)
    (hparent : parentId ≠ some id)
    : Sound (s.addComment id docId content userId userName position parentId)
      ↔ (content.getD "" ≠ "" → docId ∈ s.documentIds ∧ ∀ p ∈ orNull parentId,
          ∃ parent ∈ s.comments, parent.id = p ∧ parent.documentId = docId) := by
  unfold addComment
  split
  . next hempty => simp [hempty, h.toSound]
  . next hcontent =>
    rw [forall_prop_of_true hcontent]
    constructor
    . intro hsound
      have hdoc := hsound.comments _ (mem_append_right _ (mem_singleton.mpr rfl))
      refine ⟨hdoc, ?_⟩
      intro p hp
      obtain ⟨parent, hmem, hid, hsame⟩ :=
        hsound.parents _ (mem_append_right _ (mem_singleton.mpr rfl)) p hp
      rw [mem_append, mem_singleton] at hmem
      cases hmem with
      | inl hmem => exact ⟨parent, hmem, hid, hsame⟩
      | inr hmem =>
        rw [hmem] at hid
        dsimp only at hid
        apply absurd _ hparent
        rw [hid]
        exact Option.eq_some_of_filter_eq_some hp
    . rintro ⟨hdoc, hpar⟩
      refine ⟨h.versions, h.snapshots, ?_, ?_, h.states⟩
      . rw [forall_mem_append, forall_mem_singleton]
        exact ⟨h.comments, hdoc⟩
      . intro c hc p hp
        rw [mem_append, mem_singleton] at hc
        cases hc with
        | inl hc =>
          obtain ⟨parent, hmem, hrest⟩ := h.parents c hc p hp
          exact ⟨parent, mem_append_left _ hmem, hrest⟩
        | inr hc =>
          rw [hc] at hp ⊢
          obtain ⟨parent, hmem, hrest⟩ := hpar p hp
          exact ⟨parent, mem_append_left _ hmem, hrest⟩

variable [SemilatticeSup S] [DecidableEq S] [OrderBot S]

def Harmless (s : Store S) : Route S → Prop
  | .live event => ∀ r ∈ s.server.written event, s.Known r
  | .addComment _ docId content _ _ _ parentId => content.getD "" ≠ "" →
    docId ∈ s.documentIds ∧ ∀ p ∈ orNull parentId,
      ∃ parent ∈ s.comments, parent.id = p ∧ parent.documentId = docId
  | .deleteComment id => ∀ c ∈ s.comments, c.parentId ≠ some id
  | _ => True

instance (s : Store S) (r : Route S) : Decidable (s.Harmless r) := by
  cases r <;> unfold Harmless <;> infer_instance

theorem sound_live_iff (h : Inv s) (event : Event S)
    : Sound { s with server := s.server.step event }
        ↔ ∀ r ∈ s.server.written event, s.Known r := by
  have hrows := rows_iff.mpr ⟨h.versions, h.snapshots, h.states⟩
  have hknown (r : Reference) : Known { s with server := s.server.step event } r ↔ s.Known r := by
    cases r <;> simp [Known, stateFiles, documentIds, Server.statePath_step]
  have hstep : (∀ r, (s.server.step event).Mentions r → Known { s with server := s.server.step event } r)
      ↔ ∀ r ∈ s.server.written event, s.Known r := by
    simp only [Server.mentions_step, hknown, or_imp, forall_and, Option.mem_def]
    exact and_iff_right hrows
  rw [← hstep]
  constructor
  . intro hsound
    exact rows_iff.mpr ⟨hsound.versions, hsound.snapshots, hsound.states⟩
  . intro hall
    obtain ⟨hversions, hsnapshots, hstates⟩ :=
      rows_iff (s := { s with server := s.server.step event }).mp hall
    exact ⟨hversions, hsnapshots, h.comments, h.parents, hstates⟩

theorem sound_step_iff (h : Inv s) (hfresh : Fresh s r) : Sound (s.step r) ↔ Harmless s r := by
  cases r with
  | live event => apply sound_live_iff h
  | createDocument id => exact iff_of_true (inv_createDocument h id).toSound trivial
  | updateDocument id title => exact iff_of_true (inv_updateDocument h id title).toSound trivial
  | deleteDocument id => exact iff_of_true (inv_deleteDocument h id).toSound trivial
  | addComment id docId content userId userName position parentId =>
    apply sound_addComment_iff h hfresh.2
  | resolveComment id resolved => exact iff_of_true (inv_resolveComment h id resolved).toSound trivial
  | deleteComment id => apply sound_deleteComment_iff h

theorem inv_step (h : Inv s) (hfresh : Fresh s r) (hr : Harmless s r) : Inv (s.step r) := by
  have hsound := (sound_step_iff h hfresh).mpr hr
  cases r with
  | live event => exact ⟨hsound, h.unique, h.notOwn⟩
  | createDocument id => apply inv_createDocument h
  | updateDocument id title => apply inv_updateDocument h
  | deleteDocument id => apply inv_deleteDocument h
  | addComment id docId content userId userName position parentId =>
    refine ⟨hsound, ?_, ?_⟩
    all_goals
      simp only [step, addComment]
      split
    . exact h.unique
    . rw [map_append, map_singleton, ← concat_eq_append]
      exact h.unique.concat hfresh.1
    . exact h.notOwn
    . rw [forall_mem_append, forall_mem_singleton]
      refine ⟨h.notOwn, ?_⟩
      intro hparent
      exact hfresh.2 (Option.eq_some_of_filter_eq_some hparent)
  | resolveComment id resolved => apply inv_resolveComment h
  | deleteComment id =>
    have hsub : (s.deleteComment id).comments.Sublist s.comments := eraseP_sublist
    refine ⟨hsound, ?_, ?_⟩
    . apply Nodup.sublist _ h.unique
      exact hsub.map Comment.id
    . intro c hc
      apply h.notOwn
      exact hsub.subset hc

theorem always_sound_iff_addressed {statePath : String → String} {routes : List (Route S)}
    (hfresh : Run.Along step Fresh (init statePath) routes)
    : Run.Always step Sound (init statePath) routes ↔ Run.Along step Harmless (init statePath) routes := by
  apply Run.always_iff_along_of_along Inv Fresh _ _ _ (inv_init statePath) hfresh
  . intro s h
    exact h.toSound
  . intro s r h hfresh hr
    apply inv_step h hfresh hr
  . intro s r h hfresh hnot hsound
    apply hnot
    exact (sound_step_iff h hfresh).mp hsound

def editedAndCommented : List (Route (Finset Nat)) :=
  [.createDocument "doc", .live (.join 1 "doc"), .live (.resume 0),
    .live (.yjsMessage 1 (.syncUpdate {1})), .live (.create .version "doc"),
    .addComment "c1" "doc" (some "first") none none none none,
    .addComment "c2" "doc" (some "answer") none none none (some "c1")]

theorem always_sound_iff_addressed_closed
    : Run.Along step Fresh (init fun docId => docId) (editedAndCommented ++ [.deleteComment "c2", .deleteDocument "doc"])
      ∧ Run.Always step Sound (init fun docId => docId)
        (editedAndCommented ++ [.deleteComment "c2", .deleteDocument "doc"]) := by
  have hfresh : Run.Along step Fresh (init fun docId => docId)
      (editedAndCommented ++ [.deleteComment "c2", .deleteDocument "doc"]) := by decide
  exact ⟨hfresh, (always_sound_iff_addressed hfresh).mpr (by decide)⟩

theorem not_always_sound_savedLate_and_answered
    : ¬Run.Always step Sound (init fun docId => docId)
        (editedAndCommented ++ [.deleteDocument "doc", .live (.yjsMessage 1 (.syncUpdate {2}))])
      ∧ ¬Run.Always step Sound (init fun docId => docId) (editedAndCommented ++ [.deleteComment "c1"]) := by
  constructor
  . intro h
    have := h.last.states "doc" (by decide)
    revert this
    decide
  . intro h
    obtain ⟨parent, hmem, hid, _⟩ := h.last.parents
      ⟨"c2", "doc", "anonymous", "匿名用户", "answer", none, some "c1", false⟩ (by decide) "c1" rfl
    revert parent
    decide

end Store

end Gdocs
