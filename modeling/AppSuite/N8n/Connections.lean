import AppSuite.Data.ExceptFold
import AppSuite.N8n.Interfaces

/-!
This module contains the connection tables of a workflow, and `mapConnectionsByDestination`.
-/

namespace N8n

open ExceptFold List OrderedMap

def connectionsAt (connections : IConnections) (name : String) (type : NodeConnectionType)
    (index : Nat) : List IConnection :=
  (((connections.get? name).bind fun byType => byType.get? type).bind
    fun slots => SparseArray.get slots index).getD []

structure ConnectionEdge where
  node : String
  type : NodeConnectionType
  index : Nat
  target : IConnection
  deriving DecidableEq, Repr

def ConnectionEdge.reverse (e : ConnectionEdge) : ConnectionEdge :=
  ⟨e.target.node, e.target.type, e.target.index, ⟨e.node, e.type, e.index⟩⟩

def edgesOf (entry : String × INodeConnections) : List ConnectionEdge :=
  entry.2.entries.flatMap fun byType =>
    byType.2.zipIdx.flatMap fun slot =>
      (slot.1.getD []).map fun target => ⟨entry.1, byType.1, slot.2, target⟩

def edgeList (connections : IConnections) : List ConnectionEdge :=
  (PlainObject.ownEntries connections).flatMap edgesOf

variable {e : ConnectionEdge} {connections : IConnections}

theorem reverse_involutive : Function.Involutive ConnectionEdge.reverse := fun _ => rfl

theorem mem_getD_nil {α : Type} {o : Option (List α)} {a : α} : a ∈ o.getD [] ↔ ∃ l, o = some l ∧ a ∈ l := by
  cases o <;> simp

theorem get_eq_some_iff {slots : NodeInputConnections}
    : SparseArray.get slots i = some targets ↔ slots[i]? = some (some targets) := by
  cases h : slots[i]? <;> simp [SparseArray.get, h, Option.default_eq_none]

theorem mem_edgesOf {entry : String × INodeConnections}
    : e ∈ edgesOf entry
        ↔
      e.node = entry.1
        ∧ e.target ∈ ((entry.2.get? e.type).bind fun slots => SparseArray.get slots e.index).getD [] := by
  cases e
  simp only [edgesOf, mem_flatMap, mem_map, Prod.exists, mem_zipIdx_iff_getElem?, ← get?_eq_some_iff,
    mem_getD_nil, Option.bind_eq_some_iff, get_eq_some_iff, ConnectionEdge.mk.injEq]
  constructor
  . rintro ⟨_, slots, hslots, _, _, hslot, _, ⟨targets, rfl, htarget⟩, rfl, rfl, rfl, rfl⟩
    exact ⟨rfl, targets, ⟨slots, hslots, hslot⟩, htarget⟩
  . rintro ⟨rfl, targets, ⟨slots, hslots, hslot⟩, htarget⟩
    exact ⟨_, slots, hslots, _, _, hslot, _, ⟨targets, rfl, htarget⟩, rfl, rfl, rfl, rfl⟩

theorem mem_edgeList
    : e ∈ edgeList connections ↔ e.target ∈ connectionsAt connections e.node e.type e.index := by
  simp only [edgeList, connectionsAt, mem_flatMap, PlainObject.mem_ownEntries, Prod.exists, mem_edgesOf,
    ← get?_eq_some_iff, mem_getD_nil, Option.bind_eq_some_iff]
  constructor
  . rintro ⟨_, byType, hname, rfl, targets, ⟨slots, hslots⟩, htarget⟩
    exact ⟨targets, ⟨slots, ⟨byType, hname, hslots.1⟩, hslots.2⟩, htarget⟩
  . rintro ⟨targets, ⟨slots, ⟨byType, hname, hslots⟩, hslot⟩, htarget⟩
    exact ⟨_, byType, hname, rfl, targets, ⟨slots, hslots, hslot⟩, htarget⟩

theorem count_flatMap {α β κ : Type} [DecidableEq β] {key : α → κ} {l : List α} (hl : (l.map key).Nodup)
    {f : α → List β} {b : β} {x : α} (hx : x ∈ l) (hf : ∀ y, b ∈ f y → key y = key x)
    : (l.flatMap f).count b = (f x).count b := by
  obtain ⟨front, back, rfl⟩ := append_of_mem hx
  rw [map_append, map_cons, nodup_middle, nodup_cons, ← map_append, mem_map] at hl
  have hnot : b ∉ (front ++ back).flatMap f := by
    rw [mem_flatMap]
    rintro ⟨y, hy, hb⟩
    exact hl.1 ⟨y, hy, hf y hb⟩
  rw [flatMap_append, mem_append, not_or] at hnot
  rw [flatMap_append, flatMap_cons, count_append, count_append, count_eq_zero.mpr hnot.1,
    count_eq_zero.mpr hnot.2, Nat.zero_add, Nat.add_zero]

-- Names, types and indices are listed once each, so the edges between two ends are those of one slot.
theorem count_edgeList (e : ConnectionEdge)
    : (edgeList connections).count e = (connectionsAt connections e.node e.type e.index).count e.target := by
  by_cases he : e ∈ edgeList connections
  . have hat := he
    simp only [edgeList, edgesOf, mem_flatMap, mem_map] at hat
    obtain ⟨entry, hentry, byType, hbyType, slot, hslot, target, htarget, rfl⟩ := hat
    have hnames := ((PlainObject.perm_ownEntries connections).map Prod.fst).nodup_iff.mpr connections.nodup
    have hindices : (byType.2.zipIdx.map Prod.snd).Nodup := by
      rw [zipIdx_map_snd]
      exact nodup_range'
    have hat : connectionsAt connections entry.1 byType.1 slot.2 = slot.1.getD [] := by
      simp [connectionsAt, get?_eq_some_iff.mpr (PlainObject.mem_ownEntries.mp hentry),
        get?_eq_some_iff.mpr hbyType, SparseArray.get, mem_zipIdx_iff_getElem?.mp hslot]
    rw [edgeList, count_flatMap hnames hentry (fun _ hy => (mem_edgesOf.mp hy).1.symm), edgesOf,
      count_flatMap entry.2.nodup hbyType (by simp), count_flatMap hindices hslot (by simp), hat]
    exact count_map_of_injective _ _ (fun _ _ h => (ConnectionEdge.mk.inj h).2.2.2) _
  . rw [count_eq_zero.mpr he, count_eq_zero.mpr (mt mem_edgeList.mpr he)]

namespace mapConnectionsByDestination

variable (slots : NodeInputConnections) (index : Nat)

def pad : NodeInputConnections :=
  slots ++ List.replicate (index + 1 - slots.length) (some [])

def push (connection : IConnection) : NodeInputConnections :=
  slots.modify index (Option.map (· ++ [connection]))

def addReversed (returnConnection : IConnections) (e : ConnectionEdge) : IConnections :=
  let byType := (returnConnection.get? e.target.node).getD empty
  let slots := (byType.get? e.target.type).getD []
  returnConnection.set e.target.node
    (byType.set e.target.type
      (push (pad slots e.target.index) e.target.index ⟨e.node, e.type, e.index⟩))

end mapConnectionsByDestination

-- What the function returns where no node has one of the two names that it treats differently.
def reverseConnections (connections : IConnections) : IConnections :=
  (edgeList connections).foldl mapConnectionsByDestination.addReversed empty

-- An own property `hasOwnProperty` hides the method that the loops call, and an object assigned to
-- `__proto__` becomes the prototype instead of a property.
def mapConnectionsByDestination.addConnection (returnConnection : IConnections) (e : ConnectionEdge)
    : Except JsError IConnections :=
  if returnConnection.has "hasOwnProperty" then
    throw .typeError
  else if e.target.node = "__proto__" then
    pure returnConnection
  else
    pure (addReversed returnConnection e)

def mapConnectionsByDestination (connections : IConnections) : Except JsError IConnections :=
  if connections.has "hasOwnProperty" then
    throw .typeError
  else
    (edgeList connections).foldlM mapConnectionsByDestination.addConnection empty

namespace mapConnectionsByDestination

def Dense (connections : IConnections) : Prop :=
  ∀ name byType type slots, connections.get? name = some byType → byType.get? type = some slots →
    none ∉ slots

variable {slots : NodeInputConnections} {r : IConnections}

theorem pad_dense (h : none ∉ slots) (index : Nat) : none ∉ pad slots index := by
  unfold pad
  simp [h]

theorem push_dense (h : none ∉ slots) (index : Nat) (connection : IConnection)
    : none ∉ push slots index connection := by
  unfold push
  intro hmem
  obtain ⟨i, hi⟩ := mem_iff_getElem?.mp hmem
  rw [getElem?_modify] at hi
  cases hslot : slots[i]? with
  | none => simp [hslot] at hi
  | some slot =>
    cases slot with
    | none => exact h (mem_iff_getElem?.mpr ⟨i, hslot⟩)
    | some connections =>
      rw [hslot] at hi
      split at hi <;> simp at hi

theorem get_pad (slots : NodeInputConnections) (index i : Nat)
    : (SparseArray.get (pad slots index) i).getD [] = (SparseArray.get slots i).getD [] := by
  unfold pad SparseArray.get
  cases Nat.lt_or_ge i slots.length with
  | inl hlt => rw [getElem?_append_left hlt]
  | inr hge =>
    rw [getElem?_append_right hge, getElem?_replicate, getElem?_eq_none hge]
    split <;> rfl

theorem getElem?_pad (h : none ∉ slots) (index : Nat)
    : ∃ targets, (pad slots index)[index]? = some (some targets) := by
  have hlt : index < (pad slots index).length := by
    simp [pad]
    omega
  have hmem := getElem_mem hlt
  rw [getElem?_eq_getElem hlt]
  cases htargets : (pad slots index)[index] with
  | none => exact absurd (htargets ▸ hmem) (pad_dense h index)
  | some targets => exact ⟨targets, rfl⟩

theorem get_push_pad (h : none ∉ slots) (index i : Nat) (connection : IConnection)
    : (SparseArray.get (push (pad slots index) index connection) i).getD []
        =
      if index = i then
        (SparseArray.get slots i).getD [] ++ [connection]
      else
        (SparseArray.get slots i).getD [] := by
  rw [← get_pad slots index i]
  unfold push SparseArray.get
  rw [getElem?_modify]
  split
  . next heq =>
    subst heq
    obtain ⟨targets, htargets⟩ := getElem?_pad h index
    simp [htargets]
  . cases (pad slots index)[i]? <;> simp

def slotsAt (r : IConnections) (name : String) (type : NodeConnectionType) : NodeInputConnections :=
  (((r.get? name).getD empty).get? type).getD []

theorem connectionsAt_eq (r : IConnections) (name : String) (type : NodeConnectionType) (index : Nat)
    : connectionsAt r name type index = (SparseArray.get (slotsAt r name type) index).getD [] := by
  unfold connectionsAt slotsAt
  cases r.get? name with
  | none => simp [Option.default_eq_none]
  | some byType => cases h : byType.get? type <;> simp [h, Option.default_eq_none]

theorem dense_iff : Dense r ↔ ∀ name type, none ∉ slotsAt r name type := by
  unfold Dense slotsAt
  constructor
  . intro h name type
    cases hname : r.get? name with
    | none => simp
    | some byType =>
      cases htype : byType.get? type with
      | none => simp [htype]
      | some slots => simpa [htype] using h name byType type slots hname htype
  . intro h name byType type slots hname htype
    simpa [hname, htype] using h name type

theorem slotsAt_addReversed (e : ConnectionEdge) (name : String) (type : NodeConnectionType)
    : slotsAt (addReversed r e) name type
      = if e.target.node = name ∧ e.target.type = type then
          push (pad (slotsAt r name type) e.target.index) e.target.index ⟨e.node, e.type, e.index⟩
        else
          slotsAt r name type := by
  by_cases hname : e.target.node = name
  . subst hname
    by_cases htype : e.target.type = type
    . subst htype
      simp [slotsAt, addReversed]
    . simp [slotsAt, addReversed, htype, get?_set_ne]
  . simp [slotsAt, addReversed, hname, get?_set_ne]

theorem dense_addReversed (h : Dense r) (e : ConnectionEdge) : Dense (addReversed r e) := by
  rw [dense_iff] at h ⊢
  intro name type
  rw [slotsAt_addReversed]
  split
  . exact push_dense (pad_dense (h name type) _) _ _
  . exact h name type

theorem connectionsAt_addReversed (h : Dense r) (e : ConnectionEdge) (name : String)
    (type : NodeConnectionType) (index : Nat)
    : connectionsAt (addReversed r e) name type index
        =
      if e.target = ⟨name, type, index⟩ then
        connectionsAt r name type index ++ [⟨e.node, e.type, e.index⟩]
      else
        connectionsAt r name type index := by
  rw [connectionsAt_eq, connectionsAt_eq, slotsAt_addReversed]
  simp only [IConnection.ext_iff]
  by_cases hslots : e.target.node = name ∧ e.target.type = type
  . rw [if_pos hslots, get_push_pad (dense_iff.mp h name type)]
    simp [hslots]
  . rw [if_neg hslots, if_neg (fun h => hslots ⟨h.1, h.2.1⟩)]

theorem count_connectionsAt_foldl (es : List ConnectionEdge) (h : Dense r) (e : ConnectionEdge)
    : (connectionsAt (es.foldl addReversed r) e.node e.type e.index).count e.target
      = (connectionsAt r e.node e.type e.index).count e.target + es.count e.reverse := by
  induction es generalizing r with
  | nil => simp
  | cons d ds ih =>
    rw [foldl_cons, ih (dense_addReversed h d), connectionsAt_addReversed h, count_cons]
    have hrev : d.target = ⟨e.node, e.type, e.index⟩ ∧ e.target = ⟨d.node, d.type, d.index⟩
        ↔ d = e.reverse := by
      cases e
      cases d
      simp only [ConnectionEdge.reverse, ConnectionEdge.mk.injEq, IConnection.ext_iff]
      tauto
    split
    . next heq =>
      simp only [heq, true_and] at hrev
      simp only [count_append, count_singleton, beq_iff_eq, eq_comm (b := e.target), hrev]
      omega
    . next hne =>
      have : d ≠ e.reverse := fun h => hne (hrev.mpr h).1
      simp [this]

theorem dense_empty : Dense empty := by
  intro name byType type slots hname
  simp at hname

theorem mem_keys_foldl (es : List ConnectionEdge) (r : IConnections) (name : String)
    : name ∈ (es.foldl addReversed r).keys ↔ name ∈ r.keys ∨ ∃ e ∈ es, e.target.node = name := by
  induction es generalizing r with
  | nil => simp
  | cons e es ih =>
    rw [foldl_cons, ih]
    unfold addReversed
    rw [mem_keys_set]
    simp only [mem_cons, exists_eq_or_imp]
    tauto

end mapConnectionsByDestination

theorem perm_edgeList_reverseConnections (connections : IConnections)
    : (edgeList (reverseConnections connections)).Perm ((edgeList connections).map .reverse) := by
  rw [perm_iff_count]
  intro e
  unfold reverseConnections
  rw [count_edgeList, mapConnectionsByDestination.count_connectionsAt_foldl _
    mapConnectionsByDestination.dense_empty, ← count_map_of_injective _ _ reverse_involutive.injective]
  simp [connectionsAt, reverse_involutive e]

theorem mem_edgeList_reverseConnections
    : e ∈ edgeList (reverseConnections connections) ↔ e.reverse ∈ edgeList connections := by
  rw [(perm_edgeList_reverseConnections connections).mem_iff, mem_map_of_involutive reverse_involutive]

theorem perm_edgeList_reverseConnections_twice (connections : IConnections)
    : (edgeList (reverseConnections (reverseConnections connections))).Perm (edgeList connections) := by
  have htwice := (perm_edgeList_reverseConnections connections).map ConnectionEdge.reverse
  rw [map_map, reverse_involutive.comp_self, map_id] at htwice
  exact (perm_edgeList_reverseConnections _).trans htwice

theorem mem_keys_reverseConnections
    : name ∈ (reverseConnections connections).keys ↔ ∃ e ∈ edgeList connections, e.target.node = name := by
  unfold reverseConnections
  rw [mapConnectionsByDestination.mem_keys_foldl]
  simp [OrderedMap.keys, empty]

theorem node_mem_keys (h : e ∈ edgeList connections) : e.node ∈ connections.keys := by
  obtain ⟨entry, hentry, he⟩ := mem_flatMap.mp h
  rw [(mem_edgesOf.mp he).1]
  exact mem_map_of_mem (PlainObject.mem_ownEntries.mp hentry)

structure PlainNames (connections : IConnections) : Prop where
  key : "hasOwnProperty" ∉ connections.keys
  source : ∀ e ∈ edgeList connections, e.node ≠ "__proto__"
  target : ∀ e ∈ edgeList connections, e.target.node ≠ "hasOwnProperty" ∧ e.target.node ≠ "__proto__"

namespace mapConnectionsByDestination

variable {r : IConnections}

theorem eq_ok_iff
    : mapConnectionsByDestination connections = .ok r
      ↔ "hasOwnProperty" ∉ connections.keys ∧ (edgeList connections).foldlM addConnection empty = .ok r := by
  unfold mapConnectionsByDestination
  rw [guard_eq_ok, has_iff]

theorem proto_not_mem_keys (h : mapConnectionsByDestination connections = .ok r)
    : "__proto__" ∉ r.keys := by
  apply inv_of_foldlM_ok (fun r => "__proto__" ∉ r.keys) _ not_mem_nil (eq_ok_iff.mp h).2
  intro r e r' _ hr hstep
  unfold addConnection at hstep
  rw [guard_eq_ok] at hstep
  split at hstep
  . rwa [← pure_eq_ok.mp hstep.2]
  . next hne =>
    rw [← pure_eq_ok.mp hstep.2, addReversed, mem_keys_set]
    exact not_or.mpr ⟨Ne.symm hne, hr⟩

theorem foldlM_addConnection (es : List ConnectionEdge) (hr : "hasOwnProperty" ∉ r.keys)
    (hes : ∀ e ∈ es, e.target.node ≠ "hasOwnProperty" ∧ e.target.node ≠ "__proto__")
    : es.foldlM addConnection r = .ok (es.foldl addReversed r) := by
  induction es generalizing r with
  | nil => rfl
  | cons e es ih =>
    rw [forall_mem_cons] at hes
    have hstep : addConnection r e = .ok (addReversed r e) := by
      unfold addConnection
      rw [if_neg (mt has_iff.mp hr), if_neg hes.1.2]
      rfl
    rw [foldlM_cons_of_ok hstep, foldl_cons, ih _ hes.2]
    rw [addReversed, mem_keys_set]
    exact not_or.mpr ⟨Ne.symm hes.1.1, hr⟩

end mapConnectionsByDestination

theorem PlainNames.eq_ok (h : PlainNames connections)
    : mapConnectionsByDestination connections = .ok (reverseConnections connections) :=
  mapConnectionsByDestination.eq_ok_iff.mpr
    ⟨h.key, mapConnectionsByDestination.foldlM_addConnection _ not_mem_nil h.target⟩

theorem PlainNames.reverseConnections (h : PlainNames connections)
    : PlainNames (reverseConnections connections) where
  key hkey := by
    obtain ⟨e, he, hnode⟩ := mem_keys_reverseConnections.mp hkey
    exact (h.target e he).1 hnode
  source e he := (h.target _ (mem_edgeList_reverseConnections.mp he)).2
  target e he := by
    have he := mem_edgeList_reverseConnections.mp he
    exact ⟨fun hnode => h.key (hnode ▸ node_mem_keys he), h.source _ he⟩

theorem mapConnectionsByDestination_reverses_iff (connections : IConnections)
    : ((∃ r, mapConnectionsByDestination connections = .ok r
        ∧ (edgeList r).Perm ((edgeList connections).map .reverse)
        ∧ ∃ r', mapConnectionsByDestination r = .ok r' ∧ (edgeList r').Perm (edgeList connections)) ∧
      ∀ (done : List ConnectionEdge) (next : ConnectionEdge),
        let slots := mapConnectionsByDestination.slotsAt
          (done.foldl mapConnectionsByDestination.addReversed .empty) next.target.node next.target.type
        ∃ targets,
          (mapConnectionsByDestination.pad slots next.target.index)[next.target.index]?
            = some (some targets))
      ↔ PlainNames connections := by
  constructor
  . rintro ⟨⟨r, hr, hperm, r', hr', hperm'⟩, _⟩
    have hkey := (mapConnectionsByDestination.eq_ok_iff.mp hr).1
    have hkey' := (mapConnectionsByDestination.eq_ok_iff.mp hr').1
    have htarget (e : ConnectionEdge) (he : e ∈ edgeList connections) : e.target.node ∈ r.keys :=
      node_mem_keys (hperm.mem_iff.mpr (mem_map_of_mem he))
    refine ⟨hkey, fun e he hnode => ?_, fun e he => ⟨fun hnode => ?_, fun hnode => ?_⟩⟩
    . have hmem := node_mem_keys (hperm'.mem_iff.mpr he)
      exact mapConnectionsByDestination.proto_not_mem_keys hr' (hnode ▸ hmem)
    . exact hkey' (hnode ▸ htarget e he)
    . exact mapConnectionsByDestination.proto_not_mem_keys hr (hnode ▸ htarget e he)
  . intro h
    refine ⟨⟨_, h.eq_ok, perm_edgeList_reverseConnections connections, _, h.reverseConnections.eq_ok,
      perm_edgeList_reverseConnections_twice connections⟩, fun done next => ?_⟩
    have hdense := foldlRecOn done _ mapConnectionsByDestination.dense_empty
      (fun _ h e _ => mapConnectionsByDestination.dense_addReversed h e)
    exact mapConnectionsByDestination.getElem?_pad
      (mapConnectionsByDestination.dense_iff.mp hdense _ _) _

def fromStart (targets : List String) : IConnections :=
  empty.set "Start" (empty.set .main [some (targets.map fun target => ⟨target, .main, 0⟩)])

theorem mapConnectionsByDestination_proto
    : edgeList (fromStart ["__proto__"]) = [⟨"Start", .main, 0, ⟨"__proto__", .main, 0⟩⟩]
      ∧ mapConnectionsByDestination (fromStart ["__proto__"]) = .ok empty
      ∧ mapConnectionsByDestination (fromStart ["hasOwnProperty", "Code"]) = .error .typeError :=
  ⟨by decide +kernel, rfl, rfl⟩

end N8n
