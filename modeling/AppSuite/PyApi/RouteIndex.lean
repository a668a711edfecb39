import AppSuite.Data.ExceptFold
import AppSuite.PyApi.RouteManager
import AppSuite.System.Run

/-!
This module contains the agreement of the two dictionaries of the route manager.
-/

namespace PyApi

open OrderedMap ExceptFold List

namespace DynamicRouteManager

def keyAt (m : DynamicRouteManager) (ref : Nat) : Option String := m.heap[ref]?.map DynamicRoute.key

structure IndexSound (m : DynamicRouteManager) : Prop where
  stored : ∀ key ref, m.routeByPath.get? key = some ref → ref ∈ m.routes.values ∧ m.keyAt ref = some key
  indexed : ∀ ref ∈ m.routes.values, ∀ key ∈ m.keyAt ref, key ∈ m.routeByPath.keys

variable {m : DynamicRouteManager} {route changed : DynamicRoute} {id key : String} {ref : Nat}

variable {upper : String → String}

def OnlyHolder (m : DynamicRouteManager) (ref : Nat) (key : String) : Prop :=
  ∀ other ∈ m.routes.values, m.keyAt other = some key → other = ref

instance (m : DynamicRouteManager) (ref : Nat) (key : String) : Decidable (m.OnlyHolder ref key) :=
  inferInstanceAs (Decidable (∀ other ∈ m.routes.values, _))

structure IndexInv (m : DynamicRouteManager) : Prop extends IndexSound m where
  allocated : ∀ ref ∈ m.routes.values, ref < m.heap.length
  unshared : ∀ id id' ref, m.routes.get? id = some ref → m.routes.get? id' = some ref → id = id'

theorem mem_values_delete (h : IndexInv m) (hid : m.routes.get? id = some ref)
    : other ∈ (m.routes.delete id).values ↔ other ∈ m.routes.values ∧ other ≠ ref := by
  rw [mem_values_iff, mem_values_iff]
  constructor
  . rintro ⟨id', hget⟩
    have ⟨hne, hget⟩ := get?_delete_eq_some hget
    refine ⟨⟨id', hget⟩, ?_⟩
    intro heq
    rw [heq] at hget
    exact hne (h.unshared id' id ref hget hid)
  . rintro ⟨⟨id', hget⟩, hne⟩
    refine ⟨id', ?_⟩
    rw [get?_delete, if_neg]
    . exact hget
    . intro heq
      rw [← heq, hid] at hget
      injection hget with hget
      exact hne hget.symm

theorem mem_values_of_get? (h : m.routes.get? id = some ref) : ref ∈ m.routes.values :=
  mem_values_iff.mpr ⟨id, h⟩

theorem keyAt_set (h : ref < m.heap.length) (route : DynamicRoute) (other : Nat)
    : keyAt { m with heap := m.heap.set ref route } other
        = if ref = other then some route.key else m.keyAt other := by
  unfold keyAt
  by_cases heq : ref = other
  . subst heq
    rw [if_pos rfl, getElem?_set_self h]
    rfl
  . rw [if_neg heq, getElem?_set_ne heq]

theorem indexSound_set_of_key_eq (h : IndexInv m) (hmem : ref ∈ m.routes.values)
    (hkey : m.keyAt ref = some changed.key)
    : IndexSound { m with heap := m.heap.set ref changed } := by
  have hsame : ∀ other, keyAt { m with heap := m.heap.set ref changed } other = m.keyAt other := by
    intro other
    rw [keyAt_set (h.allocated ref hmem)]
    split
    . next heq => rw [← heq, hkey]
    . rfl
  constructor
  . intro key ref' hget
    rw [hsame]
    exact h.stored key ref' hget
  . intro ref' hmem' key hk
    rw [hsame] at hk
    exact h.indexed ref' hmem' key hk

theorem indexSound_delete_iff (h : IndexInv m) (hid : m.routes.get? id = some ref)
    (hkey : m.keyAt ref = some key)
    : IndexSound
          { m with routes := m.routes.delete id, routeByPath := m.routeByPath.delete key }
        ↔ m.OnlyHolder ref key := by
  constructor
  . intro hsound other hmem hother
    by_contra hne
    have := hsound.indexed other ((mem_values_delete h hid).mpr ⟨hmem, hne⟩) key hother
    exact (mem_keys_delete.mp this).1 rfl
  . intro honly
    constructor
    . intro key' ref' hget
      have ⟨hne, hget⟩ := get?_delete_eq_some hget
      obtain ⟨hmem, hkey'⟩ := h.stored key' ref' hget
      refine ⟨(mem_values_delete h hid).mpr ⟨hmem, ?_⟩, hkey'⟩
      intro heq
      rw [heq, hkey] at hkey'
      injection hkey' with hkey'
      exact hne hkey'.symm
    . intro ref' hmem key' hkey'
      rw [mem_values_delete h hid] at hmem
      rw [mem_keys_delete]
      refine ⟨?_, h.indexed ref' hmem.1 key' hkey'⟩
      intro heq
      rw [heq] at hkey'
      exact hmem.2 (honly ref' hmem.1 hkey')

section

variable (h : IndexInv m) (hmem : ref ∈ m.routes.values) (hkey : m.keyAt ref = some key)
  (hne : key ≠ changed.key)

include h hmem hkey hne

theorem indexSound_rekey_iff
    : IndexSound
          { m with
            heap := m.heap.set ref changed
            routeByPath := (m.routeByPath.delete key).set changed.key ref }
        ↔ m.OnlyHolder ref key := by
  have hset := keyAt_set (h.allocated ref hmem) changed
  constructor
  . intro hsound other hother hk
    by_contra hdiff
    have hk' : keyAt { m with heap := m.heap.set ref changed } other = some key := by
      rw [hset, if_neg (Ne.symm hdiff)]
      exact hk
    have := hsound.indexed other hother key hk'
    rw [mem_keys_set, mem_keys_delete] at this
    rcases this with heq | hdel
    . exact hne heq
    . exact hdel.1 rfl
  . intro honly
    constructor
    . intro key' ref' hget
      rcases get?_set_eq_some hget with ⟨rfl, rfl⟩ | ⟨_, hget⟩
      . refine ⟨hmem, (hset ref').trans ?_⟩
        rw [if_pos rfl]
      . have ⟨hdiff, hget⟩ := get?_delete_eq_some hget
        obtain ⟨hmem', hkey'⟩ := h.stored key' ref' hget
        refine ⟨hmem', (hset ref').trans ?_⟩
        rw [if_neg]
        . exact hkey'
        . intro heq
          rw [← heq, hkey] at hkey'
          injection hkey' with hkey'
          exact hdiff hkey'.symm
    . intro ref' hmem' key' hkey'
      have hkey' := (hset ref').symm.trans hkey'
      rw [mem_keys_set, mem_keys_delete]
      split at hkey'
      . injection hkey' with hkey'
        exact Or.inl hkey'.symm
      . next hdiff =>
        right
        refine ⟨?_, h.indexed ref' hmem' key' hkey'⟩
        intro heq
        rw [heq] at hkey'
        exact hdiff (honly ref' hmem' hkey').symm

theorem indexSound_halfway_iff
    : IndexSound { m with heap := m.heap.set ref changed }
        ↔ m.routeByPath.get? key ≠ some ref ∧ changed.key ∈ m.routeByPath.keys := by
  have hset := keyAt_set (h.allocated ref hmem) changed
  constructor
  . intro hsound
    constructor
    . intro hget
      have := (hset ref).symm.trans (hsound.stored key ref hget).2
      rw [if_pos rfl] at this
      injection this with this
      exact hne this.symm
    . apply hsound.indexed ref hmem
      rw [hset, if_pos rfl]
      rfl
  . rintro ⟨hother, hnew⟩
    constructor
    . intro key' ref' hget
      obtain ⟨hmem', hkey'⟩ := h.stored key' ref' hget
      refine ⟨hmem', (hset ref').trans ?_⟩
      rw [if_neg]
      . exact hkey'
      . intro heq
        subst heq
        rw [hkey] at hkey'
        injection hkey' with hkey'
        apply hother
        rw [hkey']
        exact hget
    . intro ref' hmem' key' hkey'
      have hkey' := (hset ref').symm.trans hkey'
      split at hkey'
      . injection hkey' with hkey'
        rw [← hkey']
        exact hnew
      . exact h.indexed ref' hmem' key' hkey'

end

theorem keyAt_addRouteUnlocked (m : DynamicRouteManager) (route : DynamicRoute) (ref : Nat)
    : keyAt (m.addRouteUnlocked route) ref
      = if ref = m.heap.length then some route.key else m.keyAt ref := by
  unfold keyAt addRouteUnlocked
  split
  . next heq => simp [heq]
  . next hne =>
    by_cases hlt : ref < m.heap.length
    . rw [getElem?_append_left hlt]
    . rw [getElem?_eq_none (by simp; omega), getElem?_eq_none (by omega)]

theorem indexInv_addRouteUnlocked (h : IndexInv m) (hfresh : route.id ∉ m.routes.keys)
    : IndexInv (m.addRouteUnlocked route) := by
  have hvalues (ref : Nat) := mem_values_set_of_not_mem hfresh m.heap.length ref
  have hkey := keyAt_addRouteUnlocked m route
  refine ⟨⟨?_, ?_⟩, ?_, ?_⟩
  . intro key ref hget
    simp only [addRouteUnlocked] at hget ⊢
    rw [hvalues]
    rcases get?_set_eq_some hget with ⟨rfl, rfl⟩ | ⟨_, hget⟩
    . refine ⟨Or.inl rfl, (hkey _).trans ?_⟩
      rw [if_pos rfl]
    . obtain ⟨hmem, hk⟩ := h.stored key ref hget
      have := h.allocated ref hmem
      refine ⟨Or.inr hmem, (hkey ref).trans ?_⟩
      rw [if_neg (by omega)]
      exact hk
  . intro ref hmem key hk
    have hk := (hkey ref).symm.trans hk
    simp only [addRouteUnlocked] at hmem ⊢
    rw [hvalues] at hmem
    rw [mem_keys_set]
    split at hk
    . injection hk with hk
      exact Or.inl hk.symm
    . next hne => exact Or.inr (h.indexed ref (hmem.resolve_left hne) key hk)
  . intro ref hmem
    simp only [addRouteUnlocked, length_append, length_singleton] at hmem ⊢
    rw [hvalues] at hmem
    rcases hmem with heq | hmem
    . omega
    . have := h.allocated ref hmem
      omega
  . intro id id' ref hget hget'
    simp only [addRouteUnlocked, get?_set] at hget hget'
    split at hget <;> split at hget'
    . next heq heq' => rw [← heq, ← heq']
    . injection hget with hget
      have := h.allocated ref (mem_values_of_get? hget')
      omega
    . injection hget' with hget'
      have := h.allocated ref (mem_values_of_get? hget)
      omega
    . exact h.unshared id id' ref hget hget'

theorem indexInv_foldl_addRouteUnlocked (h : IndexInv m) {routes : List DynamicRoute}
    (hids : (routes.map DynamicRoute.id).Nodup) (hfresh : ∀ route ∈ routes, route.id ∉ m.routes.keys)
    : IndexInv (routes.foldl addRouteUnlocked m) := by
  induction routes generalizing m with
  | nil => exact h
  | cons route routes ih =>
    rw [map_cons, nodup_cons] at hids
    rw [forall_mem_cons] at hfresh
    apply ih (indexInv_addRouteUnlocked h hfresh.1) hids.2
    intro other hother hmem
    rcases mem_keys_set.mp hmem with heq | hmem
    . apply hids.1
      rw [← heq]
      exact mem_map_of_mem hother
    . exact hfresh.2 other hother hmem

theorem id_of_newRoute {now : String} (h : newRoute upper id now data = .ok route)
    : route.id = id := by
  unfold newRoute at h
  simp only [bind_eq_ok, pure_eq_ok] at h
  obtain ⟨_, _, _, _, _, _, rfl⟩ := h
  rfl

theorem keyAt_of_getElem? (hroute : m.heap[ref]? = some route) : m.keyAt ref = some route.key := by
  rw [keyAt, hroute]
  rfl

theorem IndexInv.has_key (h : IndexInv m) (hid : m.routes.get? id = some ref)
    (hroute : m.heap[ref]? = some route)
    : m.routeByPath.has route.key = true :=
  has_iff.mpr (h.indexed ref (mem_values_of_get? hid) _ (keyAt_of_getElem? hroute))

theorem IndexInv.exists_route (h : IndexInv m) (hid : m.routes.get? id = some ref)
    : ∃ route, m.heap[ref]? = some route :=
  ⟨_, getElem?_eq_getElem (h.allocated ref (mem_values_of_get? hid))⟩

theorem deleteRoute_of_none (hid : m.routes.get? id = none) : m.deleteRoute id = (.ok false, m) := by
  rw [deleteRoute, hid]

theorem deleteRoute_of_get? (h : IndexInv m) (hid : m.routes.get? id = some ref)
    (hroute : m.heap[ref]? = some route)
    : m.deleteRoute id
        = (.ok true,
            { m with
              routes := m.routes.delete id
              routeByPath := m.routeByPath.delete route.key }) := by
  unfold deleteRoute
  simp [hid, hroute, h.has_key hid hroute]

theorem parse_ne_keyError (value : Option String) : RouteType.parse value ≠ .error .keyError := by
  unfold RouteType.parse
  split
  all_goals simp [pure_eq_error, throw_eq_error]

section

variable (upper : String → String) (r : DynamicRoute)

theorem applyChange_ne_keyError (change : Change) : applyChange upper r change ≠ .error .keyError := by
  intro h
  cases change with
  | path value => cases value <;> simp [applyChange, pure_eq_error, throw_eq_error] at h
  | method value => cases value <;> simp [applyChange, pure_eq_error, throw_eq_error] at h
  | routeType value =>
    rw [applyChange, bind_eq_error] at h
    cases h with
    | inl h => exact parse_ne_keyError value h
    | inr h =>
      have ⟨_, _, h⟩ := h
      rw [pure_eq_error] at h
      exact h
  | _ => simp [applyChange, pure_eq_error] at h

theorem applyChanges_ne_keyError (changes : List Change)
    : (applyChanges upper r changes).2 ≠ some .keyError := by
  induction changes generalizing r with
  | nil => simp [applyChanges]
  | cons change changes ih =>
    unfold applyChanges
    split
    . apply ih
    . next e herror =>
      rintro ⟨⟩
      exact applyChange_ne_keyError upper r change herror

theorem updateRoute_of_get? (h : IndexInv m) (hid : m.routes.get? id = some ref)
    (hroute : m.heap[ref]? = some route) (now : String) (changes : List Change)
    : m.updateRoute upper id now changes
        = match applyChanges upper route changes with
          | (changed, some e) => (.error e, { m with heap := m.heap.set ref changed })
          | (changed, none) =>
            if route.key ≠ changed.key then
              (.ok (some { changed with updatedAt := now }),
                { m with
                  heap := m.heap.set ref { changed with updatedAt := now }
                  routeByPath := (m.routeByPath.delete route.key).set changed.key ref })
            else
              (.ok (some { changed with updatedAt := now }),
                { m with heap := m.heap.set ref { changed with updatedAt := now } }) := by
  unfold updateRoute
  rw [hid]
  dsimp only
  rw [hroute]
  dsimp only
  rcases applyChanges upper route changes with ⟨changed, _ | e⟩
  . dsimp only
    rw [if_pos (h.has_key hid hroute)]
    rfl
  . rfl

end

end DynamicRouteManager

-- The manager together with the ids for which a call has raised `KeyError`.
structure Watched where
  manager : DynamicRouteManager
  keyErrors : List String

namespace Watched

open DynamicRouteManager

inductive Call where
  | create (id now : String) (data : RouteData)
  | update (routeId now : String) (changes : List Change)
  | delete (routeId : String)
  | toggle (routeId : String) (isActive : Bool) (now : String)

variable (upper : String → String)

def note {α : Type} (t : Watched) (routeId : String) (result : Except PyError α × DynamicRouteManager)
    : Watched :=
  { manager := result.2
    keyErrors :=
      match result.1 with
      | .error .keyError => t.keyErrors ++ [routeId]
      | _ => t.keyErrors }

def step (t : Watched) : Call → Watched
  | .create id now data => { t with manager := (t.manager.createRoute upper id now data).2 }
  | .update routeId now changes => t.note routeId (t.manager.updateRoute upper routeId now changes)
  | .delete routeId => t.note routeId (t.manager.deleteRoute routeId)
  | .toggle routeId isActive now =>
    { t with manager := (t.manager.toggleRoute routeId isActive now).2 }

def init (now : String) : Watched := ⟨.init now, []⟩

structure Sound (t : Watched) : Prop extends IndexSound t.manager where
  noKeyError : t.keyErrors = []

def Fresh (t : Watched) : Call → Prop
  | .create id _ _ => id ∉ t.manager.routes.keys
  | _ => True

def Harmless (t : Watched) : Call → Prop
  | .delete routeId => ∀ ref ∈ t.manager.routes.get? routeId, ∀ key ∈ t.manager.keyAt ref,
    t.manager.OnlyHolder ref key
  | .update routeId _ changes => ∀ ref ∈ t.manager.routes.get? routeId, ∀ route ∈ t.manager.heap[ref]?,
    route.key ≠ (applyChanges upper route changes).1.key →
      if (applyChanges upper route changes).2 = none then
        t.manager.OnlyHolder ref route.key
      else
        t.manager.routeByPath.get? route.key ≠ some ref
          ∧ (applyChanges upper route changes).1.key ∈ t.manager.routeByPath.keys
  | _ => True

instance (t : Watched) (call : Call) : Decidable (t.Fresh call) := by
  cases call <;> unfold Fresh <;> infer_instance

instance (t : Watched) (call : Call) : Decidable (t.Harmless upper call) := by
  cases call <;> unfold Harmless <;> infer_instance

structure Inv (t : Watched) : Prop extends IndexInv t.manager where
  noKeyError : t.keyErrors = []

theorem inv_init (now : String) : Inv (init now) := by
  refine ⟨?_, rfl⟩
  have hempty : IndexInv ⟨[], .empty, .empty⟩ := by
    refine ⟨⟨?_, ?_⟩, ?_, ?_⟩ <;> simp [mem_values_iff]
  have hids : (defaultRoutes now).map DynamicRoute.id
      = ["route_default_1", "route_default_2", "route_default_3", "route_default_4"] := rfl
  apply indexInv_foldl_addRouteUnlocked hempty
  . rw [hids]
    decide
  . intro route _ hmem
    contradiction

variable {t : Watched}

theorem sound_note {α : Type} (ht : t.keyErrors = []) (routeId : String)
    {result : Except PyError α × DynamicRouteManager} (hresult : result.1 ≠ .error .keyError)
    : Sound (t.note routeId result) ↔ IndexSound result.2 := by
  have hnone : (t.note routeId result).keyErrors = [] := by
    unfold note
    split
    . next heq => exact absurd heq hresult
    . exact ht
  constructor
  . intro hsound
    exact hsound.toIndexSound
  . intro hsound
    exact ⟨hsound, hnone⟩

variable {upper}

theorem Inv.sound (h : Inv t) : Sound t := ⟨h.toIndexSound, h.noKeyError⟩

theorem sound_delete_iff (h : Inv t) (routeId : String)
    : Sound (t.step upper (.delete routeId)) ↔ Harmless upper t (.delete routeId) := by
  cases hid : t.manager.routes.get? routeId with
  | none =>
    have : t.step upper (.delete routeId) = t := by
      rw [step, deleteRoute_of_none hid]
      rfl
    rw [this]
    apply iff_of_true h.sound
    simp [Harmless, hid]
  | some ref =>
    obtain ⟨route, hroute⟩ := h.exists_route hid
    have hkey := keyAt_of_getElem? hroute
    unfold step
    dsimp only
    rw [deleteRoute_of_get? h.toIndexInv hid hroute, sound_note h.noKeyError _ (by simp)]
    apply (indexSound_delete_iff h.toIndexInv hid hkey).trans
    unfold Harmless
    simp [hid, hkey]

theorem sound_update_iff (h : Inv t) (routeId now : String) (changes : List Change)
    : Sound (t.step upper (.update routeId now changes))
      ↔ Harmless upper t (.update routeId now changes) := by
  cases hid : t.manager.routes.get? routeId with
  | none =>
    have : t.step upper (.update routeId now changes) = t := by
      unfold step updateRoute
      dsimp only
      rw [hid]
      rfl
    rw [this]
    apply iff_of_true h.sound
    simp [Harmless, hid]
  | some ref =>
    obtain ⟨route, hroute⟩ := h.exists_route hid
    have hkey := keyAt_of_getElem? hroute
    have hmem := mem_values_of_get? hid
    have hraised := applyChanges_ne_keyError upper route changes
    simp only [Harmless, hid, hroute, Option.mem_some, forall_eq']
    unfold step
    dsimp only
    rw [updateRoute_of_get? upper h.toIndexInv hid hroute]
    cases hchanges : applyChanges upper route changes with
    | mk changed error =>
      rw [hchanges] at hraised
      cases error with
      | none =>
        dsimp only
        by_cases heq : route.key = changed.key
        . rw [if_neg (by simpa using heq), sound_note h.noKeyError _ (by simp)]
          apply iff_of_true
          . apply indexSound_set_of_key_eq h.toIndexInv hmem
            rw [hkey, heq]
            rfl
          . intro hne
            exact absurd heq hne
        . rw [if_pos heq, sound_note h.noKeyError _ (by simp)]
          have hnew : route.key ≠ DynamicRoute.key { changed with updatedAt := now } := heq
          apply (indexSound_rekey_iff h.toIndexInv hmem hkey hnew).trans
          simp [heq]
      | some e =>
        rw [sound_note h.noKeyError _ (by simpa using hraised)]
        by_cases heq : route.key = changed.key
        . apply iff_of_true
          . apply indexSound_set_of_key_eq h.toIndexInv hmem
            rw [hkey, heq]
          . intro hne
            exact absurd heq hne
        . apply (indexSound_halfway_iff h.toIndexInv hmem hkey heq).trans
          simp [heq]

variable {id now : String} {m : DynamicRouteManager} {call : Call}

theorem inv_create (h : Inv t) (hfresh : id ∉ t.manager.routes.keys)
    : Inv (t.step upper (.create id now data)) := by
  unfold step createRoute
  dsimp only
  split
  . next route hroute =>
    refine ⟨?_, h.noKeyError⟩
    apply indexInv_addRouteUnlocked h.toIndexInv
    rw [id_of_newRoute hroute]
    exact hfresh
  . exact h

theorem inv_toggle (h : Inv t) (routeId : String) (isActive : Bool) (now : String)
    : Inv (t.step upper (.toggle routeId isActive now)) := by
  unfold step toggleRoute
  dsimp only
  split
  . exact h
  . next ref hid =>
    split
    . exact h
    . next route hroute =>
      have hmem := mem_values_of_get? hid
      refine ⟨⟨?_, ?_, h.unshared⟩, h.noKeyError⟩
      . apply indexSound_set_of_key_eq h.toIndexInv hmem
        rw [keyAt_of_getElem? hroute]
        rfl
      . intro ref' hmem'
        simp only [length_set]
        exact h.allocated ref' hmem'

theorem indexInv_delete (h : IndexInv m) (id : String) (hsound : IndexSound (m.deleteRoute id).2)
    : IndexInv (m.deleteRoute id).2 := by
  cases hid : m.routes.get? id with
  | none =>
    rw [deleteRoute_of_none hid]
    exact h
  | some ref =>
    obtain ⟨route, hroute⟩ := h.exists_route hid
    refine ⟨hsound, ?_, ?_⟩ <;> rw [deleteRoute_of_get? h hid hroute] <;> dsimp only
    . intro ref' hmem
      apply h.allocated
      exact ((mem_values_delete h hid).mp hmem).1
    . intro a b ref' ha hb
      exact h.unshared a b ref' (get?_delete_eq_some ha).2 (get?_delete_eq_some hb).2

theorem frame_updateRoute (upper : String → String) (m : DynamicRouteManager) (id now : String)
    (changes : List Change)
    : (m.updateRoute upper id now changes).2.routes = m.routes
      ∧ (m.updateRoute upper id now changes).2.heap.length = m.heap.length := by
  unfold updateRoute
  split
  . exact ⟨rfl, rfl⟩
  . split
    . exact ⟨rfl, rfl⟩
    . split
      . simp
      . dsimp only
        split
        . split <;> simp
        . simp

theorem indexInv_update (h : IndexInv m)
    (hsound : IndexSound (m.updateRoute upper id now changes).2)
    : IndexInv (m.updateRoute upper id now changes).2 := by
  obtain ⟨hroutes, hlength⟩ := frame_updateRoute upper m id now changes
  refine ⟨hsound, ?_, ?_⟩
  . rw [hroutes, hlength]
    exact h.allocated
  . rw [hroutes]
    exact h.unshared

theorem sound_step_iff (h : Inv t) (hfresh : Fresh t call)
    : Sound (t.step upper call) ↔ Harmless upper t call := by
  cases call with
  | create id now data =>
    exact iff_of_true (inv_create h hfresh).sound trivial
  | update routeId now changes => apply sound_update_iff h
  | delete routeId => apply sound_delete_iff h
  | toggle routeId isActive now =>
    exact iff_of_true (inv_toggle h routeId isActive now).sound trivial

theorem inv_step (h : Inv t) (hfresh : Fresh t call) (hcall : Harmless upper t call)
    : Inv (t.step upper call) := by
  have hsound := (sound_step_iff h hfresh).mpr hcall
  cases call with
  | create id now data => apply inv_create h hfresh
  | update routeId now changes => exact ⟨indexInv_update h.toIndexInv hsound.toIndexSound, hsound.noKeyError⟩
  | delete routeId => exact ⟨indexInv_delete h.toIndexInv routeId hsound.toIndexSound, hsound.noKeyError⟩
  | toggle routeId isActive now => apply inv_toggle h

theorem always_sound_iff_onlyHolder (upper : String → String) {now : String} {calls : List Call}
    (hfresh : Run.Along (step upper) Fresh (init now) calls)
    : Run.Always (step upper) Sound (init now) calls
      ↔ Run.Along (step upper) (Harmless upper) (init now) calls := by
  apply Run.always_iff_along_of_along Inv Fresh _ _ _ (inv_init now) hfresh
  . intro t h
    exact h.sound
  . intro t call h hfresh hcall
    apply inv_step h hfresh hcall
  . intro t call h hfresh hnot hsound
    apply hnot
    exact (sound_step_iff h hfresh).mp hsound

def getData (path : String) : RouteData := ⟨some path, none, none, .empty⟩

theorem always_sound_iff_onlyHolder_renamed
    : Run.Along (step fun s => s) Fresh (init "now")
        [.create "a" "t1" (getData "users"), .update "a" "t2" [.path (some "/people")],
          .create "b" "t3" (getData "users"), .toggle "b" false "t4", .delete "a"]
      ∧ Run.Always (step fun s => s) Sound (init "now")
        [.create "a" "t1" (getData "users"), .update "a" "t2" [.path (some "/people")],
          .create "b" "t3" (getData "users"), .toggle "b" false "t4", .delete "a"] := by
  have hfresh : Run.Along (step fun s => s) Fresh (init "now")
      [.create "a" "t1" (getData "users"), .update "a" "t2" [.path (some "/people")],
        .create "b" "t3" (getData "users"), .toggle "b" false "t4", .delete "a"] := by decide
  exact ⟨hfresh, (always_sound_iff_onlyHolder _ hfresh).mpr (by decide)⟩

theorem not_always_sound_sameKey
    : ¬Run.Always (step fun s => s) Sound (init "now")
        [.create "a" "t1" (getData "users"), .create "b" "t2" (getData "users"), .delete "a"]
      ∧ ([.create "a" "t1" (getData "users"), .create "b" "t2" (getData "users"), .delete "a",
            .delete "b"].foldl (step fun s => s) (init "now")).keyErrors = ["b"] := by
  constructor
  . intro h
    have := h.last.indexed 5 (by decide) "GET:/dynamic/users" (by decide)
    revert this
    decide
  . decide

end Watched

end PyApi
