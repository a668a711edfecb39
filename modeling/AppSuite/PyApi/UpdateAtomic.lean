import AppSuite.PyApi.RouteManager

/-!
This module contains when an update that raises leaves the manager of dynamic routes as it was.
-/

namespace PyApi

namespace Change

def key : Change → String
  | .path _ => "path"
  | .method _ => "method"
  | .routeType _ => "route_type"
  | .attribute name _ => name

def refused : Change → Bool
  | .path value | .method value => value.isNone
  | .routeType value => (RouteType.parse value).toOption.isNone
  | .attribute _ _ => false

-- What an accepted change makes of a route.
def assign (upper : String → String) (r : DynamicRoute) : Change → DynamicRoute
  | .path value => { r with path := (value.map normalizePath).getD r.path }
  | .method value => { r with method := (value.map upper).getD r.method }
  | .routeType value => { r with routeType := (RouteType.parse value).toOption.getD r.routeType }
  | .attribute name value =>
    if r.attributes.has name then { r with attributes := r.attributes.set name value } else r

end Change

namespace DynamicRouteManager

open Change

variable (upper : String → String) (r : DynamicRoute)

theorem applyChange_eq (c : Change)
    : if c.refused then ∃ e, applyChange upper r c = .error e
      else applyChange upper r c = .ok (c.assign upper r) := by
  match c with
  | .path none | .method none => exact ⟨_, rfl⟩
  | .path (some _) | .method (some _) | .attribute _ _ => rfl
  | .routeType value =>
    cases hparse : RouteType.parse value <;>
      simp [refused, applyChange, assign, hparse, Except.toOption, bind, Except.bind, pure, Except.pure]

theorem assign_attribute_eq_self_iff {name : String} {value : PyValue}
    : (Change.attribute name value).assign upper r = r ↔ ∀ v, r.attributes.get? name = some v → v = value := by
  rw [assign]
  cases hget : r.attributes.get? name with
  | none => simp [OrderedMap.has, hget]
  | some v =>
    have hset : r.attributes.set name value = r.attributes ↔ v = value := by
      constructor
      . intro h
        have hvalue := OrderedMap.get?_set_self r.attributes name value
        rw [h, hget] at hvalue
        injection hvalue
      . intro h
        rw [OrderedMap.set_eq_self (by rw [hget, h])]
    cases r
    simp_all [OrderedMap.has]

theorem assign_assign_self (c : Change) : c.assign upper (c.assign upper r) = c.assign upper r := by
  cases c with
  | path value | method value => cases value <;> rfl
  | routeType value => cases h : RouteType.parse value <;> simp [assign, h, Except.toOption]
  | _ =>
    rw [assign_attribute_eq_self_iff, assign]
    split <;> simp_all [OrderedMap.has]

theorem assign_assign_of_ne {c d : Change} (hne : d.key ≠ c.key) (h : c.assign upper r = r)
    : c.assign upper (d.assign upper r) = d.assign upper r := by
  cases c with
  | path value | method value | routeType value =>
    cases r
    cases d <;> simp_all [assign, key]
    split <;> simp_all
  | _ =>
    rw [assign_attribute_eq_self_iff] at h ⊢
    cases d <;> simp_all [assign]
    split <;> simp_all [key, OrderedMap.get?_set_ne]

theorem applyChanges_eq (changes : List Change)
    : if changes.any refused then
        ∃ e, applyChanges upper r changes
          = ((changes.takeWhile (!·.refused)).foldl (assign upper) r, some e)
      else applyChanges upper r changes = (changes.foldl (assign upper) r, none) := by
  induction changes generalizing r with
  | nil => rfl
  | cons c changes ih =>
    rw [applyChanges]
    have hchange := applyChange_eq upper r c
    cases hc : c.refused with
    | true =>
      rw [hc] at hchange
      have ⟨e, he⟩ := hchange
      simp [hc, he]
    | false =>
      rw [hc] at hchange
      simpa [hc, show applyChange upper r c = .ok (c.assign upper r) from hchange] using ih _

variable {upper} {r} {changes : List Change}

theorem assign_foldl_of_ne {c : Change} (hne : ∀ d ∈ changes, d.key ≠ c.key) (h : c.assign upper r = r)
    : c.assign upper (changes.foldl (assign upper) r) = changes.foldl (assign upper) r := by
  induction changes generalizing r with
  | nil => assumption
  | cons d changes ih =>
    rw [List.forall_mem_cons] at hne
    exact ih hne.2 (assign_assign_of_ne upper r hne.1 h)

theorem foldl_assign_eq_self_iff (hkeys : (changes.map key).Nodup)
    : changes.foldl (assign upper) r = r ↔ ∀ c ∈ changes, c.assign upper r = r := by
  constructor
  . have hlast : ∀ c ∈ changes, c.assign upper (changes.foldl (assign upper) r)
        = changes.foldl (assign upper) r := by
      induction changes generalizing r with
      | nil => nofun
      | cons d changes ih =>
        rw [List.map_cons, List.nodup_cons] at hkeys
        rw [List.forall_mem_cons]
        refine ⟨assign_foldl_of_ne (r := d.assign upper r) ?_ (assign_assign_self upper r d), ih hkeys.2⟩
        intro c hc heq
        apply hkeys.1
        rw [← heq]
        exact List.mem_map_of_mem hc
    intro heq c hc
    rw [← heq]
    exact hlast c hc
  . intro h
    induction changes with
    | nil => rfl
    | cons c changes ih =>
      rw [List.forall_mem_cons] at h
      rw [List.foldl_cons, h.1, ih (List.nodup_cons.mp hkeys).2 h.2]

def RaisesCleanly (m : DynamicRouteManager) (upper : String → String) (routeId : String)
    (changes : List Change) : Prop :=
  ∀ route ∈ (m.routes.get? routeId).bind (m.heap[·]?),
    if changes.any refused then ∀ c ∈ changes.takeWhile (!·.refused), c.assign upper route = route
    else route.key = (changes.foldl (assign upper) route).key ∨ m.routeByPath.has route.key = true

theorem set_heap_eq_self_iff {m : DynamicRouteManager} (h : m.heap[ref]? = some r) {changed : DynamicRoute}
    : { m with heap := m.heap.set ref changed } = m ↔ changed = r := by
  have ⟨hlt, hr⟩ := List.getElem?_eq_some_iff.mp h
  constructor
  . intro heq
    have hheap : m.heap.set ref changed = m.heap := congrArg heap heq
    have hget := List.getElem?_set_self hlt (a := changed)
    rw [hheap, h] at hget
    injection hget with hget
    exact hget.symm
  . intro heq
    rw [heq, ← hr, List.set_getElem_self]

theorem updateRoute_atomic_iff (m : DynamicRouteManager) (upper : String → String) (routeId now : String)
    (changes : List Change) (hkeys : (changes.map key).Nodup)
    : (∀ e m', m.updateRoute upper routeId now changes = (.error e, m') → m' = m)
      ↔ m.RaisesCleanly upper routeId changes := by
  unfold updateRoute RaisesCleanly
  cases hid : m.routes.get? routeId with
  | none => simp
  | some ref =>
    cases hroute : m.heap[ref]? with
    | none => simp [hroute]
    | some route =>
      have heq := applyChanges_eq upper route changes
      simp only [hroute, Option.bind_some, Option.mem_some_iff, forall_eq']
      cases hany : changes.any refused with
      | true =>
        simp only [hany, if_true] at heq
        obtain ⟨e, he⟩ := heq
        have hfront := (List.takeWhile_sublist (fun c : Change => !c.refused) (l := changes)).map key
        rw [if_pos rfl, ← foldl_assign_eq_self_iff (hkeys.sublist hfront), he,
          ← set_heap_eq_self_iff hroute]
        simp
      | false =>
        simp only [hany, Bool.false_eq_true, if_false] at heq ⊢
        rw [heq]
        dsimp only
        split
        . next hkey =>
          split
          . next hhas => simp [hhas]
          . next hhas =>
            have hne : { changes.foldl (assign upper) route with updatedAt := now } ≠ route := by
              intro h
              exact hkey (by rw [h])
            rw [ne_eq, ← set_heap_eq_self_iff hroute] at hne
            simp_all [DynamicRoute.key]
        . next hkey => simp_all [DynamicRoute.key]

theorem updateRoute_atomic_iff_unknownType
    : ([.routeType (some "xml"), .path (some "moved")].map key).Nodup
      ∧ ∀ e m', (init "now").updateRoute id "route_default_1" "later"
          [.routeType (some "xml"), .path (some "moved")] = (.error e, m') → m' = init "now" := by
  have hkeys : ([.routeType (some "xml"), .path (some "moved")].map key).Nodup := by simp [key]
  refine ⟨hkeys, (updateRoute_atomic_iff _ _ _ _ _ hkeys).mpr ?_⟩
  intro route _
  simp [refused, RouteType.parse, Except.toOption, throw, throwThe, MonadExceptOf.throw]

theorem updateRoute_not_atomic
    : ∃ m', (init "now").updateRoute id "route_default_1" "later"
          [.path (some "moved"), .routeType (some "xml")] = (.error .valueError, m')
        ∧ (m'.routes.get? "route_default_1" = some 0 ∧ m'.routeByPath.get? "GET:/dynamic/hello" = some 0)
        ∧ m'.heap[0]?.map (·.path) = some "/dynamic/moved" ∧ m' ≠ init "now" := by
  refine ⟨_, rfl, ⟨by rfl, by rfl⟩, by rfl, ?_⟩
  intro h
  have hpath := congrArg (fun m => m.heap[0]?.map (·.path)) h
  revert hpath
  decide

end DynamicRouteManager

end PyApi
