import Mathlib

/-!
This module contains maps that remember the order in which their keys were first inserted, and maps
from a key to the list of its values.
-/

structure OrderedMap (κ ν : Type) where
  entries : List (κ × ν)
  nodup : (entries.map Prod.fst).Nodup

namespace OrderedMap

open List

variable {κ ν μ : Type} [DecidableEq κ]

instance [DecidableEq ν] : DecidableEq (OrderedMap κ ν) :=
  fun m n => decidable_of_iff (m.entries = n.entries) <| by
    cases m
    cases n
    simp

def empty : OrderedMap κ ν := ⟨[], by simp⟩

def get? (m : OrderedMap κ ν) (k : κ) : Option ν :=
  go m.entries
where
  go : List (κ × ν) → Option ν
    | [] => none
    | e :: es => if e.1 = k then some e.2 else go es

def has (m : OrderedMap κ ν) (k : κ) : Bool := (m.get? k).isSome

def keys (m : OrderedMap κ ν) : List κ := m.entries.map Prod.fst

def values (m : OrderedMap κ ν) : List ν := m.entries.map Prod.snd

def setEntry (k : κ) (v : ν) : List (κ × ν) → List (κ × ν)
  | [] => [(k, v)]
  | e :: es => if e.1 = k then (k, v) :: es else e :: setEntry k v es

theorem keys_setEntry (k : κ) (v : ν) (es : List (κ × ν))
    : (setEntry k v es).map Prod.fst
      = if k ∈ es.map Prod.fst then es.map Prod.fst else es.map Prod.fst ++ [k] := by
  induction es with
  | nil => simp [setEntry]
  | cons e es ih =>
    unfold setEntry
    split
    . next heq => simp [heq]
    . next hne =>
      rw [map_cons, ih, map_cons]
      simp only [mem_cons, Ne.symm hne, false_or]
      split <;> rfl

theorem setEntry_nodup (k : κ) (v : ν) (es : List (κ × ν)) (h : (es.map Prod.fst).Nodup)
    : ((setEntry k v es).map Prod.fst).Nodup := by
  rw [keys_setEntry]
  split
  . exact h
  . next hnot =>
    rw [← concat_eq_append]
    exact h.concat hnot

def set (m : OrderedMap κ ν) (k : κ) (v : ν) : OrderedMap κ ν :=
  ⟨setEntry k v m.entries, setEntry_nodup k v m.entries m.nodup⟩

def filter (m : OrderedMap κ ν) (p : κ × ν → Bool) : OrderedMap κ ν :=
  ⟨m.entries.filter p, (filter_sublist.map Prod.fst).nodup m.nodup⟩

def delete (m : OrderedMap κ ν) (k : κ) : OrderedMap κ ν :=
  m.filter (fun e => e.1 ≠ k)

omit [DecidableEq κ] in
theorem mapValues_nodup (f : κ → ν → μ) (es : List (κ × ν)) (h : (es.map Prod.fst).Nodup)
    : ((es.map (fun e => (e.1, f e.1 e.2))).map Prod.fst).Nodup := by
  have : (es.map (fun e => (e.1, f e.1 e.2))).map Prod.fst = es.map Prod.fst := by
    simp [Function.comp_def]
  rw [this]
  exact h

def mapValues (m : OrderedMap κ ν) (f : κ → ν → μ) : OrderedMap κ μ :=
  ⟨m.entries.map (fun e => (e.1, f e.1 e.2)), mapValues_nodup f m.entries m.nodup⟩

variable {es : List (κ × ν)} {k k' : κ} {v : ν} {m n : OrderedMap κ ν} {e : κ × ν}

theorem get?.go_eq_some_iff (h : (es.map Prod.fst).Nodup) : get?.go k es = some v ↔ (k, v) ∈ es := by
  induction es with
  | nil => simp [go]
  | cons e es ih =>
    rw [map_cons, nodup_cons] at h
    unfold go
    split
    . next heq =>
      have hnot : (k, v) ∉ es := by
        intro hmem
        apply h.1
        rw [heq]
        exact mem_map.mpr ⟨(k, v), hmem, rfl⟩
      simp [hnot, Prod.ext_iff, heq, eq_comm]
    . next hne =>
      rw [ih h.2, mem_cons]
      exact (or_iff_right fun heq => hne (by rw [← heq])).symm

theorem get?.go_eq_none_of_not_mem (h : k ∉ es.map Prod.fst) : get?.go k es = none := by
  induction es with
  | nil => rfl
  | cons e es ih =>
    rw [map_cons, mem_cons, not_or] at h
    rw [get?.go, if_neg (Ne.symm h.1)]
    exact ih h.2

theorem get?_eq_some_iff : m.get? k = some v ↔ (k, v) ∈ m.entries :=
  get?.go_eq_some_iff m.nodup

theorem get?_eq_none_iff : m.get? k = none ↔ k ∉ m.keys := by
  constructor
  . intro h hmem
    obtain ⟨⟨k', v⟩, hentry, rfl⟩ := mem_map.mp hmem
    rw [get?_eq_some_iff.mpr hentry] at h
    contradiction
  . exact get?.go_eq_none_of_not_mem

theorem has_iff : m.has k = true ↔ k ∈ m.keys := by
  rw [has, Option.isSome_iff_ne_none, Ne, get?_eq_none_iff, not_not]

theorem mem_values_iff : v ∈ m.values ↔ ∃ k, m.get? k = some v := by
  unfold values
  simp [get?_eq_some_iff]

@[simp]
theorem get?_empty (k : κ) : (empty : OrderedMap κ ν).get? k = none := by rfl

theorem get?.go_setEntry (k k' : κ) (v : ν) (es : List (κ × ν))
    : get?.go k' (setEntry k v es) = if k = k' then some v else get?.go k' es := by
  induction es with
  | nil => simp [setEntry, go]
  | cons e es ih =>
    unfold setEntry
    split
    . next heq =>
      simp only [go, heq]
      split <;> rfl
    . next hne =>
      simp only [go, ih]
      split
      . next heq => rw [if_neg (heq ▸ Ne.symm hne)]
      . rfl

theorem get?_set (m : OrderedMap κ ν) (k k' : κ) (v : ν)
    : (m.set k v).get? k' = if k = k' then some v else m.get? k' :=
  get?.go_setEntry k k' v m.entries

@[simp]
theorem get?_set_self (m : OrderedMap κ ν) (k : κ) (v : ν) : (m.set k v).get? k = some v := by
  simp [get?_set]

theorem get?_set_ne (m : OrderedMap κ ν) (v : ν) (h : k ≠ k') : (m.set k v).get? k' = m.get? k' := by
  simp [get?_set, h]

theorem get?_set_eq_some (h : (m.set k v).get? k' = some v')
    : k' = k ∧ v' = v ∨ k' ≠ k ∧ m.get? k' = some v' := by
  rw [get?_set] at h
  split at h
  . next heq =>
    cases h
    exact .inl ⟨heq.symm, rfl⟩
  . next hne => exact .inr ⟨Ne.symm hne, h⟩

omit [DecidableEq κ] in
@[simp]
theorem mem_filter {p : κ × ν → Bool} : e ∈ (m.filter p).entries ↔ e ∈ m.entries ∧ p e = true := by
  simp [filter]

theorem get?_filter (m : OrderedMap κ ν) (p : κ × ν → Bool) (k : κ)
    : (m.filter p).get? k = (m.get? k).filter fun v => p (k, v) := by
  apply Option.ext
  intro v
  rw [get?_eq_some_iff, mem_filter, ← get?_eq_some_iff, Option.filter_eq_some_iff]

theorem get?_delete (m : OrderedMap κ ν) (k k' : κ)
    : (m.delete k).get? k' = if k = k' then none else m.get? k' := by
  rw [delete, get?_filter]
  by_cases heq : k = k'
  . simp [heq]
  . cases m.get? k' <;> simp [heq, Ne.symm heq, Option.filter]

theorem get?_delete_eq_some (h : (m.delete k).get? k' = some v) : k' ≠ k ∧ m.get? k' = some v := by
  rw [get?_delete] at h
  split at h
  . cases h
  . next hne => exact ⟨Ne.symm hne, h⟩

theorem mem_keys_set : k' ∈ (m.set k v).keys ↔ k' = k ∨ k' ∈ m.keys := by
  unfold keys set
  rw [keys_setEntry]
  split
  . next hmem => exact (or_iff_right_of_imp fun heq => heq ▸ hmem).symm
  . rw [mem_append, mem_singleton, or_comm]

theorem setEntry_of_not_mem (v : ν) (h : k ∉ es.map Prod.fst) : setEntry k v es = es ++ [(k, v)] := by
  induction es with
  | nil => rfl
  | cons e es ih =>
    rw [map_cons, mem_cons, not_or] at h
    unfold setEntry
    rw [if_neg (Ne.symm h.1), ih h.2]
    rfl

theorem mem_values_set_of_not_mem (h : k ∉ m.keys) (v x : ν)
    : x ∈ (m.set k v).values ↔ x = v ∨ x ∈ m.values := by
  have hset : (m.set k v).entries = m.entries ++ [(k, v)] := setEntry_of_not_mem v h
  rw [values, hset, map_append, mem_append, or_comm]
  simp [values]

theorem setEntry_append_cons (h : k ∉ before.map Prod.fst) (v w : ν)
    (after : List (κ × ν))
    : setEntry k w (before ++ (k, v) :: after) = before ++ (k, w) :: after := by
  induction before with
  | nil => simp [setEntry]
  | cons e before ih =>
    rw [map_cons, mem_cons, not_or] at h
    rw [cons_append, setEntry, if_neg (Ne.symm h.1), ih h.2]
    rfl

theorem exists_entries_set (h : m.get? k = some v) (w : ν)
    : ∃ before after,
      m.entries = before ++ (k, v) :: after ∧ (m.set k w).entries = before ++ (k, w) :: after := by
  rw [get?_eq_some_iff] at h
  obtain ⟨before, after, hentries⟩ := append_of_mem h
  refine ⟨before, after, hentries, ?_⟩
  have hnot : k ∉ before.map Prod.fst := by
    have hnodup := m.nodup
    rw [hentries, map_append, map_cons] at hnodup
    intro hk
    exact disjoint_of_nodup_append hnodup hk mem_cons_self
  calc (m.set k w).entries
      _ = setEntry k w m.entries := rfl
      _ = before ++ (k, w) :: after := by rw [hentries, setEntry_append_cons hnot]

theorem keys_set_of_mem (v : ν) (h : k ∈ m.keys) : (m.set k v).keys = m.keys :=
  (keys_setEntry k v m.entries).trans (if_pos h)

theorem keys_set_of_not_mem (v : ν) (h : k ∉ m.keys) : (m.set k v).keys = m.keys ++ [k] :=
  (keys_setEntry k v m.entries).trans (if_neg h)

theorem keys_delete (m : OrderedMap κ ν) (k : κ) : (m.delete k).keys = m.keys.erase k := by
  have : m.keys.erase k = m.keys.filter (· ≠ k) := by
    apply (List.Nodup.erase_eq_filter m.nodup k).trans
    apply filter_congr
    intro x _
    cases decEq x k with
    | isTrue heq => simp [heq]
    | isFalse hne => simp [hne]
  rw [this]
  unfold keys delete filter
  rw [filter_map]
  rfl

theorem mem_keys_delete : k' ∈ (m.delete k).keys ↔ k' ≠ k ∧ k' ∈ m.keys := by
  rw [keys_delete]
  exact List.Nodup.mem_erase_iff m.nodup

theorem length_keys_delete_lt (h : m.get? k = some v) : (m.delete k).keys.length < m.keys.length := by
  have hmem : k ∈ m.keys := mem_map.mpr ⟨(k, v), get?_eq_some_iff.mp h, rfl⟩
  rw [keys_delete, length_erase_of_mem hmem]
  have := length_pos_of_mem hmem
  omega

omit [DecidableEq κ] in
@[simp]
theorem keys_mapValues (m : OrderedMap κ ν) (f : κ → ν → μ) : (m.mapValues f).keys = m.keys := by
  simp [keys, mapValues, Function.comp_def]

theorem get?_mapValues (m : OrderedMap κ ν) (f : κ → ν → μ) (k : κ)
    : (m.mapValues f).get? k = (m.get? k).map (f k) := by
  unfold get? mapValues
  dsimp
  generalize m.entries = es
  induction es with
  | nil => rfl
  | cons e es ih =>
    rw [map_cons]
    unfold get?.go
    dsimp
    split
    . next heq => simp [heq]
    . exact ih

omit [DecidableEq κ] in
theorem mapValues_eq_self {f : κ → ν → ν} (h : ∀ e ∈ m.entries, f e.1 e.2 = e.2) : m.mapValues f = m := by
  cases m with
  | mk entries nodup =>
    unfold mapValues
    congr 1
    rw [map_congr_left (g := id)]
    . simp
    . intro e he
      simp [h e he]

def assign (m n : OrderedMap κ ν) : OrderedMap κ ν := n.entries.foldl (fun m e => m.set e.1 e.2) m

theorem setEntry_eq_self (h : get?.go k es = some v) : setEntry k v es = es := by
  induction es with
  | nil => contradiction
  | cons e es ih =>
    unfold get?.go at h
    unfold setEntry
    split
    . next heq =>
      rw [if_pos heq] at h
      injection h with h
      rw [← heq, ← h]
    . next hne =>
      rw [if_neg hne] at h
      rw [ih h]

theorem set_eq_self (h : m.get? k = some v) : m.set k v = m := by
  cases m
  unfold set
  congr 1
  exact setEntry_eq_self h

theorem get?_foldl_set_entries (es : List (κ × ν)) (hes : (es.map Prod.fst).Nodup) (m : OrderedMap κ ν)
    (k : κ)
    : (es.foldl (fun m e => m.set e.1 e.2) m).get? k = (get?.go k es).or (m.get? k) := by
  induction es generalizing m with
  | nil => rfl
  | cons e es ih =>
    rw [map_cons, nodup_cons] at hes
    rw [foldl_cons, ih hes.2, get?_set, get?.go]
    split
    . next h =>
      rw [h] at hes
      rw [get?.go_eq_none_of_not_mem hes.1]
      rfl
    . rfl

theorem get?_assign (m n : OrderedMap κ ν) (k : κ)
    : (m.assign n).get? k = (n.get? k).or (m.get? k) := by
  exact get?_foldl_set_entries n.entries n.nodup m k

theorem get?_foldl_setMissing (f : ν → μ) (es : List (κ × ν)) (hes : (es.map Prod.fst).Nodup)
    (m : OrderedMap κ μ) (k : κ)
    : (es.foldl (fun m e => if m.has e.1 then m else m.set e.1 (f e.2)) m).get? k
      = (m.get? k).or ((get?.go k es).map f) := by
  induction es generalizing m with
  | nil =>
    rw [get?.go, Option.map_none, Option.or_none]
    rfl
  | cons e es ih =>
    rw [map_cons, nodup_cons] at hes
    have hstep : (if m.has e.1 then m else m.set e.1 (f e.2)).get? k
        = if e.1 = k then (m.get? k).or (some (f e.2)) else m.get? k := by
      split
      . next hhas =>
        split
        . next heq =>
          rw [has, heq, Option.isSome_iff_exists] at hhas
          obtain ⟨v, hv⟩ := hhas
          rw [hv]
          rfl
        . rfl
      . next hhas =>
        rw [get?_set]
        split
        . next heq =>
          rw [has, heq, Bool.not_eq_true, Option.isSome_eq_false_iff, Option.isNone_iff_eq_none] at hhas
          rw [hhas]
          rfl
        . rfl
    rw [foldl_cons, ih hes.2, hstep, get?.go]
    split
    . next heq =>
      rw [heq] at hes
      rw [get?.go_eq_none_of_not_mem hes.1, Option.map_none, Option.or_none]
      rfl
    . rfl

theorem assign_eq_self_iff : m.assign n = m ↔ ∀ e ∈ n.entries, m.get? e.1 = some e.2 := by
  constructor
  . intro h e he
    rw [← h, get?_assign, get?_eq_some_iff.mpr he]
    rfl
  . intro h
    unfold assign
    generalize n.entries = es at h
    induction es with
    | nil => rfl
    | cons e es ih =>
      rw [forall_mem_cons] at h
      rw [foldl_cons, set_eq_self h.1]
      exact ih h.2

/-! A list of entries written into a map; entries with the same key agree on its value. -/

def extend (m : OrderedMap κ ν) (es : List (κ × ν)) : OrderedMap κ ν :=
  es.foldl (fun m e => m.set e.1 e.2) m

def Functional (es : List (κ × ν)) : Prop := ∀ k v v', (k, v) ∈ es → (k, v') ∈ es → v = v'

theorem get?_extend_iff_of_agree (hes : ∀ v v', (k, v) ∈ es → (k, v') ∈ es → v = v') (m : OrderedMap κ ν) (v : ν)
    : (m.extend es).get? k = some v ↔ (k, v) ∈ es ∨ (∀ v', (k, v') ∉ es) ∧ m.get? k = some v := by
  induction es generalizing m with
  | nil => simp [extend]
  | cons e es ih =>
    obtain ⟨k', w⟩ := e
    have htail (v v' : ν) (hv : (k, v) ∈ es) (hv' : (k, v') ∈ es) : v = v' :=
      hes v v' (mem_cons_of_mem _ hv) (mem_cons_of_mem _ hv')
    rw [extend, foldl_cons, ← extend, ih htail, get?_set]
    by_cases heq : k' = k
    . subst heq
      have hagree (v' : ν) (hv' : (k', v') ∈ (k', w) :: es) : w = v' := hes w v' mem_cons_self hv'
      rw [if_pos rfl, Option.some.injEq]
      constructor
      . rintro (hmem | ⟨_, rfl⟩)
        . exact .inl (mem_cons_of_mem _ hmem)
        . exact .inl mem_cons_self
      . rintro (hmem | ⟨hnone, _⟩)
        . by_cases hin : ∃ v', (k', v') ∈ es
          . obtain ⟨v', hv'⟩ := hin
            rw [← hagree v hmem, hagree v' (mem_cons_of_mem _ hv')]
            exact .inl hv'
          . rw [not_exists] at hin
            exact .inr ⟨hin, hagree v hmem⟩
        . exact absurd mem_cons_self (hnone w)
    . have hmem (v' : ν) : (k, v') ∈ (k', w) :: es ↔ (k, v') ∈ es := by
        rw [mem_cons, Prod.mk.injEq]
        exact or_iff_right fun h => heq h.1.symm
      simp only [hmem, if_neg heq]

theorem get?_extend_of_notMem (h : ∀ v, (k, v) ∉ es) (m : OrderedMap κ ν)
    : (m.extend es).get? k = m.get? k := by
  apply Option.ext
  intro v
  rw [get?_extend_iff_of_agree]
  . simp [h]
  . simp [h]

theorem mem_of_get?_extend (h : (m.extend es).get? k = some v) : (k, v) ∈ es ∨ m.get? k = some v := by
  induction es generalizing m with
  | nil => exact .inr h
  | cons e es ih =>
    rcases ih h with hmem | hget
    . exact .inl (mem_cons_of_mem e hmem)
    . rcases get?_set_eq_some hget with ⟨rfl, rfl⟩ | ⟨_, hget⟩
      . exact .inl mem_cons_self
      . exact .inr hget

theorem foldl_set_eq_extend (key : ν → κ) (vs : List ν) (m : OrderedMap κ ν)
    : vs.foldl (fun m v => m.set (key v) v) m = m.extend (vs.map fun v => (key v, v)) := by
  rw [extend, foldl_map]

theorem get?_foldl_set_some (key : ν → κ) (vs : List ν) (m : OrderedMap κ ν)
    (h : (vs.foldl (fun m v => m.set (key v) v) m).get? k = some v)
    : (v ∈ vs ∧ key v = k) ∨ m.get? k = some v := by
  rw [foldl_set_eq_extend] at h
  simpa [and_comm] using mem_of_get?_extend h

theorem get?_foldl_set_of_agree (key : ν → κ) (vs : List ν) (m : OrderedMap κ ν)
    (hvs : ∀ x ∈ vs, key x = k → x = v) (h : v ∈ vs ∧ key v = k ∨ m.get? k = some v)
    : (vs.foldl (fun m v => m.set (key v) v) m).get? k = some v := by
  have hmem (x : ν) : (k, x) ∈ vs.map (fun v => (key v, v)) ↔ x ∈ vs ∧ key x = k := by
    simp [and_comm]
  rw [foldl_set_eq_extend, get?_extend_iff_of_agree]
  . simp only [hmem]
    by_cases hv : v ∈ vs ∧ key v = k
    . exact .inl hv
    . refine .inr ⟨fun x hx => ?_, h.resolve_left hv⟩
      rw [hvs x hx.1 hx.2] at hx
      exact hv hx
  . intro x y hx hy
    rw [hmem] at hx hy
    rw [hvs x hx.1 hx.2, hvs y hy.1 hy.2]

theorem get?_extend_empty_iff (hes : Functional es) (k : κ) (v : ν)
    : (empty.extend es).get? k = some v ↔ (k, v) ∈ es := by
  rw [get?_extend_iff_of_agree (hes k)]
  simp

-- The entries of a map, some of them carried over: only the one at `k` is carried to `a`.
theorem get?_extend_filterMap {κ' μ : Type} [DecidableEq κ'] {f : κ × ν → Option (κ' × μ)} {g : ν → Option μ}
    {a : κ'} (m₀ : OrderedMap κ' μ) (m : OrderedMap κ ν)
    (h : ∀ e w, f e = some (a, w) ↔ e.1 = k ∧ g e.2 = some w)
    : (m₀.extend (m.entries.filterMap f)).get? a = ((m.get? k).bind g).or (m₀.get? a) := by
  have hmem (w : μ) : (a, w) ∈ m.entries.filterMap f ↔ (m.get? k).bind g = some w := by
    simp [mem_filterMap, h, Option.bind_eq_some_iff, get?_eq_some_iff]
  apply Option.ext
  intro w
  rw [get?_extend_iff_of_agree]
  . simp only [hmem]
    cases (m.get? k).bind g <;> simp
  . intro v v' hv hv'
    rw [hmem] at hv hv'
    exact Option.some.inj (hv.symm.trans hv')

theorem mem_keys_extend : k ∈ (m.extend es).keys ↔ k ∈ m.keys ∨ k ∈ es.map Prod.fst := by
  induction es generalizing m with
  | nil => simp [extend]
  | cons e es ih =>
    rw [extend, foldl_cons, ← extend, ih, mem_keys_set, map_cons, mem_cons]
    tauto

theorem entries_extend (h : ((m.entries ++ es).map Prod.fst).Nodup)
    : (m.extend es).entries = m.entries ++ es := by
  induction es generalizing m with
  | nil => simp [extend]
  | cons e es ih =>
    have hnot : e.1 ∉ m.keys := by
      rw [map_append, map_cons] at h
      intro hmem
      exact disjoint_of_nodup_append h hmem mem_cons_self
    have hset : (m.set e.1 e.2).entries = m.entries ++ [e] := setEntry_of_not_mem e.2 hnot
    rw [extend, foldl_cons, ← extend, ih]
    . rw [hset, List.append_assoc, singleton_append]
    . rw [hset, List.append_assoc, singleton_append]
      exact h

theorem entries_extend_empty (h : (es.map Prod.fst).Nodup)
    : ((empty : OrderedMap κ ν).extend es).entries = es :=
  entries_extend h

omit [DecidableEq κ] in
theorem ext_entries (h : m.entries = n.entries) : m = n := by
  cases m
  cases n
  congr

theorem extend_entries_empty (m : OrderedMap κ ν) : empty.extend m.entries = m :=
  ext_entries (entries_extend_empty m.nodup)

def modify (m : OrderedMap κ ν) (k : κ) (f : ν → ν) : OrderedMap κ ν :=
  match m.get? k with
  | some v => m.set k (f v)
  | none => m

theorem get?_modify (m : OrderedMap κ ν) (k k' : κ) (f : ν → ν)
    : (m.modify k f).get? k' = if k = k' then (m.get? k').map f else m.get? k' := by
  unfold modify
  split
  . next v hget =>
    rw [get?_set]
    split
    . next heq => rw [← heq, hget, Option.map_some]
    . rfl
  . next hget =>
    split
    . next heq => rw [← heq, hget, Option.map_none]
    . rfl

theorem not_mem_keys_delete (m : OrderedMap κ ν) (k : κ) : k ∉ (m.delete k).keys := by
  rw [mem_keys_delete]
  simp

def pushBack (m : OrderedMap κ ν) (k : κ) (v : ν) : OrderedMap κ ν := (m.delete k).set k v

theorem get?_pushBack (m : OrderedMap κ ν) (k k' : κ) (v : ν)
    : (m.pushBack k v).get? k' = if k = k' then some v else m.get? k' := by
  rw [pushBack, get?_set, get?_delete]
  split
  . rfl
  . rfl

theorem mem_of_mem_pushBack (h : e ∈ (m.pushBack k v).entries) : e = (k, v) ∨ e ∈ m.entries := by
  obtain ⟨k', v'⟩ := e
  rw [← get?_eq_some_iff, get?_pushBack] at h
  split at h
  . next heq =>
    cases h
    exact .inl (by rw [heq])
  . exact .inr (get?_eq_some_iff.mp h)

theorem pushBack_of_not_mem (h : k ∉ m.keys) (v : ν) : m.pushBack k v = m.set k v := by
  have hdelete : m.delete k = m := by
    apply ext_entries
    apply filter_eq_self.mpr
    intro e he
    have hne : e.1 ≠ k := by
      rintro rfl
      exact h (mem_map_of_mem he)
    simp [hne]
  rw [pushBack, hdelete]

def pushFront (m : OrderedMap κ ν) (k : κ) (v : ν) : OrderedMap κ ν where
  entries := (k, v) :: (m.delete k).entries
  nodup := nodup_cons.mpr ⟨not_mem_keys_delete m k, (m.delete k).nodup⟩

theorem mem_of_mem_pushFront (h : e ∈ (m.pushFront k v).entries) : e = (k, v) ∨ e ∈ m.entries := by
  cases h with
  | head => exact .inl rfl
  | tail _ h => exact .inr (mem_filter.mp h).1

theorem get?_eq_of_perm (h : m.entries.Perm n.entries) (k : κ) : m.get? k = n.get? k := by
  apply Option.ext
  intro v
  rw [get?_eq_some_iff, get?_eq_some_iff]
  exact h.mem_iff

def sortKeys (m : OrderedMap κ ν) (le : κ → κ → Prop) [DecidableRel le] : OrderedMap κ ν where
  entries := m.entries.insertionSort fun a b => le a.1 b.1
  nodup := ((perm_insertionSort _ m.entries).map Prod.fst).nodup_iff.mpr m.nodup

omit [DecidableEq κ] in
theorem perm_sortKeys (m : OrderedMap κ ν) (le : κ → κ → Prop) [DecidableRel le]
    : (m.sortKeys le).entries.Perm m.entries :=
  perm_insertionSort _ m.entries

/-! Equality of maps, whatever the order of their entries, with values that are equal in a sense of their own. -/

def SameBy (r : ν → ν → Prop) (m n : OrderedMap κ ν) : Prop :=
  (∀ e ∈ m.entries, ∃ v ∈ n.get? e.1, r e.2 v) ∧ ∀ k ∈ n.keys, k ∈ m.keys

namespace SameBy

variable {r : ν → ν → Prop} {m n o : OrderedMap κ ν}

instance [DecidableRel r] : Decidable (SameBy r m n) := inferInstanceAs (Decidable (_ ∧ _))

theorem iff_rel : SameBy r m n ↔ ∀ k, Option.Rel r (m.get? k) (n.get? k) := by
  constructor
  . rintro ⟨hvalues, hkeys⟩ k
    cases hm : m.get? k with
    | some v =>
      obtain ⟨w, hw, hvw⟩ := hvalues (k, v) (get?_eq_some_iff.mp hm)
      rw [hw]
      exact .some hvw
    | none =>
      rw [get?_eq_none_iff] at hm
      rw [get?_eq_none_iff.mpr fun hk => hm (hkeys k hk)]
      exact .none
  . intro h
    constructor
    . rintro ⟨k, v⟩ hmem
      have hk := h k
      rw [get?_eq_some_iff.mpr hmem] at hk
      generalize n.get? k = found at hk ⊢
      cases hk with
      | some hvw => exact ⟨_, rfl, hvw⟩
    . intro k hk
      by_contra hnot
      have hrel := h k
      rw [get?_eq_none_iff.mpr hnot] at hrel
      generalize hn : n.get? k = found at hrel
      cases hrel with
      | none => exact get?_eq_none_iff.mp hn hk

theorem refl (hr : ∀ v, r v v) (m : OrderedMap κ ν) : SameBy r m m := by
  rw [iff_rel]
  intro k
  cases m.get? k with
  | none => exact .none
  | some v => exact .some (hr v)

theorem trans (hr : ∀ u v w, r u v → r v w → r u w) (h : SameBy r m n) (h' : SameBy r n o) : SameBy r m o := by
  rw [iff_rel] at h h' ⊢
  intro k
  have hmn := h k
  have hno := h' k
  generalize m.get? k = a at hmn ⊢
  generalize n.get? k = b at hmn hno
  generalize o.get? k = c at hno ⊢
  cases hmn with
  | none =>
    cases hno with
    | none => exact .none
  | some huv =>
    cases hno with
    | some hvw => exact .some (hr _ _ _ huv hvw)

end SameBy

/-! What is left of a map without the keys of a set. -/

def Without (m : OrderedMap κ ν) (P : κ → Prop) (m' : OrderedMap κ ν) : Prop :=
  ∀ k v, m'.get? k = some v ↔ m.get? k = some v ∧ ¬P k

namespace Without

variable {m m' m'' : OrderedMap κ ν} {P Q : κ → Prop}

theorem refl (m : OrderedMap κ ν) : m.Without (fun _ => False) m := by
  simp [Without]

theorem delete (m : OrderedMap κ ν) (k : κ) : m.Without (· = k) (m.delete k) := by
  intro k' v
  rw [get?_delete]
  split
  . next h => simp [h]
  . next h => simp [Ne.symm h]

theorem congr (h : m.Without P m') (hPQ : ∀ k, P k ↔ Q k) : m.Without Q m' := by
  intro k v
  rw [h k v, hPQ]

theorem trans (h : m.Without P m') (h' : m'.Without Q m'') : m.Without (fun k => P k ∨ Q k) m'' := by
  intro k v
  rw [h' k v, h k v, not_or, and_assoc]

theorem foldl {α : Type} {f : OrderedMap κ ν → α → OrderedMap κ ν} (P : α → κ → Prop)
    (hf : ∀ (m : OrderedMap κ ν) x, m.Without (P x) (f m x)) (xs : List α) (m : OrderedMap κ ν)
    : m.Without (fun k => ∃ x ∈ xs, P x k) (xs.foldl f m) := by
  induction xs generalizing m with
  | nil => exact (refl m).congr (by simp)
  | cons x xs ih => exact ((hf m x).trans (ih (f m x))).congr (by simp)

theorem foldlM {ε α : Type} {f : OrderedMap κ ν → α → Except ε (OrderedMap κ ν)} (P : α → κ → Prop)
    {xs : List α} (hf : ∀ x ∈ xs, ∀ m : OrderedMap κ ν, ∃ m', f m x = .ok m' ∧ m.Without (P x) m')
    (m : OrderedMap κ ν)
    : ∃ m', xs.foldlM f m = .ok m' ∧ m.Without (fun k => ∃ x ∈ xs, P x k) m' := by
  induction xs generalizing m with
  | nil => exact ⟨m, rfl, (refl m).congr (by simp)⟩
  | cons x xs ih =>
    rw [forall_mem_cons] at hf
    have ⟨mid, hmid, hfirst⟩ := hf.1 m
    have ⟨m', hm', hrest⟩ := ih hf.2 mid
    refine ⟨m', ?_, (hfirst.trans hrest).congr (by simp)⟩
    rw [foldlM_cons, hmid]
    exact hm'

end Without

def Submap (m n : OrderedMap κ ν) : Prop := ∀ k v, m.get? k = some v → n.get? k = some v

theorem Submap.set {m n : OrderedMap κ ν} (h : Submap m n) {k : κ} {v : ν} (hk : n.get? k = some v)
    : Submap (m.set k v) n ∧ ∀ k' v', (m.set k v).get? k' = some v' ↔ m.get? k' = some v' ∨ k' = k ∧ v' = v := by
  have hset (k' : κ) (v' : ν)
      : (m.set k v).get? k' = some v' ↔ m.get? k' = some v' ∨ k' = k ∧ v' = v := by
    rw [get?_set]
    split
    . next heq =>
      subst heq
      constructor
      . intro h
        exact .inr ⟨rfl, (Option.some.inj h).symm⟩
      . rintro (hold | ⟨_, rfl⟩)
        . rw [← hk, h k v' hold]
        . rfl
    . next hne => simp [Ne.symm hne]
  refine ⟨?_, hset⟩
  intro k' v' hget
  rcases (hset k' v').mp hget with hold | ⟨rfl, rfl⟩
  . exact h k' v' hold
  . exact hk

end OrderedMap

abbrev MultiMap (κ ν : Type) := OrderedMap κ (List ν)

namespace MultiMap

variable {κ ν : Type} [DecidableEq κ] (m : MultiMap κ ν) (k : κ)

def getVec : List ν := (m.get? k).getD []

def insert (v : ν) : MultiMap κ ν := m.set k (getVec m k ++ [v])

def insertMany (vs : List ν) : MultiMap κ ν :=
  vs.foldl (fun m v => insert m k v) m

def insertAll (es : List (κ × List ν)) : MultiMap κ ν :=
  es.foldl (fun m e => insertMany m e.1 e.2) m

theorem getVec_insert (k k' : κ) (v : ν)
    : getVec (insert m k v) k' = if k = k' then getVec m k' ++ [v] else getVec m k' := by
  unfold insert getVec
  rw [OrderedMap.get?_set]
  split
  . next h =>
    rw [h]
    rfl
  . rfl

theorem getVec_insertMany (k k' : κ) (vs : List ν)
    : getVec (insertMany m k vs) k' = if k = k' then getVec m k' ++ vs else getVec m k' := by
  unfold insertMany
  induction vs generalizing m with
  | nil => simp
  | cons v vs ih =>
    rw [List.foldl_cons, ih, getVec_insert]
    split
    . rw [List.append_assoc, List.singleton_append]
    . rfl

theorem getVec_insertAll (es : List (κ × List ν)) (hes : (es.map Prod.fst).Nodup) (m : MultiMap κ ν)
    (k : κ)
    : getVec (insertAll m es) k = getVec m k ++ (OrderedMap.get?.go k es).getD [] := by
  unfold insertAll
  induction es generalizing m with
  | nil => simp [OrderedMap.get?.go]
  | cons e es ih =>
    rw [List.map_cons, List.nodup_cons] at hes
    rw [List.foldl_cons, ih hes.2, getVec_insertMany, OrderedMap.get?.go]
    split
    . next h =>
      rw [h] at hes
      rw [OrderedMap.get?.go_eq_none_of_not_mem hes.1]
      simp
    . rfl

theorem getVec_insertAll_entries (m n : MultiMap κ ν) (k : κ)
    : getVec (insertAll m n.entries) k = getVec m k ++ getVec n k := by
  exact getVec_insertAll n.entries n.nodup m k

end MultiMap
