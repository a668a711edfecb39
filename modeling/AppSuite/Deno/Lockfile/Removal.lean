import AppSuite.Graph.Worklist
import AppSuite.Deno.Lockfile.Reading

/-!
This module contains what removing packages from the graph leaves.
-/

namespace DenoLockfile.LockfilePackageGraph

open Worklist List

variable {R V : Type} [DecidableEq R] [LinearOrder V] {graph graph' graph'' : LockfilePackageGraph R V}

def Follows (graph : LockfilePackageGraph R V) (a b : LockfilePkgId V) : Prop :=
  ∃ pkg, graph.packages.get? a = some (.jsr pkg) ∧
    b ∈ pkg.dependencies.elems.filterMap graph.rootPackages.get? ++ pkg.dependents.elems

def PackagesWithout (packages : OrderedMap (LockfilePkgId V) (LockfileGraphPackage R V))
    (ids : Set (LockfilePkgId V)) (packages' : OrderedMap (LockfilePkgId V) (LockfileGraphPackage R V))
    : Prop :=
  ∀ id pkg, packages'.get? id = some pkg ↔ packages.get? id = some pkg ∧ (id ∈ ids → ∃ p, pkg = .npm p)

theorem setOf_mem_concat {α : Type} (xs : List α) (x : α) : { y | y ∈ xs ++ [x] } = insert x { y | y ∈ xs } := by
  ext y
  rw [Set.mem_ofPred_eq, mem_append, mem_singleton, or_comm]
  rfl

variable {packages : OrderedMap (LockfilePkgId V) (LockfileGraphPackage R V)} {id : LockfilePkgId V}
  {pkg : LockfileJsrGraphPackage R V}

variable {packages' : OrderedMap (LockfilePkgId V) (LockfileGraphPackage R V)}
  {ids : Set (LockfilePkgId V)} {rootPackages : OrderedMap (JsrDepPackageReq R) (LockfilePkgId V)}
  {pendingIds rootIdsToRemove : List (LockfilePkgId V)}

omit [DecidableEq R] in
theorem PackagesWithout.insert_npm (h : PackagesWithout packages ids packages')
    (hid : ∀ pkg, packages'.get? id ≠ some (.jsr pkg))
    : PackagesWithout packages (insert id ids) packages' := by
  intro x pkg
  rw [h x pkg]
  constructor
  . rintro ⟨hget, hnpm⟩
    refine ⟨hget, ?_⟩
    rintro (rfl | hx)
    . cases pkg with
      | jsr pkg => exact absurd ((h x _).mpr ⟨hget, hnpm⟩) (hid pkg)
      | npm pkg => exact ⟨pkg, rfl⟩
    . exact hnpm hx
  . rintro ⟨hget, hnpm⟩
    exact ⟨hget, fun hx => hnpm (.inr hx)⟩

omit [DecidableEq R] in
theorem PackagesWithout.delete (h : PackagesWithout packages ids packages')
    (hget : packages'.get? id = some (.jsr pkg))
    : PackagesWithout packages (insert id ids) (packages'.delete id) := by
  intro x p
  rw [OrderedMap.get?_delete]
  split
  . next heq =>
    subst heq
    constructor
    . intro hnone
      contradiction
    . rintro ⟨hp, hnpm⟩
      rw [((h id _).mp hget).1] at hp
      obtain ⟨q, rfl⟩ := hnpm (.inl rfl)
      cases hp
  . next hne =>
    rw [h x p]
    have hmem : x ∈ insert id ids ↔ x ∈ ids := or_iff_right (Ne.symm hne)
    rw [hmem]

theorem purge_jsr (h : packages.get? id = some (.jsr pkg))
    : purge rootPackages packages (id :: pendingIds) rootIdsToRemove =
      purge rootPackages (packages.delete id)
        ((pkg.dependencies.elems.filterMap rootPackages.get? ++ pkg.dependents.elems).reverse ++ pendingIds)
        (rootIdsToRemove ++ [id]) := by
  rw [purge]
  split
  . next pkg' h' =>
    rw [h] at h'
    cases h'
    rfl
  all_goals next h' =>
    rw [h] at h'
    cases h'

theorem purge_other (h : ∀ pkg, packages.get? id ≠ some (.jsr pkg))
    : purge rootPackages packages (id :: pendingIds) rootIdsToRemove =
      purge rootPackages packages pendingIds (rootIdsToRemove ++ [id]) := by
  rw [purge]
  split
  . next pkg h' => exact absurd h' (h pkg)
  . rfl
  . rfl

theorem follows_iff (h : graph.packages.get? id = some (.jsr pkg)) (v : LockfilePkgId V)
    : graph.Follows id v ↔
      v ∈ pkg.dependencies.elems.filterMap graph.rootPackages.get? ++ pkg.dependents.elems := by
  constructor
  . rintro ⟨pkg', h', hv⟩
    rw [h] at h'
    cases h'
    exact hv
  . intro hv
    exact ⟨pkg, h, hv⟩

structure Purging (graph : LockfilePackageGraph R V) (start : Set (LockfilePkgId V))
    (packages : OrderedMap (LockfilePkgId V) (LockfileGraphPackage R V))
    (pendingIds rootIdsToRemove : List (LockfilePkgId V)) : Prop where
  packages : PackagesWithout graph.packages { id | id ∈ rootIdsToRemove } packages
  explored : Explored graph.Follows start { id | id ∈ rootIdsToRemove } { id | id ∈ pendingIds }

namespace Purging

variable {start : Set (LockfilePkgId V)}
  {packages : OrderedMap (LockfilePkgId V) (LockfileGraphPackage R V)} {id : LockfilePkgId V}
  {pendingIds rootIdsToRemove : List (LockfilePkgId V)}

theorem take_jsr (h : Purging graph start packages (id :: pendingIds) rootIdsToRemove)
    {pkg : LockfileJsrGraphPackage R V} (hget : packages.get? id = some (.jsr pkg))
    : Purging graph start (packages.delete id)
      ((pkg.dependencies.elems.filterMap graph.rootPackages.get? ++ pkg.dependents.elems).reverse
        ++ pendingIds)
      (rootIdsToRemove ++ [id]) := by
  obtain ⟨hpackages, hexplored⟩ := h
  have hfollows := follows_iff ((hpackages id _).mp hget).1
  have hpending : { v | v ∈ (pkg.dependencies.elems.filterMap graph.rootPackages.get?
        ++ pkg.dependents.elems).reverse ++ pendingIds }
      = { v | v ∈ pendingIds } ∪ { v | graph.Follows id v } := by
    ext v
    rw [Set.mem_ofPred_eq, mem_append, mem_reverse, ← hfollows, or_comm]
    rfl
  rw [setOfPred_mem_cons] at hexplored
  constructor
  . rw [setOf_mem_concat]
    exact hpackages.delete hget
  . rw [setOf_mem_concat, hpending]
    exact hexplored.visit (fun v hv => hv) (.inr fun v hv => hv)

theorem take_other (h : Purging graph start packages (id :: pendingIds) rootIdsToRemove)
    (hget : ∀ pkg, packages.get? id ≠ some (.jsr pkg))
    : Purging graph start packages pendingIds (rootIdsToRemove ++ [id]) := by
  obtain ⟨hpackages, hexplored⟩ := h
  rw [setOfPred_mem_cons] at hexplored
  constructor
  . rw [setOf_mem_concat]
    exact hpackages.insert_npm hget
  . rw [setOf_mem_concat, ← Set.union_empty { v | v ∈ pendingIds }]
    apply hexplored.visit
    . nofun
    . by_cases hseen : id ∈ rootIdsToRemove
      . exact .inl hseen
      . right
        rintro v ⟨pkg, hpkg, _⟩
        exact absurd ((hpackages id _).mpr ⟨hpkg, fun hmem => absurd hmem hseen⟩) (hget pkg)

theorem purge (h : Purging graph start packages pendingIds rootIdsToRemove)
    : { id | id ∈ (purge graph.rootPackages packages pendingIds rootIdsToRemove).2 }
        = reach graph.Follows start ∧
      PackagesWithout graph.packages (reach graph.Follows start)
        (purge graph.rootPackages packages pendingIds rootIdsToRemove).1 := by
  induction packages, pendingIds, rootIdsToRemove using purge.induct graph.rootPackages with
  | case1 packages rootIdsToRemove =>
    obtain ⟨hpackages, hexplored⟩ := h
    have hempty : { id | id ∈ ([] : List (LockfilePkgId V)) } = ∅ := by
      ext id
      simp
    rw [hempty] at hexplored
    rw [LockfilePackageGraph.purge, ← hexplored.seen_eq]
    exact ⟨rfl, hpackages⟩
  | case2 packages rootIdsToRemove id pendingIds pkg hget _ ih =>
    rw [purge_jsr hget]
    exact ih (h.take_jsr hget)
  | case3 packages rootIdsToRemove id pendingIds pkg hget ih =>
    have hother : ∀ pkg, packages.get? id ≠ some (.jsr pkg) := by
      rw [hget]
      nofun
    rw [purge_other hother]
    exact ih (h.take_other hother)
  | case4 packages rootIdsToRemove id pendingIds hget ih =>
    have hother : ∀ pkg, packages.get? id ≠ some (.jsr pkg) := by
      rw [hget]
      nofun
    rw [purge_other hother]
    exact ih (h.take_other hother)

end Purging

structure Without (graph : LockfilePackageGraph R V) (ids : Set (LockfilePkgId V))
    (graph' : LockfilePackageGraph R V) : Prop where
  rootPackages : ∀ req id,
    graph'.rootPackages.get? req = some id ↔ graph.rootPackages.get? req = some id ∧ id ∉ ids
  packages : PackagesWithout graph.packages ids graph'.packages
  remotes : graph'.remotes = graph.remotes

namespace Without

variable {ids ids' start : Set (LockfilePkgId V)}

theorem refl (graph : LockfilePackageGraph R V) : Without graph ∅ graph := by
  constructor
  . intro req id
    exact (and_iff_left (Set.notMem_empty id)).symm
  . intro id pkg
    exact (and_iff_left fun hmem => absurd hmem (Set.notMem_empty id)).symm
  . rfl

theorem trans (h : Without graph ids graph') (h' : Without graph' ids' graph'')
    : Without graph (ids ∪ ids') graph'' := by
  constructor
  . intro req id
    rw [h'.rootPackages, h.rootPackages, and_assoc, Set.mem_union, not_or]
  . intro id pkg
    rw [h'.packages, h.packages, and_assoc]
    constructor
    . rintro ⟨hget, hnpm, hnpm'⟩
      exact ⟨hget, fun hmem => hmem.elim hnpm hnpm'⟩
    . rintro ⟨hget, hnpm⟩
      exact ⟨hget, fun hmem => hnpm (.inl hmem), fun hmem => hnpm (.inr hmem)⟩
  . exact h'.remotes.trans h.remotes

theorem sorted (h : Without graph ids graph') (hsorted : graph.Sorted) : graph'.Sorted := by
  constructor
  . intro id pkg hget
    exact hsorted.1 id pkg ((h.packages _ _).mp hget).1
  . intro nv pkg hget
    exact hsorted.2 nv pkg ((h.packages _ _).mp hget).1

variable {a b : LockfilePkgId V}

theorem follows (h : Without graph ids graph') (hab : graph'.Follows a b) : graph.Follows a b := by
  obtain ⟨pkg, hget, hb⟩ := hab
  refine ⟨pkg, ((h.packages _ _).mp hget).1, ?_⟩
  rw [mem_append] at hb ⊢
  rcases hb with hb | hb
  . left
    rw [mem_filterMap] at hb ⊢
    obtain ⟨req, hreq, hid⟩ := hb
    exact ⟨req, hreq, ((h.rootPackages _ _).mp hid).1⟩
  . exact .inr hb

theorem follows_of_notMem (h : Without graph ids graph') (hab : graph.Follows a b) (ha : a ∉ ids)
    (hb : b ∉ ids)
    : graph'.Follows a b := by
  obtain ⟨pkg, hget, hmem⟩ := hab
  refine ⟨pkg, (h.packages _ _).mpr ⟨hget, fun hmem => absurd hmem ha⟩, ?_⟩
  rw [mem_append] at hmem ⊢
  rcases hmem with hmem | hmem
  . left
    rw [mem_filterMap] at hmem ⊢
    obtain ⟨req, hreq, hid⟩ := hmem
    exact ⟨req, hreq, (h.rootPackages _ _).mpr ⟨hid, hb⟩⟩
  . exact .inr hmem

theorem trans_reach (h : Without graph ids graph') (hclosed : Closed graph.Follows ids)
    (h' : Without graph' (reach graph'.Follows start) graph'')
    : Without graph (ids ∪ reach graph.Follows start) graph'' := by
  rw [← union_reach_eq hclosed (fun _ _ => h.follows) (fun _ _ => h.follows_of_notMem)]
  exact h.trans h'

end Without

theorem removeRootPkgById_without (hsorted : graph.Sorted) (id : LockfilePkgId V)
    : Without graph (reach graph.Follows { id }) (graph.removeRootPkgById id) := by
  cases id with
  | npm id =>
    have hreach : reach graph.Follows { .npm id } = { .npm id } := by
      apply Set.Subset.antisymm
      . apply reach_subset (Set.Subset.refl _)
        rintro u rfl v ⟨pkg, hget, _⟩
        exact absurd hget (hsorted.1 id pkg)
      . exact subset_reach _
    rw [hreach]
    constructor
    . intro req x
      show (graph.rootPackages.filter _).get? req = some x ↔ _
      rw [OrderedMap.get?_filter, Option.filter_eq_some_iff, decide_eq_true_iff]
      rfl
    . intro x pkg
      constructor
      . intro hget
        refine ⟨hget, ?_⟩
        rintro rfl
        cases pkg with
        | jsr pkg => exact absurd hget (hsorted.1 id pkg)
        | npm pkg => exact ⟨pkg, rfl⟩
      . exact And.left
    . rfl
  | jsr nv =>
    have hpurging : Purging graph { .jsr nv } graph.packages [.jsr nv] [] := by
      constructor
      . intro x pkg
        constructor
        . intro hget
          exact ⟨hget, nofun⟩
        . exact And.left
      . have hstart : { x : LockfilePkgId V | x ∈ [LockfilePkgId.jsr nv] } = { .jsr nv } := by
          ext x
          exact mem_singleton
        have hnone : { x : LockfilePkgId V | x ∈ ([] : List (LockfilePkgId V)) } = ∅ := by
          ext x
          simp
        rw [hstart, hnone]
        exact Explored.init graph.Follows { .jsr nv }
    obtain ⟨hids, hpackages⟩ := hpurging.purge
    constructor
    . intro req x
      show (graph.rootPackages.filter _).get? req = some x ↔ _
      rw [OrderedMap.get?_filter, Option.filter_eq_some_iff, ← hids, Bool.not_eq_true',
        ← Bool.not_eq_true]
      rw [BinarySearch.isOk_search_sorted_iff]
      rfl
    . exact hpackages
    . rfl

theorem removeRootPackages_without (hsorted : graph.Sorted) (reqs : List (JsrDepPackageReq R))
    : Without graph
      (reach graph.Follows { id | ∃ req ∈ reqs, graph.rootPackages.get? req = some id })
      (graph.removeRootPackages reqs) := by
  induction reqs using reverseRecOn with
  | nil =>
    have hreach : reach graph.Follows
        { id | ∃ req ∈ ([] : List (JsrDepPackageReq R)), graph.rootPackages.get? req = some id } = ∅ := by
      apply Set.eq_empty_of_forall_notMem
      rintro x ⟨s, ⟨req, hreq, _⟩, _⟩
      contradiction
    rw [hreach]
    exact .refl graph
  | append_singleton reqs req ih =>
    have hstart : { id | ∃ r ∈ reqs ++ [req], graph.rootPackages.get? r = some id }
        = { id | ∃ r ∈ reqs, graph.rootPackages.get? r = some id } ∪
          { id | graph.rootPackages.get? req = some id } := by
      ext id
      simp [or_and_right, exists_or]
    rw [hstart, reach_union, removeRootPackages, foldl_append, foldl_cons, foldl_nil, ← removeRootPackages]
    have hclosed : Closed graph.Follows
        (reach graph.Follows { id | ∃ r ∈ reqs, graph.rootPackages.get? r = some id }) := closed_reach _
    generalize reach graph.Follows { id | ∃ r ∈ reqs, graph.rootPackages.get? r = some id } = ids at ih hclosed
    split
    . next id hget =>
      have hid := ((ih.rootPackages req id).mp hget).1
      have hone : { x | graph.rootPackages.get? req = some x } = { id } := by
        ext x
        rw [Set.mem_ofPred_eq, hid, Option.some_inj]
        exact eq_comm
      rw [hone]
      exact ih.trans_reach hclosed (removeRootPkgById_without (ih.sorted hsorted) id)
    . next hget =>
      have hsub : reach graph.Follows { x | graph.rootPackages.get? req = some x } ⊆ ids := by
        apply reach_subset _ hclosed
        intro x hx
        by_contra hmem
        rw [(ih.rootPackages req x).mpr ⟨hx, hmem⟩] at hget
        contradiction
      rw [Set.union_eq_left.mpr hsub]
      exact ih

theorem removeLinks_without (hsorted : graph.Sorted) (reqs : List (JsrDepPackageReq R))
    : ∃ ids, Without graph ids (graph.removeLinks reqs) := by
  unfold removeLinks
  generalize (reqs.flatMap fun pkgReq => _ : List (LockfilePkgId V)) = pendingIds
  induction pendingIds using reverseRecOn with
  | nil => exact ⟨∅, .refl graph⟩
  | append_singleton pendingIds id ih =>
    obtain ⟨ids, h⟩ := ih
    rw [foldl_append]
    exact ⟨_, h.trans (removeRootPkgById_without (h.sorted hsorted) id)⟩

end DenoLockfile.LockfilePackageGraph
