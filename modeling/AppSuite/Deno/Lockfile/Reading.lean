import AppSuite.Deno.Lockfile.Graph
import AppSuite.System.Run

/-!
This module contains what the graph of a lockfile holds, and what is written back from a graph.
-/

namespace DenoLockfile

open List OrderedMap LockfileGraphPackage

variable {R V : Type}

namespace PackagesContent

variable [DecidableEq R] [LinearOrder V] [Version V]

def target (content : PackagesContent R V) (req : JsrDepPackageReq R) : Option (LockfilePkgId V) :=
  (content.specifiers.get? req).bind (LockfilePackageGraph.specifierId req)

def DependsOn (content : PackagesContent R V) (a b : PackageNv V) : Prop :=
  ∃ info, content.jsr.get? a = some info ∧ ∃ dep ∈ info.dependencies.elems, content.target dep = some (.jsr b)

end PackagesContent

namespace LockfileGraphPackage

def core : LockfileGraphPackage R V → LockfileGraphPackage R V
  | .jsr pkg => .jsr { pkg with dependents := .empty }
  | .npm pkg => .npm { pkg with dependents := .empty }

theorem core_addDependent [LinearOrder V] (id : LockfilePkgId V) (pkg : LockfileGraphPackage R V)
    : (pkg.addDependent id).core = pkg.core := by
  cases pkg with
  | jsr pkg | npm pkg => rfl

theorem mem_dependents_addDependent [LinearOrder V] (id x : LockfilePkgId V) (pkg : LockfileGraphPackage R V)
    : x ∈ (pkg.addDependent id).dependents.elems ↔ x ∈ pkg.dependents.elems ∨ x = id := by
  cases pkg with
  | jsr pkg | npm pkg => exact OrderedSet.mem_add

theorem dependencyIds_core [DecidableEq R] (rootPackages : OrderedMap (JsrDepPackageReq R) (LockfilePkgId V))
    (pkg : LockfileGraphPackage R V)
    : pkg.core.dependencyIds rootPackages = pkg.dependencyIds rootPackages := by
  cases pkg with
  | jsr pkg | npm pkg => rfl

variable {pkg : LockfileGraphPackage R V}

theorem core_eq_jsr (h : pkg.core = .jsr p)
    : pkg = .jsr { p with dependents := pkg.dependents } := by
  cases pkg with
  | jsr pkg =>
    cases h
    rfl
  | npm pkg => cases h

theorem core_eq_npm (h : pkg.core = .npm p)
    : pkg = .npm { p with dependents := pkg.dependents } := by
  cases pkg with
  | jsr pkg => cases h
  | npm pkg =>
    cases h
    rfl

end LockfileGraphPackage

namespace LockfilePackageGraph

section FromLockfile

variable (content : PackagesContent R V)

theorem fromLockfile_rootPackages [DecidableEq R] [LinearOrder V] [Version V] (remotes : OrderedMap Str Str)
    (req : JsrDepPackageReq R)
    : (fromLockfile content remotes).rootPackages.get? req = content.target req := by
  apply (get?_extend_filterMap empty content.specifiers _).trans
  . apply Option.or_none
  . intro e id
    rw [Option.map_eq_some_iff]
    grind

def rawPackages [LinearOrder V] : OrderedMap (LockfilePkgId V) (LockfileGraphPackage R V) :=
  (empty.extend (content.jsr.entries.map jsrEntry)).extend (content.npm.entries.map npmEntry)

theorem rawPackages_jsr [LinearOrder V] (nv : PackageNv V)
    : (rawPackages content).get? (.jsr nv)
      = (content.jsr.get? nv).map fun info => .jsr ⟨.empty, info.integrity, info.dependencies⟩ := by
  rw [rawPackages, get?_extend_of_notMem, ← filterMap_eq_map, get?_extend_filterMap _ content.jsr (k := nv)
    (g := fun info => some (.jsr ⟨.empty, info.integrity, info.dependencies⟩))]
  . simp [Option.map_eq_bind]
  . simp [jsrEntry]
  . simp [npmEntry]

theorem rawPackages_npm [LinearOrder V] (id : Str)
    : (rawPackages content).get? (.npm id) = (content.npm.get? id).map fun info => .npm ⟨.empty, info⟩ := by
  rw [rawPackages, ← filterMap_eq_map (f := npmEntry), get?_extend_filterMap _ content.npm (k := id)
    (g := fun info => some (.npm ⟨.empty, info⟩)), get?_extend_of_notMem]
  . simp [Option.map_eq_bind]
  . simp [jsrEntry]
  . simp [npmEntry]

end FromLockfile

variable [DecidableEq R] [LinearOrder V]
  {rootPackages : OrderedMap (JsrDepPackageReq R) (LockfilePkgId V)}
  {packages : OrderedMap (LockfilePkgId V) (LockfileGraphPackage R V)}

section

variable (packages : OrderedMap (LockfilePkgId V) (LockfileGraphPackage R V))

def coreOf (id : LockfilePkgId V) : Option (LockfileGraphPackage R V) :=
  (packages.get? id).map core

def Depends (rootPackages : OrderedMap (JsrDepPackageReq R) (LockfilePkgId V))
    (cores : LockfilePkgId V → Option (LockfileGraphPackage R V)) (x id : LockfilePkgId V) : Prop :=
  (∃ pkg, cores id = some pkg) ∧ ∃ pkg, cores x = some pkg ∧ id ∈ pkg.dependencyIds rootPackages

def HasDependent (id x : LockfilePkgId V) : Prop :=
  ∃ pkg, packages.get? id = some pkg ∧ x ∈ pkg.dependents.elems

end

omit [DecidableEq R] in
theorem coreOf_modify (depId pkgId : LockfilePkgId V)
    : coreOf (packages.modify depId (addDependent pkgId)) = coreOf packages := by
  funext id
  rw [coreOf, get?_modify]
  split
  . rw [Option.map_map]
    have hcore : core ∘ addDependent pkgId
        = (core : LockfileGraphPackage R V → _) := by
      funext pkg
      exact core_addDependent pkgId pkg
    rw [hcore]
    rfl
  . rfl

variable (depIds : List (LockfilePkgId V)) (pkgId : LockfilePkgId V)

omit [DecidableEq R] in
theorem coreOf_foldl_modify
    : coreOf (depIds.foldl (fun packages depId =>
      packages.modify depId (addDependent pkgId)) packages) = coreOf packages :=
  Run.foldl_frame coreOf (fun _ depId => coreOf_modify depId pkgId) packages depIds

omit [DecidableEq R] in
theorem exists_coreOf_iff {id : LockfilePkgId V}
    : (∃ pkg, coreOf packages id = some pkg) ↔ ∃ pkg, packages.get? id = some pkg := by
  unfold coreOf
  cases packages.get? id with
  | none => simp
  | some pkg => simp

omit [DecidableEq R] in
theorem hasDependent_foldl_modify (pkgId id x : LockfilePkgId V)
    : HasDependent (depIds.foldl (fun packages depId =>
        packages.modify depId (addDependent pkgId)) packages) id x ↔
      HasDependent packages id x ∨ (x = pkgId ∧ id ∈ depIds ∧ ∃ pkg, coreOf packages id = some pkg) := by
  induction depIds generalizing packages with
  | nil => simp
  | cons depId depIds ih =>
    rw [foldl_cons, ih, coreOf_modify, exists_coreOf_iff, mem_cons]
    unfold HasDependent
    rw [get?_modify]
    split
    . next heq =>
      subst heq
      cases packages.get? depId with
      | none => simp
      | some pkg =>
        simp only [Option.map_some, Option.some_inj, exists_eq_left',
          mem_dependents_addDependent]
        simp
        tauto
    . next hne => rw [or_iff_right (Ne.symm hne)]

theorem coreOf_addDependents : coreOf (addDependents rootPackages packages pkgId) = coreOf packages := by
  unfold addDependents
  split
  . exact coreOf_foldl_modify _ _
  . rfl

theorem hasDependent_addDependents (pkgId id x : LockfilePkgId V)
    : HasDependent (addDependents rootPackages packages pkgId) id x ↔
      HasDependent packages id x ∨ (x = pkgId ∧ Depends rootPackages (coreOf packages) x id) := by
  unfold addDependents
  split
  . next pkg hget =>
    have hcore : coreOf packages pkgId = some pkg.core := by
      rw [coreOf, hget]
      rfl
    rw [hasDependent_foldl_modify]
    apply or_congr_right
    apply and_congr_right
    rintro rfl
    unfold Depends
    simp only [hcore, Option.some_inj, exists_eq_left', dependencyIds_core]
    exact and_comm
  . next hget =>
    symm
    apply or_iff_left
    rintro ⟨rfl, _, pkg, hpkg, _⟩
    rw [coreOf, hget] at hpkg
    contradiction

theorem coreOf_foldl_addDependents (pkgIds : List (LockfilePkgId V))
    : coreOf (pkgIds.foldl (addDependents rootPackages) packages) = coreOf packages :=
  Run.foldl_frame coreOf (fun _ pkgId => coreOf_addDependents pkgId) packages pkgIds

theorem hasDependent_foldl_addDependents (pkgIds : List (LockfilePkgId V)) (id x : LockfilePkgId V)
    : HasDependent (pkgIds.foldl (addDependents rootPackages) packages) id x ↔
      HasDependent packages id x ∨ (x ∈ pkgIds ∧ Depends rootPackages (coreOf packages) x id) := by
  induction pkgIds generalizing packages with
  | nil => simp
  | cons pkgId pkgIds ih =>
    rw [foldl_cons, ih, hasDependent_addDependents, coreOf_addDependents, mem_cons]
    tauto

section FromLockfile

omit [DecidableEq R] in
theorem coreOf_rawPackages (content : PackagesContent R V)
    : coreOf (rawPackages content) = (rawPackages content).get? := by
  funext id
  rw [coreOf]
  cases id with
  | npm id | jsr nv =>
    simp only [rawPackages_npm, rawPackages_jsr, Option.map_map]
    rfl

omit [DecidableEq R] in
theorem not_hasDependent_rawPackages (content : PackagesContent R V) (id x : LockfilePkgId V)
    : ¬HasDependent (rawPackages content) id x := by
  rintro ⟨pkg, hget, hx⟩
  cases id with
  | npm id | jsr nv =>
    simp only [rawPackages_npm, rawPackages_jsr, Option.map_eq_some_iff] at hget
    obtain ⟨info, _, rfl⟩ := hget
    contradiction

variable [Version V] (content : PackagesContent R V) (remotes : OrderedMap Str Str)

theorem fromLockfile_core (id : LockfilePkgId V)
    : coreOf (fromLockfile content remotes).packages id = (rawPackages content).get? id := by
  show coreOf ((rawPackages content).keys.foldl _ (rawPackages content)) id = _
  rw [coreOf_foldl_addDependents, coreOf_rawPackages]

variable {nv : PackageNv V} {info : JsrPackageInfo R} {id : Str} {pkg : LockfileGraphPackage R V}

theorem fromLockfile_hasDependent (h : content.jsr.get? nv = some info) (x : LockfilePkgId V)
    : HasDependent (fromLockfile content remotes).packages (.jsr nv) x ↔
      ∃ nv', x = .jsr nv' ∧ content.DependsOn nv' nv := by
  have hroot := fromLockfile_rootPackages content remotes
  show HasDependent ((rawPackages content).keys.foldl
    (addDependents (fromLockfile content remotes).rootPackages) (rawPackages content)) (.jsr nv) x ↔ _
  rw [hasDependent_foldl_addDependents, or_iff_right (not_hasDependent_rawPackages content _ _),
    coreOf_rawPackages]
  constructor
  . rintro ⟨_, _, pkg, hpkg, hmem⟩
    cases x with
    | npm id =>
      rw [rawPackages_npm, Option.map_eq_some_iff] at hpkg
      obtain ⟨info', _, rfl⟩ := hpkg
      obtain ⟨id', _, heq⟩ := mem_map.mp hmem
      cases heq
    | jsr nv' =>
      rw [rawPackages_jsr, Option.map_eq_some_iff] at hpkg
      obtain ⟨info', hinfo', rfl⟩ := hpkg
      obtain ⟨dep, hdep, htarget⟩ := mem_filterMap.mp hmem
      rw [hroot] at htarget
      exact ⟨nv', rfl, info', hinfo', dep, hdep, htarget⟩
  . rintro ⟨nv', rfl, info', hinfo', dep, hdep, htarget⟩
    have hget := rawPackages_jsr content nv'
    rw [hinfo', Option.map_some] at hget
    refine ⟨?_, ⟨_, by rw [rawPackages_jsr, h]; rfl⟩, _, hget, ?_⟩
    . exact mem_map.mpr ⟨_, get?_eq_some_iff.mp hget, rfl⟩
    . exact mem_filterMap.mpr ⟨dep, hdep, by rw [hroot, htarget]⟩

theorem fromLockfile_npm (h : (fromLockfile content remotes).packages.get? (.npm id) = some pkg)
    : ∃ info, content.npm.get? id = some info ∧ ∃ dependents, pkg = .npm ⟨dependents, info⟩ := by
  have hcore := fromLockfile_core content remotes (.npm id)
  rw [coreOf, h, rawPackages_npm, Option.map_some, eq_comm, Option.map_eq_some_iff] at hcore
  obtain ⟨info, hinfo, heq⟩ := hcore
  exact ⟨info, hinfo, pkg.dependents, core_eq_npm heq.symm⟩

theorem fromLockfile_jsr (h : (fromLockfile content remotes).packages.get? (.jsr nv) = some pkg)
    : ∃ info, content.jsr.get? nv = some info ∧
      ∃ dependents, pkg = .jsr ⟨dependents, info.integrity, info.dependencies⟩ ∧
        ∀ x, x ∈ dependents.elems ↔ ∃ nv', x = .jsr nv' ∧ content.DependsOn nv' nv := by
  have hcore := fromLockfile_core content remotes (.jsr nv)
  rw [coreOf, h, rawPackages_jsr, Option.map_some, eq_comm, Option.map_eq_some_iff] at hcore
  obtain ⟨info, hinfo, heq⟩ := hcore
  refine ⟨info, hinfo, pkg.dependents, core_eq_jsr heq.symm, ?_⟩
  intro x
  rw [← fromLockfile_hasDependent content remotes hinfo, HasDependent, h]
  simp

theorem exists_fromLockfile_npm {info : NpmPackageInfo} (h : content.npm.get? id = some info)
    : ∃ pkg, (fromLockfile content remotes).packages.get? (.npm id) = some pkg := by
  rw [← exists_coreOf_iff, fromLockfile_core, rawPackages_npm, h]
  exact ⟨_, rfl⟩

theorem exists_fromLockfile_jsr (h : content.jsr.get? nv = some info)
    : ∃ pkg, (fromLockfile content remotes).packages.get? (.jsr nv) = some pkg := by
  rw [← exists_coreOf_iff, fromLockfile_core, rawPackages_jsr, h]
  exact ⟨_, rfl⟩

end FromLockfile

def Sorted (graph : LockfilePackageGraph R V) : Prop :=
  (∀ id pkg, graph.packages.get? (.npm id) ≠ some (.jsr pkg)) ∧
    ∀ nv pkg, graph.packages.get? (.jsr nv) ≠ some (.npm pkg)

def Readable [Version V] (graph : LockfilePackageGraph R V) : Prop :=
  ∀ req id, graph.rootPackages.get? req = some id → ∃ value, specifierValue req id = some value

def jsrInfo (rootPackages : OrderedMap (JsrDepPackageReq R) (LockfilePkgId V))
    : LockfilePkgId V × LockfileGraphPackage R V → Option (PackageNv V × JsrPackageInfo R)
  | (.jsr nv, .jsr pkg) => some (nv, ⟨pkg.integrity, pkg.dependencies.filter rootPackages.has⟩)
  | _ => none

def npmInfo : LockfilePkgId V × LockfileGraphPackage R V → Option (Str × NpmPackageInfo)
  | (.npm id, .npm pkg) => some (id, pkg.info)
  | _ => none

theorem foldlM_populatePackage {es : List (LockfilePkgId V × LockfileGraphPackage R V)}
    (hnpm : ∀ id pkg, (LockfilePkgId.npm id, jsr pkg) ∉ es)
    (hjsr : ∀ nv pkg, (LockfilePkgId.jsr nv, npm pkg) ∉ es)
    (content : PackagesContent R V)
    : es.foldlM (populatePackage rootPackages) content =
        some { content with
          jsr := content.jsr.extend (es.filterMap (jsrInfo rootPackages))
          npm := content.npm.extend (es.filterMap npmInfo) } := by
  induction es generalizing content with
  | nil => rfl
  | cons e es ih =>
    have hrest := ih (fun id pkg h => hnpm id pkg (mem_cons_of_mem e h))
      (fun nv pkg h => hjsr nv pkg (mem_cons_of_mem e h))
    obtain ⟨id, pkg⟩ := e
    cases id with
    | npm id =>
      cases pkg with
      | npm pkg => exact hrest { content with npm := content.npm.set id pkg.info }
      | jsr pkg => exact absurd mem_cons_self (hnpm id pkg)
    | jsr nv =>
      cases pkg with
      | npm pkg => exact absurd mem_cons_self (hjsr nv pkg)
      | jsr pkg =>
        exact hrest { content with
          jsr := content.jsr.set nv ⟨pkg.integrity, pkg.dependencies.filter rootPackages.has⟩ }

omit [LinearOrder V] in
theorem foldlM_populateSpecifier [Version V] {es : List (JsrDepPackageReq R × LockfilePkgId V)}
    (hes : ∀ e ∈ es, ∃ value, specifierValue e.1 e.2 = some value) (content : PackagesContent R V)
    : es.foldlM populateSpecifier content =
        some { content with
          specifiers := content.specifiers.extend
            (es.filterMap fun e => (specifierValue e.1 e.2).map fun value => (e.1, value)) } := by
  induction es generalizing content with
  | nil => rfl
  | cons e es ih =>
    rw [forall_mem_cons] at hes
    obtain ⟨⟨value, hvalue⟩, hes⟩ := hes
    rw [foldlM_cons, populateSpecifier, hvalue, Option.map_some, filterMap_cons, hvalue,
      Option.map_some]
    exact ih hes { content with specifiers := content.specifiers.set e.1 value }

variable {e : LockfilePkgId V × LockfileGraphPackage R V}

def written [Version V] (graph : LockfilePackageGraph R V) : PackagesContent R V where
  specifiers := empty.extend
    (graph.rootPackages.entries.filterMap fun e => (specifierValue e.1 e.2).map fun value => (e.1, value))
  jsr := empty.extend (graph.packages.entries.filterMap (jsrInfo graph.rootPackages))
  npm := empty.extend (graph.packages.entries.filterMap npmInfo)

section Written

variable [Version V] (graph : LockfilePackageGraph R V)

theorem populatePackages_eq (hsorted : graph.Sorted) (hreadable : graph.Readable)
    : graph.populatePackages .empty = some (graph.written, graph.remotes) := by
  unfold populatePackages
  rw [foldlM_populatePackage, Option.bind_eq_bind, Option.bind_some, foldlM_populateSpecifier]
  . rfl
  . intro e he
    exact hreadable e.1 e.2 (get?_eq_some_iff.mpr he)
  . intro id pkg hmem
    exact hsorted.1 id pkg (get?_eq_some_iff.mpr hmem)
  . intro nv pkg hmem
    exact hsorted.2 nv pkg (get?_eq_some_iff.mpr hmem)

theorem written_jsr (nv : PackageNv V) (info : JsrPackageInfo R)
    : graph.written.jsr.get? nv = some info ↔
      ∃ pkg, graph.packages.get? (.jsr nv) = some (.jsr pkg) ∧
        info = ⟨pkg.integrity, pkg.dependencies.filter graph.rootPackages.has⟩ := by
  rw [written, get?_extend_filterMap empty graph.packages (k := .jsr nv)
    (g := fun pkg => (jsrInfo graph.rootPackages (.jsr nv, pkg)).map Prod.snd)]
  . cases graph.packages.get? (.jsr nv) with
    | none => simp
    | some pkg => cases pkg <;> simp [jsrInfo, eq_comm]
  . rintro ⟨id, pkg⟩ info
    cases id <;> cases pkg <;> simp [jsrInfo, and_comm]

theorem written_npm (id : Str) (info : NpmPackageInfo)
    : graph.written.npm.get? id = some info ↔
      ∃ pkg, graph.packages.get? (.npm id) = some (.npm pkg) ∧ info = pkg.info := by
  rw [written, get?_extend_filterMap empty graph.packages (k := .npm id)
    (g := fun pkg => (npmInfo (.npm id, pkg)).map Prod.snd)]
  . cases graph.packages.get? (.npm id) with
    | none => simp
    | some pkg => cases pkg <;> simp [npmInfo, eq_comm]
  . rintro ⟨id, pkg⟩ info
    cases id <;> cases pkg <;> simp [npmInfo, and_comm]

theorem written_specifiers (req : JsrDepPackageReq R)
    : graph.written.specifiers.get? req = (graph.rootPackages.get? req).bind (specifierValue req) := by
  apply (get?_extend_filterMap empty graph.rootPackages _).trans
  . apply Option.or_none
  . intro e value
    rw [Option.map_eq_some_iff]
    grind

end Written

end LockfilePackageGraph

end DenoLockfile
