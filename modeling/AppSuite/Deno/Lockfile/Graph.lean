import AppSuite.Data.OrderedMap
import AppSuite.Data.OrderedSet
import AppSuite.Data.BinarySearch

/-!
This module contains the packages of a lockfile and the graph through which packages are removed.
Version requirements and versions are arbitrary types.
-/

namespace DenoLockfile

abbrev Str := List Char

inductive PackageKind where
  | jsr
  | npm
  deriving DecidableEq

structure PackageReq (R : Type) where
  name : Str
  versionReq : R
  deriving DecidableEq

structure JsrDepPackageReq (R : Type) where
  kind : PackageKind
  req : PackageReq R
  deriving DecidableEq

structure PackageNv (V : Type) where
  name : Str
  version : V
  deriving DecidableEq

class Version (V : Type) where
  parseStandard : Str → Option V
  parseFromNpm : Str → Option V
  toCustomString : V → Str
  nvFromStr : Str → Option (PackageNv V)

structure NpmPackageInfo where
  integrity : Option Str
  dependencies : OrderedMap Str Str
  optionalDependencies : OrderedMap Str Str
  optionalPeers : OrderedMap Str Str
  os : List Str
  cpu : List Str
  tarball : Option Str
  deprecated : Bool
  scripts : Bool
  bin : Bool

structure JsrPackageInfo (R : Type) where
  integrity : Str
  dependencies : OrderedSet (JsrDepPackageReq R)

structure PackagesContent (R V : Type) where
  specifiers : OrderedMap (JsrDepPackageReq R) Str
  jsr : OrderedMap (PackageNv V) (JsrPackageInfo R)
  npm : OrderedMap Str NpmPackageInfo

def PackagesContent.empty {R V : Type} : PackagesContent R V := ⟨.empty, .empty, .empty⟩

/-! The graph. A `LockfilePkgReq` has the same two cases as a `JsrDepPackageReq`. -/

inductive LockfilePkgId (V : Type) where
  | npm (id : Str)
  | jsr (nv : PackageNv V)
  deriving DecidableEq

structure LockfileNpmGraphPackage (V : Type) where
  dependents : OrderedSet (LockfilePkgId V)
  info : NpmPackageInfo

def LockfileNpmGraphPackage.allDependencyIds {V : Type} (pkg : LockfileNpmGraphPackage V) : List Str :=
  pkg.info.dependencies.values ++ pkg.info.optionalDependencies.values ++ pkg.info.optionalPeers.values

structure LockfileJsrGraphPackage (R V : Type) where
  dependents : OrderedSet (LockfilePkgId V)
  integrity : Str
  dependencies : OrderedSet (JsrDepPackageReq R)

inductive LockfileGraphPackage (R V : Type) where
  | jsr (pkg : LockfileJsrGraphPackage R V)
  | npm (pkg : LockfileNpmGraphPackage V)

structure LockfilePackageGraph (R V : Type) where
  rootPackages : OrderedMap (JsrDepPackageReq R) (LockfilePkgId V)
  packages : OrderedMap (LockfilePkgId V) (LockfileGraphPackage R V)
  remotes : OrderedMap Str Str

namespace LockfilePkgId

variable {V : Type}

-- The order that is derived for the type: npm packages first, then jsr packages by name and version.
def key : LockfilePkgId V → Str ⊕ₗ (Str ×ₗ V)
  | .npm id => Sum.inlₗ id
  | .jsr nv => Sum.inrₗ (toLex (nv.name, nv.version))

theorem key_injective : Function.Injective (key : LockfilePkgId V → Str ⊕ₗ (Str ×ₗ V)) := by
  intro a b h
  cases a with
  | npm a =>
    cases b with
    | npm b =>
      cases h
      rfl
    | jsr b => cases h
  | jsr a =>
    cases b with
    | npm b => cases h
    | jsr b =>
      cases a
      cases b
      cases h
      rfl

instance [LinearOrder V] : LinearOrder (LockfilePkgId V) := LinearOrder.lift' key key_injective

end LockfilePkgId

variable {R V : Type} [DecidableEq R] [LinearOrder V]

namespace LockfileGraphPackage

def dependents : LockfileGraphPackage R V → OrderedSet (LockfilePkgId V)
  | .jsr pkg => pkg.dependents
  | .npm pkg => pkg.dependents

def addDependent (id : LockfilePkgId V) : LockfileGraphPackage R V → LockfileGraphPackage R V
  | .jsr pkg => .jsr { pkg with dependents := pkg.dependents.add id }
  | .npm pkg => .npm { pkg with dependents := pkg.dependents.add id }

def dependencyIds (rootPackages : OrderedMap (JsrDepPackageReq R) (LockfilePkgId V))
    : LockfileGraphPackage R V → List (LockfilePkgId V)
  | .jsr pkg => pkg.dependencies.elems.filterMap rootPackages.get?
  | .npm pkg => pkg.allDependencyIds.map .npm

end LockfileGraphPackage

namespace LockfilePackageGraph

def specifierId [Version V] (dep : JsrDepPackageReq R) (value : Str) : Option (LockfilePkgId V) :=
  match dep.kind with
  | .jsr => (Version.parseStandard value).map fun version => .jsr ⟨dep.req.name, version⟩
  | .npm => some (.npm (dep.req.name ++ '@' :: value))

variable (rootPackages : OrderedMap (JsrDepPackageReq R) (LockfilePkgId V))

def addDependents (packages : OrderedMap (LockfilePkgId V) (LockfileGraphPackage R V))
    (pkgId : LockfilePkgId V) : OrderedMap (LockfilePkgId V) (LockfileGraphPackage R V) :=
  match packages.get? pkgId with
  | some pkg =>
    (pkg.dependencyIds rootPackages).foldl
      (fun packages depId => packages.modify depId (LockfileGraphPackage.addDependent pkgId)) packages
  | none => packages

def jsrEntry (e : PackageNv V × JsrPackageInfo R) : LockfilePkgId V × LockfileGraphPackage R V :=
  (.jsr e.1, .jsr ⟨.empty, e.2.integrity, e.2.dependencies⟩)

def npmEntry (e : Str × NpmPackageInfo) : LockfilePkgId V × LockfileGraphPackage R V :=
  (.npm e.1, .npm ⟨.empty, e.2⟩)

def fromLockfile [Version V] (content : PackagesContent R V) (remotes : OrderedMap Str Str)
    : LockfilePackageGraph R V :=
  let rootPackages := OrderedMap.empty.extend
    (content.specifiers.entries.filterMap fun e => (specifierId e.1 e.2).map fun id => (e.1, id))
  let packages := (OrderedMap.empty.extend (content.jsr.entries.map jsrEntry)).extend
    (content.npm.entries.map npmEntry)
  let pkgIds := packages.keys
  ⟨rootPackages, pkgIds.foldl (addDependents rootPackages) packages, remotes⟩

-- The pending ids are a stack with its top at the head of the list. A package is followed when it is
-- there for the first time only, so that the loop ends on cyclic graphs as well.
def purge (rootPackages : OrderedMap (JsrDepPackageReq R) (LockfilePkgId V))
    (packages : OrderedMap (LockfilePkgId V) (LockfileGraphPackage R V))
    (pendingIds rootIdsToRemove : List (LockfilePkgId V))
    : OrderedMap (LockfilePkgId V) (LockfileGraphPackage R V) × List (LockfilePkgId V) :=
  match pendingIds with
  | [] => (packages, rootIdsToRemove)
  | id :: pendingIds =>
    match h : packages.get? id with
    | some (.jsr pkg) =>
      have := OrderedMap.length_keys_delete_lt h
      purge rootPackages (packages.delete id)
        ((pkg.dependencies.elems.filterMap rootPackages.get? ++ pkg.dependents.elems).reverse ++ pendingIds)
        (rootIdsToRemove ++ [id])
    | some (.npm _) => purge rootPackages packages pendingIds (rootIdsToRemove ++ [id])
    | none => purge rootPackages packages pendingIds (rootIdsToRemove ++ [id])
termination_by (packages.keys.length, pendingIds.length)

def removeRootPkgById (graph : LockfilePackageGraph R V) (id : LockfilePkgId V) : LockfilePackageGraph R V :=
  match id with
  | .jsr _ =>
    let (packages, rootIdsToRemove) := purge graph.rootPackages graph.packages [id] []
    let rootIdsToRemove := (rootIdsToRemove.insertionSort (· ≤ ·)).destutter (· ≠ ·)
    { graph with
      packages
      rootPackages := graph.rootPackages.filter fun e =>
        !(BinarySearch.binarySearchBy (compare · e.2) rootIdsToRemove).isOk }
  | .npm _ => { graph with rootPackages := graph.rootPackages.filter fun e => e.2 ≠ id }

variable (graph : LockfilePackageGraph R V) (packageReqs : List (JsrDepPackageReq R))

def removeRootPackages : LockfilePackageGraph R V :=
  packageReqs.foldl (fun graph req =>
    match graph.rootPackages.get? req with
    | some id => graph.removeRootPkgById id
    | none => graph) graph

def removeLinks : LockfilePackageGraph R V :=
  let pendingIds := packageReqs.flatMap fun pkgReq =>
    (graph.rootPackages.entries.filter fun e =>
      pkgReq.kind = e.1.kind ∧ pkgReq.req.name = e.1.req.name).map Prod.snd
  pendingIds.foldl removeRootPkgById graph

def stripPrefix (text start : Str) : Option Str :=
  if start <+: text then some (text.drop start.length) else none

-- No value: the entry cannot be written back, and the code panics.
def populatePackage (packages : PackagesContent R V)
    : LockfilePkgId V × LockfileGraphPackage R V → Option (PackagesContent R V)
  | (.jsr nv, .jsr pkg) =>
    some { packages with
      jsr := packages.jsr.set nv ⟨pkg.integrity, pkg.dependencies.filter rootPackages.has⟩ }
  | (.npm id, .npm pkg) => some { packages with npm := packages.npm.set id pkg.info }
  | (.jsr _, .npm _) => none
  | (.npm _, .jsr _) => none

def specifierValue [Version V] (req : JsrDepPackageReq R) : LockfilePkgId V → Option Str
  | .jsr nv => some (Version.toCustomString nv.version)
  | .npm id => (stripPrefix id req.req.name).bind (stripPrefix · ['@'])

def populateSpecifier [Version V] (packages : PackagesContent R V)
    (e : JsrDepPackageReq R × LockfilePkgId V) : Option (PackagesContent R V) :=
  (specifierValue e.1 e.2).map fun value => { packages with specifiers := packages.specifiers.set e.1 value }

def populatePackages [Version V] (graph : LockfilePackageGraph R V) (packages : PackagesContent R V)
    : Option (PackagesContent R V × OrderedMap Str Str) := do
  let packages ← graph.packages.entries.foldlM (populatePackage graph.rootPackages) packages
  let packages ← graph.rootPackages.entries.foldlM populateSpecifier packages
  return (packages, graph.remotes)

end LockfilePackageGraph

end DenoLockfile
