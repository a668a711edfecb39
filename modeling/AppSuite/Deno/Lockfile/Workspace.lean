import AppSuite.Deno.Lockfile.Purge

/-!
This module contains the workspace section of a lockfile and its update. Hash sets and maps are
compared without regard to the order in which they are iterated.
-/

namespace DenoLockfile

open LockfilePackageGraph

class VersionReq (R V : Type) where
  isMatch : R → V → Bool

class ReqText (R : Type) where
  depReqFromStr : Str → Option (JsrDepPackageReq R)

class SerdeJson (J : Type) where
  asObject : J → Option (OrderedMap Str J)
  asBool : J → Option Bool

structure LockfilePackageJsonContent (R J : Type) where
  dependencies : OrderedSet (JsrDepPackageReq R)
  overrides : Option J

structure WorkspaceMemberConfigContent (R J : Type) where
  dependencies : OrderedSet (JsrDepPackageReq R)
  packageJson : LockfilePackageJsonContent R J

structure LockfileLinkContent (R J : Type) where
  dependencies : OrderedSet (JsrDepPackageReq R)
  optionalDependencies : OrderedSet (JsrDepPackageReq R)
  peerDependencies : OrderedSet (JsrDepPackageReq R)
  peerDependenciesMeta : OrderedMap Str J

structure WorkspaceConfigContent (R J : Type) where
  root : WorkspaceMemberConfigContent R J
  members : OrderedMap Str (WorkspaceMemberConfigContent R J)
  links : OrderedMap Str (LockfileLinkContent R J)
  npmOverrides : Option J

structure LockfileContent (R V J : Type) where
  packages : PackagesContent R V
  redirects : OrderedMap Str Str
  remote : OrderedMap Str Str
  workspace : WorkspaceConfigContent R J

structure Lockfile (R V J : Type) where
  hasContentChanged : Bool
  content : LockfileContent R V J

structure WorkspaceMemberConfig (R : Type) where
  dependencies : OrderedSet (JsrDepPackageReq R)
  packageJsonDeps : OrderedSet (JsrDepPackageReq R)

structure WorkspaceConfig (R J : Type) where
  root : WorkspaceMemberConfig R
  members : OrderedMap Str (WorkspaceMemberConfig R)
  links : OrderedMap Str (LockfileLinkContent R J)
  npmOverrides : Option J

structure SetWorkspaceConfigOptions (R J : Type) where
  config : WorkspaceConfig R J
  noConfig : Bool
  noNpm : Bool

variable {R V J : Type}

def WorkspaceMemberConfigContent.default : WorkspaceMemberConfigContent R J := ⟨.empty, .empty, none⟩

def LockfileLinkContent.default : LockfileLinkContent R J := ⟨.empty, .empty, .empty, .empty⟩

def LockfilePackageJsonContent.isEmpty (content : LockfilePackageJsonContent R J) : Bool :=
  content.dependencies.elems.isEmpty && content.overrides.isNone

def WorkspaceMemberConfigContent.isEmpty (content : WorkspaceMemberConfigContent R J) : Bool :=
  content.dependencies.elems.isEmpty && content.packageJson.isEmpty

def WorkspaceConfigContent.isEmpty (content : WorkspaceConfigContent R J) : Bool :=
  content.root.isEmpty && content.members.entries.isEmpty && content.links.entries.isEmpty &&
    content.npmOverrides.isNone

def PackagesContent.isEmpty (content : PackagesContent R V) : Bool :=
  content.specifiers.entries.isEmpty && content.npm.entries.isEmpty && content.jsr.entries.isEmpty

def LockfileContent.isEmpty (content : LockfileContent R V J) : Bool :=
  content.packages.isEmpty && content.redirects.entries.isEmpty && content.remote.entries.isEmpty &&
    content.workspace.isEmpty

def WorkspaceMemberConfigContent.depReqs (content : WorkspaceMemberConfigContent R J)
    : List (JsrDepPackageReq R) :=
  content.packageJson.dependencies.elems ++ content.dependencies.elems

def LockfileLinkContent.depReqs (content : LockfileLinkContent R J) : List (JsrDepPackageReq R) :=
  content.dependencies.elems ++ content.peerDependencies.elems ++ content.optionalDependencies.elems

def WorkspaceConfigContent.getAllDepReqs (content : WorkspaceConfigContent R J) : List (JsrDepPackageReq R) :=
  content.root.depReqs ++ content.members.values.flatMap WorkspaceMemberConfigContent.depReqs

structure LockfileLinkContent.Same (a b : LockfileLinkContent R J) : Prop where
  dependencies : a.dependencies.Same b.dependencies
  optionalDependencies : a.optionalDependencies.Same b.optionalDependencies
  peerDependencies : a.peerDependencies.Same b.peerDependencies
  peerDependenciesMeta : a.peerDependenciesMeta.SameBy Eq b.peerDependenciesMeta

variable [DecidableEq R] [LinearOrder V] [DecidableEq J] [Version V] [VersionReq R V] [ReqText R] [SerdeJson J]

instance (a b : LockfileLinkContent R J) : Decidable (a.Same b) :=
  decidable_of_iff (a.dependencies.Same b.dependencies ∧ a.optionalDependencies.Same b.optionalDependencies ∧
    a.peerDependencies.Same b.peerDependencies ∧ a.peerDependenciesMeta.SameBy Eq b.peerDependenciesMeta)
    ⟨fun h => ⟨h.1, h.2.1, h.2.2.1, h.2.2.2⟩, fun h => ⟨h.1, h.2, h.3, h.4⟩⟩

def beforeUnderscore (text : Str) : Str := text.takeWhile (· ≠ '_')

def JsrPackageInfo.matchesLink (info : JsrPackageInfo R) (link : LockfileLinkContent R J) : Bool :=
  decide (info.dependencies.Same link.dependencies)

namespace NpmPackageInfo

def parseNv (text : Str) : Option (PackageNv V) := Version.nvFromStr (beforeUnderscore text)

def depsMatch (linkDeps : OrderedSet (JsrDepPackageReq R)) (selfDeps : OrderedSet (PackageNv V)) : Bool :=
  linkDeps.size = selfDeps.size && linkDeps.elems.all fun req =>
    selfDeps.elems.any fun nv => nv.name = req.req.name && VersionReq.isMatch req.req.versionReq nv.version

def isOptional (value : J) : Bool :=
  (((SerdeJson.asObject value).bind fun o => o.get? ['o', 'p', 't', 'i', 'o', 'n', 'a', 'l']).bind
    SerdeJson.asBool).getD false

def matchesLink (V : Type) [LinearOrder V] [Version V] [VersionReq R V] (info : NpmPackageInfo) (link : LockfileLinkContent R J) : Bool :=
  let optionalDepNvs : OrderedSet (PackageNv V) := .ofList (info.optionalDependencies.values.filterMap parseNv)
  let depNvs : OrderedSet (PackageNv V) := .ofList (info.dependencies.values.filterMap parseNv)
  let linkDeps := link.dependencies.union link.peerDependencies
  let optionalPeerNvs : OrderedSet (PackageNv V) := .ofList (info.optionalPeers.values.filterMap parseNv)
  let linkOptionalPeers : OrderedSet (JsrDepPackageReq R) := .ofList <|
    (link.peerDependenciesMeta.entries.filter fun e => isOptional e.2).filterMap fun e =>
      ReqText.depReqFromStr e.1
  depsMatch link.optionalDependencies optionalDepNvs && depsMatch linkDeps depNvs &&
    depsMatch linkOptionalPeers optionalPeerNvs

end NpmPackageInfo

def hadChange (packages : PackagesContent R V) (depReq : JsrDepPackageReq R) (new : LockfileLinkContent R J)
    : Bool :=
  match depReq.kind with
  | .jsr => packages.jsr.entries.any fun e =>
    e.1.name = depReq.req.name &&
      (!VersionReq.isMatch depReq.req.versionReq e.1.version || !e.2.matchesLink new)
  | .npm => packages.npm.entries.any fun e =>
    let version : Option V := do
      let key ← stripPrefix e.1 depReq.req.name
      let key ← stripPrefix key ['@']
      Version.parseFromNpm (beforeUnderscore key)
    match version with
    | some version => !VersionReq.isMatch depReq.req.versionReq version || !NpmPackageInfo.matchesLink V e.2 new
    | none => false

namespace SetWorkspaceConfigOptions

def keptDeps (deps current : OrderedSet (JsrDepPackageReq R)) : OrderedSet (JsrDepPackageReq R) :=
  if deps.elems.isEmpty then current else deps

variable (options : SetWorkspaceConfigOptions R J) (workspace : WorkspaceConfigContent R J)

-- `no_npm` or `no_config`: don't modify the package.json dependencies.
def keepPackageJson : WorkspaceConfig R J :=
  let config := options.config
  if options.noNpm || options.noConfig then
    { config with
      root := { config.root with
        packageJsonDeps := keptDeps config.root.packageJsonDeps workspace.root.packageJson.dependencies }
      members := config.members.mapValues fun key value => { value with
        packageJsonDeps := keptDeps value.packageJsonDeps
          (((workspace.members.get? key).map fun m => m.packageJson.dependencies).getD .empty) }
      npmOverrides := config.npmOverrides.or workspace.npmOverrides }
  else
    config

-- `no_config`: keep the deno.json dependencies and the members as well.
def keepConfig (config : WorkspaceConfig R J) : WorkspaceConfig R J :=
  if options.noConfig then
    let members := config.members.mapValues fun key value => { value with
      dependencies := keptDeps value.dependencies
        (((workspace.members.get? key).map fun m => m.dependencies).getD .empty) }
    { config with
      root := { config.root with
        dependencies := keptDeps config.root.dependencies workspace.root.dependencies }
      members := workspace.members.entries.foldl (fun members e =>
        if members.has e.1 then
          members
        else
          members.set e.1 ⟨e.2.dependencies, e.2.packageJson.dependencies⟩) members }
  else
    config

def complete : WorkspaceConfig R J :=
  options.keepConfig workspace (options.keepPackageJson workspace)

end SetWorkspaceConfigOptions

structure WorkspaceUpdate (R J : Type) where
  hasContentChanged : Bool
  workspace : WorkspaceConfigContent R J
  removedDeps : OrderedSet (JsrDepPackageReq R)
  changedLinks : OrderedSet (JsrDepPackageReq R)

namespace WorkspaceUpdate

def updateOverrides (config : WorkspaceConfig R J) (u : WorkspaceUpdate R J) : WorkspaceUpdate R J :=
  if config.npmOverrides ≠ u.workspace.npmOverrides then
    { u with hasContentChanged := true, workspace.npmOverrides := config.npmOverrides }
  else
    u

variable (linkName : Str) (u : WorkspaceUpdate R J)

def addChangedLink : WorkspaceUpdate R J :=
  match ReqText.depReqFromStr linkName with
  | some depReq => { u with changedLinks := u.changedLinks.add depReq }
  | none => u

def setLink (link : LockfileLinkContent R J) (u : WorkspaceUpdate R J) : WorkspaceUpdate R J :=
  { u with workspace.links := u.workspace.links.set linkName link }

def updateLink (packages : PackagesContent R V) (s : WorkspaceUpdate R J × OrderedSet Str)
    (e : Str × LockfileLinkContent R J) : WorkspaceUpdate R J × OrderedSet Str :=
  let (u, unhandledLinks) := s
  let (linkName, new) := e
  if !unhandledLinks.has linkName then
    let u := match ReqText.depReqFromStr linkName with
      | some depReq =>
        if hadChange packages depReq new then { u with changedLinks := u.changedLinks.add depReq } else u
      | none => u
    (u.setLink linkName new, unhandledLinks)
  else
    let current := (u.workspace.links.get? linkName).getD .default
    if ¬new.Same current then
      ((u.setLink linkName new).addChangedLink linkName, unhandledLinks.delete linkName)
    else
      (u.setLink linkName current, unhandledLinks.delete linkName)

def removeLink (linkName : Str) : WorkspaceUpdate R J :=
  match u.workspace.links.get? linkName with
  | some link =>
    { u with
      workspace.links := u.workspace.links.delete linkName
      removedDeps := u.removedDeps.extend link.depReqs }
  | none => u

variable (packages : PackagesContent R V) (config : WorkspaceConfig R J) (u : WorkspaceUpdate R J)

def updateLinks : WorkspaceUpdate R J :=
  if ¬config.links.SameBy LockfileLinkContent.Same u.workspace.links then
    let (u, unhandledLinks) := config.links.entries.foldl (updateLink packages)
      ({ u with hasContentChanged := true }, .ofList u.workspace.links.keys)
    unhandledLinks.elems.foldl removeLink u
  else
    u

def updateWorkspaceMember (current : WorkspaceMemberConfigContent R J) (new : WorkspaceMemberConfig R) : WorkspaceUpdate R J × WorkspaceMemberConfigContent R J :=
  let (u, current) :=
    if ¬new.dependencies.Same current.dependencies then
      ({ u with hasContentChanged := true, removedDeps := u.removedDeps.extend current.dependencies.elems },
        { current with dependencies := new.dependencies })
    else
      (u, current)
  if ¬new.packageJsonDeps.Same current.packageJson.dependencies then
    ({ u with
        hasContentChanged := true
        removedDeps := u.removedDeps.extend current.packageJson.dependencies.elems },
      { current with packageJson.dependencies := new.packageJsonDeps })
  else
    (u, current)

def updateRoot : WorkspaceUpdate R J :=
  let (u, root) := u.updateWorkspaceMember u.workspace.root config.root
  { u with workspace.root := root }

def updateMember (s : WorkspaceUpdate R J × OrderedSet Str) (e : Str × WorkspaceMemberConfig R)
    : WorkspaceUpdate R J × OrderedSet Str :=
  let (u, unhandledMembers) := s
  let (u, member) := u.updateWorkspaceMember ((u.workspace.members.get? e.1).getD .default) e.2
  ({ u with workspace.members := u.workspace.members.set e.1 member }, unhandledMembers.delete e.1)

def removeMember (name : Str) : WorkspaceUpdate R J :=
  match u.workspace.members.get? name with
  | some member =>
    { u with
      hasContentChanged := true
      workspace.members := u.workspace.members.delete name
      removedDeps := u.removedDeps.extend member.depReqs }
  | none => u

def updateMembers : WorkspaceUpdate R J :=
  let (u, unhandledMembers) := config.members.entries.foldl updateMember
    (u, .ofList u.workspace.members.keys)
  unhandledMembers.elems.foldl removeMember u

def keepRemaining : WorkspaceUpdate R J :=
  { u with removedDeps := u.workspace.getAllDepReqs.foldl OrderedSet.delete u.removedDeps }

def run : WorkspaceUpdate R J :=
  ((((u.updateOverrides config).updateLinks packages config).updateRoot config).updateMembers config).keepRemaining

-- No value: a package cannot be written back, and the code panics.
def purgePackages (content : LockfileContent R V J) (u : WorkspaceUpdate R J)
    : Option (PackagesContent R V × OrderedMap Str Str) :=
  if !u.removedDeps.elems.isEmpty || !u.changedLinks.elems.isEmpty then
    let graph := fromLockfile content.packages content.remote
    let graph := graph.removeRootPackages u.removedDeps.elems
    let graph := graph.removeLinks u.changedLinks.elems
    graph.populatePackages .empty
  else
    some (content.packages, content.remote)

end WorkspaceUpdate

def Lockfile.setWorkspaceConfig (lockfile : Lockfile R V J) (options : SetWorkspaceConfigOptions R J)
    : Option (Lockfile R V J) := do
  let content := lockfile.content
  let config := options.complete content.workspace
  let allowContentChanged := lockfile.hasContentChanged || !content.isEmpty
  let u := WorkspaceUpdate.run content.packages config
    ⟨lockfile.hasContentChanged, content.workspace, .empty, .empty⟩
  let (packages, remote) ← u.purgePackages content
  return {
    hasContentChanged := if !allowContentChanged then false else u.hasContentChanged
    content := { content with packages, remote, workspace := u.workspace } }

end DenoLockfile
