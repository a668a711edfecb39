import AppSuite.Deno.Lockfile.Idempotent

/-!
This module contains which npm requirements keep their locked version when others leave the
workspace.
-/

namespace DenoLockfile

open WorkspaceMemberConfigContent LockfileLinkContent PackagesContent

variable {R V J : Type}

theorem WorkspaceConfigContent.mem_getAllDepReqs_iff {workspace : WorkspaceConfigContent R J}
    {dep : JsrDepPackageReq R}
    : dep ∈ workspace.getAllDepReqs ↔
      dep ∈ workspace.root.depReqs ∨
        ∃ name member, workspace.members.get? name = some member ∧ dep ∈ member.depReqs := by
  rw [getAllDepReqs, List.mem_append, List.mem_flatMap]
  apply or_congr_right
  simp only [OrderedMap.mem_values_iff]
  constructor
  . rintro ⟨member, ⟨name, hget⟩, hdep⟩
    exact ⟨name, member, hget, hdep⟩
  . rintro ⟨name, member, hget, hdep⟩
    exact ⟨member, ⟨name, hget⟩, hdep⟩

namespace WorkspaceMemberConfigContent

variable {current after : WorkspaceMemberConfigContent R J} {new : WorkspaceMemberConfig R}
  {dep : JsrDepPackageReq R}

theorem Dropped.mem (h : current.Dropped new dep) : dep ∈ current.depReqs := by
  rw [depReqs, List.mem_append]
  rcases h with ⟨hdep, _⟩ | ⟨hdep, _⟩
  . exact .inr hdep
  . exact .inl hdep

theorem dropped_of_not_mem (hafter : new.Matches after) (hdep : dep ∈ current.depReqs)
    (hnot : dep ∉ after.depReqs)
    : current.Dropped new dep := by
  rw [depReqs, List.mem_append] at hdep
  rw [depReqs, List.mem_append, not_or] at hnot
  rcases hdep with hdep | hdep
  . refine .inr ⟨hdep, ?_⟩
    intro hsame
    exact hnot.1 ((hafter.packageJsonDeps dep).mp ((hsame dep).mpr hdep))
  . refine .inl ⟨hdep, ?_⟩
    intro hsame
    exact hnot.2 ((hafter.dependencies dep).mp ((hsame dep).mpr hdep))

end WorkspaceMemberConfigContent

namespace WorkspaceUpdate

variable [DecidableEq R]

theorem mem_removedDeps_updateMembers (config : WorkspaceConfig R J) (u : WorkspaceUpdate R J)
    (dep : JsrDepPackageReq R)
    : dep ∈ (u.updateMembers config).removedDeps.elems ↔
      dep ∈ u.removedDeps.elems ∨
        (∃ name new, config.members.get? name = some new ∧
          ((u.workspace.members.get? name).getD .default).Dropped new dep) ∨
        ∃ name member, config.members.get? name = none ∧ u.workspace.members.get? name = some member ∧
          dep ∈ member.depReqs := by
  exact Reconcile.acc_reconcile writes_updateMember removes_removeMember config.members u dep

variable {config : WorkspaceConfig R J}

omit [DecidableEq R] in
theorem dropped_members_iff {before after : WorkspaceConfigContent R J} {dep : JsrDepPackageReq R}
    (hsettled : ∀ name, Option.Rel WorkspaceMemberConfig.Matches (config.members.get? name) (after.members.get? name))
    (hafter : ∀ name, ¬∃ member, after.members.get? name = some member ∧ dep ∈ member.depReqs)
    : ((∃ name new, config.members.get? name = some new ∧
          ((before.members.get? name).getD .default).Dropped new dep) ∨
        ∃ name member, config.members.get? name = none ∧ before.members.get? name = some member ∧
          dep ∈ member.depReqs) ↔
      ∃ name member, before.members.get? name = some member ∧ dep ∈ member.depReqs := by
  constructor
  . rintro (⟨name, new, _, hdropped⟩ | ⟨name, member, _, hget, hdep⟩)
    . cases hget : before.members.get? name with
      | none =>
        rw [hget] at hdropped
        exact absurd hdropped.mem List.not_mem_nil
      | some member =>
        rw [hget] at hdropped
        exact ⟨name, member, hget, hdropped.mem⟩
    . exact ⟨name, member, hget, hdep⟩
  . rintro ⟨name, member, hget, hdep⟩
    have hname := hsettled name
    have hnot := hafter name
    cases hconfig : config.members.get? name with
    | none => exact .inr ⟨name, member, hconfig, hget, hdep⟩
    | some new =>
      rw [hconfig] at hname
      generalize after.members.get? name = found at hname hnot
      cases hname with
      | some hmatches =>
        left
        refine ⟨name, new, hconfig, ?_⟩
        rw [hget]
        apply dropped_of_not_mem hmatches hdep
        intro hmem
        exact hnot ⟨_, rfl, hmem⟩

variable [LinearOrder V] [DecidableEq J] [Version V] [VersionReq R V] [ReqText R] [SerdeJson J]

theorem run_removes {packages : PackagesContent R V} {workspace : WorkspaceConfigContent R J}
    (hlinks : config.links.SameBy Same workspace.links) (changed : Bool)
    {u : WorkspaceUpdate R J} (hu : run packages config ⟨changed, workspace, .empty, .empty⟩ = u)
    : u.changedLinks = .empty ∧
      ∀ dep, dep ∈ u.removedDeps.elems ↔
        dep ∈ workspace.getAllDepReqs ∧ dep ∉ u.workspace.getAllDepReqs := by
  have hsettled : config.Settled u.workspace := by
    rw [← hu]
    exact run_settled packages config _
  obtain ⟨changed', hoverrides⟩ := updateOverrides_eq config
    (⟨changed, workspace, .empty, .empty⟩ : WorkspaceUpdate R J)
  unfold run at hu
  rw [hoverrides, updateLinks_of_same hlinks] at hu
  generalize hu₁ : (⟨changed', ⟨workspace.root, workspace.members, workspace.links, config.npmOverrides⟩, .empty,
    .empty⟩ : WorkspaceUpdate R J) = u₁ at hu
  have hroot := besidesRoot_updateRoot config u₁
  have hremovedRoot := mem_removedDeps_updateRoot config u₁
  generalize u₁.updateRoot config = u₂ at hu hroot hremovedRoot
  have hmembers := besidesMembers_updateMembers config u₂
  have hremoved := mem_removedDeps_updateMembers config u₂
  generalize u₂.updateMembers config = u₃ at hu hmembers hremoved
  unfold besidesRoot at hroot
  unfold besidesMembers at hmembers
  simp only [Prod.mk.injEq] at hroot hmembers
  rw [← hu] at hsettled ⊢
  refine ⟨?_, ?_⟩
  . show u₃.changedLinks = _
    rw [hmembers.2.2.2, hroot.2.2.2, ← hu₁]
  . intro dep
    show dep ∈ (u₃.workspace.getAllDepReqs.foldl OrderedSet.delete u₃.removedDeps).elems ↔
      dep ∈ workspace.getAllDepReqs ∧ dep ∉ u₃.workspace.getAllDepReqs
    rw [OrderedSet.mem_foldl_delete]
    apply and_congr_left
    intro hafter
    rw [WorkspaceConfigContent.mem_getAllDepReqs_iff, not_or, not_exists] at hafter
    have hnone : dep ∉ (OrderedSet.empty : OrderedSet (JsrDepPackageReq R)).elems := List.not_mem_nil
    rw [hremoved, hremovedRoot, hroot.1, ← hu₁, WorkspaceConfigContent.mem_getAllDepReqs_iff, or_assoc]
    rw [or_iff_right hnone]
    apply or_congr
    . constructor
      . exact Dropped.mem
      . intro hdep
        exact dropped_of_not_mem hsettled.root hdep hafter.1
    . exact dropped_members_iff hsettled.members hafter.2

end WorkspaceUpdate

namespace Lockfile

variable [DecidableEq R] [LinearOrder V] [DecidableEq J] [Version V] [VersionReq R V] [ReqText R] [SerdeJson J]

variable (lockfile lockfile' : Lockfile R V J)

def Stays (req : JsrDepPackageReq R) (value : Str) : Prop :=
  req.kind = .npm ∧ req ∈ lockfile.content.workspace.getAllDepReqs ∧
    req ∈ lockfile'.content.workspace.getAllDepReqs ∧
    lockfile.content.packages.specifiers.get? req = some value

instance (lockfile lockfile' : Lockfile R V J) (req : JsrDepPackageReq R) (value : Str)
    : Decidable (lockfile.Stays lockfile' req value) :=
  inferInstanceAs (Decidable (_ ∧ _ ∧ _ ∧ _))

def leaving : List (JsrDepPackageReq R) :=
  lockfile.content.workspace.getAllDepReqs.filter (· ∉ lockfile'.content.workspace.getAllDepReqs)

theorem locked_iff {lockfile lockfile' : Lockfile R V J} {options : SetWorkspaceConfigOptions R J}
    (hset : lockfile.setWorkspaceConfig options = some lockfile')
    (hlinks : lockfile'.content.workspace.links.SameBy Same
      lockfile.content.workspace.links)
    {req : JsrDepPackageReq R} {value : Str} (hstays : lockfile.Stays lockfile' req value)
    : lockfile'.content.packages.specifiers.get? req = some value ↔
      ∀ id, lockfile.content.packages.target req = some id →
        ¬lockfile.content.packages.Released (lockfile.leaving lockfile') id := by
  obtain ⟨packages, remote, hpurge⟩ := exists_purgePackages lockfile.content (lockfile.update options)
  rw [lockfile.setWorkspaceConfig_eq options hpurge, Option.some_inj] at hset
  have hpackages : lockfile'.content.packages = packages := by rw [← hset]
  have hworkspace : lockfile'.content.workspace = (lockfile.update options).workspace := by rw [← hset]
  have hsettled : (options.complete lockfile.content.workspace).Settled lockfile'.content.workspace := by
    rw [hworkspace]
    exact WorkspaceUpdate.run_settled _ _ _
  obtain ⟨hchanged, hremoved⟩ := WorkspaceUpdate.run_removes
    (hsettled.links.trans (fun _ _ _ => Same.trans) hlinks) lockfile.hasContentChanged
    (rfl : _ = lockfile.update options)
  have hleaving (dep : JsrDepPackageReq R)
      : dep ∈ (lockfile.update options).removedDeps.elems ↔ dep ∈ lockfile.leaving lockfile' := by
    rw [hremoved, ← hworkspace, leaving, List.mem_filter, decide_eq_true_iff]
  obtain ⟨hkind, _, _, hget⟩ := hstays
  rw [hpackages]
  unfold WorkspaceUpdate.purgePackages at hpurge
  split at hpurge
  . rw [hchanged] at hpurge
    obtain ⟨kept, hkept, hpurged⟩ := purged_spec lockfile.content.packages
      lockfile.content.remote (lockfile.update options).removedDeps.elems
    have heq : some (packages, remote) = some (kept, lockfile.content.remote) := hpurge.symm.trans hkept
    cases heq
    rw [hpurged.specifiers]
    simp only [released_congr hleaving]
    obtain ⟨id, hid⟩ : ∃ id, LockfilePackageGraph.specifierId req value = some (id : LockfilePkgId V) := by
      unfold LockfilePackageGraph.specifierId
      rw [hkind]
      exact ⟨_, rfl⟩
    have htarget : lockfile.content.packages.target req = some id := by
      rw [target, hget]
      exact hid
    obtain ⟨value', hvalue', hnpm⟩ := exists_specifierValue hid
    rw [hnpm hkind] at hvalue'
    constructor
    . rintro ⟨id', htarget', hreleased, _⟩ id'' htarget''
      rw [htarget'] at htarget''
      cases htarget''
      exact hreleased
    . intro hreleased
      exact ⟨id, htarget, hreleased id htarget, hvalue'⟩
  . next hempty =>
    cases hpurge
    rw [hget]
    simp only [true_iff]
    intro id _ hreleased
    obtain ⟨dep, hdep⟩ := hreleased.exists_mem
    rw [← hleaving] at hdep
    rw [Bool.or_eq_true, not_or, Bool.not_eq_true', Bool.not_eq_false, List.isEmpty_iff] at hempty
    rw [hempty.1] at hdep
    contradiction

theorem keepsLocked_iff (lockfile lockfile' : Lockfile R V J) (options : SetWorkspaceConfigOptions R J)
    (hset : lockfile.setWorkspaceConfig options = some lockfile')
    (hlinks : lockfile'.content.workspace.links.SameBy Same
      lockfile.content.workspace.links)
    : (∀ req value, lockfile.Stays lockfile' req value →
        lockfile'.content.packages.specifiers.get? req = some value) ↔
      ∀ req value, lockfile.Stays lockfile' req value →
        ∀ id, lockfile.content.packages.target req = some id →
          ¬lockfile.content.packages.Released (lockfile.leaving lockfile') id := by
  constructor
  . intro h req value hstays
    exact (locked_iff hset hlinks hstays).mp (h req value hstays)
  . intro h req value hstays
    exact (locked_iff hset hlinks hstays).mpr (h req value hstays)

instance : VersionReq Nat Nat where
  isMatch req version := req ≤ version

instance : ReqText Nat where
  depReqFromStr name := some ⟨.npm, name, 1⟩

instance : SerdeJson Nat where
  asObject _ := none
  asBool _ := none

def npmReq (name : Str) (versionReq : Nat) : JsrDepPackageReq Nat := ⟨.npm, name, versionReq⟩

def twoLocked (first second : JsrDepPackageReq Nat × Str) (h : first.1 ≠ second.1) : Lockfile Nat Nat Nat where
  hasContentChanged := false
  content := {
    packages := ⟨⟨[first, second], by simp [h]⟩, .empty, .empty⟩
    redirects := .empty
    remote := .empty
    workspace := ⟨⟨.ofList [first.1, second.1], .empty, none⟩, .empty, .empty, none⟩ }

def rootOptions (deps : List (JsrDepPackageReq Nat)) : SetWorkspaceConfigOptions Nat Nat where
  config := ⟨⟨.ofList deps, .empty⟩, .empty, .empty, none⟩
  noConfig := false
  noNpm := false

def separate : Lockfile Nat Nat Nat := twoLocked (npmReq ['f'] 0, ['1']) (npmReq ['g'] 0, ['1']) (by decide)

theorem keepsLocked_iff_separate
    : ∃ lockfile', separate.setWorkspaceConfig (rootOptions [npmReq ['g'] 0]) = some lockfile' ∧
      separate.Stays lockfile' (npmReq ['g'] 0) ['1'] ∧
      lockfile'.content.packages.specifiers.get? (npmReq ['g'] 0) = some ['1'] := by
  obtain ⟨lockfile', hset, hlinks, hstays, hreqs, hleaving⟩
      : ∃ lockfile', separate.setWorkspaceConfig (rootOptions [npmReq ['g'] 0]) = some lockfile' ∧
          lockfile'.content.workspace.links.SameBy Same
            separate.content.workspace.links ∧
          separate.Stays lockfile' (npmReq ['g'] 0) ['1'] ∧
          lockfile'.content.workspace.getAllDepReqs = [npmReq ['g'] 0] ∧
          separate.leaving lockfile' = [npmReq ['f'] 0] :=
    ⟨(separate.setWorkspaceConfig (rootOptions [npmReq ['g'] 0])).get (by decide), (Option.some_get _).symm,
      by decide, by decide, by decide, by decide⟩
  refine ⟨lockfile', hset, hstays, (keepsLocked_iff _ _ _ hset hlinks).mpr ?_ _ _ hstays⟩
  rintro req value ⟨_, _, hafter, _⟩ id hid hreleased
  rw [hreqs, List.mem_singleton] at hafter
  rw [hleaving] at hreleased
  rw [hafter] at hid
  rcases hreleased with ⟨_, _, _, _, _, _, hhas, _⟩ | ⟨gone, hgone, htarget⟩ | ⟨_, _, ⟨_, _, _, _, hhas, _⟩, _⟩
  . contradiction
  . rw [List.mem_singleton.mp hgone, ← hid] at htarget
    contradiction
  . contradiction

def shared : Lockfile Nat Nat Nat := twoLocked (npmReq ['f'] 0, ['1']) (npmReq ['f'] 1, ['1']) (by decide)

theorem staying_unlocked
    : ∃ lockfile', shared.setWorkspaceConfig (rootOptions [npmReq ['f'] 1]) = some lockfile' ∧
      lockfile'.content.workspace.links.SameBy Same
        shared.content.workspace.links ∧
      shared.Stays lockfile' (npmReq ['f'] 1) ['1'] ∧
      lockfile'.content.packages.specifiers.get? (npmReq ['f'] 1) = none :=
  ⟨(shared.setWorkspaceConfig (rootOptions [npmReq ['f'] 1])).get (by decide), (Option.some_get _).symm,
    by decide, by decide, by decide⟩

end Lockfile

end DenoLockfile
