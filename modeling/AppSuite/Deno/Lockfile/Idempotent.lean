import AppSuite.Data.Reconcile
import AppSuite.Deno.Lockfile.Workspace

/-!
This module contains what an update of the workspace section leaves there.
-/

namespace DenoLockfile

open OrderedMap WorkspaceMemberConfig LockfileLinkContent WorkspaceMemberConfigContent Reconcile WorkspaceUpdate

variable {R V J : Type}

structure WorkspaceMemberConfig.Matches (new : WorkspaceMemberConfig R)
    (current : WorkspaceMemberConfigContent R J) : Prop where
  dependencies : new.dependencies.Same current.dependencies
  packageJsonDeps : new.packageJsonDeps.Same current.packageJson.dependencies

structure WorkspaceConfig.Settled (config : WorkspaceConfig R J) (workspace : WorkspaceConfigContent R J)
    : Prop where
  npmOverrides : config.npmOverrides = workspace.npmOverrides
  links : config.links.SameBy Same workspace.links
  root : config.root.Matches workspace.root
  members : ∀ name, Option.Rel Matches (config.members.get? name)
    (workspace.members.get? name)

def WorkspaceMemberConfigContent.Dropped (current : WorkspaceMemberConfigContent R J)
    (new : WorkspaceMemberConfig R) (dep : JsrDepPackageReq R) : Prop :=
  (dep ∈ current.dependencies.elems ∧ ¬new.dependencies.Same current.dependencies) ∨
    (dep ∈ current.packageJson.dependencies.elems ∧ ¬new.packageJsonDeps.Same current.packageJson.dependencies)

theorem LockfileLinkContent.Same.refl (link : LockfileLinkContent R J) : link.Same link :=
  ⟨.refl _, .refl _, .refl _, .refl (fun _ => rfl) _⟩

theorem LockfileLinkContent.Same.trans {a b c : LockfileLinkContent R J} (h : a.Same b) (h' : b.Same c)
    : a.Same c where
  dependencies := h.dependencies.trans h'.dependencies
  optionalDependencies := h.optionalDependencies.trans h'.optionalDependencies
  peerDependencies := h.peerDependencies.trans h'.peerDependencies
  peerDependenciesMeta := h.peerDependenciesMeta.trans (fun _ _ _ => Eq.trans) h'.peerDependenciesMeta

namespace WorkspaceUpdate

variable [DecidableEq R] {u : WorkspaceUpdate R J} {current : WorkspaceMemberConfigContent R J} {new : WorkspaceMemberConfig R}

structure MemberUpdated (u : WorkspaceUpdate R J) (current : WorkspaceMemberConfigContent R J)
    (new : WorkspaceMemberConfig R) (r : WorkspaceUpdate R J × WorkspaceMemberConfigContent R J) : Prop where
  settled : new.Matches r.2
  workspace : r.1.workspace = u.workspace
  changedLinks : r.1.changedLinks = u.changedLinks
  removedDeps : ∀ dep, dep ∈ r.1.removedDeps.elems ↔ dep ∈ u.removedDeps.elems ∨ current.Dropped new dep

theorem memberUpdated (u : WorkspaceUpdate R J) (current : WorkspaceMemberConfigContent R J)
    (new : WorkspaceMemberConfig R)
    : MemberUpdated u current new (u.updateWorkspaceMember current new) := by
  unfold updateWorkspaceMember
  by_cases hdeps : new.dependencies.Same current.dependencies
  . rw [if_neg (not_not.mpr hdeps)]
    dsimp only
    by_cases hjson : new.packageJsonDeps.Same current.packageJson.dependencies
    . rw [if_neg (not_not.mpr hjson)]
      refine ⟨⟨hdeps, hjson⟩, rfl, rfl, ?_⟩
      intro dep
      simp [Dropped, hdeps, hjson]
    . rw [if_pos hjson]
      refine ⟨⟨hdeps, .refl _⟩, rfl, rfl, ?_⟩
      intro dep
      simp [Dropped, hdeps, hjson, OrderedSet.mem_extend]
  . rw [if_pos hdeps]
    dsimp only
    by_cases hjson : new.packageJsonDeps.Same current.packageJson.dependencies
    . rw [if_neg (not_not.mpr hjson)]
      refine ⟨⟨.refl _, hjson⟩, rfl, rfl, ?_⟩
      intro dep
      simp [Dropped, hdeps, hjson, OrderedSet.mem_extend]
    . rw [if_pos hjson]
      refine ⟨⟨.refl _, .refl _⟩, rfl, rfl, ?_⟩
      intro dep
      simp [Dropped, hdeps, hjson, OrderedSet.mem_extend, or_assoc]

theorem updateWorkspaceMember_of_matches (h : new.Matches current)
    : u.updateWorkspaceMember current new = (u, current) := by
  unfold updateWorkspaceMember
  rw [if_neg (not_not.mpr h.dependencies)]
  dsimp only
  rw [if_neg (not_not.mpr h.packageJsonDeps)]

theorem updateMembers_eq (config : WorkspaceConfig R J) (u : WorkspaceUpdate R J)
    : u.updateMembers config =
      reconcile (fun u => u.workspace.members) updateMember removeMember config.members u :=
  rfl

theorem writes_updateMember
    : Writes (fun u : WorkspaceUpdate R J => u.workspace.members)
      (fun u dep => dep ∈ u.removedDeps.elems) updateMember (fun new _ member => new.Matches member)
      (fun new current dep => (current.getD .default).Dropped new dep) := by
  constructor
  . rintro ⟨u, unhandledMembers⟩ ⟨name, new⟩
    exact ⟨_, get?_set_self _ _ _, (memberUpdated u _ new).settled⟩
  . rintro ⟨u, unhandledMembers⟩ ⟨name, new⟩ k hne
    have hworkspace := (memberUpdated u ((u.workspace.members.get? name).getD .default) new).workspace
    unfold updateMember
    rw [get?_set_ne _ _ (Ne.symm hne), hworkspace]
  . rintro ⟨u, unhandledMembers⟩ ⟨name, new⟩ k
    exact OrderedSet.mem_delete
  . rintro ⟨u, unhandledMembers⟩ ⟨name, new⟩ dep
    exact (memberUpdated u _ new).removedDeps dep

theorem removes_removeMember
    : Removes (fun u : WorkspaceUpdate R J => u.workspace.members)
      (fun u dep => dep ∈ u.removedDeps.elems) removeMember (fun member dep => dep ∈ member.depReqs) := by
  constructor
  . intro u name k
    unfold removeMember
    split
    . exact get?_delete _ _ _
    . next hget =>
      split
      . next heq => rw [← heq, hget]
      . rfl
  . intro u name dep
    unfold removeMember
    split
    . next member hget => simp [OrderedSet.mem_extend, hget]
    . next hget => simp [hget]

section

variable (config : WorkspaceConfig R J) (u : WorkspaceUpdate R J)

theorem updateMembers_settled (name : Str)
    : Option.Rel Matches (config.members.get? name)
      ((u.updateMembers config).workspace.members.get? name) := by
  rw [updateMembers_eq]
  cases hget : config.members.get? name with
  | none =>
    rw [get?_reconcile_of_none writes_updateMember removes_removeMember hget]
    exact .none
  | some new =>
    obtain ⟨member, hmember, hmatches⟩ :=
      get?_reconcile_of_some writes_updateMember removes_removeMember hget u
    rw [hmember]
    exact .some hmatches

def besidesMembers :=
  (u.workspace.root, u.workspace.links, u.workspace.npmOverrides, u.changedLinks)

theorem besidesMembers_updateMembers : (u.updateMembers config).besidesMembers = u.besidesMembers := by
  apply reconcile_frame
  . rintro ⟨u, unhandledMembers⟩ ⟨name, new⟩
    have hupdated := memberUpdated u ((u.workspace.members.get? name).getD .default) new
    unfold updateMember besidesMembers
    dsimp only
    rw [hupdated.workspace, hupdated.changedLinks]
  . intro u name
    unfold removeMember
    split
    . rfl
    . rfl

end

variable {config : WorkspaceConfig R J} {packages : PackagesContent R V}

theorem updateMembers_of_settled (h : config.Settled u.workspace) : u.updateMembers config = u := by
  apply reconcile_eq_self
  . exact writes_updateMember.unhandled
  . rintro ⟨name, new⟩ hmem unhandledMembers
    have hrel := h.members name
    rw [get?_eq_some_iff.mpr hmem] at hrel
    generalize hget : u.workspace.members.get? name = found at hrel
    cases hrel with
    | some hmatches =>
      unfold updateMember
      dsimp only
      rw [hget, Option.getD_some, updateWorkspaceMember_of_matches hmatches]
      rw [set_eq_self hget]
  . intro name hname
    by_contra hnot
    have hrel := h.members name
    rw [get?_eq_none_iff.mpr hnot] at hrel
    generalize hget : u.workspace.members.get? name = found at hrel
    cases hrel with
    | none => exact get?_eq_none_iff.mp hget hname

def besidesRoot (u : WorkspaceUpdate R J) :=
  (u.workspace.members, u.workspace.links, u.workspace.npmOverrides, u.changedLinks)

section

variable (config : WorkspaceConfig R J) (u : WorkspaceUpdate R J)

theorem updateRoot_settled : config.root.Matches (u.updateRoot config).workspace.root :=
  (memberUpdated u u.workspace.root config.root).settled

theorem besidesRoot_updateRoot : (u.updateRoot config).besidesRoot = u.besidesRoot := by
  have hupdated := memberUpdated u u.workspace.root config.root
  unfold updateRoot besidesRoot
  dsimp only
  rw [hupdated.workspace, hupdated.changedLinks]

theorem mem_removedDeps_updateRoot (dep : JsrDepPackageReq R)
    : dep ∈ (u.updateRoot config).removedDeps.elems ↔
      dep ∈ u.removedDeps.elems ∨ u.workspace.root.Dropped config.root dep :=
  (memberUpdated u u.workspace.root config.root).removedDeps dep

end

theorem updateRoot_of_settled (h : config.Settled u.workspace) : u.updateRoot config = u := by
  unfold updateRoot
  rw [updateWorkspaceMember_of_matches h.root]

omit [DecidableEq R] in
theorem updateOverrides_eq [DecidableEq J] (config : WorkspaceConfig R J) (u : WorkspaceUpdate R J)
    : ∃ changed, u.updateOverrides config =
        { u with hasContentChanged := changed, workspace.npmOverrides := config.npmOverrides } := by
  unfold updateOverrides
  split
  . exact ⟨true, rfl⟩
  . next heq =>
    rw [not_not.mp heq]
    exact ⟨u.hasContentChanged, rfl⟩

omit [DecidableEq R] in
theorem updateOverrides_of_settled [DecidableEq J] (h : config.Settled u.workspace)
    : u.updateOverrides config = u := by
  unfold updateOverrides
  rw [if_neg (not_not.mpr h.npmOverrides)]

theorem removes_removeLink
    : Removes (fun u : WorkspaceUpdate R J => u.workspace.links)
      (fun u dep => dep ∈ u.removedDeps.elems) removeLink (fun link dep => dep ∈ link.depReqs) := by
  constructor
  . intro u name k
    unfold removeLink
    split
    . exact get?_delete _ _ _
    . next hget =>
      split
      . next heq => rw [← heq, hget]
      . rfl
  . intro u name dep
    unfold removeLink
    split
    . next link hget => simp [OrderedSet.mem_extend, hget]
    . next hget => simp [hget]

variable [LinearOrder V] [DecidableEq J] [Version V] [VersionReq R V] [ReqText R] [SerdeJson J]

def besidesLinks (u : WorkspaceUpdate R J) :=
  (u.workspace.root, u.workspace.members, u.workspace.npmOverrides)

theorem updateLink_spec (packages : PackagesContent R V) (s : WorkspaceUpdate R J × OrderedSet Str)
    (e : Str × LockfileLinkContent R J)
    : (∃ link, (updateLink packages s e).1.workspace = (s.1.setLink e.1 link).workspace ∧ e.2.Same link) ∧
      (updateLink packages s e).1.removedDeps = s.1.removedDeps ∧
      ∀ k, k ∈ (updateLink packages s e).2.elems ↔ k ∈ s.2.elems ∧ k ≠ e.1 := by
  obtain ⟨u, unhandledLinks⟩ := s
  obtain ⟨linkName, new⟩ := e
  unfold updateLink
  dsimp only
  split
  . next hnew =>
    refine ⟨⟨new, ?_, .refl new⟩, ?_, ?handled⟩
    case handled =>
      intro k
      rw [Bool.not_eq_true', ← Bool.not_eq_true, OrderedSet.has_iff] at hnew
      constructor
      . intro hk
        refine ⟨hk, ?_⟩
        rintro rfl
        exact hnew hk
      . exact And.left
    all_goals
      split
      . split
        . rfl
        . rfl
      . rfl
  . split
    . refine ⟨⟨new, ?_, .refl new⟩, ?_, fun k => OrderedSet.mem_delete⟩
      all_goals
        unfold addChangedLink
        split
        . rfl
        . rfl
    . next hsame => exact ⟨⟨_, rfl, not_not.mp hsame⟩, rfl, fun k => OrderedSet.mem_delete⟩

theorem writes_updateLink (packages : PackagesContent R V)
    : Writes (fun u : WorkspaceUpdate R J => u.workspace.links)
      (fun u dep => dep ∈ u.removedDeps.elems) (updateLink packages) (fun new _ link => new.Same link)
      (fun _ _ _ => False) := by
  constructor
  . intro s e
    obtain ⟨⟨link, hworkspace, hsame⟩, _⟩ := updateLink_spec packages s e
    refine ⟨link, ?_, hsame⟩
    rw [hworkspace]
    exact get?_set_self _ _ _
  . intro s e k hne
    obtain ⟨⟨link, hworkspace, _⟩, _⟩ := updateLink_spec packages s e
    rw [hworkspace]
    exact get?_set_ne _ _ (Ne.symm hne)
  . intro s e
    exact (updateLink_spec packages s e).2.2
  . intro s e dep
    rw [(updateLink_spec packages s e).2.1, or_false]

theorem updateLinks_of_not_same (h : ¬config.links.SameBy Same u.workspace.links)
    : u.updateLinks packages config =
        reconcile (fun u => u.workspace.links) (updateLink packages) removeLink config.links
          { u with hasContentChanged := true } := by
  unfold updateLinks
  rw [if_pos h]
  rfl

theorem updateLinks_of_same (h : config.links.SameBy Same u.workspace.links)
    : u.updateLinks packages config = u := by
  unfold updateLinks
  rw [if_neg (not_not.mpr h)]

section

variable (packages : PackagesContent R V) (config : WorkspaceConfig R J) (u : WorkspaceUpdate R J)

theorem updateLinks_settled
    : config.links.SameBy Same (u.updateLinks packages config).workspace.links := by
  by_cases hsame : config.links.SameBy Same u.workspace.links
  . rw [updateLinks_of_same hsame]
    exact hsame
  . rw [updateLinks_of_not_same hsame, OrderedMap.SameBy.iff_rel]
    intro name
    cases hget : config.links.get? name with
    | none =>
      rw [get?_reconcile_of_none (writes_updateLink packages) removes_removeLink hget]
      exact .none
    | some new =>
      obtain ⟨link, hlink, hnew⟩ := get?_reconcile_of_some (writes_updateLink packages)
        removes_removeLink hget { u with hasContentChanged := true }
      rw [hlink]
      exact .some hnew

theorem besidesLinks_updateLinks : (u.updateLinks packages config).besidesLinks = u.besidesLinks := by
  by_cases hsame : config.links.SameBy Same u.workspace.links
  . rw [updateLinks_of_same hsame]
  . rw [updateLinks_of_not_same hsame]
    apply reconcile_frame besidesLinks
    . intro s e
      obtain ⟨⟨link, hworkspace, _⟩, _⟩ := updateLink_spec packages s e
      unfold besidesLinks
      rw [hworkspace]
      rfl
    . intro u name
      unfold removeLink
      split
      . rfl
      . rfl

theorem run_settled : config.Settled (u.run packages config).workspace := by
  show config.Settled (workspace (updateMembers _ _))
  obtain ⟨changed, hoverrides⟩ := updateOverrides_eq config u
  rw [hoverrides]
  generalize hu₁ : { u with hasContentChanged := changed, workspace.npmOverrides := config.npmOverrides } = u₁
  generalize hu₂ : u₁.updateLinks packages config = u₂
  generalize hu₃ : u₂.updateRoot config = u₃
  have hmembers := besidesMembers_updateMembers config u₃
  have hroot := besidesRoot_updateRoot config u₂
  have hlinks := besidesLinks_updateLinks packages config u₁
  have hsame := updateLinks_settled packages config u₁
  have hmatches := updateRoot_settled config u₂
  rw [hu₃] at hroot hmatches
  rw [hu₂] at hlinks hsame
  unfold besidesMembers at hmembers
  unfold besidesRoot at hroot
  unfold besidesLinks at hlinks
  simp only [Prod.mk.injEq] at hmembers hroot hlinks
  constructor
  . rw [hmembers.2.2.1, hroot.2.2.1, hlinks.2.2, ← hu₁]
  . rw [hmembers.2.1, hroot.2.1]
    exact hsame
  . rw [hmembers.1]
    exact hmatches
  . exact updateMembers_settled config u₃

end

theorem run_of_settled (h : config.Settled u.workspace) (hremoved : u.removedDeps = .empty)
    : u.run packages config = u := by
  unfold run
  rw [updateOverrides_of_settled h, updateLinks_of_same h.links, updateRoot_of_settled h,
    updateMembers_of_settled h]
  unfold keepRemaining
  have hempty : u.workspace.getAllDepReqs.foldl OrderedSet.delete u.removedDeps = u.removedDeps := by
    rw [hremoved]
    exact List.foldl_fixed' (fun _ => rfl) _
  rw [hempty]

end WorkspaceUpdate

/-! Completing the options from what they have led to gives the same again. -/

namespace SetWorkspaceConfigOptions

def completedDeps (keep : Bool) (deps current : OrderedSet (JsrDepPackageReq R))
    : OrderedSet (JsrDepPackageReq R) :=
  if keep then keptDeps deps current else deps

theorem same_completedDeps {deps before after : OrderedSet (JsrDepPackageReq R)}
    (h : (completedDeps keep deps before).Same after)
    : (completedDeps keep deps after).Same after := by
  cases keep with
  | false => exact h
  | true =>
    unfold completedDeps keptDeps at h ⊢
    rw [if_pos rfl] at h ⊢
    split at h
    . next hempty =>
      rw [if_pos hempty]
      exact .refl after
    . next hempty =>
      rw [if_neg hempty]
      exact h

variable (options : SetWorkspaceConfigOptions R J) (workspace : WorkspaceConfigContent R J)

theorem complete_links : (options.complete workspace).links = options.config.links := by
  unfold complete keepConfig keepPackageJson
  split
  . split
    . rfl
    . rfl
  . split
    . rfl
    . rfl

theorem complete_npmOverrides
    : (options.complete workspace).npmOverrides =
      if options.noNpm || options.noConfig then
        options.config.npmOverrides.or workspace.npmOverrides
      else
        options.config.npmOverrides := by
  unfold complete keepConfig keepPackageJson
  split
  . split
    . rfl
    . rfl
  . split
    . rfl
    . rfl

theorem complete_root
    : (options.complete workspace).root =
      ⟨completedDeps options.noConfig options.config.root.dependencies workspace.root.dependencies,
        completedDeps (options.noNpm || options.noConfig) options.config.root.packageJsonDeps
          workspace.root.packageJson.dependencies⟩ := by
  unfold complete keepConfig keepPackageJson completedDeps
  split
  . split
    . rfl
    . rfl
  . split
    . rfl
    . rfl

def member (name : Str) : WorkspaceMemberConfigContent R J :=
  (workspace.members.get? name).getD .default

theorem complete_members (name : Str)
    : (options.complete workspace).members.get? name =
      match options.config.members.get? name with
      | some value => some
        ⟨completedDeps options.noConfig value.dependencies (member workspace name).dependencies,
          completedDeps (options.noNpm || options.noConfig) value.packageJsonDeps
            (member workspace name).packageJson.dependencies⟩
      | none =>
        if options.noConfig then
          (workspace.members.get? name).map fun m => ⟨m.dependencies, m.packageJson.dependencies⟩
        else
          none := by
  have hdeps : ((workspace.members.get? name).map fun m => m.dependencies).getD .empty
        = (member workspace name).dependencies ∧
      ((workspace.members.get? name).map fun m => m.packageJson.dependencies).getD .empty
        = (member workspace name).packageJson.dependencies := by
    unfold member
    cases workspace.members.get? name with
    | none | some m => exact ⟨rfl, rfl⟩
  have hpackageJson : (options.keepPackageJson workspace).members.get? name
      = (options.config.members.get? name).map fun value => { value with
          packageJsonDeps := completedDeps (options.noNpm || options.noConfig) value.packageJsonDeps
            (member workspace name).packageJson.dependencies } := by
    unfold keepPackageJson completedDeps
    split
    . rw [get?_mapValues]
      simp only [hdeps.2]
    . exact Option.map_id'.symm
  unfold complete keepConfig
  split
  . next hnoConfig =>
    rw [get?_foldl_setMissing
      (fun m => (⟨m.dependencies, m.packageJson.dependencies⟩ : WorkspaceMemberConfig R)) _
      workspace.members.nodup, get?_mapValues, hpackageJson]
    cases options.config.members.get? name with
    | none => rfl
    | some value => simp [completedDeps, hdeps.1, hnoConfig]
  . next hnoConfig =>
    rw [hpackageJson]
    cases options.config.members.get? name with
    | none => rfl
    | some value => simp [completedDeps, hnoConfig]

variable {options} {before after : WorkspaceConfigContent R J}

theorem complete_settled (h : (options.complete before).Settled after)
    : (options.complete after).Settled after := by
  constructor
  . have hoverrides := h.npmOverrides
    rw [complete_npmOverrides] at hoverrides ⊢
    split at hoverrides
    . next hkeep =>
      rw [if_pos hkeep]
      cases hconfig : options.config.npmOverrides with
      | none => rfl
      | some value =>
        rw [hconfig] at hoverrides
        exact hoverrides
    . next hkeep =>
      rw [if_neg hkeep]
      exact hoverrides
  . rw [complete_links, ← complete_links options before]
    exact h.links
  . have hroot := h.root
    rw [complete_root] at hroot ⊢
    exact ⟨same_completedDeps hroot.dependencies, same_completedDeps hroot.packageJsonDeps⟩
  . intro name
    have hname := h.members name
    rw [complete_members] at hname ⊢
    unfold member at hname ⊢
    generalize after.members.get? name = found at hname ⊢
    cases hconfig : options.config.members.get? name with
    | some value =>
      rw [hconfig] at hname
      cases hname with
      | some hmatches =>
        apply Option.Rel.some
        exact ⟨same_completedDeps hmatches.dependencies, same_completedDeps hmatches.packageJsonDeps⟩
    | none =>
      rw [hconfig] at hname
      dsimp only at hname ⊢
      split at hname
      . next hnoConfig =>
        rw [if_pos hnoConfig]
        cases found with
        | none => exact .none
        | some member => exact .some ⟨.refl _, .refl _⟩
      . next hnoConfig =>
        rw [if_neg hnoConfig]
        exact hname

end SetWorkspaceConfigOptions

namespace Lockfile

theorem exists_purgePackages [DecidableEq R] [LinearOrder V] [Version V] (content : LockfileContent R V J) (u : WorkspaceUpdate R J)
    : ∃ packages remote, u.purgePackages content = some (packages, remote) := by
  unfold purgePackages
  split
  . have hroots := PackagesContent.removeRootPackages_released content.packages content.remote
      u.removedDeps.elems
    obtain ⟨ids, hlinks⟩ := LockfilePackageGraph.removeLinks_without
      (hroots.sorted (PackagesContent.fromLockfile_sorted _ _)) u.changedLinks.elems
    exact ⟨_, _, PackagesContent.populatePackages_of_without (hroots.trans hlinks)⟩
  . exact ⟨_, _, rfl⟩

variable [DecidableEq R] [LinearOrder V] [DecidableEq J] [Version V] [VersionReq R V] [ReqText R] [SerdeJson J]

variable (lockfile : Lockfile R V J) (options : SetWorkspaceConfigOptions R J)

def update : WorkspaceUpdate R J :=
  run lockfile.content.packages (options.complete lockfile.content.workspace)
    ⟨lockfile.hasContentChanged, lockfile.content.workspace, .empty, .empty⟩

theorem setWorkspaceConfig_eq {packages : PackagesContent R V}
    (h : (lockfile.update options).purgePackages lockfile.content = some (packages, remote))
    : lockfile.setWorkspaceConfig options = some
        { hasContentChanged :=
            if !(lockfile.hasContentChanged || !lockfile.content.isEmpty) then
              false
            else
              (lockfile.update options).hasContentChanged
          content := { lockfile.content with
            packages, remote, workspace := (lockfile.update options).workspace } } := by
  unfold update at h
  unfold setWorkspaceConfig
  dsimp only
  rw [h]
  rfl

theorem setWorkspaceConfig_idempotent (lockfile : Lockfile R V J) (options : SetWorkspaceConfigOptions R J)
    : ∃ lockfile', lockfile.setWorkspaceConfig options = some lockfile' ∧
      lockfile'.setWorkspaceConfig options = some lockfile' := by
  obtain ⟨packages, remote, hpurge⟩ := exists_purgePackages lockfile.content (lockfile.update options)
  refine ⟨_, lockfile.setWorkspaceConfig_eq options hpurge, ?_⟩
  have hsettled : (options.complete lockfile.content.workspace).Settled (lockfile.update options).workspace :=
    run_settled _ _ _
  generalize (if !(lockfile.hasContentChanged || !lockfile.content.isEmpty) then false
    else (lockfile.update options).hasContentChanged) = changed
  generalize (lockfile.update options).workspace = workspace at hsettled
  generalize hlockfile : (⟨changed, ⟨packages, lockfile.content.redirects, remote, workspace⟩⟩ : Lockfile R V J)
    = lockfile'
  have hupdate : lockfile'.update options = ⟨changed, workspace, .empty, .empty⟩ := by
    rw [← hlockfile]
    exact run_of_settled (SetWorkspaceConfigOptions.complete_settled hsettled) rfl
  have hsame : (lockfile'.update options).purgePackages lockfile'.content
      = some (lockfile'.content.packages, lockfile'.content.remote) := by
    rw [hupdate]
    rfl
  rw [lockfile'.setWorkspaceConfig_eq options hsame, hupdate, ← hlockfile]
  cases changed with
  | false => simp
  | true => rfl

end Lockfile

end DenoLockfile
