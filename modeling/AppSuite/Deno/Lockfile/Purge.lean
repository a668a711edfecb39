import AppSuite.Deno.Lockfile.Removal

/-!
This module contains what a purge removes from the packages of a lockfile.
-/

namespace DenoLockfile

open Worklist LockfilePackageGraph OrderedMap

variable {R V : Type} [DecidableEq R] [LinearOrder V] [Version V]

namespace PackagesContent

variable (content : PackagesContent R V) (remotes : OrderedMap Str Str)
  (reqs : List (JsrDepPackageReq R))

def purged : Option (PackagesContent R V × OrderedMap Str Str) :=
  ((fromLockfile content remotes).removeRootPackages reqs).populatePackages .empty

def Linked (a b : PackageNv V) : Prop :=
  content.jsr.has a = true ∧ content.jsr.has b = true ∧ (content.DependsOn a b ∨ content.DependsOn b a)

def Connected : PackageNv V → PackageNv V → Prop :=
  Relation.ReflTransGen content.Linked

def Purged (nv : PackageNv V) : Prop :=
  ∃ req ∈ reqs, ∃ start, content.target req = some (.jsr start) ∧ content.jsr.has start = true ∧
    content.Connected start nv

def Released (id : LockfilePkgId V) : Prop :=
  (∃ nv, id = .jsr nv ∧ content.Purged reqs nv) ∨
    (∃ req ∈ reqs, content.target req = some id) ∨
    ∃ nv info, content.Purged reqs nv ∧ content.jsr.get? nv = some info ∧
      ∃ dep ∈ info.dependencies.elems, content.target dep = some id

variable {content : PackagesContent R V} {reqs : List (JsrDepPackageReq R)} {nv nv' : PackageNv V}

omit [DecidableEq R] [Version V] in
theorem has_jsr_iff : content.jsr.has nv = true ↔ ∃ info, content.jsr.get? nv = some info :=
  Option.isSome_iff_exists

theorem Purged.link (h : content.Purged reqs nv) (hlinked : content.Linked nv nv')
    : content.Purged reqs nv' := by
  obtain ⟨req, hreq, start, htarget, hstart, hpath⟩ := h
  exact ⟨req, hreq, start, htarget, hstart, hpath.tail hlinked⟩

theorem Purged.has (h : content.Purged reqs nv) : content.jsr.has nv = true := by
  obtain ⟨req, _, start, _, hstart, hpath⟩ := h
  cases hpath with
  | refl => exact hstart
  | tail _ hlinked => exact hlinked.2.1

theorem DependsOn.has (h : content.DependsOn nv nv') : content.jsr.has nv = true := by
  obtain ⟨info, hget, _⟩ := h
  exact has_jsr_iff.mpr ⟨info, hget⟩

variable {reqs' : List (JsrDepPackageReq R)} {id : LockfilePkgId V} {remotes : OrderedMap Str Str}
  {graph : LockfilePackageGraph R V}

theorem purged_congr (h : ∀ req, req ∈ reqs' ↔ req ∈ reqs)
    : content.Purged reqs' nv ↔ content.Purged reqs nv := by
  simp only [Purged, h]

theorem released_congr (h : ∀ req, req ∈ reqs' ↔ req ∈ reqs)
    : content.Released reqs' id ↔ content.Released reqs id := by
  simp only [Released, purged_congr h, h]

theorem Released.exists_mem (h : content.Released reqs id) : ∃ req, req ∈ reqs := by
  rcases h with ⟨_, _, req, hreq, _⟩ | ⟨req, hreq, _⟩ | ⟨_, _, ⟨req, hreq, _⟩, _⟩
  . exact ⟨req, hreq⟩
  . exact ⟨req, hreq⟩
  . exact ⟨req, hreq⟩

theorem Released.purged (h : content.Released reqs (.jsr nv)) (hnv : content.jsr.has nv = true)
    : content.Purged reqs nv := by
  rcases h with ⟨nv', heq, hpurged⟩ | ⟨req, hreq, htarget⟩ | ⟨nv', info, hpurged, hget, dep, hdep, htarget⟩
  . cases heq
    exact hpurged
  . exact ⟨req, hreq, nv, htarget, hnv, .refl⟩
  . exact hpurged.link ⟨hpurged.has, hnv, .inl ⟨info, hget, dep, hdep, htarget⟩⟩

theorem fromLockfile_sorted (content : PackagesContent R V) (remotes : OrderedMap Str Str)
    : (fromLockfile content remotes).Sorted := by
  constructor
  . intro id pkg hget
    obtain ⟨info, _, dependents, heq⟩ := fromLockfile_npm content remotes hget
    cases heq
  . intro nv pkg hget
    obtain ⟨info, _, dependents, heq, _⟩ := fromLockfile_jsr content remotes hget
    cases heq

theorem follows_jsr_iff (remotes : OrderedMap Str Str)
    (h : content.jsr.get? nv = some info)
    : (fromLockfile content remotes).Follows (.jsr nv) id ↔
      (∃ dep ∈ info.dependencies.elems, content.target dep = some id) ∨
        ∃ nv', id = .jsr nv' ∧ content.DependsOn nv' nv := by
  obtain ⟨pkg, hpkg⟩ := exists_fromLockfile_jsr content remotes h
  obtain ⟨info', hinfo', dependents, rfl, hdependents⟩ := fromLockfile_jsr content remotes hpkg
  rw [h] at hinfo'
  cases hinfo'
  rw [follows_iff hpkg, List.mem_append, List.mem_filterMap, hdependents]
  simp only [fromLockfile_rootPackages]

theorem exists_of_follows (h : (fromLockfile content remotes).Follows a b)
    : ∃ nv info, a = .jsr nv ∧ content.jsr.get? nv = some info := by
  obtain ⟨pkg, hget, _⟩ := h
  cases a with
  | npm id => exact absurd hget ((fromLockfile_sorted content remotes).1 id pkg)
  | jsr nv =>
    obtain ⟨info, hinfo, _⟩ := fromLockfile_jsr content remotes hget
    exact ⟨nv, info, rfl, hinfo⟩

section

variable (remotes : OrderedMap Str Str)

theorem closed_released
    : Closed (fromLockfile content remotes).Follows { id | content.Released reqs id } := by
  intro a ha b hab
  obtain ⟨nv, info, rfl, hget⟩ := exists_of_follows hab
  have hnv : content.jsr.has nv = true := has_jsr_iff.mpr ⟨info, hget⟩
  have hpurged := Released.purged ha hnv
  rcases (follows_jsr_iff remotes hget).mp hab with ⟨dep, hdep, htarget⟩ | ⟨nv', rfl, hdepends⟩
  . exact .inr (.inr ⟨nv, info, hpurged, hget, dep, hdep, htarget⟩)
  . exact .inl ⟨nv', rfl, hpurged.link ⟨hnv, hdepends.has, .inr hdepends⟩⟩

theorem follows_of_linked (h : content.Linked nv nv')
    : (fromLockfile content remotes).Follows (.jsr nv) (.jsr nv') := by
  obtain ⟨hnv, _, hdepends⟩ := h
  obtain ⟨info, hget⟩ := has_jsr_iff.mp hnv
  rw [follows_jsr_iff remotes hget]
  rcases hdepends with ⟨info', hget', hdep⟩ | hdepends
  . rw [hget] at hget'
    cases hget'
    exact .inl hdep
  . exact .inr ⟨nv', rfl, hdepends⟩

theorem purged_mem_reach (h : content.Purged reqs nv)
    : .jsr nv ∈ reach (fromLockfile content remotes).Follows
      { id | ∃ req ∈ reqs, content.target req = some id } := by
  obtain ⟨req, hreq, start, htarget, _, hpath⟩ := h
  refine ⟨.jsr start, ⟨req, hreq, htarget⟩, ?_⟩
  induction hpath with
  | refl => exact .refl
  | tail _ hlinked ih => exact ih.tail (follows_of_linked remotes hlinked)

end

theorem reach_eq_released (content : PackagesContent R V) (remotes : OrderedMap Str Str)
    (reqs : List (JsrDepPackageReq R))
    : reach (fromLockfile content remotes).Follows { id | ∃ req ∈ reqs, content.target req = some id }
      = { id | content.Released reqs id } := by
  apply Set.Subset.antisymm
  . apply reach_subset _ (closed_released remotes)
    intro id hid
    exact .inr (.inl hid)
  . rintro id (⟨nv, rfl, hpurged⟩ | hid | ⟨nv, info, hpurged, hget, hdep⟩)
    . exact purged_mem_reach remotes hpurged
    . exact subset_reach _ hid
    . apply closed_reach _ _ (purged_mem_reach remotes hpurged)
      exact (follows_jsr_iff remotes hget).mpr (.inl hdep)

theorem stripPrefix_append (start rest : Str) : stripPrefix (start ++ rest) start = some rest := by
  rw [stripPrefix, if_pos (List.prefix_append start rest), List.drop_left]

omit [DecidableEq R] [LinearOrder V] in
theorem exists_specifierValue (h : specifierId dep value = some id)
    : ∃ value', specifierValue dep id = some value' ∧ (dep.kind = .npm → value' = value) := by
  unfold specifierId at h
  split at h
  . next hkind =>
    obtain ⟨version, _, rfl⟩ := Option.map_eq_some_iff.mp h
    refine ⟨_, rfl, ?_⟩
    rw [hkind]
    nofun
  . cases h
    refine ⟨value, ?_, fun _ => rfl⟩
    rw [specifierValue, stripPrefix_append]
    exact stripPrefix_append ['@'] value

variable {req : JsrDepPackageReq R} {ids : Set (LockfilePkgId V)}

omit [LinearOrder V] in
theorem exists_value_of_target (h : content.target req = some id)
    : ∃ value, specifierValue req id = some value := by
  obtain ⟨text, _, hid⟩ := Option.bind_eq_some_iff.mp h
  obtain ⟨value, hvalue, _⟩ := exists_specifierValue hid
  exact ⟨value, hvalue⟩

omit [LinearOrder V] in
theorem exists_target
    (hparse : ∀ e ∈ content.specifiers.entries, e.1.kind = .jsr → (Version.parseStandard e.2 : Option V).isSome = true)
    (h : content.specifiers.get? req = some text)
    : ∃ id, content.target req = some id := by
  rw [target, h, Option.bind_some, specifierId]
  split
  . next hkind =>
    obtain ⟨version, hversion⟩ := Option.isSome_iff_exists.mp
      (hparse (req, text) (get?_eq_some_iff.mp h) hkind)
    rw [hversion]
    exact ⟨_, rfl⟩
  . exact ⟨_, rfl⟩

theorem readable_of_without (h : Without (fromLockfile content remotes) ids graph) : graph.Readable := by
  intro req id hget
  have htarget := ((h.rootPackages req id).mp hget).1
  rw [fromLockfile_rootPackages] at htarget
  exact exists_value_of_target htarget

theorem populatePackages_of_without (h : Without (fromLockfile content remotes) ids graph)
    : graph.populatePackages .empty = some (graph.written, remotes) := by
  rw [populatePackages_eq _ (h.sorted (fromLockfile_sorted content remotes)) (readable_of_without h), h.remotes]
  rfl

structure PurgedTo (content : PackagesContent R V) (reqs : List (JsrDepPackageReq R))
    (kept : PackagesContent R V) : Prop where
  specifiers : ∀ req value, kept.specifiers.get? req = some value ↔
    ∃ id, content.target req = some id ∧ ¬content.Released reqs id ∧ specifierValue req id = some value
  jsr : ∀ nv info, kept.jsr.get? nv = some info ↔
    ∃ old, content.jsr.get? nv = some old ∧ ¬content.Purged reqs nv ∧
      info = ⟨old.integrity, old.dependencies.filter kept.specifiers.has⟩
  npm : ∀ id, kept.npm.get? id = content.npm.get? id

theorem written_purgedTo
    (h : Without (fromLockfile content remotes) { id | content.Released reqs id } graph)
    : PurgedTo content reqs graph.written := by
  have hhas : graph.rootPackages.has = graph.written.specifiers.has := by
    funext req
    rw [has, has, written_specifiers]
    cases hget : graph.rootPackages.get? req with
    | none => rfl
    | some id =>
      obtain ⟨value, hvalue⟩ := readable_of_without h req id hget
      rw [Option.bind_some, hvalue]
      rfl
  constructor
  . intro req value
    rw [written_specifiers, Option.bind_eq_some_iff]
    simp only [h.rootPackages, fromLockfile_rootPackages, and_assoc]
    rfl
  . intro nv info
    rw [written_jsr, hhas]
    constructor
    . rintro ⟨pkg, hget, rfl⟩
      obtain ⟨hpkg, hnpm⟩ := (h.packages _ _).mp hget
      obtain ⟨old, hold, dependents, heq, _⟩ := fromLockfile_jsr content remotes hpkg
      cases heq
      refine ⟨old, hold, ?_, rfl⟩
      intro hpurged
      obtain ⟨p, hp⟩ := hnpm (.inl ⟨nv, rfl, hpurged⟩)
      cases hp
    . rintro ⟨old, hold, hpurged, rfl⟩
      obtain ⟨pkg, hpkg⟩ := exists_fromLockfile_jsr content remotes hold
      obtain ⟨old', hold', dependents, rfl, _⟩ := fromLockfile_jsr content remotes hpkg
      rw [hold] at hold'
      cases hold'
      refine ⟨_, (h.packages _ _).mpr ⟨hpkg, ?_⟩, rfl⟩
      intro hreleased
      exact absurd (Released.purged hreleased (has_jsr_iff.mpr ⟨old, hold⟩)) hpurged
  . intro id
    apply Option.ext
    intro info
    rw [written_npm]
    constructor
    . rintro ⟨pkg, hget, rfl⟩
      obtain ⟨info, hinfo, dependents, heq⟩ := fromLockfile_npm content remotes ((h.packages _ _).mp hget).1
      cases heq
      exact hinfo
    . intro hinfo
      obtain ⟨pkg, hpkg⟩ := exists_fromLockfile_npm content remotes hinfo
      obtain ⟨info', hinfo', dependents, rfl⟩ := fromLockfile_npm content remotes hpkg
      rw [hinfo] at hinfo'
      cases hinfo'
      exact ⟨_, (h.packages _ _).mpr ⟨hpkg, fun _ => ⟨_, rfl⟩⟩, rfl⟩

section

variable (content : PackagesContent R V) (remotes : OrderedMap Str Str)
  (reqs : List (JsrDepPackageReq R))

theorem removeRootPackages_released
    : Without (fromLockfile content remotes) { id | content.Released reqs id }
      ((fromLockfile content remotes).removeRootPackages reqs) := by
  have h := removeRootPackages_without (fromLockfile_sorted content remotes) reqs
  simp only [fromLockfile_rootPackages] at h
  rw [reach_eq_released] at h
  exact h

theorem purged_spec
    : ∃ kept, content.purged remotes reqs = some (kept, remotes) ∧ PurgedTo content reqs kept := by
  have h := removeRootPackages_released content remotes reqs
  exact ⟨_, populatePackages_of_without h, written_purgedTo h⟩

end

def Same (a b : PackagesContent R V) : Prop :=
  (∀ req, a.specifiers.get? req = b.specifiers.get? req) ∧ (∀ nv, a.jsr.get? nv = b.jsr.get? nv) ∧
    ∀ id, a.npm.get? id = b.npm.get? id

theorem PurgedTo.same (hreqs : ∀ req, req ∈ reqs' ↔ req ∈ reqs)
    (h : PurgedTo content reqs kept) (h' : PurgedTo content reqs' kept')
    : kept'.Same kept := by
  have hspecifiers (req : JsrDepPackageReq R) : kept'.specifiers.get? req = kept.specifiers.get? req := by
    apply Option.ext
    intro value
    rw [h.specifiers, h'.specifiers]
    simp only [released_congr hreqs]
  have hhas : kept'.specifiers.has = kept.specifiers.has := by
    funext req
    rw [has, hspecifiers]
    rfl
  refine ⟨hspecifiers, ?_, ?_⟩
  . intro nv
    apply Option.ext
    intro info
    rw [h.jsr, h'.jsr, hhas]
    simp only [purged_congr hreqs]
  . intro id
    rw [h.npm, h'.npm]

theorem purge_exact (content : PackagesContent R V) (remotes : OrderedMap Str Str)
    (hparse : ∀ e ∈ content.specifiers.entries, e.1.kind = .jsr →
      (Version.parseStandard e.2 : Option V).isSome = true)
    (reqs : List (JsrDepPackageReq R))
    : ∃ kept, content.purged remotes reqs = some (kept, remotes) ∧
      (∀ nv, kept.jsr.has nv = true ↔ content.jsr.has nv = true ∧ ¬content.Purged reqs nv) ∧
      (∀ req, kept.specifiers.has req = true ↔
        content.specifiers.has req = true ∧ ∀ id, content.target req = some id → ¬content.Released reqs id) ∧
      (∀ req value, req.kind = .npm → kept.specifiers.get? req = some value →
        content.specifiers.get? req = some value) ∧
      (∀ id, kept.npm.get? id = content.npm.get? id) ∧
      (∀ nv info, kept.jsr.get? nv = some info →
        ∃ old, content.jsr.get? nv = some old ∧ info.integrity = old.integrity ∧
          ∀ dep, dep ∈ info.dependencies.elems ↔
            dep ∈ old.dependencies.elems ∧ kept.specifiers.has dep = true) ∧
      ∀ reqs', reqs'.Perm reqs →
        ∃ kept', content.purged remotes reqs' = some (kept', remotes) ∧ kept'.Same kept := by
  obtain ⟨kept, heq, h⟩ := purged_spec content remotes reqs
  refine ⟨kept, heq, ?_, ?_, ?_, h.npm, ?_, ?_⟩
  . intro nv
    rw [has_jsr_iff, has_jsr_iff]
    constructor
    . rintro ⟨info, hinfo⟩
      obtain ⟨old, hold, hpurged, _⟩ := (h.jsr nv info).mp hinfo
      exact ⟨⟨old, hold⟩, hpurged⟩
    . rintro ⟨⟨old, hold⟩, hpurged⟩
      exact ⟨_, (h.jsr nv _).mpr ⟨old, hold, hpurged, rfl⟩⟩
  . intro req
    rw [has, has, Option.isSome_iff_exists, Option.isSome_iff_exists]
    constructor
    . rintro ⟨value, hvalue⟩
      obtain ⟨id, htarget, hreleased, _⟩ := (h.specifiers req value).mp hvalue
      obtain ⟨text, htext, _⟩ := Option.bind_eq_some_iff.mp htarget
      refine ⟨⟨text, htext⟩, ?_⟩
      intro id' htarget'
      rw [htarget] at htarget'
      cases htarget'
      exact hreleased
    . rintro ⟨⟨text, htext⟩, hreleased⟩
      obtain ⟨id, htarget⟩ := exists_target hparse htext
      obtain ⟨value, hvalue⟩ := exists_value_of_target htarget
      exact ⟨value, (h.specifiers req value).mpr ⟨id, htarget, hreleased id htarget, hvalue⟩⟩
  . intro req value hkind hvalue
    obtain ⟨id, htarget, _, hvalue⟩ := (h.specifiers req value).mp hvalue
    obtain ⟨text, htext, hid⟩ := Option.bind_eq_some_iff.mp htarget
    obtain ⟨value', hvalue', hnpm⟩ := exists_specifierValue hid
    rw [hvalue] at hvalue'
    cases hvalue'
    rw [htext, hnpm hkind]
  . intro nv info hinfo
    obtain ⟨old, hold, _, rfl⟩ := (h.jsr nv info).mp hinfo
    refine ⟨old, hold, rfl, ?_⟩
    intro dep
    exact List.mem_filter
  . intro reqs' hperm
    obtain ⟨kept', heq', h'⟩ := purged_spec content remotes reqs'
    exact ⟨kept', heq', h.same (fun req => hperm.mem_iff) h'⟩

instance : Version Nat where
  parseStandard text := some text.length
  parseFromNpm text := some text.length
  toCustomString version := List.replicate version '1'
  nvFromStr text := some ⟨text, 1⟩

def jsrReq (name : Str) : JsrDepPackageReq Nat := ⟨.jsr, name, 1⟩

def cyclic : PackagesContent Nat Nat where
  specifiers := ⟨[(jsrReq ['a'], ['1']), (jsrReq ['b'], ['1'])], by decide⟩
  jsr := ⟨[(⟨['a'], 1⟩, ⟨[], .ofList [jsrReq ['b']]⟩), (⟨['b'], 1⟩, ⟨[], .ofList [jsrReq ['a']]⟩)], by decide⟩
  npm := .empty

theorem purge_exact_cyclic
    : ∃ kept, cyclic.purged .empty [jsrReq ['a']] = some (kept, .empty) ∧ kept.jsr.has ⟨['b'], 1⟩ = false := by
  obtain ⟨kept, heq, hjsr, _⟩ := purge_exact cyclic .empty (by decide) [jsrReq ['a']]
  refine ⟨kept, heq, ?_⟩
  rw [← Bool.not_eq_true, hjsr]
  rintro ⟨_, hpurged⟩
  apply hpurged
  refine ⟨jsrReq ['a'], List.mem_singleton_self _, ⟨['a'], 1⟩, rfl, rfl, ?_⟩
  apply Relation.ReflTransGen.single
  exact ⟨rfl, rfl, .inl ⟨⟨[], .ofList [jsrReq ['b']]⟩, rfl, jsrReq ['b'], by decide, rfl⟩⟩

end PackagesContent

end DenoLockfile
