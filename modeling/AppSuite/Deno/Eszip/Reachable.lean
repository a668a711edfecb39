import AppSuite.Deno.Eszip.RoundTrip

/-!
This module contains the archives that are built by adding modules, choosing a checksum and reading
back.
-/

namespace Deno.Eszip

open OrderedMap

open ExceptFold (bind_eq_ok)

variable {Id Req : Type}

def SamePackage (pkg pkg' : SnapshotPackage Id) : Prop :=
  pkg.id = pkg'.id ∧ ∀ name, pkg.dependencies.get? name = pkg'.dependencies.get? name

structure SameSnapshot [DecidableEq Req] (s s' : Snapshot Id Req) : Prop where
  packages : ∃ order, List.Perm order s.packages ∧ List.Forall₂ SamePackage order s'.packages
  rootPackages : ∀ req, s.rootPackages.get? req = s'.rootPackages.get? req

theorem sameSnapshot_sorted [LE Id] [DecidableLE Id] [DecidableEq Req] [LE Req] [DecidableLE Req]
    (s : Snapshot Id Req)
    : SameSnapshot s s.sorted where
  packages := by
    refine ⟨_, List.perm_insertionSort (fun a b => a.id ≤ b.id) s.packages, ?_⟩
    rw [Snapshot.sorted, List.forall₂_map_right_iff, List.forall₂_same]
    intro pkg _
    refine ⟨rfl, ?_⟩
    intro name
    exact (get?_eq_of_perm (perm_sortKeys pkg.dependencies _) name).symm
  rootPackages := by
    intro req
    exact (get?_eq_of_perm (perm_sortKeys s.rootPackages _) req).symm

theorem ready_module (kind : ModuleKind) (data sourceMap : Bytes)
    : (EszipV2Module.module kind (.ready data) (.ready sourceMap)).Ready := by
  rintro (_ | _) slot hslot
  . cases hslot
    exact ⟨data, rfl⟩
  . cases hslot
    exact ⟨sourceMap, rfl⟩

variable {archive : EszipV2 Id Req}

theorem Complete.addToFront (h : Complete archive) (kind : ModuleKind) (specifier : Str)
    (data sourceMap : Bytes)
    : Complete (archive.addToFront kind specifier data sourceMap) where
  ready := by
    intro entry hmem
    cases mem_of_mem_pushFront hmem with
    | inl heq =>
      rw [heq]
      apply ready_module
    | inr hmem => exact h.ready entry hmem
  snapshot := h.snapshot

theorem Complete.addOpaqueData (h : Complete archive) (specifier : Str) (data : Bytes)
    : Complete (archive.addOpaqueData specifier data) where
  ready := by
    intro entry hmem
    cases mem_of_mem_pushBack hmem with
    | inl heq =>
      rw [heq]
      apply ready_module
    | inr hmem => exact h.ready entry hmem
  snapshot := h.snapshot

theorem Complete.sorted [LE Id] [DecidableLE Id] [LE Req] [DecidableLE Req] (h : Complete archive)
    (options : Options)
    : Complete { archive with npmSnapshot := archive.npmSnapshot.map Snapshot.sorted, options } where
  ready := h.ready
  snapshot := by
    intro s hs
    obtain ⟨s, hsnapshot, rfl⟩ := Option.map_eq_some_iff.mp hs
    obtain ⟨hne, hvalid⟩ := h.snapshot s hsnapshot
    exact ⟨Snapshot.sorted_packages_ne_nil hne, hvalid.sorted⟩

section RoundTrips

variable [DecidableEq Id] [LE Id] [DecidableLE Id] [DecidableEq Req] [LE Req] [DecidableLE Req]

def RoundTrips (hashes : Hashes) (npm : NpmTexts Id Req) (archive : EszipV2 Id Req) : Prop :=
  ∃ bytes parsed future modules,
    intoBytes hashes npm archive = .ok bytes ∧
    parse hashes npm bytes = .ok (parsed, future) ∧
    future.run hashes parsed = .ok (modules, []) ∧
    modules = archive.modules ∧
    Option.Rel SameSnapshot archive.npmSnapshot parsed.npmSnapshot ∧
    parsed.options.checksum = archive.options.checksum

structure Start (archive : EszipV2 Id Req) : Prop extends Complete archive where
  options : archive.options = .defaultForVersion .latestVersion

inductive Reached (hashes : Hashes) (npm : NpmTexts Id Req) : EszipV2 Id Req → Prop where
  | start {archive : EszipV2 Id Req} (h : Start archive) : Reached hashes npm archive
  | addToFront {archive : EszipV2 Id Req} (h : Reached hashes npm archive) (kind : ModuleKind) (specifier : Str)
      (data sourceMap : Bytes)
      : Reached hashes npm (archive.addToFront kind specifier data sourceMap)
  | addImportMap {archive : EszipV2 Id Req} (h : Reached hashes npm archive) (kind : ModuleKind) (specifier : Str)
      (source : Bytes)
      : Reached hashes npm (archive.addImportMap kind specifier source)
  | addOpaqueData {archive : EszipV2 Id Req} (h : Reached hashes npm archive) (specifier : Str) (data : Bytes)
      : Reached hashes npm (archive.addOpaqueData specifier data)
  | setChecksum {archive : EszipV2 Id Req} (h : Reached hashes npm archive) (checksum : Checksum)
      : Reached hashes npm (archive.setChecksum checksum)
  | reparse {archive archive' : EszipV2 Id Req} {bytes rest : Bytes} (h : Reached hashes npm archive)
      (hfits : Fits hashes npm archive) (hbytes : intoBytes hashes npm archive = .ok bytes)
      (hload : load hashes npm bytes = .ok (archive', rest))
      : Reached hashes npm archive'

def Options.SizeAgrees (options : Options) : Prop :=
  options.getChecksumSize = options.checksum.map Checksum.digestSize

variable {hashes : Hashes} {npm : NpmTexts Id Req} {archive : EszipV2 Id Req} {checksum : Checksum}

theorem getChecksumSize_of_checksum {options : Options} (h : options.checksum = some checksum)
    : ∃ size, options.getChecksumSize = some size := by
  rw [Options.getChecksumSize, h]
  cases options.checksumSize with
  | none | some size => exact ⟨_, rfl⟩

section

variable (h : Complete archive) (hfits : Fits hashes npm archive)
  (hchecksum : archive.options.checksum = some checksum)

include h hfits hchecksum

theorem Complete.load_intoBytes (hagrees : archive.options.SizeAgrees)
    : ∃ bytes parsed future,
      Eszip.intoBytes hashes npm archive = .ok bytes ∧
      parse hashes npm bytes = .ok (parsed, future) ∧
      future.run hashes parsed = .ok (archive.modules, []) ∧
      parsed.npmSnapshot = archive.npmSnapshot.map Snapshot.sorted ∧ parsed.options = .of checksum := by
  rw [Options.SizeAgrees, hchecksum, Option.map_some] at hagrees
  obtain ⟨modules, hparse, hmodules⟩ := h.parse_assemble hfits hchecksum
  refine ⟨_, _, _, h.intoBytes hfits hchecksum hagrees, hparse, ?_, rfl, rfl⟩
  exact h.run_dataBytes hfits hchecksum rfl hmodules

theorem Complete.parse_ne_ok (hagrees : ¬archive.options.SizeAgrees) {bytes : Bytes}
    (hbytes : Eszip.intoBytes hashes npm archive = .ok bytes) (r : EszipV2 Id Req × DataFuture)
    : parse hashes npm bytes ≠ .ok r := by
  obtain ⟨size, hsize⟩ := getChecksumSize_of_checksum hchecksum
  rw [Options.SizeAgrees, hchecksum, hsize, Option.map_some, Option.some.injEq] at hagrees
  rw [h.intoBytes hfits hchecksum hsize, Except.ok.injEq] at hbytes
  rw [← hbytes]
  exact parse_assemble_ne_ok hagrees hashes npm _ r

end

theorem Reached.complete (h : Reached hashes npm archive)
    : Complete archive ∧ ∃ checksum, archive.options.checksum = some checksum := by
  induction h with
  | start h => exact ⟨h.toComplete, .noChecksum, by rw [h.options]; rfl⟩
  | addToFront _ kind specifier data sourceMap ih => exact ⟨ih.1.addToFront kind specifier data sourceMap, ih.2⟩
  | addImportMap _ kind specifier source ih => exact ⟨ih.1.addToFront kind specifier source [], ih.2⟩
  | addOpaqueData _ specifier data ih => exact ⟨ih.1.addOpaqueData specifier data, ih.2⟩
  | setChecksum _ checksum ih => exact ⟨⟨ih.1.ready, ih.1.snapshot⟩, checksum, rfl⟩
  | @reparse archive archive' bytes rest _ hfits hbytes hload ih =>
    obtain ⟨hcomplete, checksum, hchecksum⟩ := ih
    obtain ⟨⟨parsed, future⟩, hparse, hload⟩ := bind_eq_ok.mp hload
    by_cases hagrees : archive.options.SizeAgrees
    . obtain ⟨bytes', parsed', future', hbytes', hparse', hrun', hsnapshot, hoptions⟩ :=
        hcomplete.load_intoBytes hfits hchecksum hagrees
      rw [hbytes] at hbytes'
      cases hbytes'
      rw [hparse] at hparse'
      cases hparse'
      obtain ⟨⟨modules, rest'⟩, hrun, hload⟩ := bind_eq_ok.mp hload
      rw [hrun'] at hrun
      cases hrun
      cases hload
      rw [hsnapshot, hoptions]
      exact ⟨hcomplete.sorted _, checksum, rfl⟩
    . exact absurd hparse (hcomplete.parse_ne_ok hfits hchecksum hagrees hbytes _)

theorem roundTrips_iff_sizeAgrees (h : Reached hashes npm archive) (hfits : Fits hashes npm archive)
    : RoundTrips hashes npm archive ↔ archive.options.SizeAgrees := by
  obtain ⟨hcomplete, checksum, hchecksum⟩ := h.complete
  constructor
  . rintro ⟨bytes, parsed, future, modules, hbytes, hparse, _⟩
    by_contra hagrees
    exact hcomplete.parse_ne_ok hfits hchecksum hagrees hbytes _ hparse
  . intro hagrees
    obtain ⟨bytes, parsed, future, hbytes, hparse, hrun, hsnapshot, hoptions⟩ :=
      hcomplete.load_intoBytes hfits hchecksum hagrees
    refine ⟨bytes, parsed, future, archive.modules, hbytes, hparse, hrun, rfl, ?_, ?_⟩
    . rw [hsnapshot]
      cases archive.npmSnapshot with
      | none => exact .none
      | some s => exact .some (sameSnapshot_sorted s)
    . rw [hoptions, hchecksum]
      rfl

end RoundTrips

/-! A redirect and a package that requires itself, with a module and a checksum added -/

def redirectingArchive : EszipV2 Nat Nat where
  modules := empty.set ['r'] (.redirect ['m'])
  npmSnapshot := some {
    packages := [{ id := 1, dependencies := empty.set ['d'] 1 }]
    rootPackages := empty.set 2 1 }
  options := .defaultForVersion .latestVersion

def checksummedArchive : EszipV2 Nat Nat :=
  (redirectingArchive.addToFront .javaScript ['m'] [7, 8] [9]).setChecksum .xxHash3

theorem start_redirectingArchive : Start redirectingArchive where
  ready := by
    intro entry hmem name slot hslot
    cases List.mem_singleton.mp hmem
    cases hslot
  snapshot := by
    intro s hs
    cases hs
    refine ⟨by decide, ?_, ?_⟩
    . decide
    . decide
  options := rfl

theorem fits_checksummedArchive : Fits constantHashes unaryTexts checksummedArchive where
  data := by
    intro entry hmem name
    have hall : ∀ entry ∈ checksummedArchive.modules.entries,
        (entry.2.data .source).length < 2 ^ 32 ∧ (entry.2.data .sourceMap).length < 2 ^ 32 := by
      decide
    cases name with
    | source => exact (hall entry hmem).1
    | sourceMap => exact (hall entry hmem).2
  sections := by
    intro checksum s hchecksum hsections
    cases hchecksum
    have hall : ∀ s ∈ (writeSections constantHashes unaryTexts .xxHash3 checksummedArchive).toOption,
        s.modulesHeader.length < 2 ^ 32 ∧ s.npmBytes.length < 2 ^ 32 ∧ s.sources.length < 2 ^ 32 ∧
          s.sourceMaps.length < 2 ^ 32 := by
      decide +kernel
    exact hall s (by rw [hsections]; rfl)

theorem checksummedArchive_roundTrips
    : Reached constantHashes unaryTexts checksummedArchive ∧ checksummedArchive.options.SizeAgrees ∧
      RoundTrips constantHashes unaryTexts checksummedArchive := by
  have hreached : Reached constantHashes unaryTexts checksummedArchive :=
    .setChecksum (.addToFront (.start start_redirectingArchive) .javaScript ['m'] [7, 8] [9]) .xxHash3
  exact ⟨hreached, rfl, (roundTrips_iff_sizeAgrees hreached fits_checksummedArchive).mpr rfl⟩

/-! The empty archive read back, which keeps the size of no checksum, and then a checksum -/

def rereadArchive : EszipV2 Nat Nat where
  modules := .empty
  npmSnapshot := none
  options := .of .noChecksum

theorem fits_of_empty {archive : EszipV2 Nat Nat} (hmodules : archive.modules = .empty)
    (hsnapshot : archive.npmSnapshot = none)
    : Fits constantHashes unaryTexts archive where
  data := by
    intro entry hmem
    rw [hmodules] at hmem
    cases hmem
  sections := by
    intro checksum s _ hsections
    rw [writeSections, hmodules, hsnapshot] at hsections
    cases hsections
    decide

theorem rereadArchive_not_roundTrips
    : Reached constantHashes unaryTexts (rereadArchive.setChecksum .sha256) ∧
      Fits constantHashes unaryTexts (rereadArchive.setChecksum .sha256) ∧
      ¬RoundTrips constantHashes unaryTexts (rereadArchive.setChecksum .sha256) := by
  have hstart : Start (EszipV2.empty : EszipV2 Nat Nat) := by
    refine ⟨⟨?_, ?_⟩, rfl⟩
    . intro entry hmem
      cases hmem
    . intro s hs
      cases hs
  have hbytes : intoBytes constantHashes unaryTexts (EszipV2.empty : EszipV2 Nat Nat)
      = .ok (assemble constantHashes .noChecksum 0
          { modulesHeader := [], npmBytes := [], sources := [], sourceMaps := [] }) := rfl
  have hload : load constantHashes unaryTexts (assemble constantHashes .noChecksum 0
      { modulesHeader := [], npmBytes := [], sources := [], sourceMaps := [] }) = .ok (rereadArchive, []) := by
    decide +kernel
  have hreached : Reached constantHashes unaryTexts (rereadArchive.setChecksum .sha256) :=
    .setChecksum (.reparse (.start hstart) (fits_of_empty rfl rfl) hbytes hload) .sha256
  have hfits : Fits constantHashes unaryTexts (rereadArchive.setChecksum .sha256) := fits_of_empty rfl rfl
  refine ⟨hreached, hfits, ?_⟩
  rintro ⟨bytes, parsed, future, modules, hbytes, hparse, _⟩
  have hagrees : ¬(rereadArchive.setChecksum .sha256).options.SizeAgrees := by
    intro h
    cases h
  exact hreached.complete.1.parse_ne_ok hfits rfl hagrees hbytes _ hparse

end Deno.Eszip
