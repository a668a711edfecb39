import AppSuite.Data.ExceptFold
import AppSuite.Deno.Eszip.Write

/-!
This module contains the npm snapshot of an archive, written and read back.
-/

namespace Deno.Eszip

open List Snapshot ByteReader

open ByteReader (toBe32)
open ExceptFold (mapM_eq_ok foldlM_eq_ok)

variable {Id Req : Type}

def Snapshot.ids (s : Snapshot Id Req) : List Id := s.packages.map SnapshotPackage.id

structure Snapshot.Valid (s : Snapshot Id Req) : Prop where
  dependency : ∀ pkg ∈ s.packages, ∀ dep ∈ pkg.dependencies.entries, dep.2 ∈ s.ids
  root : ∀ root ∈ s.rootPackages.entries, root.2 ∈ s.ids

section Index

variable [DecidableEq Id]

def Snapshot.index (s : Snapshot Id Req) (id : Id) : Nat := ((eszipIds s.packages).get? id).getD 0

variable {s : Snapshot Id Req} {id : Id}

theorem Snapshot.get?_eszipIds (h : id ∈ s.ids) : (eszipIds s.packages).get? id = some (s.index id) := by
  have hkey : id ∈ (eszipIds s.packages).keys := by
    rw [eszipIds, OrderedMap.mem_keys_extend, map_map]
    right
    obtain ⟨pkg, hpkg, rfl⟩ := mem_map.mp h
    obtain ⟨i, hi⟩ := mem_iff_getElem?.mp hpkg
    exact mem_map.mpr ⟨(pkg, i), mk_mem_zipIdx_iff_getElem?.mpr hi, rfl⟩
  obtain ⟨⟨id', i⟩, hentry, rfl⟩ := mem_map.mp hkey
  rw [← OrderedMap.get?_eq_some_iff] at hentry
  rw [index, hentry]
  rfl

theorem Snapshot.getElem?_index (h : id ∈ s.ids) : s.ids[s.index id]? = some id := by
  have hget := get?_eszipIds h
  cases OrderedMap.mem_of_get?_extend hget with
  | inr hnone => cases hnone
  | inl hmem =>
    obtain ⟨⟨pkg, i⟩, hpkg, heq⟩ := mem_map.mp hmem
    obtain ⟨rfl, rfl⟩ := Prod.mk.inj heq
    rw [mk_mem_zipIdx_iff_getElem?] at hpkg
    rw [ids, getElem?_map, hpkg]
    rfl

theorem Snapshot.index_lt (h : id ∈ s.ids) : s.index id < s.packages.length := by
  obtain ⟨hlt, _⟩ := List.getElem?_eq_some_iff.mp (getElem?_index h)
  rw [ids, length_map] at hlt
  exact hlt

theorem Snapshot.writeIndex_of_mem (h : id ∈ s.ids)
    : writeIndex (eszipIds s.packages) id = .ok (toBe32 (s.index id)) := by
  rw [writeIndex, get?_eszipIds h]

end Index

section Written

variable [DecidableEq Id] (s : Snapshot Id Req)

def Snapshot.dependencyBytes (dep : Str × Id) : Bytes :=
  appendString dep.1 ++ toBe32 (s.index dep.2)

variable (npm : NpmTexts Id Req)

def Snapshot.packageBytes (pkg : SnapshotPackage Id) : Bytes :=
  appendString (npm.asSerialized pkg.id)
    ++ (toBe32 pkg.dependencies.entries.length ++ pkg.dependencies.entries.flatMap s.dependencyBytes)

def Snapshot.npmBytes : Bytes :=
  s.packages.flatMap (s.packageBytes npm)

def Snapshot.rootEntries : List HeaderEntry :=
  s.rootPackages.entries.map fun root => .npm (npm.reqToString root.1) (s.index root.2)

variable {s : Snapshot Id Req}

theorem Snapshot.Valid.writePackage (h : s.Valid) {pkg : SnapshotPackage Id} (hpkg : pkg ∈ s.packages)
    : writePackage npm (eszipIds s.packages) pkg = .ok (s.packageBytes npm pkg) := by
  have hdeps : pkg.dependencies.entries.mapM (writeDependency (eszipIds s.packages))
      = .ok (pkg.dependencies.entries.map s.dependencyBytes) := by
    apply mapM_eq_ok
    intro dep hdep
    rw [writeDependency, writeIndex_of_mem (h.dependency pkg hpkg dep hdep)]
    rfl
  rw [Eszip.writePackage, hdeps, ok_bind, ← flatMap_def, append_assoc]
  rfl

theorem Snapshot.Valid.writeRoots (h : s.Valid)
    : s.rootPackages.entries.mapM (writeRoot npm (eszipIds s.packages))
      = .ok ((s.rootEntries npm).map HeaderEntry.bytes) := by
  rw [rootEntries, map_map]
  apply mapM_eq_ok
  intro root hroot
  rw [writeRoot, writeIndex_of_mem (h.root root hroot), ok_bind, append_assoc]
  rfl

variable [LE Id] [DecidableLE Id] [LE Req] [DecidableLE Req]

theorem writeSnapshot_some {s : Snapshot Id Req} (h : s.sorted.Valid)
    : writeSnapshot npm (some s)
      = .ok ((s.sorted.rootEntries npm).flatMap HeaderEntry.bytes, s.sorted.npmBytes npm) := by
  have hpackages : s.sorted.packages.mapM (writePackage npm (eszipIds s.sorted.packages))
      = .ok (s.sorted.packages.map (s.sorted.packageBytes npm)) :=
    mapM_eq_ok fun pkg hpkg => h.writePackage npm hpkg
  rw [writeSnapshot, h.writeRoots npm, ok_bind, hpackages, ok_bind, ← flatMap_def, ← flatMap_def]
  rfl

end Written

theorem length_le_flatMap {α : Type} {xs : List α} {x : α} (h : x ∈ xs) (f : α → Bytes)
    : (f x).length ≤ (xs.flatMap f).length := by
  exact (sublist_flatten_of_mem (mem_map_of_mem h)).length_le

theorem length_le_length_flatMap {α : Type} {xs : List α} {f : α → Bytes} (h : ∀ x ∈ xs, 1 ≤ (f x).length)
    : xs.length ≤ (xs.flatMap f).length := by
  rw [length_flatMap]
  have := length_le_sum_of_one_le (xs.map fun x => (f x).length) (by simpa using h)
  rwa [length_map] at this

section Parsing

theorem ok_bind_io {α β : Type} (a : α) (f : α → Except IoError β) : (Except.ok a >>= f) = f a := rfl

variable {n : Nat}

theorem parseU32_append (h : n < 2 ^ 32) (rest : Bytes) : parseU32 (toBe32 n ++ rest) = .ok (rest, n) := by
  rw [parseU32, moveBytes, take?_append (length_toBe32 n)]
  dsimp only
  rw [ok_bind_io]
  rw [fromBe_toBe32 h]
  rfl

theorem parseString_append {s : Str} (h : FitsU32 s) (rest : Bytes)
    : parseString (appendString s ++ rest) = .ok (rest, s) := by
  rw [parseString, appendString, append_assoc, parseU32_append h, ok_bind_io]
  dsimp only
  rw [moveBytes, take?_append rfl]
  rw [ok_bind_io]
  rw [Text.decode?_encode]
  rfl

theorem fitsU32_of_length_le {s : Str} (h : (appendString s).length ≤ n) (hn : n < 2 ^ 32) : FitsU32 s := by
  rw [appendString, length_append, length_toBe32] at h
  unfold FitsU32
  omega

variable [DecidableEq Id] {s : Snapshot Id Req}

def Snapshot.indexed (s : Snapshot Id Req) (dep : Str × Id) : Str × Nat := (dep.1, s.index dep.2)

theorem parseDependencies_append {deps : List (Str × Id)} (hlen : (deps.flatMap s.dependencyBytes).length < 2 ^ 32)
    (hindex : ∀ dep ∈ deps, s.index dep.2 < 2 ^ 32) (rest : Bytes) (parsed : OrderedMap Str Nat)
    : parseDependencies deps.length (deps.flatMap s.dependencyBytes ++ rest) parsed
      = .ok (rest, parsed.extend (deps.map s.indexed)) := by
  induction deps generalizing parsed with
  | nil => rfl
  | cons dep deps ih =>
    rw [flatMap_cons, length_append] at hlen
    rw [forall_mem_cons] at hindex
    have hname : FitsU32 dep.1 := by
      apply fitsU32_of_length_le (Nat.le_refl _)
      rw [dependencyBytes, length_append] at hlen
      omega
    rw [length_cons, parseDependencies, parseDependency, flatMap_cons, dependencyBytes,
      append_assoc, append_assoc, parseString_append hname, ok_bind_io]
    dsimp only
    rw [parseU32_append hindex.1, ok_bind_io]
    exact ih (by omega) hindex.2 (parsed.set dep.1 (s.index dep.2))

variable (npm : NpmTexts Id Req)

section

variable (s : Snapshot Id Req) (pkg : SnapshotPackage Id)

def Snapshot.npmModule : EszipNpmModule where
  name := npm.asSerialized pkg.id
  dependencies := OrderedMap.empty.extend (pkg.dependencies.entries.map s.indexed)

theorem length_dependencyBytes_pos (dep : Str × Id) : 1 ≤ (s.dependencyBytes dep).length := by
  rw [dependencyBytes, length_append, length_toBe32]
  omega

theorem length_packageBytes_pos : 1 ≤ (s.packageBytes npm pkg).length := by
  rw [packageBytes, appendString, length_append, length_append, length_toBe32]
  omega

end

theorem parse_packageBytes {pkg : SnapshotPackage Id} (hlen : (s.packageBytes npm pkg).length < 2 ^ 32)
    (hindex : ∀ dep ∈ pkg.dependencies.entries, s.index dep.2 < 2 ^ 32) (rest : Bytes)
    : EszipNpmModule.parse (s.packageBytes npm pkg ++ rest) = .ok (rest, s.npmModule npm pkg) := by
  rw [packageBytes, length_append, length_append] at hlen
  have hname : FitsU32 (npm.asSerialized pkg.id) := by
    apply fitsU32_of_length_le (Nat.le_refl _)
    omega
  have hcount : pkg.dependencies.entries.length < 2 ^ 32 := by
    have hle : pkg.dependencies.entries.length ≤ (pkg.dependencies.entries.flatMap s.dependencyBytes).length :=
      length_le_length_flatMap fun dep _ => length_dependencyBytes_pos s dep
    omega
  rw [EszipNpmModule.parse, packageBytes, append_assoc, append_assoc,
    parseString_append hname, ok_bind_io]
  dsimp only
  rw [parseU32_append hcount, ok_bind_io]
  rw [parseDependencies_append (by omega) hindex, ok_bind_io]
  rfl

theorem parseNpmModules_flatMap {packages : List (SnapshotPackage Id)}
    (hlen : (packages.flatMap (s.packageBytes npm)).length < 2 ^ 32)
    (hindex : ∀ pkg ∈ packages, ∀ dep ∈ pkg.dependencies.entries, s.index dep.2 < 2 ^ 32) {fuel : Nat}
    (hfuel : (packages.flatMap (s.packageBytes npm)).length ≤ fuel) (read : Nat)
    : parseNpmModules fuel read (packages.flatMap (s.packageBytes npm)) = .ok (packages.map (s.npmModule npm)) := by
  induction packages generalizing fuel read with
  | nil =>
    cases fuel with
    | zero | succ fuel => rfl
  | cons pkg packages ih =>
    rw [flatMap_cons, length_append] at hlen hfuel
    rw [forall_mem_cons] at hindex
    have hpos := length_packageBytes_pos npm s pkg
    have hparse := parse_packageBytes npm (by omega) hindex.1 (packages.flatMap (s.packageBytes npm))
    rw [flatMap_cons]
    generalize hbytes : s.packageBytes npm pkg ++ packages.flatMap (s.packageBytes npm) = bytes at hparse ⊢
    cases bytes with
    | nil =>
      rw [append_eq_nil_iff] at hbytes
      rw [hbytes.1] at hpos
      cases hpos
    | cons byte bytes =>
      cases fuel with
      | zero => omega
      | succ fuel =>
        rw [parseNpmModules, hparse]
        dsimp only
        rw [ih (by omega) hindex.2 (by omega), ok_bind]
        rfl

end Parsing

theorem readNpmSection_none [DecidableEq Req] (hashes : Hashes) (checksum : Checksum) (npm : NpmTexts Id Req)
    (npmSpecifiers : OrderedMap Str Nat) (rest : Bytes)
    : readNpmSection hashes npm (.of checksum) npmSpecifiers (sealed hashes checksum [] ++ rest)
      = .ok (none, rest) := by
  rw [readNpmSection, Section.read_sealed hashes checksum (by decide), ok_bind]
  dsimp only
  rw [if_pos ((Section.isChecksumValid_iff rfl).mpr rfl), if_pos rfl]
  rfl

section Resolving

variable [DecidableEq Id] {s : Snapshot Id Req} (npm : NpmTexts Id Req)

theorem entries_npmModule (s : Snapshot Id Req) (pkg : SnapshotPackage Id)
    : (s.npmModule npm pkg).dependencies.entries = pkg.dependencies.entries.map s.indexed := by
  apply OrderedMap.entries_extend_empty
  rw [map_map]
  exact pkg.dependencies.nodup

theorem Snapshot.Valid.finalPackage (h : s.Valid) {pkg : SnapshotPackage Id}
    (hpkg : s.packages[i]? = some pkg) : finalPackage s.ids (s.npmModule npm pkg, i) = .ok pkg := by
  have hid : s.ids[i]? = some pkg.id := by
    rw [ids, getElem?_map, hpkg]
    rfl
  have hdeps : (s.npmModule npm pkg).dependencies.entries.foldlM
      (resolveDependency s.ids (s.npmModule npm pkg).name) .empty = .ok pkg.dependencies := by
    rw [entries_npmModule, foldlM_map]
    conv => rhs; rw [← pkg.dependencies.extend_entries_empty]
    apply foldlM_eq_ok
    intro deps dep hdep
    have hmem := h.dependency pkg (mem_of_getElem? hpkg) dep hdep
    rw [resolveDependency, indexed, getElem?_index hmem]
  rw [Eszip.finalPackage]
  dsimp only
  rw [hid]
  dsimp only
  rw [hdeps, ok_bind]
  rfl

variable [DecidableEq Req] {npmSpecifiers : OrderedMap Str Nat}

theorem Snapshot.Valid.resolveSnapshot (h : s.Valid)
    (hspecifiers : npmSpecifiers.entries = s.rootPackages.entries.map fun root => (npm.reqToString root.1, s.index root.2))
    : resolveSnapshot npm (s.packages.map (s.npmModule npm)) npmSpecifiers = .ok s := by
  have hids : (s.packages.map (s.npmModule npm)).mapM (packageId npm) = .ok s.ids := by
    rw [mapM_map]
    apply mapM_eq_ok
    intro pkg _
    rw [Function.comp_apply, packageId, npmModule]
    dsimp only
    rw [npm.fromSerialized_asSerialized]
  have hpackages : (s.packages.map (s.npmModule npm)).zipIdx.mapM (Eszip.finalPackage s.ids) = .ok s.packages := by
    rw [zipIdx_map, mapM_map]
    conv => rhs; rw [← zipIdx_map_fst 0 s.packages]
    apply mapM_eq_ok
    rintro ⟨pkg, i⟩ hmem
    exact h.finalPackage npm (mk_mem_zipIdx_iff_getElem?.mp hmem)
  have hroots : npmSpecifiers.entries.foldlM (resolveRoot npm s.ids) .empty = .ok s.rootPackages := by
    rw [hspecifiers, foldlM_map]
    conv => rhs; rw [← s.rootPackages.extend_entries_empty]
    apply foldlM_eq_ok
    intro roots root hroot
    rw [resolveRoot, getElem?_index (h.root root hroot)]
    dsimp only
    rw [npm.reqFromStr_reqToString]
  rw [Eszip.resolveSnapshot, hids, ok_bind, hpackages, ok_bind, hroots, ok_bind]
  rfl

theorem readNpmSection_some (hashes : Hashes) (checksum : Checksum) (npm : NpmTexts Id Req) (h : s.Valid)
    (hne : s.packages ≠ []) (hlen : (s.npmBytes npm).length < 2 ^ 32)
    (hspecifiers : npmSpecifiers.entries = s.rootPackages.entries.map fun root => (npm.reqToString root.1, s.index root.2))
    (rest : Bytes)
    : readNpmSection hashes npm (.of checksum) npmSpecifiers (sealed hashes checksum (s.npmBytes npm) ++ rest)
      = .ok (some s, rest) := by
  have hcount : s.packages.length ≤ (s.npmBytes npm).length :=
    length_le_length_flatMap fun pkg _ => length_packageBytes_pos npm s pkg
  have hindex : ∀ pkg ∈ s.packages, ∀ dep ∈ pkg.dependencies.entries, s.index dep.2 < 2 ^ 32 := by
    intro pkg hpkg dep hdep
    have := index_lt (h.dependency pkg hpkg dep hdep)
    omega
  have hcontent : s.npmBytes npm ≠ [] := by
    rw [← length_pos_iff] at hne ⊢
    omega
  rw [readNpmSection, Section.read_sealed hashes checksum hlen, ok_bind]
  dsimp only
  rw [if_pos ((Section.isChecksumValid_iff rfl).mpr rfl), if_neg hcontent,
    npmBytes, parseNpmModules_flatMap npm hlen hindex (Nat.le_refl _), ok_bind,
    h.resolveSnapshot npm hspecifiers, ok_bind]
  rfl

end Resolving

end Deno.Eszip
