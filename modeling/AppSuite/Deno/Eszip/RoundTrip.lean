import AppSuite.Deno.Eszip.Layout

/-!
This module contains the round trip of an archive through its own bytes.
-/

namespace Deno.Eszip

open List OrderedMap HeaderEntry Snapshot

open ByteReader (toBe32)
open ExceptFold (bind_eq_ok)

variable {Id Req : Type}

theorem foldl_insert_module {header : Header} {entries : List (Str × EszipV2Module)}
    (h : ((header.modules.entries ++ entries).map Prod.fst).Nodup)
    : (entries.map headerEntry).foldl insert header
        = { header with modules := header.modules.extend entries } := by
  induction entries generalizing header with
  | nil => rfl
  | cons entry entries ih =>
    have hnot : entry.1 ∉ header.modules.keys := by
      rw [map_append, map_cons] at h
      intro hmem
      exact disjoint_of_nodup_append h hmem mem_cons_self
    have hset : (header.modules.set entry.1 entry.2).entries = header.modules.entries ++ [entry] :=
      setEntry_of_not_mem entry.2 hnot
    have hinsert : insert header (headerEntry entry)
        = { header with modules := header.modules.set entry.1 entry.2 } := by
      rw [headerEntry, HeaderEntry.insert, Header.insertModule, pushBack_of_not_mem hnot]
    rw [map_cons, foldl_cons, hinsert, ih]
    . rfl
    . rw [hset, List.append_assoc, singleton_append]
      exact h

theorem foldl_insert_npm {α : Type} (f : α → Str × Nat) (roots : List α) (header : Header)
    : (roots.map fun root => npm (f root).1 (f root).2).foldl insert header
        = { header with npmSpecifiers := header.npmSpecifiers.extend (roots.map f) } := by
  induction roots generalizing header with
  | nil => rfl
  | cons root roots ih =>
    rw [map_cons, foldl_cons, ih]
    rfl

structure Complete (archive : EszipV2 Id Req) : Prop where
  ready : ∀ entry ∈ archive.modules.entries, entry.2.Ready
  snapshot : ∀ s, archive.npmSnapshot = some s → s.packages ≠ [] ∧ s.Valid

section Writing

variable [LE Id] [DecidableLE Id] [LE Req] [DecidableLE Req] {s : Snapshot Id Req}

theorem Snapshot.mem_ids_sorted {id : Id} : id ∈ s.sorted.ids ↔ id ∈ s.ids := by
  have hids : s.sorted.ids = (s.packages.insertionSort fun a b => a.id ≤ b.id).map SnapshotPackage.id := by
    rw [ids, sorted, map_map]
    rfl
  rw [hids, ids]
  exact ((perm_insertionSort _ s.packages).map _).mem_iff

theorem Snapshot.Valid.sorted (h : s.Valid) : s.sorted.Valid where
  dependency := by
    intro pkg hpkg dep hdep
    obtain ⟨pkg, hmem, rfl⟩ := mem_map.mp hpkg
    rw [mem_ids_sorted]
    apply h.dependency pkg ((perm_insertionSort _ s.packages).mem_iff.mp hmem)
    exact (perm_sortKeys pkg.dependencies _).mem_iff.mp hdep
  root := by
    intro root hroot
    rw [mem_ids_sorted]
    exact h.root root ((perm_sortKeys s.rootPackages _).mem_iff.mp hroot)

theorem Snapshot.sorted_packages_ne_nil (h : s.packages ≠ []) : s.sorted.packages ≠ [] := by
  rw [← length_pos_iff] at h ⊢
  rw [sorted, length_map, (perm_insertionSort _ s.packages).length_eq]
  exact h

variable [DecidableEq Id]

structure Fits (hashes : Hashes) (npm : NpmTexts Id Req) (archive : EszipV2 Id Req) : Prop where
  data : ∀ entry ∈ archive.modules.entries, ∀ name, (entry.2.data name).length < 2 ^ 32
  sections : ∀ checksum s, archive.options.checksum = some checksum →
    writeSections hashes npm checksum archive = .ok s →
    s.modulesHeader.length < 2 ^ 32 ∧ s.npmBytes.length < 2 ^ 32 ∧ s.sources.length < 2 ^ 32 ∧
      s.sourceMaps.length < 2 ^ 32

def npmEntries (npm : NpmTexts Id Req) (snapshot : Option (Snapshot Id Req)) : List HeaderEntry :=
  match snapshot with
  | none => []
  | some s => s.sorted.rootEntries npm

def npmBytes (npm : NpmTexts Id Req) (snapshot : Option (Snapshot Id Req)) : Bytes :=
  match snapshot with
  | none => []
  | some s => s.sorted.npmBytes npm

variable {archive : EszipV2 Id Req}

theorem Complete.writeSnapshot (h : Complete archive) (npm : NpmTexts Id Req)
    : writeSnapshot npm archive.npmSnapshot
      = .ok ((npmEntries npm archive.npmSnapshot).flatMap bytes, npmBytes npm archive.npmSnapshot) := by
  cases hsnapshot : archive.npmSnapshot with
  | none => rfl
  | some s => exact writeSnapshot_some npm (h.snapshot s hsnapshot).2.sorted

section

variable (hashes : Hashes) (npm : NpmTexts Id Req) (checksum : Checksum) (archive : EszipV2 Id Req)

def headerEntries : List HeaderEntry :=
  (listed hashes checksum 0 0 archive.modules.entries).map headerEntry ++ npmEntries npm archive.npmSnapshot

def layout : Sections where
  modulesHeader := (headerEntries hashes npm checksum archive).flatMap bytes
  npmBytes := npmBytes npm archive.npmSnapshot
  sources := dataBlocks hashes checksum .source archive.modules.entries
  sourceMaps := dataBlocks hashes checksum .sourceMap archive.modules.entries

end

theorem Complete.writeSections (h : Complete archive) {hashes : Hashes} {npm : NpmTexts Id Req}
    (hfits : Fits hashes npm archive) (checksum : Checksum)
    : writeSections hashes npm checksum archive = .ok (layout hashes npm checksum archive) := by
  rw [Eszip.writeSections, foldlM_writeModule h.ready hfits.data, ok_bind, h.writeSnapshot npm, ok_bind]
  dsimp only
  rw [layout, headerEntries, flatMap_append]
  rfl

end Writing

theorem readOptions_sealed (hashes : Hashes) (checksum : Checksum) (rest : Bytes)
    : readOptions hashes .v2_3 (sealed hashes checksum (optionsHeader checksum checksum.digestSize) ++ rest)
      = .ok (.of checksum, rest) := by
  have h := readOptionsHeader_sealed hashes checksum checksum.digestSize (.defaultForVersion .v2_3) rest
  exact h.trans (checkOptionsHeader_of hashes checksum _ rest)

def Sections.dataBytes (s : Sections) : Bytes :=
  toBe32 s.sources.length ++ (s.sources ++ (toBe32 s.sourceMaps.length ++ s.sourceMaps))

theorem parse_assemble [DecidableEq Req] (hashes : Hashes) (npm : NpmTexts Id Req) (checksum : Checksum) (size : UInt8) (s : Sections)
    : parse hashes npm (assemble hashes checksum size s)
      = parseWithVersion hashes npm .v2_3 (sealed hashes checksum (optionsHeader checksum size)
          ++ (sealed hashes checksum s.modulesHeader ++ (sealed hashes checksum s.npmBytes ++ s.dataBytes))) := by
  have hlen : EszipVersion.latestVersion.toMagic.length = 8 := rfl
  have hread := readExact_append hlen
    (sealed hashes checksum (optionsHeader checksum size)
      ++ (sealed hashes checksum s.modulesHeader ++ (sealed hashes checksum s.npmBytes ++ s.dataBytes)))
  have hmagic : EszipVersion.fromMagic EszipVersion.latestVersion.toMagic = some .v2_3 := by decide
  rw [Sections.dataBytes] at hread ⊢
  rw [parse, assemble, hread, ok_bind]
  dsimp only
  rw [hmagic]

section Reading

variable [DecidableEq Id] [LE Id] [DecidableLE Id] [LE Req] [DecidableLE Req]
  {hashes : Hashes} {npm : NpmTexts Id Req} {checksum : Checksum} {archive : EszipV2 Id Req}

section

variable (npm : NpmTexts Id Req) (snapshot : Option (Snapshot Id Req))

def specifiers : List (Str × Nat) :=
  match snapshot with
  | none => []
  | some s => s.sorted.rootPackages.entries.map fun root => (npm.reqToString root.1, s.sorted.index root.2)

theorem nodup_specifiers : ((specifiers npm snapshot).map Prod.fst).Nodup := by
  cases snapshot with
  | none => exact nodup_nil
  | some s =>
    have hinjective : Function.Injective npm.reqToString := by
      intro req req' heq
      have h := npm.reqFromStr_reqToString req
      rw [heq, npm.reqFromStr_reqToString] at h
      exact (Option.some.inj h).symm
    rw [specifiers, map_map]
    have hmap : s.sorted.rootPackages.entries.map (Prod.fst ∘ fun root => (npm.reqToString root.1, s.sorted.index root.2))
        = (s.sorted.rootPackages.entries.map Prod.fst).map npm.reqToString := by
      rw [map_map]
      rfl
    rw [hmap]
    exact s.sorted.rootPackages.nodup.map hinjective

end

theorem foldl_insert_headerEntries (hashes : Hashes) (npm : NpmTexts Id Req) (checksum : Checksum)
    (archive : EszipV2 Id Req)
    : ∃ header : Header,
      (headerEntries hashes npm checksum archive).foldl insert .empty = header ∧
      header.modules.entries = listed hashes checksum 0 0 archive.modules.entries ∧
      header.npmSpecifiers.entries = specifiers npm archive.npmSnapshot := by
  have hnodup : ((listed hashes checksum 0 0 archive.modules.entries).map Prod.fst).Nodup := by
    rw [listed, map_fst_listSlots, map_fst_listSlots]
    exact archive.modules.nodup
  have hspecifiers (header : Header) : (npmEntries npm archive.npmSnapshot).foldl insert header
      = { header with npmSpecifiers := header.npmSpecifiers.extend (specifiers npm archive.npmSnapshot) } := by
    cases archive.npmSnapshot with
    | none => rfl
    | some s =>
      exact foldl_insert_npm (fun root => (npm.reqToString root.1, s.sorted.index root.2))
        s.sorted.rootPackages.entries header
  refine ⟨_, rfl, ?_, ?_⟩
  . rw [headerEntries, foldl_append, foldl_insert_module hnodup, hspecifiers]
    exact entries_extend_empty hnodup
  . rw [headerEntries, foldl_append, foldl_insert_module hnodup, hspecifiers]
    exact entries_extend_empty (nodup_specifiers npm archive.npmSnapshot)

section

variable (h : Complete archive) (hfits : Fits hashes npm archive)
  (hchecksum : archive.options.checksum = some checksum)

include h hfits hchecksum

theorem Complete.headerEntries_listed
    : ∀ entry ∈ headerEntries hashes npm checksum archive, entry.Listed := by
  obtain ⟨hheader, hnpm, hsources, hsourceMaps⟩ :=
    hfits.sections checksum _ hchecksum (h.writeSections hfits checksum)
  dsimp only [layout] at hheader hnpm hsources hsourceMaps
  intro entry hmem
  have hlen := length_le_flatMap hmem bytes
  cases mem_append.mp hmem with
  | inl hmem =>
    apply headerEntry_listed h.ready _ _ _ entry hmem
    . rw [headerEntries, flatMap_append, length_append] at hheader
      omega
    . omega
    . omega
  | inr hmem =>
    cases hsnapshot : archive.npmSnapshot with
    | none =>
      rw [hsnapshot] at hmem
      cases hmem
    | some s =>
      rw [hsnapshot] at hmem hnpm
      obtain ⟨root, hroot, rfl⟩ := mem_map.mp hmem
      have hvalid := (h.snapshot s hsnapshot).2.sorted
      have hindex := index_lt (hvalid.root root hroot)
      have hcount : s.sorted.packages.length ≤ (s.sorted.npmBytes npm).length :=
        length_le_length_flatMap fun pkg _ => length_packageBytes_pos npm s.sorted pkg
      rw [bytes, length_append] at hlen
      rw [npmBytes] at hnpm
      exact ⟨fitsU32_of_length_le (Nat.le_refl _) (by omega), by omega⟩

theorem Complete.run_dataBytes
    (hoptions : parsed.options = .of checksum)
    (hmodules : parsed.modules.entries = listed hashes checksum 0 0 archive.modules.entries)
    : DataFuture.run hashes parsed
        { sourceOffsets := collectOffsets .source parsed.modules
          sourceMapOffsets := collectOffsets .sourceMap parsed.modules
          reader := (layout hashes npm checksum archive).dataBytes }
        = .ok (archive.modules, []) := by
  obtain ⟨_, _, hsources, hsourceMaps⟩ :=
    hfits.sections checksum _ hchecksum (h.writeSections hfits checksum)
  have hne : SlotName.source ≠ .sourceMap := by decide
  have hoffsets : collectOffsets .sourceMap parsed.modules = empty.extend
      ((listSlots hashes checksum .sourceMap 0 archive.modules.entries).filterMap (pendingBlock .sourceMap)) := by
    rw [collectOffsets, pendingBlocks, hmodules, listed, filterMap_pendingBlock_listSlots_of_ne hne.symm]
  have hoffsets' : collectOffsets .source parsed.modules = empty.extend
      ((listSlots hashes checksum .source 0
        (listSlots hashes checksum .sourceMap 0 archive.modules.entries)).filterMap (pendingBlock .source)) := by
    rw [collectOffsets, pendingBlocks, hmodules, listed]
  obtain ⟨mid, hmid, hmidEntries⟩ := readSlots_listSlots
    (readyAt_listSlots hne fun entry hentry => h.ready entry hentry .source) hmodules hoffsets'
    (toBe32 (layout hashes npm checksum archive).sourceMaps.length ++ (layout hashes npm checksum archive).sourceMaps)
  obtain ⟨final, hfinal, hfinalEntries⟩ := readSlots_listSlots
    (fun entry hentry => h.ready entry hentry .sourceMap) hmidEntries hoffsets []
  rw [dataBlocks_listSlots_of_ne hne] at hmid
  rw [append_nil, ext_entries hfinalEntries] at hfinal
  apply bind_eq_ok.mpr
  refine ⟨_, readU32_append hsources _, bind_eq_ok.mpr ?_⟩
  rw [hoptions]
  refine ⟨_, hmid, bind_eq_ok.mpr ?_⟩
  exact ⟨_, readU32_append hsourceMaps _, hfinal⟩

theorem Complete.intoBytes {size : UInt8}
    (hsize : archive.options.getChecksumSize = some size)
    : intoBytes hashes npm archive = .ok (assemble hashes checksum size (layout hashes npm checksum archive)) := by
  rw [Eszip.intoBytes, hchecksum, hsize]
  dsimp only
  rw [h.writeSections hfits, ok_bind]
  rfl

end

variable [DecidableEq Req]

section

variable (h : Complete archive) (hfits : Fits hashes npm archive)
  (hchecksum : archive.options.checksum = some checksum)

include h hfits hchecksum

theorem Complete.readNpmSection
    (hspecifiers : npmSpecifiers.entries = specifiers npm archive.npmSnapshot) (rest : Bytes)
    : readNpmSection hashes npm (.of checksum) npmSpecifiers
      (sealed hashes checksum (npmBytes npm archive.npmSnapshot) ++ rest)
      = .ok (archive.npmSnapshot.map sorted, rest) := by
  have hnpm := (hfits.sections checksum _ hchecksum (h.writeSections hfits checksum)).2.1
  dsimp only [layout] at hnpm
  cases hsnapshot : archive.npmSnapshot with
  | none => exact readNpmSection_none hashes checksum npm npmSpecifiers rest
  | some s =>
    rw [hsnapshot] at hnpm hspecifiers
    obtain ⟨hne, hvalid⟩ := h.snapshot s hsnapshot
    exact readNpmSection_some hashes checksum npm hvalid.sorted (sorted_packages_ne_nil hne) hnpm
      hspecifiers rest

theorem Complete.parse_assemble
    : ∃ modules : EszipV2Modules,
        parse hashes npm (assemble hashes checksum checksum.digestSize (layout hashes npm checksum archive)) = .ok
          ({ modules, npmSnapshot := archive.npmSnapshot.map sorted, options := .of checksum },
            { sourceOffsets := collectOffsets .source modules
              sourceMapOffsets := collectOffsets .sourceMap modules
              reader := (layout hashes npm checksum archive).dataBytes }) ∧
        modules.entries = listed hashes checksum 0 0 archive.modules.entries := by
  have hlen := (hfits.sections checksum _ hchecksum (h.writeSections hfits checksum)).1
  obtain ⟨header, hinsert, hmodules, hspecifiers⟩ := foldl_insert_headerEntries hashes npm checksum archive
  refine ⟨header.modules, ?_, hmodules⟩
  have hheader := readHeader_sealed hashes checksum (h.headerEntries_listed hfits hchecksum) hlen
  rw [hinsert] at hheader
  rw [Eszip.parse_assemble]
  apply bind_eq_ok.mpr
  refine ⟨_, readOptions_sealed hashes checksum _, bind_eq_ok.mpr ?_⟩
  refine ⟨_, hheader _, bind_eq_ok.mpr ?_⟩
  exact ⟨_, h.readNpmSection hfits hchecksum hspecifiers _, rfl⟩

end

end Reading

variable {size : UInt8} {checksum : Checksum}

theorem ReadOf.not_isChecksumValid {s : Section}
    (h : ReadOf options len size s) (hchecksum : options.checksum = some checksum)
    (hne : size ≠ checksum.digestSize) (hashes : Hashes)
    : ¬s.isChecksumValid hashes = true := by
  rw [← h.options_eq] at hchecksum
  rw [Section.isChecksumValid_iff hchecksum]
  intro heq
  have hlen := checksum.length_hash hashes s.content
  rw [heq, h.length_checksumHash] at hlen
  exact hne (UInt8.toNat_inj.mp hlen)

theorem parse_assemble_ne_ok [DecidableEq Req] (h : size ≠ checksum.digestSize) (hashes : Hashes)
    (npm : NpmTexts Id Req) (s : Sections) (r : EszipV2 Id Req × DataFuture)
    : parse hashes npm (assemble hashes checksum size s) ≠ .ok r := by
  intro hparse
  rw [parse_assemble] at hparse
  obtain ⟨⟨options, reader⟩, hoptions, hparse⟩ := bind_eq_ok.mp hparse
  obtain ⟨⟨header, reader'⟩, hheader, _⟩ := bind_eq_ok.mp hparse
  have hcheck := (readOptionsHeader_sealed hashes checksum size (.defaultForVersion .v2_3) _).symm.trans hoptions
  unfold checkOptionsHeader at hcheck
  split at hcheck
  . cases hcheck
  . next size' hsize =>
    split at hcheck
    . obtain ⟨⟨content, reader''⟩, hread, hcheck⟩ := bind_eq_ok.mp hcheck
      have hcontent := (Section.readWithSize_yields rfl _ _).of_ok hread
      dsimp only at hcheck
      rw [if_neg (hcontent.not_isChecksumValid rfl h hashes)] at hcheck
      cases hcheck
    . cases hcheck
      obtain ⟨⟨content, reader''⟩, hread, hheader⟩ := bind_eq_ok.mp hheader
      obtain ⟨len, hcontent⟩ := (Section.read_yields rfl _).of_ok hread
      dsimp only at hheader
      rw [if_neg (hcontent.not_isChecksumValid rfl h hashes)] at hheader
      cases hheader

end Deno.Eszip
