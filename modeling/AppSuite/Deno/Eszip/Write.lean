import AppSuite.Deno.Eszip.Parse

/-!
This module contains the writer of eszip archives, `into_bytes`, the operations that build one, and how
the parts of an archive are read back.
-/

namespace Deno.Eszip

open ByteReader (toBe32)

variable {Id Req : Type}

def appendString (s : Str) : Bytes :=
  toBe32 (Text.encode s).length ++ Text.encode s

structure Written where
  header : Bytes
  sources : Bytes
  sourceMaps : Bytes

variable (hashes : Hashes) (checksum : Checksum)

def writeData (data written : Bytes) : Bytes × Bytes :=
  let length := data.length % 2 ^ 32
  if length > 0 then
    (toBe32 written.length ++ toBe32 length, written ++ data ++ checksum.hash hashes data)
  else
    (toBe32 0 ++ toBe32 0, written)

def EszipV2SourceSlot.bytes : EszipV2SourceSlot → Result Bytes
  | .ready bytes => .ok bytes
  | .pending _ _ | .taken => panic

def writeModule (w : Written) (entry : Str × EszipV2Module) : Result Written :=
  match entry.2 with
  | .module kind source sourceMap => do
    let sourceBytes ← source.bytes
    let (sourcePlace, sources) := writeData hashes checksum sourceBytes w.sources
    let sourceMapBytes ← sourceMap.bytes
    let (sourceMapPlace, sourceMaps) := writeData hashes checksum sourceMapBytes w.sourceMaps
    let header := w.header ++ (appendString entry.1 ++ [0] ++ sourcePlace ++ sourceMapPlace ++ [kind.toU8])
    return { header, sources, sourceMaps }
  | .redirect target =>
    .ok { w with header := w.header ++ (appendString entry.1 ++ [1] ++ appendString target) }

section Snapshot

variable [DecidableEq Id]

def eszipIds (packages : List (SnapshotPackage Id)) : OrderedMap Id Nat :=
  OrderedMap.empty.extend (packages.zipIdx.map fun (pkg, i) => (pkg.id, i))

def writeIndex (ids : OrderedMap Id Nat) (id : Id) : Result Bytes :=
  match ids.get? id with
  | some i => .ok (toBe32 i)
  | none => panic

variable (npm : NpmTexts Id Req) (ids : OrderedMap Id Nat)

def writeRoot (root : Req × Id) : Result Bytes := do
  let index ← writeIndex ids root.2
  return appendString (npm.reqToString root.1) ++ [2] ++ index

def writeDependency (dep : Str × Id) : Result Bytes := do
  let index ← writeIndex ids dep.2
  return appendString dep.1 ++ index

def writePackage (pkg : SnapshotPackage Id) : Result Bytes := do
  let deps ← pkg.dependencies.entries.mapM (writeDependency ids)
  return appendString (npm.asSerialized pkg.id) ++ toBe32 pkg.dependencies.entries.length ++ deps.flatten

variable [LE Id] [DecidableLE Id] [LE Req] [DecidableLE Req]

-- The order in which a snapshot is written; the keys of the maps differ, so that they alone decide it.
def Snapshot.sorted (s : Snapshot Id Req) : Snapshot Id Req where
  packages := (s.packages.insertionSort fun a b => a.id ≤ b.id).map fun pkg =>
    { pkg with dependencies := pkg.dependencies.sortKeys (· ≤ ·) }
  rootPackages := s.rootPackages.sortKeys (· ≤ ·)

def writeSnapshot : Option (Snapshot Id Req) → Result (Bytes × Bytes)
  | none => .ok ([], [])
  | some s => do
    let s := s.sorted
    let ids := eszipIds s.packages
    let roots ← s.rootPackages.entries.mapM (writeRoot npm ids)
    let packages ← s.packages.mapM (writePackage npm ids)
    return (roots.flatten, packages.flatten)

structure Sections where
  modulesHeader : Bytes
  npmBytes : Bytes
  sources : Bytes
  sourceMaps : Bytes

variable (hashes : Hashes) (npm : NpmTexts Id Req) (checksum : Checksum) (archive : EszipV2 Id Req)

def writeSections : Result Sections := do
  let w ← archive.modules.entries.foldlM (writeModule hashes checksum) { header := [], sources := [], sourceMaps := [] }
  let (specifiers, npmBytes) ← writeSnapshot npm archive.npmSnapshot
  return { modulesHeader := w.header ++ specifiers, npmBytes, sources := w.sources, sourceMaps := w.sourceMaps }

def optionsHeader (checksumSize : UInt8) : Bytes :=
  [0, checksum.toU8] ++ [1, checksumSize]

def sealed (content : Bytes) : Bytes :=
  toBe32 content.length ++ (content ++ checksum.hash hashes content)

def assemble (checksumSize : UInt8) (s : Sections) : Bytes :=
  EszipVersion.latestVersion.toMagic
    ++ (sealed hashes checksum (optionsHeader checksum checksumSize)
    ++ (sealed hashes checksum s.modulesHeader
    ++ (sealed hashes checksum s.npmBytes
    ++ (toBe32 s.sources.length ++ (s.sources
    ++ (toBe32 s.sourceMaps.length ++ s.sourceMaps))))))

-- The assertion that the two sizes are the same is only made in debug builds.
def intoBytes : Result Bytes :=
  match archive.options.checksum, archive.options.getChecksumSize with
  | some checksum, some checksumSize => do
    let s ← writeSections hashes npm checksum archive
    return assemble hashes checksum checksumSize s
  | _, _ => panic

end Snapshot

namespace EszipV2

variable (archive : EszipV2 Id Req) (kind : ModuleKind) (specifier : Str)

def addToFront (data sourceMap : Bytes) : EszipV2 Id Req :=
  { archive with modules := archive.modules.pushFront specifier (.module kind (.ready data) (.ready sourceMap)) }

def addImportMap (source : Bytes) : EszipV2 Id Req :=
  archive.addToFront kind specifier source []

def addOpaqueData (data : Bytes) : EszipV2 Id Req :=
  { archive with modules := archive.modules.pushBack specifier (.module .opaqueData (.ready data) (.ready [])) }

def setChecksum : EszipV2 Id Req :=
  { archive with options := { archive.options with checksum := some checksum } }

end EszipV2

open List ByteReader Cursor

theorem ok_bind {α β : Type} (a : α) (f : α → Result β) : (Except.ok a >>= f) = f a := rfl

variable {n : Nat} {entries : List HeaderEntry}

theorem readExact_append {read : Bytes} (h : read.length = n) (rest : Bytes)
    : readExact (read ++ rest) n = .ok (read, rest) := by
  rw [readExact, take?_append h]

theorem readU32_append (h : n < 2 ^ 32) (rest : Bytes) : readU32 (toBe32 n ++ rest) = .ok (n, rest) := by
  rw [readU32, readExact_append (length_toBe32 n), ok_bind]
  dsimp only
  rw [fromBe_toBe32 h]
  rfl

namespace Section

variable {options : Options} {size : UInt8} {hash : Bytes}

theorem readWithSize_append (hsize : options.getChecksumSize = some size) (hhash : hash.length = size.toNat)
    (content rest : Bytes)
    : readWithSize (content ++ (hash ++ rest)) options content.length
        = .ok ({ content, checksumHash := hash, options }, rest) := by
  unfold readWithSize
  rw [hsize]
  dsimp only
  rw [← append_assoc, readExact_append (by rw [length_append, hhash]), ok_bind]
  rw [take_left, drop_left]
  rfl

theorem read_append (hsize : options.getChecksumSize = some size) {content : Bytes}
    (hcontent : content.length < 2 ^ 32) (hhash : hash.length = size.toNat) (rest : Bytes)
    : read (toBe32 content.length ++ (content ++ (hash ++ rest))) options
        = .ok ({ content, checksumHash := hash, options }, rest) := by
  rw [read, readU32_append hcontent, ok_bind]
  exact readWithSize_append hsize hhash content rest

theorem isChecksumValid_iff {hashes : Hashes} {s : Section} {checksum : Checksum}
    (h : s.options.checksum = some checksum)
    : s.isChecksumValid hashes = true ↔ checksum.hash hashes s.content = s.checksumHash := by
  rw [isChecksumValid, h]
  exact decide_eq_true_iff

end Section

def Options.of (checksum : Checksum) : Options where
  checksum := some checksum
  checksumSize := some checksum.digestSize

variable (hashes : Hashes) (checksum : Checksum)

theorem Section.read_sealed {content : Bytes} (h : content.length < 2 ^ 32) (rest : Bytes)
    : read (sealed hashes checksum content ++ rest) (.of checksum)
        = .ok ({ content, checksumHash := checksum.hash hashes content, options := .of checksum }, rest) := by
  rw [sealed, append_assoc, append_assoc]
  exact read_append rfl h (checksum.length_hash hashes content) rest

variable (size : UInt8) (options : Options)

theorem applyOptions_optionsHeader
    : applyOptions (optionsHeader checksum size) options
        = .ok { checksum := some checksum, checksumSize := some size } := by
  have h : applyOptions (optionsHeader checksum size) options
      = .ok { checksum := Checksum.fromU8 checksum.toU8, checksumSize := some size } := rfl
  rw [h, Checksum.fromU8_toU8]

theorem readOptionsHeader_sealed (rest : Bytes)
    : readOptionsHeader hashes options (sealed hashes checksum (optionsHeader checksum size) ++ rest)
        = checkOptionsHeader hashes (optionsHeader checksum size)
            { checksum := some checksum, checksumSize := some size }
            (checksum.hash hashes (optionsHeader checksum size) ++ rest) := by
  generalize hhash : checksum.hash hashes (optionsHeader checksum size) = hash
  generalize hheader : optionsHeader checksum size = header at hhash
  let preOptions : Options := { checksum := some .noChecksum, checksumSize := none }
  have hlen : header.length = 4 := by rw [← hheader, optionsHeader]; rfl
  have hread : Section.read (toBe32 header.length ++ (header ++ ([] ++ (hash ++ rest)))) preOptions
      = .ok ({ content := header, checksumHash := [], options := preOptions }, hash ++ rest) :=
    Section.read_append rfl (by rw [hlen]; decide) rfl (hash ++ rest)
  rw [sealed, hhash, append_assoc, append_assoc, readOptionsHeader]
  dsimp only
  rw [nil_append] at hread
  rw [hread, ok_bind]
  rw [if_neg (by rw [hlen]; decide), ← hheader, applyOptions_optionsHeader, ok_bind]

theorem checkOptionsHeader_of (content rest : Bytes)
    : checkOptionsHeader hashes content (.of checksum) (checksum.hash hashes content ++ rest)
      = .ok (.of checksum, rest) := by
  have hlen := checksum.length_hash hashes content
  unfold checkOptionsHeader
  split
  . next hnone => cases hnone
  . next size hsize =>
    cases hsize
    split
    . rw [Section.readWithSize_append rfl hlen, ok_bind]
      dsimp only
      rw [if_pos ((Section.isChecksumValid_iff rfl).mpr rfl)]
      rfl
    . next hzero =>
      have hnil : checksum.hash hashes content = [] := by
        cases checksum with
        | noChecksum => rfl
        | sha256 | xxHash3 => exact absurd (by decide) hzero
      rw [hnil]
      rfl

inductive HeaderEntry where
  | module (specifier : Str) (module : EszipV2Module)
  | npm (specifier : Str) (index : Nat)

def EszipV2SourceSlot.place : EszipV2SourceSlot → Bytes
  | .pending offset length => toBe32 offset ++ toBe32 length
  | .ready _ | .taken => toBe32 0 ++ toBe32 0

def EszipV2Module.frame : EszipV2Module → Bytes
  | .module kind source sourceMap => [0] ++ (source.place ++ (sourceMap.place ++ [kind.toU8]))
  | .redirect target => [1] ++ appendString target

namespace HeaderEntry

def bytes : HeaderEntry → Bytes
  | .module specifier m => appendString specifier ++ m.frame
  | .npm specifier index => appendString specifier ++ ([2] ++ toBe32 index)

def insert (header : Header) : HeaderEntry → Header
  | .module specifier m => header.insertModule specifier m
  | .npm specifier index => header.insertNpmSpecifier specifier index

end HeaderEntry

def EszipV2SourceSlot.Listed : EszipV2SourceSlot → Prop
  | .pending offset length => offset < 2 ^ 32 ∧ length < 2 ^ 32 ∧ 0 < length
  | .ready bytes => bytes = []
  | .taken => False

def FitsU32 (s : Str) : Prop := (Text.encode s).length < 2 ^ 32

def EszipV2Module.Listed : EszipV2Module → Prop
  | .module _ source sourceMap => source.Listed ∧ sourceMap.Listed
  | .redirect target => FitsU32 target

def HeaderEntry.Listed : HeaderEntry → Prop
  | .module specifier m => FitsU32 specifier ∧ m.Listed
  | .npm specifier index => FitsU32 specifier ∧ index < 2 ^ 32

namespace Cursor

variable (read : Nat) (rest : Bytes) (what : String) {n : Nat}

theorem take_append (h : bytes.length = n)
    : take { read, rest := bytes ++ rest } n what = .ok (bytes, { read := read + n, rest }) := by
  rw [take, take?_append h]

theorem takeU32_append (h : n < 2 ^ 32)
    : takeU32 { read, rest := toBe32 n ++ rest } what = .ok (n, { read := read + 4, rest }) := by
  rw [takeU32, take_append read rest what (length_toBe32 n), ok_bind]
  dsimp only
  rw [fromBe_toBe32 h]
  rfl

theorem takeU8_append (byte : UInt8)
    : takeU8 { read, rest := [byte] ++ rest } what = .ok (byte, { read := read + 1, rest }) := by
  rfl

theorem takeString_append (s : Str)
    : takeString { read, rest := Text.encode s ++ rest } (Text.encode s).length what
        = .ok (s, { read := read + (Text.encode s).length, rest }) := by
  rw [takeString, take_append read rest what rfl, ok_bind]
  dsimp only
  rw [Text.decode?_encode]
  rfl

end Cursor

theorem exists_place_of_listed (h : slot.Listed)
    : ∃ offset length, slot.place = toBe32 offset ++ toBe32 length ∧ offset < 2 ^ 32 ∧ length < 2 ^ 32 ∧
      slotAt offset length = slot := by
  cases slot with
  | pending offset length =>
    obtain ⟨hoffset, hlength, hpos⟩ := h
    refine ⟨offset, length, rfl, hoffset, hlength, ?_⟩
    rw [slotAt, if_neg (by omega)]
  | ready bytes =>
    cases (h : bytes = [])
    exact ⟨0, 0, rfl, by decide, by decide, rfl⟩
  | taken => cases h

theorem takeModule_frame (kind : ModuleKind) (hsource : source.Listed)
    (hsourceMap : sourceMap.Listed) (read : Nat) (rest : Bytes)
    : ∃ read',
        takeModule { read, rest := source.place ++ (sourceMap.place ++ ([kind.toU8] ++ rest)) }
          = .ok (.module kind source sourceMap, { read := read', rest }) := by
  obtain ⟨offset, length, hplace, hoffset, hlength, hslot⟩ := exists_place_of_listed hsource
  obtain ⟨offset', length', hplace', hoffset', hlength', hslot'⟩ := exists_place_of_listed hsourceMap
  refine ⟨read + 4 + 4 + 4 + 4 + 1, ?_⟩
  rw [takeModule, hplace, hplace']
  simp only [append_assoc]
  rw [takeU32_append _ _ _ hoffset, ok_bind]
  rw [takeU32_append _ _ _ hlength, ok_bind]
  rw [takeU32_append _ _ _ hoffset', ok_bind]
  rw [takeU32_append _ _ _ hlength', ok_bind]
  rw [takeU8_append, ok_bind]
  rw [ModuleKind.fromU8_toU8, hslot, hslot']
  rfl

theorem takeRedirect_append (h : FitsU32 target) (read : Nat) (rest : Bytes)
    : ∃ read', takeRedirect { read, rest := appendString target ++ rest }
        = .ok (.redirect target, { read := read', rest }) := by
  refine ⟨read + 4 + (Text.encode target).length, ?_⟩
  rw [takeRedirect, appendString, append_assoc, takeU32_append _ _ _ h, ok_bind]
  dsimp only
  rw [takeString_append, ok_bind]
  rfl

theorem takeEntry_append (h : FitsU32 specifier) (read : Nat) (rest : Bytes) (header : Header)
    : ∃ read', takeEntry true { read, rest := appendString specifier ++ rest } header
        = takeFrame true specifier { read := read', rest } header := by
  refine ⟨read + 4 + (Text.encode specifier).length, ?_⟩
  rw [takeEntry, appendString, append_assoc, takeU32_append _ _ _ h, ok_bind]
  dsimp only
  rw [takeString_append, ok_bind]

theorem takeEntry_bytes {entry : HeaderEntry} (h : entry.Listed) (read : Nat) (rest : Bytes) (header : Header)
    : ∃ read', takeEntry true { read, rest := entry.bytes ++ rest } header
        = .ok (entry.insert header, { read := read', rest }) := by
  cases entry with
  | npm specifier index =>
    obtain ⟨read₁, hentry⟩ := takeEntry_append h.1 read ([2] ++ (toBe32 index ++ rest)) header
    refine ⟨read₁ + 1 + 4, ?_⟩
    rw [HeaderEntry.bytes, append_assoc, append_assoc, hentry, takeFrame, takeU8_append, ok_bind]
    dsimp only
    rw [if_pos rfl, takeU32_append _ _ _ h.2, ok_bind]
    rfl
  | module specifier module =>
    cases module with
    | module kind source sourceMap =>
      obtain ⟨read₁, hentry⟩ := takeEntry_append h.1 read
        ([0] ++ (source.place ++ (sourceMap.place ++ ([kind.toU8] ++ rest)))) header
      obtain ⟨read₂, hmodule⟩ := takeModule_frame kind h.2.1 h.2.2 (read₁ + 1) rest
      refine ⟨read₂, ?_⟩
      rw [HeaderEntry.bytes, EszipV2Module.frame]
      simp only [append_assoc]
      rw [hentry, takeFrame, takeU8_append, ok_bind]
      dsimp only
      rw [hmodule, ok_bind]
      rfl
    | redirect target =>
      obtain ⟨read₁, hentry⟩ := takeEntry_append h.1 read ([1] ++ (appendString target ++ rest)) header
      obtain ⟨read₂, hredirect⟩ := takeRedirect_append h.2 (read₁ + 1) rest
      refine ⟨read₂, ?_⟩
      rw [HeaderEntry.bytes, EszipV2Module.frame]
      simp only [append_assoc]
      rw [hentry, takeFrame, takeU8_append, ok_bind]
      dsimp only
      rw [hredirect, ok_bind]
      rfl

theorem HeaderEntry.bytes_length_pos (entry : HeaderEntry) : 0 < entry.bytes.length := by
  cases entry with
  | module specifier module | npm specifier index =>
    rw [bytes, appendString, length_append, length_append, length_toBe32]
    omega

theorem takeEntries_flatMap (h : ∀ entry ∈ entries, entry.Listed) {fuel : Nat}
    (hfuel : (entries.flatMap HeaderEntry.bytes).length ≤ fuel) (read : Nat) (header : Header)
    : takeEntries true fuel { read, rest := entries.flatMap HeaderEntry.bytes } header
        = .ok (entries.foldl HeaderEntry.insert header) := by
  induction entries generalizing fuel read header with
  | nil =>
    cases fuel with
    | zero | succ fuel => rfl
  | cons entry entries ih =>
    rw [flatMap_cons] at hfuel ⊢
    have hpos := entry.bytes_length_pos
    rw [length_append] at hfuel
    obtain ⟨read', hentry⟩ :=
      takeEntry_bytes (h entry mem_cons_self) read (entries.flatMap HeaderEntry.bytes) header
    cases fuel with
    | zero => omega
    | succ fuel =>
      have hne : entry.bytes ++ entries.flatMap HeaderEntry.bytes ≠ [] := by
        rw [← length_pos_iff, length_append]
        omega
      rw [takeEntries, if_neg hne, hentry, ok_bind]
      exact ih (fun e he => h e (mem_cons_of_mem entry he)) (by omega) read' (entry.insert header)

theorem readHeader_sealed (h : ∀ entry ∈ entries, entry.Listed)
    (hlen : (entries.flatMap HeaderEntry.bytes).length < 2 ^ 32) (rest : Bytes)
    : readHeader hashes true (.of checksum) (sealed hashes checksum (entries.flatMap HeaderEntry.bytes) ++ rest)
      = .ok (entries.foldl HeaderEntry.insert .empty, rest) := by
  rw [readHeader, Section.read_sealed hashes checksum hlen, ok_bind]
  dsimp only
  rw [if_pos ((Section.isChecksumValid_iff rfl).mpr rfl), takeEntries_flatMap h (Nat.le_refl _), ok_bind]
  rfl

end Deno.Eszip
