import AppSuite.Data.ByteReader
import AppSuite.Data.OrderedMap
import AppSuite.Text.Utf8

/-!
This module contains the data of an eszip archive (v2) and its reader: `parse`, and the future that
fills the slots.
-/

namespace Deno.Eszip

abbrev Bytes := List UInt8
abbrev Str := List Char

inductive EszipVersion where
  | v2
  | v2_1
  | v2_2
  | v2_3
deriving DecidableEq

namespace EszipVersion

def toMagic : EszipVersion → Bytes
  -- ESZIP_V2
  | v2 => [0x45, 0x53, 0x5A, 0x49, 0x50, 0x5F, 0x56, 0x32]
  -- ESZIP2.1
  | v2_1 => [0x45, 0x53, 0x5A, 0x49, 0x50, 0x32, 0x2E, 0x31]
  -- ESZIP2.2
  | v2_2 => [0x45, 0x53, 0x5A, 0x49, 0x50, 0x32, 0x2E, 0x32]
  -- ESZIP2.3
  | v2_3 => [0x45, 0x53, 0x5A, 0x49, 0x50, 0x32, 0x2E, 0x33]

def fromMagic (magic : Bytes) : Option EszipVersion :=
  if magic = v2.toMagic then
    some v2
  else if magic = v2_1.toMagic then
    some v2_1
  else if magic = v2_2.toMagic then
    some v2_2
  else if magic = v2_3.toMagic then
    some v2_3
  else
    none

def supportsNpm (version : EszipVersion) : Bool := version ≠ v2

def supportsOptions : EszipVersion → Bool
  | v2 | v2_1 => false
  | v2_2 | v2_3 => true

def latestVersion : EszipVersion := v2_3

end EszipVersion

structure Hashes where
  sha256 : Bytes → Bytes
  xxh3 : Bytes → Bytes
  length_sha256 : ∀ bytes, (sha256 bytes).length = 32
  length_xxh3 : ∀ bytes, (xxh3 bytes).length = 8

inductive Checksum where
  | noChecksum
  | sha256
  | xxHash3
deriving DecidableEq

namespace Checksum

def toU8 : Checksum → UInt8
  | noChecksum => 0
  | sha256 => 1
  | xxHash3 => 2

def digestSize : Checksum → UInt8
  | noChecksum => 0
  | sha256 => 32
  | xxHash3 => 8

def fromU8 : UInt8 → Option Checksum
  | 0 => some noChecksum
  | 1 => some sha256
  | 2 => some xxHash3
  | _ => none

def hash (hashes : Hashes) : Checksum → Bytes → Bytes
  | noChecksum, _ => []
  | sha256, bytes => hashes.sha256 bytes
  | xxHash3, bytes => hashes.xxh3 bytes

theorem fromU8_toU8 (c : Checksum) : fromU8 c.toU8 = some c := by
  cases c with
  | noChecksum | sha256 | xxHash3 => rfl

theorem length_hash (hashes : Hashes) (c : Checksum) (bytes : Bytes)
    : (c.hash hashes bytes).length = c.digestSize.toNat := by
  cases c with
  | noChecksum => rfl
  | sha256 => exact hashes.length_sha256 bytes
  | xxHash3 => exact hashes.length_xxh3 bytes

end Checksum

structure Options where
  checksum : Option Checksum
  checksumSize : Option UInt8
deriving DecidableEq

namespace Options

def defaultForVersion : EszipVersion → Options
  | .v2 | .v2_1 => { checksum := some .sha256, checksumSize := none }
  | .v2_2 | .v2_3 => { checksum := some .noChecksum, checksumSize := none }

-- The method `checksum_size`, next to the field of that name.
def getChecksumSize (options : Options) : Option UInt8 :=
  options.checksumSize.or (options.checksum.map Checksum.digestSize)

end Options

inductive ModuleKind where
  | javaScript
  | json
  | jsonc
  | opaqueData
  | wasm
deriving DecidableEq

namespace ModuleKind

def toU8 : ModuleKind → UInt8
  | javaScript => 0
  | json => 1
  | jsonc => 2
  | opaqueData => 3
  | wasm => 4

def fromU8 : UInt8 → Option ModuleKind
  | 0 => some javaScript
  | 1 => some json
  | 2 => some jsonc
  | 3 => some opaqueData
  | 4 => some wasm
  | _ => none

theorem fromU8_toU8 (kind : ModuleKind) : fromU8 kind.toU8 = some kind := by
  cases kind with
  | javaScript | json | jsonc | opaqueData | wasm => rfl

end ModuleKind

inductive EszipV2SourceSlot where
  | pending (offset length : Nat)
  | ready (bytes : Bytes)
  | taken
deriving DecidableEq

inductive EszipV2Module where
  | module (kind : ModuleKind) (source sourceMap : EszipV2SourceSlot)
  | redirect (target : Str)
deriving DecidableEq

-- A `LinkedHashMap`: an insertion moves a key that is present to the back.
abbrev EszipV2Modules := OrderedMap Str EszipV2Module

structure SnapshotPackage (Id : Type) where
  id : Id
  dependencies : OrderedMap Str Id
deriving DecidableEq

structure Snapshot (Id Req : Type) where
  packages : List (SnapshotPackage Id)
  rootPackages : OrderedMap Req Id
deriving DecidableEq

structure EszipV2 (Id Req : Type) where
  modules : EszipV2Modules
  npmSnapshot : Option (Snapshot Id Req)
  options : Options
deriving DecidableEq

def EszipV2.empty {Id Req : Type} : EszipV2 Id Req where
  modules := .empty
  npmSnapshot := none
  options := .defaultForVersion .latestVersion

-- The text forms of package ids and requirements, each read back as what it was written from.
structure NpmTexts (Id Req : Type) where
  asSerialized : Id → Str
  fromSerialized : Str → Option Id
  reqToString : Req → Str
  reqFromStr : Str → Option Req
  fromSerialized_asSerialized : ∀ id, fromSerialized (asSerialized id) = some id
  reqFromStr_reqToString : ∀ req, reqFromStr (reqToString req) = some req

inductive IoErrorKind where
  | unexpectedEof
  | invalidData
deriving DecidableEq

structure IoError where
  kind : IoErrorKind
  message : Option String
deriving DecidableEq

inductive NpmError where
  | missingIndex (index : Nat)
  | invalidText
deriving DecidableEq

inductive ParseError where
  | invalidV2
  | invalidV2HeaderHash
  | invalidV2Specifier (offset : Nat)
  | invalidV2EntryKind (kind : UInt8) (offset : Nat)
  | invalidV2ModuleKind (kind : UInt8) (offset : Nat)
  | invalidV2Header (what : String)
  | invalidV2SourceOffset (offset : Nat)
  | invalidV2SourceHash (specifier : Str)
  | invalidV2NpmSnapshotHash
  | invalidV2NpmPackageOffset (offset : Nat) (err : IoError)
  | invalidV2NpmPackage (name : Str) (err : NpmError)
  | invalidV2NpmPackageReq (req : Str) (err : NpmError)
  | invalidV22OptionsHeader (message : String)
  | invalidV22OptionsHeaderHash
  | io (err : IoError)
deriving DecidableEq

inductive Fault where
  | error (err : ParseError)
  | panic
deriving DecidableEq

abbrev Result (α : Type) := Except Fault α

def fail {α : Type} (err : ParseError) : Result α := .error (.error err)

def panic {α : Type} : Result α := .error .panic

def readExact (reader : Bytes) (n : Nat) : Result (Bytes × Bytes) :=
  match ByteReader.take? n reader with
  | some read => .ok read
  | none => fail (.io { kind := .unexpectedEof, message := none })

def readU32 (reader : Bytes) : Result (Nat × Bytes) := do
  let (buf, reader) ← readExact reader 4
  return (ByteReader.fromBe buf, reader)

structure Section where
  content : Bytes
  checksumHash : Bytes
  options : Options
deriving DecidableEq

namespace Section

def totalLen (s : Section) : Nat := s.content.length + s.checksumHash.length

variable (reader : Bytes) (options : Options)

def readWithSize (len : Nat) : Result (Section × Bytes) :=
  match options.getChecksumSize with
  | none => panic
  | some size => do
    let (body, reader) ← readExact reader (len + size.toNat)
    return ({ content := body.take len, checksumHash := body.drop len, options }, reader)

def read : Result (Section × Bytes) := do
  let (len, reader) ← readU32 reader
  readWithSize reader options len

def isChecksumValid (hashes : Hashes) (s : Section) : Bool :=
  match s.options.checksum with
  | none => true
  | some checksum => checksum.hash hashes s.content = s.checksumHash

end Section

def applyOption (options : Options) (option value : UInt8) : Options :=
  match option with
  | 0 => { options with checksum := Checksum.fromU8 value }
  | 1 => { options with checksumSize := some value }
  -- Ignore unknown options for forward compatibility
  | _ => options

def applyOptions : Bytes → Options → Result Options
  | [], options => .ok options
  | [_], _ => panic
  | option :: value :: rest, options => applyOptions rest (applyOption options option value)

variable (hashes : Hashes) (content : Bytes) (options : Options) (reader : Bytes)

def checkOptionsHeader : Result (Options × Bytes) :=
  match options.getChecksumSize with
  | none => fail (.invalidV22OptionsHeader "checksum size must be known")
  | some size =>
    if 1 ≤ size then do
      let (header, reader) ← Section.readWithSize (content ++ reader) options content.length
      if header.isChecksumValid hashes then
        return (options, reader)
      else
        fail .invalidV22OptionsHeaderHash
    else
      .ok (options, reader)

def readOptionsHeader : Result (Options × Bytes) := do
  let preOptions := { options with checksum := some .noChecksum, checksumSize := none }
  let (header, reader) ← Section.read reader preOptions
  if header.content.length % 2 ≠ 0 then
    fail (.invalidV22OptionsHeader "options are expected to be byte tuples")
  else
    let options ← applyOptions header.content options
    checkOptionsHeader hashes header.content options reader

def readOptions (version : EszipVersion) (reader : Bytes) : Result (Options × Bytes) :=
  let options := Options.defaultForVersion version
  if version.supportsOptions then readOptionsHeader hashes options reader else .ok (options, reader)

structure Cursor where
  read : Nat
  rest : Bytes

namespace Cursor

def take (c : Cursor) (n : Nat) (what : String) : Result (Bytes × Cursor) :=
  match ByteReader.take? n c.rest with
  | some (bytes, rest) => .ok (bytes, { read := c.read + n, rest })
  | none => fail (.invalidV2Header what)

variable (c : Cursor) (what : String)

def takeU32 : Result (Nat × Cursor) := do
  let (bytes, c) ← c.take 4 what
  return (ByteReader.fromBe bytes, c)

def takeU8 : Result (UInt8 × Cursor) := do
  let (bytes, c) ← c.take 1 what
  match bytes with
  | [] => panic
  | byte :: _ => return (byte, c)

def takeString (len : Nat) (what : String) : Result (Str × Cursor) := do
  let (bytes, c) ← c.take len what
  match Text.decode? bytes with
  | some s => return (s, c)
  | none => fail (.invalidV2Specifier c.read)

end Cursor

def slotAt (offset length : Nat) : EszipV2SourceSlot :=
  if offset = 0 ∧ length = 0 then .ready [] else .pending offset length

def takeModule (c : Cursor) : Result (EszipV2Module × Cursor) := do
  let (sourceOffset, c) ← c.takeU32 "source offset"
  let (sourceLen, c) ← c.takeU32 "source len"
  let (sourceMapOffset, c) ← c.takeU32 "source map offset"
  let (sourceMapLen, c) ← c.takeU32 "source map len"
  let (kind, c) ← c.takeU8 "module kind"
  match ModuleKind.fromU8 kind with
  | none => fail (.invalidV2ModuleKind kind c.read)
  | some kind => return (.module kind (slotAt sourceOffset sourceLen) (slotAt sourceMapOffset sourceMapLen), c)

def takeRedirect (c : Cursor) : Result (EszipV2Module × Cursor) := do
  let (targetLen, c) ← c.takeU32 "target len"
  let (target, c) ← c.takeString targetLen "target"
  return (.redirect target, c)

structure Header where
  modules : EszipV2Modules
  npmSpecifiers : OrderedMap Str Nat

namespace Header

def empty : Header where
  modules := .empty
  npmSpecifiers := .empty

def insertModule (header : Header) (specifier : Str) (module : EszipV2Module) : Header :=
  { header with modules := header.modules.pushBack specifier module }

def insertNpmSpecifier (header : Header) (specifier : Str) (index : Nat) : Header :=
  { header with npmSpecifiers := header.npmSpecifiers.set specifier index }

end Header

variable (supportsNpm : Bool)

def takeFrame (specifier : Str) (c : Cursor) (header : Header) : Result (Header × Cursor) := do
  let (entryKind, c) ← c.takeU8 "entry kind"
  match entryKind with
  | 0 =>
    let (module, c) ← takeModule c
    return (header.insertModule specifier module, c)
  | 1 =>
    let (module, c) ← takeRedirect c
    return (header.insertModule specifier module, c)
  | 2 =>
    if supportsNpm then
      let (index, c) ← c.takeU32 "npm package id"
      return (header.insertNpmSpecifier specifier index, c)
    else
      fail (.invalidV2EntryKind 2 c.read)
  | n => fail (.invalidV2EntryKind n c.read)

def takeEntry (c : Cursor) (header : Header) : Result (Header × Cursor) := do
  let (specifierLen, c) ← c.takeU32 "specifier len"
  let (specifier, c) ← c.takeString specifierLen "specifier"
  takeFrame supportsNpm specifier c header

-- `fuel` bounds the number of entries; running out of it counts as a panic.
def takeEntries (supportsNpm : Bool) : (fuel : Nat) → Cursor → Header → Result Header
  | 0, c, header => if c.rest = [] then .ok header else panic
  | fuel + 1, c, header =>
    if c.rest = [] then
      .ok header
    else do
      let (header, c) ← takeEntry supportsNpm c header
      takeEntries supportsNpm fuel c header

def readHeader (options : Options) (reader : Bytes) : Result (Header × Bytes) := do
  let (modulesHeader, reader) ← Section.read reader options
  if modulesHeader.isChecksumValid hashes then
    let content := modulesHeader.content
    let header ← takeEntries supportsNpm content.length { read := 0, rest := content } .empty
    return (header, reader)
  else
    fail .invalidV2HeaderHash

def moveBytes (bytes : Bytes) (len : Nat) : Except IoError (Bytes × Bytes) :=
  match ByteReader.take? len bytes with
  | some (moved, rest) => .ok (rest, moved)
  | none => .error { kind := .unexpectedEof, message := some "unexpected end of bytes" }

variable (input : Bytes)

def parseU32 : Except IoError (Bytes × Nat) := do
  let (input, valueBytes) ← moveBytes input 4
  return (input, ByteReader.fromBe valueBytes)

def parseString : Except IoError (Bytes × Str) := do
  let (input, size) ← parseU32 input
  let (input, name) ← moveBytes input size
  match Text.decode? name with
  | some text => return (input, text)
  | none => .error { kind := .invalidData, message := some "invalid utf-8 data" }

structure EszipNpmModule where
  name : Str
  dependencies : OrderedMap Str Nat

def parseDependency : Except IoError (Bytes × Str × Nat) := do
  let (input, name) ← parseString input
  let (input, index) ← parseU32 input
  return (input, name, index)

def parseDependencies : Nat → Bytes → OrderedMap Str Nat → Except IoError (Bytes × OrderedMap Str Nat)
  | 0, input, deps => .ok (input, deps)
  | n + 1, input, deps => do
    let (input, name, index) ← parseDependency input
    parseDependencies n input (deps.set name index)

def EszipNpmModule.parse : Except IoError (Bytes × EszipNpmModule) := do
  let (input, name) ← parseString input
  let (input, depSize) ← parseU32 input
  let (input, dependencies) ← parseDependencies depSize input .empty
  return (input, { name, dependencies })

-- `read` is how much of the section stands before `bytes`; running out of `fuel` counts as a panic.
def parseNpmModules : (fuel : Nat) → (read : Nat) → Bytes → Result (List EszipNpmModule)
  | _, _, [] => .ok []
  | 0, _, _ :: _ => panic
  | fuel + 1, read, byte :: bytes =>
    match EszipNpmModule.parse (byte :: bytes) with
    | .error err => fail (.invalidV2NpmPackageOffset read err)
    | .ok (rest, module) => do
      let modules ← parseNpmModules fuel (read + ((byte :: bytes).length - rest.length)) rest
      return module :: modules

variable {Id Req : Type}

def packageId (npm : NpmTexts Id Req) (module : EszipNpmModule) : Result Id :=
  match npm.fromSerialized module.name with
  | some id => .ok id
  | none => fail (.invalidV2NpmPackage module.name .invalidText)

def resolveDependency (ids : List Id) (name : Str) (deps : OrderedMap Str Id) (dep : Str × Nat)
    : Result (OrderedMap Str Id) :=
  match ids[dep.2]? with
  | some id => .ok (deps.set dep.1 id)
  | none => fail (.invalidV2NpmPackage name (.missingIndex dep.2))

def finalPackage (ids : List Id) (module : EszipNpmModule × Nat) : Result (SnapshotPackage Id) :=
  match ids[module.2]? with
  | none => panic
  | some id => do
    let dependencies ← module.1.dependencies.entries.foldlM (resolveDependency ids module.1.name) .empty
    return { id, dependencies }

def resolveRoot [DecidableEq Req] (npm : NpmTexts Id Req) (ids : List Id) (roots : OrderedMap Req Id)
    (specifier : Str × Nat)
    : Result (OrderedMap Req Id) :=
  match ids[specifier.2]? with
  | none => fail (.invalidV2NpmPackageReq specifier.1 (.missingIndex specifier.2))
  | some id =>
    match npm.reqFromStr specifier.1 with
    | none => fail (.invalidV2NpmPackageReq specifier.1 .invalidText)
    | some req => .ok (roots.set req id)

def resolveSnapshot [DecidableEq Req] (npm : NpmTexts Id Req) (modules : List EszipNpmModule)
    (npmSpecifiers : OrderedMap Str Nat)
    : Result (Snapshot Id Req) := do
  let ids ← modules.mapM (packageId npm)
  let packages ← modules.zipIdx.mapM (finalPackage ids)
  let rootPackages ← npmSpecifiers.entries.foldlM (resolveRoot npm ids) .empty
  return { packages, rootPackages }

def readNpmSection [DecidableEq Req] (hashes : Hashes) (npm : NpmTexts Id Req) (options : Options)
    (npmSpecifiers : OrderedMap Str Nat) (reader : Bytes)
    : Result (Option (Snapshot Id Req) × Bytes) := do
  let (snapshot, reader) ← Section.read reader options
  if snapshot.isChecksumValid hashes then
    if snapshot.content = [] then
      return (none, reader)
    else
      let modules ← parseNpmModules snapshot.content.length 0 snapshot.content
      let snapshot ← resolveSnapshot npm modules npmSpecifiers
      return (some snapshot, reader)
  else
    fail .invalidV2NpmSnapshotHash

def readSnapshot [DecidableEq Req] (hashes : Hashes) (npm : NpmTexts Id Req) (supportsNpm : Bool)
    (options : Options) (npmSpecifiers : OrderedMap Str Nat) (reader : Bytes)
    : Result (Option (Snapshot Id Req) × Bytes) :=
  if supportsNpm then readNpmSection hashes npm options npmSpecifiers reader else .ok (none, reader)

inductive SlotName where
  | source
  | sourceMap
deriving DecidableEq

variable (name : SlotName)

def EszipV2Module.slot : EszipV2Module → Option EszipV2SourceSlot
  | .module _ source sourceMap =>
    match name with
    | .source => some source
    | .sourceMap => some sourceMap
  | .redirect _ => none

def EszipV2Module.setSlot (slot : EszipV2SourceSlot) : EszipV2Module → EszipV2Module
  | .module kind source sourceMap =>
    match name with
    | .source => .module kind slot sourceMap
    | .sourceMap => .module kind source slot
  | .redirect target => .redirect target

abbrev Offsets := OrderedMap Nat (Nat × Str)

def pendingBlock (entry : Str × EszipV2Module) : Option (Nat × Nat × Str) :=
  match entry.2.slot name with
  | some (.pending offset length) => some (offset, length, entry.1)
  | _ => none

variable (name : SlotName) (modules : EszipV2Modules)

def pendingBlocks : List (Nat × Nat × Str) :=
  modules.entries.filterMap (pendingBlock name)

-- Collected into a `HashMap`: of two blocks at one offset the later one is kept.
def collectOffsets : Offsets :=
  OrderedMap.empty.extend (pendingBlocks name modules)

variable (specifier : Str)

def populate (bytes : Bytes) : Result EszipV2Modules :=
  match modules.get? specifier with
  -- module not found
  | none => panic
  | some module =>
    match module.slot name with
    | some (.pending _ _) => .ok (modules.set specifier (module.setSlot name (.ready bytes)))
    -- already populated slot, or invalid module type
    | _ => panic

def readBlocks (hashes : Hashes) (name : SlotName) (options : Options) (total : Nat)
    : (fuel : Nat) → (read : Nat) → Offsets → EszipV2Modules → Bytes → Result (EszipV2Modules × Bytes)
  | 0, _, _, _, _ => panic
  | fuel + 1, read, offsets, modules, reader =>
    if read < total then
      match offsets.get? read with
      | none => fail (.invalidV2SourceOffset read)
      | some (length, specifier) => do
        let (block, reader) ← Section.readWithSize reader options length
        if block.isChecksumValid hashes then
          let modules ← populate name modules specifier block.content
          readBlocks hashes name options total fuel (read + block.totalLen) (offsets.delete read) modules reader
        else
          fail (.invalidV2SourceHash specifier)
    else
      .ok (modules, reader)

def readSlots (hashes : Hashes) (name : SlotName) (options : Options) (offsets : Offsets)
    (modules : EszipV2Modules) (total : Nat) (reader : Bytes)
    : Result (EszipV2Modules × Bytes) :=
  readBlocks hashes name options total (offsets.keys.length + 1) 0 offsets modules reader

structure DataFuture where
  sourceOffsets : Offsets
  sourceMapOffsets : Offsets
  reader : Bytes

def DataFuture.run (archive : EszipV2 Id Req) (future : DataFuture)
    : Result (EszipV2Modules × Bytes) := do
  let (sourcesLen, reader) ← readU32 future.reader
  let (modules, reader) ←
    readSlots hashes .source archive.options future.sourceOffsets archive.modules sourcesLen reader
  let (sourceMapsLen, reader) ← readU32 reader
  readSlots hashes .sourceMap archive.options future.sourceMapOffsets modules sourceMapsLen reader

def parseWithVersion [DecidableEq Req] (hashes : Hashes) (npm : NpmTexts Id Req) (version : EszipVersion)
    (reader : Bytes)
    : Result (EszipV2 Id Req × DataFuture) := do
  let (options, reader) ← readOptions hashes version reader
  let (header, reader) ← readHeader hashes version.supportsNpm options reader
  let (npmSnapshot, reader) ←
    readSnapshot hashes npm version.supportsNpm options header.npmSpecifiers reader
  let future : DataFuture := {
    sourceOffsets := collectOffsets .source header.modules
    sourceMapOffsets := collectOffsets .sourceMap header.modules
    reader }
  return ({ modules := header.modules, npmSnapshot, options }, future)

def parse [DecidableEq Req] (hashes : Hashes) (npm : NpmTexts Id Req) (reader : Bytes)
    : Result (EszipV2 Id Req × DataFuture) := do
  let (magic, reader) ← readExact reader 8
  match EszipVersion.fromMagic magic with
  | none => fail .invalidV2
  | some version => parseWithVersion hashes npm version reader

def load [DecidableEq Req] (hashes : Hashes) (npm : NpmTexts Id Req) (bytes : Bytes)
    : Result (EszipV2 Id Req × Bytes) := do
  let (archive, future) ← parse hashes npm bytes
  let (modules, reader) ← future.run hashes archive
  return ({ archive with modules }, reader)

inductive Poll where
  | pending
  | ready (bytes : Option Bytes)
deriving DecidableEq

-- A slot polled: for a module that is not there, or a redirect, the call panics.
def pollSlot : Result Poll :=
  match (modules.get? specifier).bind (EszipV2Module.slot name) with
  | none => panic
  | some (.pending _ _) => .ok .pending
  | some (.ready bytes) => .ok (.ready (some bytes))
  | some .taken => .ok (.ready none)

def getModuleSource : Result Poll :=
  pollSlot .source modules specifier

def getModuleSourceMap : Result Poll :=
  pollSlot .sourceMap modules specifier

end Deno.Eszip
