import AppSuite.Deno.Eszip.Loading

/-!
This module contains what the data future leaves behind.
-/

namespace Deno.Eszip

open List OrderedMap

open ExceptFold (Ends bind_eq_ok)

variable {Id Req : Type}

abbrev Block := Nat × Nat × Str

variable {name : SlotName} {modules modules' : EszipV2Modules} {offset length size total read : Nat}
  {specifier : Str} {module : EszipV2Module} {offsets : Offsets} {blocks : List Block}

theorem mem_pendingBlocks_iff
    : (offset, length, specifier) ∈ pendingBlocks name modules ↔
      ∃ module, modules.get? specifier = some module ∧ module.slot name = some (.pending offset length) := by
  rw [pendingBlocks, mem_filterMap]
  constructor
  . rintro ⟨⟨specifier', module⟩, hmem, hblock⟩
    unfold pendingBlock at hblock
    split at hblock
    . next hslot =>
      cases hblock
      exact ⟨module, get?_eq_some_iff.mpr hmem, hslot⟩
    . cases hblock
  . rintro ⟨module, hget, hslot⟩
    refine ⟨(specifier, module), get?_eq_some_iff.mp hget, ?_⟩
    simp [pendingBlock, hslot]

variable {slot : EszipV2SourceSlot} {options : Options}

theorem slot_setSlot (h : module.slot name = some slot)
    : (module.setSlot name slot').slot name = some slot' := by
  cases module with
  | redirect target => cases h
  | module kind source sourceMap =>
    cases name with
    | source | sourceMap => rfl

theorem slot_setSlot_of_ne (h : other ≠ name) (slot : EszipV2SourceSlot)
    (module : EszipV2Module)
    : (module.setSlot name slot).slot other = module.slot other := by
  cases module with
  | redirect target => rfl
  | module kind source sourceMap =>
    cases name <;> cases other
    all_goals first | rfl | exact absurd rfl h

structure Populated (name : SlotName) (block : Block) (modules modules' : EszipV2Modules) : Prop where
  perm : (pendingBlocks name modules).Perm (block :: pendingBlocks name modules')
  other : ∀ other, other ≠ name → pendingBlocks other modules' = pendingBlocks other modules
  untaken : Untaken modules → Untaken modules'

theorem populated_set (hget : modules.get? specifier = some module)
    (hslot : module.slot name = some (.pending offset length)) (bytes : Bytes)
    : Populated name (offset, length, specifier) modules
      (modules.set specifier (module.setSlot name (.ready bytes))) := by
  have hready : (module.setSlot name (.ready bytes)).slot name = some (.ready bytes) := slot_setSlot hslot
  obtain ⟨before, after, hentries, hset⟩ :=
    exists_entries_set hget (module.setSlot name (.ready bytes))
  constructor
  . have hblock : pendingBlock name (specifier, module) = some (offset, length, specifier) := by
      simp [pendingBlock, hslot]
    have hnone : pendingBlock name (specifier, module.setSlot name (.ready bytes)) = none := by
      simp [pendingBlock, hready]
    rw [pendingBlocks, pendingBlocks, hentries, hset, filterMap_append, filterMap_append,
      filterMap_cons_some hblock, filterMap_cons_none hnone]
    exact perm_middle
  . intro other hother
    have hsame : pendingBlock other (specifier, module.setSlot name (.ready bytes))
        = pendingBlock other (specifier, module) := by
      simp only [pendingBlock, slot_setSlot_of_ne hother]
    rw [pendingBlocks, pendingBlocks, hentries, hset, filterMap_append, filterMap_append,
      filterMap_cons, filterMap_cons, hsame]
  . intro huntaken specifier' module' hget' other
    rcases get?_set_eq_some hget' with ⟨rfl, rfl⟩ | ⟨_, hget'⟩
    . by_cases hother : other = name
      . rw [hother, hready]
        simp
      . rw [slot_setSlot_of_ne hother]
        exact huntaken _ module hget other
    . exact huntaken specifier' module' hget' other

theorem populate_yields (h : (offset, length, specifier) ∈ pendingBlocks name modules) (bytes : Bytes)
    : Yields (Populated name (offset, length, specifier) modules) (populate name modules specifier bytes) := by
  obtain ⟨module, hget, hslot⟩ := mem_pendingBlocks_iff.mp h
  unfold populate
  rw [hget]
  dsimp only
  rw [hslot]
  exact populated_set hget hslot bytes

def Tiled (size total : Nat) : (read : Nat) → List Block → Prop
  | read, [] => total ≤ read
  | read, (offset, length, _) :: blocks =>
    read < total ∧ offset = read ∧ 0 < length + size ∧ Tiled size total (read + (length + size)) blocks

def Sound (name : SlotName) (offsets : Offsets) (modules : EszipV2Modules) : Prop :=
  ∀ offset block, offsets.get? offset = some block → (offset, block) ∈ pendingBlocks name modules

theorem sound_collectOffsets (name : SlotName) (modules : EszipV2Modules)
    : Sound name (collectOffsets name modules) modules := by
  intro offset block hget
  cases mem_of_get?_extend hget with
  | inl hmem => exact hmem
  | inr hnone => cases hnone

theorem Sound.delete (h : Sound name offsets modules)
    (hpop : Populated name (offset, block) modules modules')
    : Sound name (offsets.delete offset) modules' := by
  intro offset' block' hget
  have ⟨hne, hget⟩ := get?_delete_eq_some hget
  have hmem := hpop.perm.subset (h offset' block' hget)
  cases hmem with
  | head => exact absurd rfl hne
  | tail _ hmem => exact hmem

structure ReadIn (name : SlotName) (size total read : Nat) (offsets : Offsets)
    (modules modules' : EszipV2Modules) (blocks : List Block)
    : Prop where
  tiled : Tiled size total read blocks
  listed : ∀ block ∈ blocks, offsets.get? block.1 = some block.2
  perm : (pendingBlocks name modules).Perm (blocks ++ pendingBlocks name modules')
  other : ∀ other, other ≠ name → pendingBlocks other modules' = pendingBlocks other modules
  untaken : Untaken modules → Untaken modules'

theorem ReadIn.pos (hlt : read < total)
    (h : ReadIn name size total (read + (length + size)) (offsets.delete read) modules modules' blocks)
    : 0 < length + size := by
  by_contra hzero
  have htiled := h.tiled
  rw [show read + (length + size) = read by omega] at htiled
  cases blocks with
  | nil =>
    have hle : total ≤ read := htiled
    omega
  | cons block blocks =>
    exact (get?_delete_eq_some (h.listed block mem_cons_self)).1 htiled.2.1

theorem ReadIn.cons (hlt : read < total)
    (hget : offsets.get? read = some (length, specifier))
    (hpop : Populated name (read, length, specifier) modules mid)
    (h : ReadIn name size total (read + (length + size)) (offsets.delete read) mid modules' blocks)
    : ReadIn name size total read offsets modules modules' ((read, length, specifier) :: blocks) where
  tiled := ⟨hlt, rfl, h.pos hlt, h.tiled⟩
  listed := by
    intro block hmem
    cases hmem with
    | head => exact hget
    | tail _ hmem => exact (get?_delete_eq_some (h.listed block hmem)).2
  perm := hpop.perm.trans (h.perm.cons _)
  other := by
    intro other hother
    rw [h.other other hother, hpop.other other hother]
  untaken := by
    intro huntaken
    exact h.untaken (hpop.untaken huntaken)

section

variable (hashes : Hashes) (name : SlotName) {size : UInt8} (hsize : options.getChecksumSize = some size)

include hsize

theorem readBlocks_yields (total : Nat) (hsound : Sound name offsets modules)
    (hfuel : offsets.keys.length < fuel) (reader : Bytes)
    : Yields (fun r => ∃ blocks, ReadIn name size.toNat total read offsets modules r.1 blocks)
      (readBlocks hashes name options total fuel read offsets modules reader) := by
  induction fuel generalizing read offsets modules reader with
  | zero => omega
  | succ fuel ih =>
    unfold readBlocks
    split
    . next hlt =>
      split
      . apply yields_fail
      . next length specifier hget =>
        apply (Section.readWithSize_yields hsize reader length).bind
        rintro ⟨block, reader'⟩ hread
        dsimp only
        split
        . apply (populate_yields (hsound _ _ hget) block.content).bind
          intro mid hpop
          have hlen : block.totalLen = length + size.toNat := by
            rw [Section.totalLen, hread.length_content, hread.length_checksumHash]
          have hkeys := length_keys_delete_lt hget
          rw [hlen]
          apply (ih (hsound.delete hpop) (by omega) reader').mono
          rintro ⟨modules', rest⟩ ⟨blocks, hblocks⟩
          exact ⟨_, hblocks.cons hlt hget hpop⟩
        . apply yields_fail
    . next hle =>
      refine ⟨[], Nat.le_of_not_lt hle, ?_, Perm.refl _, fun _ _ => rfl, id⟩
      intro block hmem
      cases hmem

theorem readSlots_yields (hsound : Sound name offsets modules) (total : Nat) (reader : Bytes)
    : Yields (fun r => ∃ blocks, ReadIn name size.toNat total 0 offsets modules r.1 blocks)
      (readSlots hashes name options offsets modules total reader) :=
  readBlocks_yields hashes name hsize total hsound (Nat.lt_succ_self _) reader

end

theorem Tiled.le_offset (h : Tiled size total read blocks) : ∀ block ∈ blocks, read ≤ block.1 := by
  induction blocks generalizing read with
  | nil => simp
  | cons block blocks ih =>
    obtain ⟨offset, length, specifier⟩ := block
    obtain ⟨_, rfl, _, htail⟩ := h
    intro block hmem
    cases hmem with
    | head => exact Nat.le_refl offset
    | tail _ hmem =>
      have := ih htail block hmem
      omega

theorem Tiled.eq_of_offset_eq (h : Tiled size total read blocks) (hb : b ∈ blocks)
    (hc : c ∈ blocks) (heq : b.1 = c.1)
    : b = c := by
  induction blocks generalizing read with
  | nil => cases hb
  | cons block blocks ih =>
    obtain ⟨offset, length, specifier⟩ := block
    obtain ⟨_, rfl, _, htail⟩ := h
    have hlater {d : Block} (hd : d ∈ blocks) : offset < d.1 := by
      have := htail.le_offset d hd
      omega
    cases hb with
    | head =>
      cases hc with
      | head => rfl
      | tail _ hc => exact absurd heq (Nat.ne_of_lt (hlater hc))
    | tail _ hb =>
      cases hc with
      | head => exact absurd heq.symm (Nat.ne_of_lt (hlater hb))
      | tail _ hc => exact ih htail hb hc

theorem Tiled.eq (h : Tiled size total read blocks)
    (h' : Tiled size total read blocks') (hagree : ∀ b ∈ blocks, ∀ c ∈ blocks', b.1 = c.1 → b = c)
    : blocks = blocks' := by
  induction blocks generalizing read blocks' with
  | nil =>
    have hle : total ≤ read := h
    cases blocks' with
    | nil => rfl
    | cons c blocks' =>
      have hlt : read < total := h'.1
      omega
  | cons b blocks ih =>
    cases blocks' with
    | nil =>
      have hlt : read < total := h.1
      have hle : total ≤ read := h'
      omega
    | cons c blocks' =>
      have hbc : b = c := by
        apply hagree b mem_cons_self c mem_cons_self
        rw [h.2.1, h'.2.1]
      subst hbc
      rw [ih h.2.2.2 h'.2.2.2]
      intro b' hb' c' hc'
      exact hagree b' (mem_cons_of_mem _ hb') c' (mem_cons_of_mem _ hc')

def Tiles (size total : Nat) (blocks : List Block) : Prop :=
  ∃ order : List Block, order.Perm blocks ∧ Tiled size total 0 order

theorem ReadIn.pendingBlocks_eq_nil_iff (h : ReadIn name size total 0 offsets modules modules' blocks)
    : pendingBlocks name modules' = [] ↔ Tiles size total (pendingBlocks name modules) := by
  constructor
  . intro hnil
    refine ⟨blocks, ?_, h.tiled⟩
    have hperm := h.perm
    rw [hnil, append_nil] at hperm
    exact hperm.symm
  . rintro ⟨order, hperm, htiled⟩
    have heq : blocks = order := by
      apply h.tiled.eq htiled
      intro b hb c hc hbc
      have hmem : b ∈ order := by
        apply hperm.symm.subset
        apply h.perm.symm.subset
        exact mem_append_left _ hb
      exact htiled.eq_of_offset_eq hmem hc hbc
    have hlen := (hperm.trans h.perm).length_eq
    rw [heq, length_append] at hlen
    exact length_eq_zero_iff.mp (by omega)

variable (hashes : Hashes) (archive : EszipV2 Id Req) (future : DataFuture)

def DataFuture.declaredLengths : Result (Nat × Nat) := do
  let (sourcesLen, reader) ← readU32 future.reader
  let (_, reader) ←
    readSlots hashes .source archive.options future.sourceOffsets archive.modules sourcesLen reader
  let (sourceMapsLen, _) ← readU32 reader
  return (sourcesLen, sourceMapsLen)

def Covered : Prop :=
  ∃ size sourcesLen sourceMapsLen,
    archive.options.getChecksumSize = some size ∧
    future.declaredLengths hashes archive = .ok (sourcesLen, sourceMapsLen) ∧
    Tiles size.toNat sourcesLen (pendingBlocks .source archive.modules) ∧
    Tiles size.toNat sourceMapsLen (pendingBlocks .sourceMap archive.modules)

def EszipV2SourceSlot.IsPending (slot : EszipV2SourceSlot) : Prop :=
  ∃ offset length, slot = .pending offset length

def Loaded (modules : EszipV2Modules) : Prop :=
  ∀ specifier kind source sourceMap, modules.get? specifier = some (.module kind source sourceMap) →
    (¬source.IsPending ∧ ¬sourceMap.IsPending) ∧
    (∃ bytes, getModuleSource modules specifier = .ok (.ready (some bytes))) ∧
    ∃ bytes, getModuleSourceMap modules specifier = .ok (.ready (some bytes))

theorem pendingBlocks_eq_nil_iff
    : pendingBlocks name modules = [] ↔
      ∀ specifier module slot, modules.get? specifier = some module → module.slot name = some slot →
        ¬slot.IsPending := by
  rw [eq_nil_iff_forall_not_mem]
  constructor
  . rintro h specifier module slot hget hslot ⟨offset, length, rfl⟩
    exact h (offset, length, specifier) (mem_pendingBlocks_iff.mpr ⟨module, hget, hslot⟩)
  . rintro h ⟨offset, length, specifier⟩ hmem
    obtain ⟨module, hget, hslot⟩ := mem_pendingBlocks_iff.mp hmem
    exact h specifier module _ hget hslot ⟨offset, length, rfl⟩

theorem pollSlot_of_not_isPending (huntaken : Untaken modules) (hget : modules.get? specifier = some module)
    (hslot : module.slot name = some slot) (h : ¬slot.IsPending)
    : ∃ bytes, pollSlot name modules specifier = .ok (.ready (some bytes)) := by
  unfold pollSlot
  rw [hget, Option.bind_some, hslot]
  cases slot with
  | pending offset length => exact absurd ⟨offset, length, rfl⟩ h
  | ready bytes => exact ⟨bytes, rfl⟩
  | taken => exact absurd hslot (huntaken specifier module hget name)

theorem loaded_iff (huntaken : Untaken modules)
    : Loaded modules ↔ pendingBlocks .source modules = [] ∧ pendingBlocks .sourceMap modules = [] := by
  rw [pendingBlocks_eq_nil_iff, pendingBlocks_eq_nil_iff]
  constructor
  . intro h
    constructor
    . intro specifier module slot hget hslot
      cases module with
      | redirect target => cases hslot
      | module kind source sourceMap =>
        cases hslot
        exact (h specifier kind _ _ hget).1.1
    . intro specifier module slot hget hslot
      cases module with
      | redirect target => cases hslot
      | module kind source sourceMap =>
        cases hslot
        exact (h specifier kind _ _ hget).1.2
  . rintro ⟨hsource, hsourceMap⟩ specifier kind source sourceMap hget
    have hs := hsource specifier _ source hget rfl
    have hm := hsourceMap specifier _ sourceMap hget rfl
    refine ⟨⟨hs, hm⟩, ?_, ?_⟩
    . exact pollSlot_of_not_isPending huntaken hget rfl hs
    . exact pollSlot_of_not_isPending huntaken hget rfl hm

section Run

variable {archive : EszipV2 Id Req} {future : DataFuture} {sourcesLen : Nat} {size : UInt8}

section

variable (h : Parsed archive future) (hsize : archive.options.getChecksumSize = some size)

include h hsize

theorem Parsed.readSources_yields (sourcesLen : Nat) (reader : Bytes)
    : Yields
      (fun r => ∃ blocks, ReadIn .source size.toNat sourcesLen 0 future.sourceOffsets archive.modules r.1 blocks)
      (readSlots hashes .source archive.options future.sourceOffsets archive.modules sourcesLen reader) := by
  apply readSlots_yields hashes .source hsize
  rw [h.sourceOffsets]
  apply sound_collectOffsets

theorem Parsed.readSourceMaps_yields {blocks : List Block}
    (hmid : ReadIn .source size.toNat sourcesLen 0 future.sourceOffsets archive.modules mid blocks)
    (sourceMapsLen : Nat) (reader : Bytes)
    : Yields
      (fun r => ∃ blocks, ReadIn .sourceMap size.toNat sourceMapsLen 0 future.sourceMapOffsets mid r.1 blocks)
      (readSlots hashes .sourceMap archive.options future.sourceMapOffsets mid sourceMapsLen reader) := by
  apply readSlots_yields hashes .sourceMap hsize
  rw [h.sourceMapOffsets]
  intro offset block hget
  rw [hmid.other .sourceMap (by decide)]
  exact sound_collectOffsets .sourceMap archive.modules offset block hget

end

theorem DataFuture.run_yields (h : Parsed archive future)
    : Yields (fun _ => True) (future.run hashes archive) := by
  obtain ⟨size, hsize⟩ := h.sized
  apply (readU32_yields future.reader).bind
  rintro ⟨sourcesLen, reader₁⟩ _
  apply (h.readSources_yields hashes hsize sourcesLen reader₁).bind
  rintro ⟨mid, reader₂⟩ ⟨blocks, hblocks⟩
  apply (readU32_yields reader₂).bind
  rintro ⟨sourceMapsLen, reader₃⟩ _
  apply (h.readSourceMaps_yields hashes hsize hblocks sourceMapsLen reader₃).mono
  intro _ _
  trivial

theorem loaded_iff_covered {hashes : Hashes} (h : Parsed archive future) {modules : EszipV2Modules}
    (hrun : future.run hashes archive = .ok (modules, rest))
    : Loaded modules ↔ Covered hashes archive future := by
  obtain ⟨size, hsize⟩ := h.sized
  obtain ⟨⟨sourcesLen, reader₁⟩, hlen, hrun⟩ := bind_eq_ok.mp hrun
  obtain ⟨⟨mid, reader₂⟩, hmid, hrun⟩ := bind_eq_ok.mp hrun
  obtain ⟨⟨sourceMapsLen, reader₃⟩, hlen', hrun⟩ := bind_eq_ok.mp hrun
  obtain ⟨blocks, hblocks⟩ := (h.readSources_yields hashes hsize sourcesLen reader₁).of_ok hmid
  obtain ⟨blocks', hblocks'⟩ := (h.readSourceMaps_yields hashes hsize hblocks sourceMapsLen reader₃).of_ok hrun
  have hlengths : future.declaredLengths hashes archive = .ok (sourcesLen, sourceMapsLen) :=
    bind_eq_ok.mpr ⟨_, hlen, bind_eq_ok.mpr ⟨_, hmid, bind_eq_ok.mpr ⟨_, hlen', rfl⟩⟩⟩
  have hsource := hblocks.pendingBlocks_eq_nil_iff
  have hsourceMap := hblocks'.pendingBlocks_eq_nil_iff
  rw [← hblocks'.other .source (by decide)] at hsource
  rw [hblocks.other .sourceMap (by decide)] at hsourceMap
  rw [loaded_iff (hblocks'.untaken (hblocks.untaken h.untaken)), hsource, hsourceMap]
  constructor
  . rintro ⟨htiles, htiles'⟩
    exact ⟨size, sourcesLen, sourceMapsLen, hsize, hlengths, htiles, htiles'⟩
  . rintro ⟨size', sourcesLen', sourceMapsLen', hsize', hlengths', htiles⟩
    rw [hsize] at hsize'
    rw [hlengths] at hlengths'
    cases hsize'
    cases hlengths'
    exact htiles

end Run

theorem loading_covered [DecidableEq Req] (hashes : Hashes) (npm : NpmTexts Id Req) (bytes : Bytes)
    : parse hashes npm bytes ≠ panic ∧
      ∀ archive future, parse hashes npm bytes = .ok (archive, future) →
        future.run hashes archive ≠ panic ∧
          ∀ modules rest, future.run hashes archive = .ok (modules, rest) →
            (Loaded modules ↔ Covered hashes archive future) := by
  refine ⟨(parse_yields hashes npm bytes).ne_panic, ?_⟩
  intro archive future hparse
  have hparsed : Parsed archive future := (parse_yields hashes npm bytes).of_ok hparse
  refine ⟨(future.run_yields hashes hparsed).ne_panic, ?_⟩
  intro modules rest hrun
  exact loaded_iff_covered hparsed hrun

def constantHashes : Hashes where
  sha256 _ := replicate 32 0
  xxh3 _ := replicate 8 0
  length_sha256 _ := length_replicate
  length_xxh3 _ := length_replicate

def unaryTexts : NpmTexts Nat Nat where
  asSerialized id := replicate id 'i'
  fromSerialized s := some s.length
  reqToString req := replicate req 'r'
  reqFromStr s := some s.length
  fromSerialized_asSerialized _ := by simp
  reqFromStr_reqToString _ := by simp

def singleModule (length : UInt8) (data : Bytes) : Bytes :=
  EszipVersion.v2_3.toMagic
    ++ [0, 0, 0, 4] ++ [0, 0, 1, 0]
    ++ [0, 0, 0, 22] ++ [0, 0, 0, 0] ++ [0] ++ [0, 0, 0, 0] ++ [0, 0, 0, length] ++ [0, 0, 0, 0]
    ++ [0, 0, 0, 0] ++ [0]
    ++ [0, 0, 0, 0]
    ++ data

def loadedModule [DecidableEq Req] (hashes : Hashes) (npm : NpmTexts Id Req) (bytes : Bytes) (specifier : Str)
    : Result (Option EszipV2Module) := do
  let (archive, _) ← load hashes npm bytes
  return archive.modules.get? specifier

theorem exists_run_of_loadedModule [DecidableEq Req] {hashes : Hashes} {npm : NpmTexts Id Req}
    {bytes : Bytes} (h : loadedModule hashes npm bytes specifier = .ok (some module))
    : ∃ archive future modules rest,
      parse hashes npm bytes = .ok (archive, future) ∧ future.run hashes archive = .ok (modules, rest) ∧
      modules.get? specifier = some module := by
  obtain ⟨⟨loaded, rest⟩, hload, hget⟩ := bind_eq_ok.mp h
  obtain ⟨⟨archive, future⟩, hparse, hload⟩ := bind_eq_ok.mp hload
  obtain ⟨⟨modules, rest'⟩, hrun, hload⟩ := bind_eq_ok.mp hload
  cases hload
  injection hget with hget
  exact ⟨archive, future, modules, rest, hparse, hrun, hget⟩

theorem source_left_pending
    : ∃ archive future modules rest,
      parse constantHashes unaryTexts (singleModule 3 [0, 0, 0, 0, 0, 0, 0, 0]) = .ok (archive, future) ∧
      future.run constantHashes archive = .ok (modules, rest) ∧
      modules.get? [] = some (.module .javaScript (.pending 0 3) (.ready [])) ∧ ¬Loaded modules := by
  have hloaded : loadedModule constantHashes unaryTexts (singleModule 3 [0, 0, 0, 0, 0, 0, 0, 0]) []
      = .ok (some (.module .javaScript (.pending 0 3) (.ready []))) := by
    decide +kernel
  obtain ⟨archive, future, modules, rest, hparse, hrun, hget⟩ := exists_run_of_loadedModule hloaded
  refine ⟨archive, future, modules, rest, hparse, hrun, hget, ?_⟩
  intro h
  exact (h [] .javaScript (.pending 0 3) (.ready []) hget).1.1 ⟨0, 3, rfl⟩

theorem loading_covered_of_source
    : ∃ archive future modules rest,
      parse constantHashes unaryTexts (singleModule 2 [0, 0, 0, 2, 7, 8, 0, 0, 0, 0]) = .ok (archive, future) ∧
      future.run constantHashes archive = .ok (modules, rest) ∧
      modules.get? [] = some (.module .javaScript (.ready [7, 8]) (.ready [])) ∧
      (Loaded modules ↔ Covered constantHashes archive future) := by
  have hloaded : loadedModule constantHashes unaryTexts (singleModule 2 [0, 0, 0, 2, 7, 8, 0, 0, 0, 0]) []
      = .ok (some (.module .javaScript (.ready [7, 8]) (.ready []))) := by
    decide +kernel
  obtain ⟨archive, future, modules, rest, hparse, hrun, hget⟩ := exists_run_of_loadedModule hloaded
  refine ⟨archive, future, modules, rest, hparse, hrun, hget, ?_⟩
  exact ((loading_covered constantHashes unaryTexts _).2 archive future hparse).2 modules rest hrun

end Deno.Eszip
