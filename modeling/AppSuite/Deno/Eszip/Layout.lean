import AppSuite.Deno.Eszip.Data
import AppSuite.Deno.Eszip.NpmSection

/-!
This module contains the layout of the data of an archive.
-/

namespace Deno.Eszip

open List EszipV2Module OrderedMap

open ByteReader (toBe32)

variable (name : SlotName) (module : EszipV2Module)

def EszipV2Module.ReadyAt : Prop :=
  ∀ slot, module.slot name = some slot → ∃ bytes, slot = .ready bytes

def EszipV2Module.data : Bytes :=
  match module.slot name with
  | some (.ready bytes) => bytes
  | _ => []

def listedSlot (offset : Nat) (data : Bytes) : EszipV2SourceSlot :=
  if data = [] then .ready [] else .pending offset data.length

def EszipV2Module.listSlot (offset : Nat) (module : EszipV2Module) : EszipV2Module :=
  module.setSlot name (listedSlot offset (module.data name))

def dataBlock (hashes : Hashes) (checksum : Checksum) (data : Bytes) : Bytes :=
  if data = [] then [] else data ++ checksum.hash hashes data

section Slot

variable {name other : SlotName} {module : EszipV2Module}

theorem setSlot_setSlot (slot slot' : EszipV2SourceSlot)
    : (module.setSlot name slot).setSlot name slot' = module.setSlot name slot' := by
  cases module with
  | redirect target => rfl
  | module kind source sourceMap =>
    cases name with
    | source | sourceMap => rfl

theorem setSlot_eq_self {slot : EszipV2SourceSlot} (h : module.slot name = some slot)
    : module.setSlot name slot = module := by
  cases module with
  | redirect target => rfl
  | module kind source sourceMap =>
    cases name with
    | source | sourceMap =>
      cases h
      rfl

theorem slot_listSlot_of_ne (h : other ≠ name) (offset : Nat)
    : (module.listSlot name offset).slot other = module.slot other :=
  slot_setSlot_of_ne h _ module

theorem data_listSlot_of_ne (h : other ≠ name) (offset : Nat)
    : (module.listSlot name offset).data other = module.data other := by
  unfold data
  rw [slot_listSlot_of_ne h]

theorem data_of_ready (h : module.slot name = some (.ready bytes)) : module.data name = bytes := by
  rw [data, h]

theorem slot_of_data_ne_nil (h : module.data name ≠ []) : module.slot name = some (.ready (module.data name)) := by
  unfold data at h ⊢
  split at h
  . next bytes hslot =>
    rw [hslot]
  . exact absurd rfl h

theorem listSlot_of_data_eq_nil (hready : module.ReadyAt name) (h : module.data name = []) (offset : Nat)
    : module.listSlot name offset = module := by
  rw [listSlot, h, listedSlot, if_pos rfl]
  cases hslot : module.slot name with
  | none =>
    cases module with
    | redirect target => rfl
    | module kind source sourceMap =>
      cases name with
      | source | sourceMap => cases hslot
  | some slot =>
    obtain ⟨bytes, rfl⟩ := hready slot hslot
    rw [data_of_ready hslot] at h
    rw [h] at hslot
    exact setSlot_eq_self hslot

theorem slot_listSlot_of_data_ne_nil (h : module.data name ≠ []) (offset : Nat)
    : (module.listSlot name offset).slot name = some (.pending offset (module.data name).length) := by
  rw [listSlot, slot_setSlot (slot_of_data_ne_nil h), listedSlot, if_neg h]

theorem setSlot_listSlot (h : module.data name ≠ []) (offset : Nat)
    : (module.listSlot name offset).setSlot name (.ready (module.data name)) = module := by
  rw [listSlot, setSlot_setSlot]
  exact setSlot_eq_self (slot_of_data_ne_nil h)

end Slot

def listSlots (hashes : Hashes) (checksum : Checksum) (name : SlotName)
    : (offset : Nat) → List (Str × EszipV2Module) → List (Str × EszipV2Module)
  | _, [] => []
  | offset, (specifier, module) :: entries =>
    (specifier, module.listSlot name offset) ::
      listSlots hashes checksum name (offset + (dataBlock hashes checksum (module.data name)).length) entries

def dataBlocks (hashes : Hashes) (checksum : Checksum) (name : SlotName) (entries : List (Str × EszipV2Module))
    : Bytes :=
  entries.flatMap fun entry => dataBlock hashes checksum (entry.2.data name)

section Slots

variable {hashes : Hashes} {checksum : Checksum} {name other : SlotName} {offset : Nat}
  {entries : List (Str × EszipV2Module)}

theorem length_dataBlock (hashes : Hashes) (checksum : Checksum) {data : Bytes} (h : data ≠ [])
    : (dataBlock hashes checksum data).length = data.length + checksum.digestSize.toNat := by
  rw [dataBlock, if_neg h, length_append, Checksum.length_hash]

theorem dataBlocks_cons (specifier : Str) (module : EszipV2Module)
    : dataBlocks hashes checksum name ((specifier, module) :: entries)
      = dataBlock hashes checksum (module.data name) ++ dataBlocks hashes checksum name entries := by
  rfl

theorem map_fst_listSlots
    : (listSlots hashes checksum name offset entries).map Prod.fst = entries.map Prod.fst := by
  induction entries generalizing offset with
  | nil => rfl
  | cons entry entries ih =>
    rw [listSlots, map_cons, map_cons, ih]

theorem exists_of_mem_listSlots
    (h : entry ∈ listSlots hashes checksum name offset entries)
    : ∃ module at_, (entry.1, module) ∈ entries ∧ entry.2 = listSlot name at_ module ∧
      at_ + (dataBlock hashes checksum (module.data name)).length
        ≤ offset + (dataBlocks hashes checksum name entries).length := by
  induction entries generalizing offset with
  | nil => cases h
  | cons head entries ih =>
    obtain ⟨specifier, module⟩ := head
    rw [dataBlocks_cons, length_append]
    cases h with
    | head => exact ⟨module, offset, mem_cons_self, rfl, by omega⟩
    | tail _ h =>
      obtain ⟨module', at_, hmem, heq, hle⟩ := ih h
      exact ⟨module', at_, mem_cons_of_mem _ hmem, heq, by omega⟩

theorem filterMap_pendingBlock_listSlots_of_ne (h : other ≠ name)
    : (listSlots hashes checksum name offset entries).filterMap (pendingBlock other)
      = entries.filterMap (pendingBlock other) := by
  induction entries generalizing offset with
  | nil => rfl
  | cons entry entries ih =>
    rw [listSlots, filterMap_cons, filterMap_cons, ih]
    simp only [pendingBlock, slot_listSlot_of_ne h]

theorem dataBlocks_listSlots_of_ne (h : other ≠ name)
    : dataBlocks hashes checksum other (listSlots hashes checksum name offset entries)
      = dataBlocks hashes checksum other entries := by
  induction entries generalizing offset with
  | nil => rfl
  | cons entry entries ih =>
    rw [listSlots, dataBlocks_cons, dataBlocks_cons, ih, data_listSlot_of_ne h]

variable {module : EszipV2Module}

theorem pendingBlock_listSlot_eq_none (hready : module.ReadyAt name) (h : module.data name = [])
    (specifier : Str)
    : pendingBlock name (specifier, module.listSlot name offset) = none := by
  rw [listSlot_of_data_eq_nil hready h]
  unfold pendingBlock
  split
  . next hslot =>
    obtain ⟨bytes, hbytes⟩ := hready _ hslot
    cases hbytes
  . rfl

theorem pendingBlock_listSlot_eq_some (h : module.data name ≠ []) (specifier : Str)
    : pendingBlock name (specifier, module.listSlot name offset)
      = some (offset, (module.data name).length, specifier) := by
  simp only [pendingBlock, slot_listSlot_of_data_ne_nil h]

theorem tiled_listSlots (hashes : Hashes) (checksum : Checksum) (offset : Nat)
    (hready : ∀ entry ∈ entries, entry.2.ReadyAt name)
    : Tiled checksum.digestSize.toNat (offset + (dataBlocks hashes checksum name entries).length) offset
      ((listSlots hashes checksum name offset entries).filterMap (pendingBlock name)) := by
  induction entries generalizing offset with
  | nil => exact Nat.le_refl _
  | cons entry entries ih =>
    obtain ⟨specifier, module⟩ := entry
    rw [forall_mem_cons] at hready
    rw [listSlots, dataBlocks_cons, length_append, ← Nat.add_assoc]
    by_cases hdata : module.data name = []
    . rw [filterMap_cons_none (pendingBlock_listSlot_eq_none hready.1 hdata specifier), dataBlock,
        if_pos hdata]
      exact ih _ hready.2
    . have hpos := length_pos_of_ne_nil hdata
      rw [filterMap_cons_some (pendingBlock_listSlot_eq_some hdata specifier), length_dataBlock hashes checksum hdata]
      exact ⟨by omega, rfl, by omega, ih _ hready.2⟩

end Slots

section Writing

variable {hashes : Hashes} {checksum : Checksum}

def listed (hashes : Hashes) (checksum : Checksum) (sourceOffset sourceMapOffset : Nat)
    (entries : List (Str × EszipV2Module))
    : List (Str × EszipV2Module) :=
  listSlots hashes checksum .source sourceOffset (listSlots hashes checksum .sourceMap sourceMapOffset entries)

def headerEntry (entry : Str × EszipV2Module) : HeaderEntry := .module entry.1 entry.2

theorem writeData_eq {data : Bytes} (h : data.length < 2 ^ 32) (written : Bytes)
    : writeData hashes checksum data written
      = ((listedSlot written.length data).place, written ++ dataBlock hashes checksum data) := by
  unfold writeData
  rw [Nat.mod_eq_of_lt h, listedSlot, dataBlock]
  by_cases hnil : data = []
  . rw [hnil, if_neg (by simp), if_pos rfl, if_pos rfl, append_nil]
    rfl
  . rw [if_pos (length_pos_of_ne_nil hnil), if_neg hnil, if_neg hnil, append_assoc]
    rfl

def EszipV2Module.Ready : Prop := ∀ name, module.ReadyAt name

theorem writeModule_eq {specifier : Str} {module : EszipV2Module} (hready : module.Ready)
    (hfits : ∀ name, (module.data name).length < 2 ^ 32) (w : Written)
    : writeModule hashes checksum w (specifier, module) = .ok
        { header := w.header ++ (headerEntry (specifier,
            (module.listSlot .sourceMap w.sourceMaps.length).listSlot .source w.sources.length)).bytes
          sources := w.sources ++ dataBlock hashes checksum (module.data .source)
          sourceMaps := w.sourceMaps ++ dataBlock hashes checksum (module.data .sourceMap) } := by
  cases module with
  | redirect target =>
    have hnil (name : SlotName) : (redirect target).data name = [] := rfl
    simp only [writeModule, hnil, dataBlock, if_true, append_nil, append_assoc]
    rfl
  | module kind source sourceMap =>
    obtain ⟨bytes, rfl⟩ := hready .source source rfl
    obtain ⟨bytes', rfl⟩ := hready .sourceMap sourceMap rfl
    have hsource : bytes.length < 2 ^ 32 := hfits .source
    have hsourceMap : bytes'.length < 2 ^ 32 := hfits .sourceMap
    rw [writeModule]
    dsimp only
    rw [EszipV2SourceSlot.bytes, ok_bind, writeData_eq hsource]
    rw [EszipV2SourceSlot.bytes, ok_bind, writeData_eq hsourceMap]
    simp only [append_assoc]
    rfl

theorem foldlM_writeModule {entries : List (Str × EszipV2Module)} (hready : ∀ entry ∈ entries, entry.2.Ready)
    (hfits : ∀ entry ∈ entries, ∀ name, (entry.2.data name).length < 2 ^ 32) (w : Written)
    : entries.foldlM (writeModule hashes checksum) w = .ok
        { header := w.header ++ ((listed hashes checksum w.sources.length w.sourceMaps.length entries).map
            headerEntry).flatMap HeaderEntry.bytes
          sources := w.sources ++ dataBlocks hashes checksum .source entries
          sourceMaps := w.sourceMaps ++ dataBlocks hashes checksum .sourceMap entries } := by
  induction entries generalizing w with
  | nil =>
    simp only [listed, listSlots, dataBlocks, map_nil, flatMap_nil, append_nil]
    rfl
  | cons entry entries ih =>
    obtain ⟨specifier, module⟩ := entry
    rw [forall_mem_cons] at hready hfits
    rw [ExceptFold.foldlM_cons_of_ok (writeModule_eq hready.1 hfits.1 w), ih hready.2 hfits.2]
    rw [listed, listed, listSlots, listSlots, data_listSlot_of_ne (by decide), dataBlocks_cons, dataBlocks_cons,
      map_cons, flatMap_cons]
    simp only [length_append, append_assoc]

end Writing

section Listing

variable {hashes : Hashes} {checksum : Checksum} {entries : List (Str × EszipV2Module)}

variable {name : SlotName} {offset : Nat}

theorem slot_listed_of_mem (hready : ∀ entry ∈ entries, entry.2.ReadyAt name)
    (hfits : offset + (dataBlocks hashes checksum name entries).length < 2 ^ 32)
    {entry : Str × EszipV2Module} (hmem : entry ∈ listSlots hashes checksum name offset entries)
    {slot : EszipV2SourceSlot} (hslot : entry.2.slot name = some slot)
    : slot.Listed := by
  obtain ⟨module, at_, hmodule, heq, hle⟩ := exists_of_mem_listSlots hmem
  rw [heq] at hslot
  by_cases hdata : module.data name = []
  . have hmodule := hready _ hmodule
    rw [listSlot_of_data_eq_nil hmodule hdata] at hslot
    obtain ⟨bytes, rfl⟩ := hmodule slot hslot
    exact (data_of_ready hslot).symm.trans hdata
  . rw [slot_listSlot_of_data_ne_nil hdata] at hslot
    rw [length_dataBlock hashes checksum hdata] at hle
    cases hslot
    have hpos := length_pos_of_ne_nil hdata
    exact ⟨by omega, by omega, hpos⟩

theorem readyAt_listSlots {other : SlotName} (hne : other ≠ name)
    (hready : ∀ entry ∈ entries, entry.2.ReadyAt other)
    : ∀ entry ∈ listSlots hashes checksum name offset entries, entry.2.ReadyAt other := by
  intro entry hmem slot hslot
  obtain ⟨module, at_, hmodule, heq, _⟩ := exists_of_mem_listSlots hmem
  rw [heq, slot_listSlot_of_ne hne] at hslot
  exact hready _ hmodule slot hslot

theorem headerEntry_listed {sourceOffset sourceMapOffset : Nat} (hready : ∀ entry ∈ entries, entry.2.Ready)
    (hheader : (((listed hashes checksum sourceOffset sourceMapOffset entries).map headerEntry).flatMap
      HeaderEntry.bytes).length < 2 ^ 32)
    (hsources : sourceOffset + (dataBlocks hashes checksum .source entries).length < 2 ^ 32)
    (hsourceMaps : sourceMapOffset + (dataBlocks hashes checksum .sourceMap entries).length < 2 ^ 32)
    : ∀ entry ∈ (listed hashes checksum sourceOffset sourceMapOffset entries).map headerEntry, entry.Listed := by
  intro entry hmem
  have hlen := length_le_flatMap hmem HeaderEntry.bytes
  obtain ⟨⟨specifier, module⟩, hlisted, rfl⟩ := mem_map.mp hmem
  rw [headerEntry, HeaderEntry.bytes, length_append] at hlen
  refine ⟨fitsU32_of_length_le (Nat.le_refl _) (by omega), ?_⟩
  cases module with
  | redirect target =>
    rw [frame, length_append] at hlen
    exact fitsU32_of_length_le (Nat.le_refl _) (by omega)
  | module kind source sourceMap =>
    constructor
    . apply slot_listed_of_mem _ _ hlisted (rfl : _ = some source)
      . apply readyAt_listSlots (by decide)
        exact fun entry hentry => hready entry hentry .source
      . rw [dataBlocks_listSlots_of_ne (by decide)]
        exact hsources
    . obtain ⟨module, at_, hmodule, heq, _⟩ := exists_of_mem_listSlots hlisted
      have hslot : module.slot .sourceMap = some sourceMap := by
        have hne : SlotName.sourceMap ≠ .source := by decide
        rw [← slot_listSlot_of_ne hne at_, ← heq]
        rfl
      exact slot_listed_of_mem (fun entry hentry => hready entry hentry .sourceMap) hsourceMaps hmodule hslot

end Listing

section Filling

variable {hashes : Hashes} {checksum : Checksum} {name : SlotName} {entries : List (Str × EszipV2Module)}

variable {modules : EszipV2Modules} {before : List (Str × EszipV2Module)} {offsets : Offsets}

theorem populate_listSlot {after : List (Str × EszipV2Module)} {specifier : Str} {module : EszipV2Module}
    {offset : Nat}
    (hentries : modules.entries = before ++ (specifier, module.listSlot name offset) :: after)
    (hdata : module.data name ≠ [])
    : ∃ modules', populate name modules specifier (module.data name) = .ok modules' ∧
      modules'.entries = before ++ (specifier, module) :: after := by
  have hmem : (specifier, module.listSlot name offset) ∈ modules.entries := by
    rw [hentries]
    exact mem_append_right _ mem_cons_self
  have hnot : specifier ∉ before.map Prod.fst := by
    have hnodup := modules.nodup
    rw [hentries, map_append, map_cons] at hnodup
    intro hk
    exact disjoint_of_nodup_append hnodup hk mem_cons_self
  refine ⟨modules.set specifier module, ?_, ?_⟩
  . rw [populate, get?_eq_some_iff.mpr hmem]
    dsimp only
    rw [slot_listSlot_of_data_ne_nil hdata]
    rw [setSlot_listSlot hdata]
  . calc (modules.set specifier module).entries
        _ = setEntry specifier module modules.entries := rfl
        _ = before ++ (specifier, module) :: after := by
          rw [hentries, setEntry_append_cons hnot]

theorem readBlocks_listSlots {total read : Nat} (hready : ∀ entry ∈ entries, entry.2.ReadyAt name)
    (htotal : total = read + (dataBlocks hashes checksum name entries).length)
    (hoffsets : ∀ block ∈ (listSlots hashes checksum name read entries).filterMap (pendingBlock name), offsets.get? block.1 = some block.2)
    {fuel : Nat} (hfuel : offsets.keys.length < fuel)
    (hentries : modules.entries = before ++ listSlots hashes checksum name read entries) (rest : Bytes)
    : ∃ modules',
      readBlocks hashes name (.of checksum) total fuel read offsets modules
        (dataBlocks hashes checksum name entries ++ rest) = .ok (modules', rest) ∧
      modules'.entries = before ++ entries := by
  induction entries generalizing read offsets fuel modules before with
  | nil =>
    obtain ⟨fuel, rfl⟩ := Nat.exists_eq_succ_of_ne_zero (Nat.ne_of_gt (Nat.zero_lt_of_lt hfuel))
    refine ⟨modules, ?_, hentries⟩
    rw [readBlocks, if_neg (by rw [htotal]; exact Nat.lt_irrefl _)]
    rfl
  | cons entry entries ih =>
    obtain ⟨specifier, module⟩ := entry
    have htiled := tiled_listSlots hashes checksum read hready
    rw [forall_mem_cons] at hready
    rw [dataBlocks_cons, length_append, ← Nat.add_assoc] at htotal htiled
    rw [listSlots] at hoffsets hentries htiled
    rw [dataBlocks_cons, append_assoc]
    by_cases hdata : module.data name = []
    . -- an empty slot is not listed, and the loop does not notice it
      rw [filterMap_cons_none (pendingBlock_listSlot_eq_none hready.1 hdata specifier)] at hoffsets
      rw [listSlot_of_data_eq_nil hready.1 hdata] at hentries
      have hblock : dataBlock hashes checksum (module.data name) = [] := by rw [dataBlock, if_pos hdata]
      rw [hblock] at htotal hoffsets hentries ⊢
      have hsplit : before ++ (specifier, module) :: entries = (before ++ [(specifier, module)]) ++ entries := by
        simp
      rw [hsplit]
      apply ih hready.2 htotal hoffsets hfuel
      rw [hentries]
      simp
    . rw [filterMap_cons_some (pendingBlock_listSlot_eq_some hdata specifier)] at hoffsets htiled
      rw [forall_mem_cons] at hoffsets
      obtain ⟨hget, hoffsets⟩ := hoffsets
      dsimp only at hget
      obtain ⟨hlt, _, hpos, htail⟩ := htiled
      obtain ⟨modules', hpopulate, hentries'⟩ := populate_listSlot hentries hdata
      have hkeys := length_keys_delete_lt hget
      have hlen := length_dataBlock hashes checksum hdata
      obtain ⟨fuel, rfl⟩ := Nat.exists_eq_succ_of_ne_zero (Nat.ne_of_gt (Nat.zero_lt_of_lt hfuel))
      have hread := Section.readWithSize_append (rfl : (Options.of checksum).getChecksumSize = _)
        (checksum.length_hash hashes (module.data name)) (module.data name)
        (dataBlocks hashes checksum name entries ++ rest)
      rw [hlen] at htotal hlt hentries' hoffsets htail
      have hoffsets' : ∀ block ∈ (listSlots hashes checksum name
          (read + ((module.data name).length + checksum.digestSize.toNat)) entries).filterMap (pendingBlock name),
          (offsets.delete read).get? block.1 = some block.2 := by
        intro block hmem
        have hle := htail.le_offset block hmem
        rw [get?_delete, if_neg (by omega)]
        exact hoffsets block hmem
      rw [← singleton_append, ← append_assoc] at hentries'
      have hfuel' : (offsets.delete read).keys.length < fuel := by omega
      obtain ⟨final, hrun, hfinal⟩ := ih hready.2 htotal hoffsets' hfuel' hentries'
      refine ⟨final, ?_, by rw [hfinal, append_assoc]; rfl⟩
      rw [readBlocks, if_pos (by omega), hget]
      dsimp only
      rw [dataBlock, if_neg hdata, append_assoc, hread, ok_bind]
      rw [if_pos ((Section.isChecksumValid_iff rfl).mpr rfl), hpopulate, ok_bind, Section.totalLen]
      rw [Checksum.length_hash]
      exact hrun

theorem readSlots_listSlots (hready : ∀ entry ∈ entries, entry.2.ReadyAt name)
    (hentries : modules.entries = listSlots hashes checksum name 0 entries)
    (hoffsets : offsets = empty.extend ((listSlots hashes checksum name 0 entries).filterMap (pendingBlock name)))
    (rest : Bytes)
    : ∃ modules',
      readSlots hashes name (.of checksum) offsets modules (dataBlocks hashes checksum name entries).length
        (dataBlocks hashes checksum name entries ++ rest) = .ok (modules', rest) ∧
      modules'.entries = entries := by
  have htiled := tiled_listSlots hashes checksum 0 hready
  have hfunctional : Functional
      ((listSlots hashes checksum name 0 entries).filterMap (pendingBlock name)) := by
    intro offset block block' hmem hmem'
    exact (Prod.mk.inj (htiled.eq_of_offset_eq hmem hmem' rfl)).2
  have hget : ∀ block ∈ (listSlots hashes checksum name 0 entries).filterMap (pendingBlock name),
      offsets.get? block.1 = some block.2 := by
    rintro ⟨offset, block⟩ hmem
    rw [hoffsets]
    exact (get?_extend_empty_iff hfunctional offset block).mpr hmem
  rw [← nil_append (listSlots hashes checksum name 0 entries)] at hentries
  exact readBlocks_listSlots hready (Nat.zero_add _).symm hget (Nat.lt_succ_self _) hentries rest

end Filling

end Deno.Eszip
