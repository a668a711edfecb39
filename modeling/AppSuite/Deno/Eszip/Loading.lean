import AppSuite.Data.ExceptFold
import AppSuite.Deno.Eszip.Parse

/-!
This module contains what loading an archive from any bytes does.
-/

namespace Deno.Eszip

open ExceptFold (Ends)

variable {α β Id Req : Type}

abbrev Yields (post : α → Prop) (x : Result α) : Prop := Ends (· ≠ Fault.panic) post x

variable {post : α → Prop} {options : Options} {header : Header}

theorem yields_fail (err : ParseError) : Yields post (fail err) := by
  intro h
  cases h

variable {x : Result α} {size : UInt8} {fuel : Nat}

theorem Yields.ne_panic (h : Yields post x) : x ≠ panic := by
  rintro rfl
  exact h rfl

theorem Yields.of_ok (h : Yields post x) (hx : x = .ok a) : post a := by
  subst hx
  exact h

theorem readExact_yields (reader : Bytes) (n : Nat)
    : Yields (fun r => r.1.length = n ∧ reader = r.1 ++ r.2) (readExact reader n) := by
  unfold readExact
  split
  . next read hread => exact ByteReader.take?_eq_some_iff.mp hread
  . apply yields_fail

theorem readU32_yields (reader : Bytes) : Yields (fun _ => True) (readU32 reader) := by
  apply (readExact_yields reader 4).bind
  intro r _
  trivial

structure ReadOf (options : Options) (len : Nat) (size : UInt8) (s : Section) : Prop where
  options_eq : s.options = options
  length_content : s.content.length = len
  length_checksumHash : s.checksumHash.length = size.toNat

theorem Section.readWithSize_yields (h : options.getChecksumSize = some size) (reader : Bytes) (len : Nat)
    : Yields (fun r => ReadOf options len size r.1) (readWithSize reader options len) := by
  unfold readWithSize
  rw [h]
  apply (readExact_yields reader (len + size.toNat)).bind
  rintro ⟨body, rest⟩ ⟨hlen, _⟩
  dsimp only at hlen
  refine ⟨rfl, ?_, ?_⟩
  . exact List.length_take_of_le (by omega)
  . rw [List.length_drop]
    omega

theorem Section.read_yields (h : options.getChecksumSize = some size) (reader : Bytes)
    : Yields (fun r => ∃ len, ReadOf options len size r.1) (read reader options) := by
  apply (readU32_yields reader).bind
  rintro ⟨len, rest⟩ _
  exact (readWithSize_yields h rest len).mono fun _ hread => ⟨len, hread⟩

def Options.Sized (options : Options) : Prop := ∃ size, options.getChecksumSize = some size

theorem applyOptions_yields {content : Bytes} (h : content.length % 2 = 0) (options : Options)
    : Yields (fun _ => True) (applyOptions content options) := by
  induction content, options using applyOptions.induct with
  | case1 options => trivial
  | case2 options byte => simp at h
  | case3 options option value rest ih =>
    apply ih
    rw [List.length_cons, List.length_cons] at h
    omega

section

variable (hashes : Hashes) (content : Bytes) (options : Options) (reader : Bytes)

theorem checkOptionsHeader_yields
    : Yields (fun r => r.1.Sized) (checkOptionsHeader hashes content options reader) := by
  unfold checkOptionsHeader
  split
  . apply yields_fail
  . next size hsize =>
    split
    . apply (Section.readWithSize_yields hsize _ _).bind
      intro r _
      dsimp only
      split
      . exact ⟨size, hsize⟩
      . apply yields_fail
    . exact ⟨size, hsize⟩

theorem readOptionsHeader_yields
    : Yields (fun r => r.1.Sized) (readOptionsHeader hashes options reader) := by
  apply (Section.read_yields rfl reader).bind
  rintro ⟨header, rest⟩ _
  dsimp only
  split
  . apply yields_fail
  . next heven =>
    apply (applyOptions_yields (by omega) options).bind
    intro options' _
    apply checkOptionsHeader_yields

theorem readOptions_yields (version : EszipVersion) (reader : Bytes)
    : Yields (fun r => r.1.Sized) (readOptions hashes version reader) := by
  unfold readOptions
  split
  . apply readOptionsHeader_yields
  . next hsupports =>
    cases version with
    | v2 | v2_1 => exact ⟨32, rfl⟩
    | v2_2 | v2_3 => exact absurd rfl hsupports

end

namespace Cursor

variable (c : Cursor) (n : Nat) (what : String)

theorem take_yields
    : Yields (fun r => r.1.length = n ∧ c.rest.length = n + r.2.rest.length) (c.take n what) := by
  unfold take
  split
  . next bytes rest htake =>
    obtain ⟨hlen, hrest⟩ := ByteReader.take?_eq_some_iff.mp htake
    refine ⟨hlen, ?_⟩
    rw [hrest, List.length_append, hlen]
  . apply yields_fail

theorem takeU32_yields : Yields (fun r => c.rest.length = 4 + r.2.rest.length) (c.takeU32 what) := by
  apply (c.take_yields 4 what).bind
  rintro ⟨bytes, c'⟩ ⟨_, hrest⟩
  exact hrest

theorem takeU8_yields : Yields (fun r => c.rest.length = 1 + r.2.rest.length) (c.takeU8 what) := by
  apply (c.take_yields 1 what).bind
  rintro ⟨bytes, c'⟩ ⟨hlen, hrest⟩
  cases bytes with
  | nil => cases hlen
  | cons byte bytes => exact hrest

theorem takeString_yields (len : Nat) (what : String)
    : Yields (fun r => r.2.rest.length ≤ c.rest.length) (c.takeString len what) := by
  apply (c.take_yields len what).bind
  rintro ⟨bytes, c'⟩ ⟨_, hrest⟩
  dsimp only at hrest ⊢
  split
  . dsimp only [pure, Except.pure, Ends]
    omega
  . apply yields_fail

end Cursor

def EszipV2Module.Untaken (module : EszipV2Module) : Prop := ∀ name, module.slot name ≠ some .taken

theorem slotAt_ne_taken (offset length : Nat) : slotAt offset length ≠ .taken := by
  unfold slotAt
  split
  . simp
  . simp

theorem takeModule_yields (c : Cursor)
    : Yields (fun r => r.1.Untaken ∧ r.2.rest.length ≤ c.rest.length) (takeModule c) := by
  apply (c.takeU32_yields _).bind
  rintro ⟨sourceOffset, c₁⟩ h₁
  apply (c₁.takeU32_yields _).bind
  rintro ⟨sourceLen, c₂⟩ h₂
  apply (c₂.takeU32_yields _).bind
  rintro ⟨sourceMapOffset, c₃⟩ h₃
  apply (c₃.takeU32_yields _).bind
  rintro ⟨sourceMapLen, c₄⟩ h₄
  apply (c₄.takeU8_yields _).bind
  rintro ⟨kind, c₅⟩ h₅
  dsimp only at h₁ h₂ h₃ h₄ h₅ ⊢
  split
  . apply yields_fail
  . constructor
    . rintro (_ | _)
      . simp [EszipV2Module.slot, slotAt_ne_taken]
      . simp [EszipV2Module.slot, slotAt_ne_taken]
    . dsimp only
      omega

theorem takeRedirect_yields (c : Cursor)
    : Yields (fun r => r.1.Untaken ∧ r.2.rest.length ≤ c.rest.length) (takeRedirect c) := by
  apply (c.takeU32_yields _).bind
  rintro ⟨targetLen, c₁⟩ h₁
  apply (c₁.takeString_yields _ _).bind
  rintro ⟨target, c₂⟩ h₂
  dsimp only at h₁ h₂ ⊢
  constructor
  . intro name
    simp [EszipV2Module.slot]
  . dsimp only
    omega

def Untaken (modules : EszipV2Modules) : Prop :=
  ∀ specifier module, modules.get? specifier = some module → module.Untaken

theorem untaken_insertModule (h : Untaken header.modules)
    (hmodule : module.Untaken) (specifier : Str)
    : Untaken (header.insertModule specifier module).modules := by
  intro specifier' module' hget
  rw [Header.insertModule, OrderedMap.get?_pushBack] at hget
  split at hget
  . cases hget
    exact hmodule
  . exact h specifier' module' hget

variable (supportsNpm : Bool) (specifier : Str) (c : Cursor)

theorem takeFrame_yields (h : Untaken header.modules)
    : Yields (fun r => Untaken r.1.modules ∧ r.2.rest.length < c.rest.length)
      (takeFrame supportsNpm specifier c header) := by
  apply (c.takeU8_yields _).bind
  rintro ⟨entryKind, c₁⟩ h₁
  dsimp only at h₁ ⊢
  split
  . apply (takeModule_yields c₁).bind
    rintro ⟨module, c₂⟩ ⟨huntaken, h₂⟩
    refine ⟨untaken_insertModule h huntaken specifier, ?_⟩
    dsimp only at h₂ ⊢
    omega
  . apply (takeRedirect_yields c₁).bind
    rintro ⟨module, c₂⟩ ⟨huntaken, h₂⟩
    refine ⟨untaken_insertModule h huntaken specifier, ?_⟩
    dsimp only at h₂ ⊢
    omega
  . split
    . apply (c₁.takeU32_yields _).bind
      rintro ⟨index, c₂⟩ h₂
      refine ⟨h, ?_⟩
      dsimp only at h₂ ⊢
      omega
    . apply yields_fail
  . apply yields_fail

theorem takeEntry_yields (h : Untaken header.modules)
    : Yields (fun r => Untaken r.1.modules ∧ r.2.rest.length < c.rest.length)
      (takeEntry supportsNpm c header) := by
  apply (c.takeU32_yields _).bind
  rintro ⟨specifierLen, c₁⟩ h₁
  apply (c₁.takeString_yields _ _).bind
  rintro ⟨specifier, c₂⟩ h₂
  apply (takeFrame_yields supportsNpm specifier c₂ h).mono
  rintro ⟨header', c₃⟩ ⟨huntaken, h₃⟩
  refine ⟨huntaken, ?_⟩
  dsimp only at h₁ h₂ h₃ ⊢
  omega

theorem takeEntries_yields {c : Cursor} (hfuel : c.rest.length ≤ fuel) (h : Untaken header.modules)
    : Yields (fun header => Untaken header.modules) (takeEntries supportsNpm fuel c header) := by
  induction fuel generalizing c header with
  | zero =>
    rw [takeEntries, if_pos (List.length_eq_zero_iff.mp (by omega))]
    exact h
  | succ fuel ih =>
    unfold takeEntries
    split
    . exact h
    . apply (takeEntry_yields supportsNpm c h).bind
      rintro ⟨header', c'⟩ ⟨huntaken, hlt⟩
      dsimp only at hlt
      exact ih (by omega) huntaken

theorem readHeader_yields (hashes : Hashes) (supportsNpm : Bool) (h : options.Sized) (reader : Bytes)
    : Yields (fun r => Untaken r.1.modules) (readHeader hashes supportsNpm options reader) := by
  obtain ⟨size, hsize⟩ := h
  apply (Section.read_yields hsize reader).bind
  rintro ⟨modulesHeader, rest⟩ _
  dsimp only
  split
  . have hempty : Untaken Header.empty.modules := by
      intro specifier module hget
      cases hget
    have hentries := takeEntries_yields supportsNpm (c := { read := 0, rest := modulesHeader.content })
      (Nat.le_refl _) hempty
    apply hentries.bind
    intro header huntaken
    exact huntaken
  . apply yields_fail

variable (input : Bytes) (n : Nat)

abbrev Consumes (x : Except IoError (Bytes × α)) : Prop :=
  Ends (fun _ => True) (fun r => n + r.1.length ≤ input.length) x

theorem moveBytes_consumes (bytes : Bytes) (len : Nat) : Consumes bytes len (moveBytes bytes len) := by
  unfold moveBytes
  split
  . next moved rest htake =>
    obtain ⟨hlen, hbytes⟩ := ByteReader.take?_eq_some_iff.mp htake
    show len + rest.length ≤ bytes.length
    rw [hbytes, List.length_append, hlen]
  . trivial

theorem parseU32_consumes : Consumes input 4 (parseU32 input) := by
  apply (moveBytes_consumes input 4).bind
  intro r h
  exact h

theorem parseString_consumes : Consumes input 4 (parseString input) := by
  apply (parseU32_consumes input).bind
  rintro ⟨input₁, size⟩ h₁
  apply (moveBytes_consumes input₁ size).bind
  rintro ⟨input₂, name⟩ h₂
  dsimp only at h₁ h₂ ⊢
  split
  . dsimp only [pure, Except.pure, Ends]
    omega
  . trivial

theorem parseDependency_consumes : Consumes input 0 (parseDependency input) := by
  apply (parseString_consumes input).bind
  rintro ⟨input₁, name⟩ h₁
  apply (parseU32_consumes input₁).bind
  rintro ⟨input₂, index⟩ h₂
  dsimp only [pure, Except.pure, Ends] at h₁ h₂ ⊢
  omega

theorem parseDependencies_consumes (input : Bytes) (deps : OrderedMap Str Nat)
    : Consumes input 0 (parseDependencies n input deps) := by
  induction n generalizing input deps with
  | zero =>
    exact Nat.le_of_eq (Nat.zero_add _)
  | succ n ih =>
    apply (parseDependency_consumes input).bind
    rintro ⟨input₁, name, index⟩ h₁
    apply (ih input₁ (deps.set name index)).mono
    rintro ⟨input₂, deps'⟩ h₂
    dsimp only at h₁ h₂ ⊢
    omega

theorem EszipNpmModule.parse_consumes : Consumes input 1 (EszipNpmModule.parse input) := by
  apply (parseString_consumes input).bind
  rintro ⟨input₁, name⟩ h₁
  apply (parseU32_consumes input₁).bind
  rintro ⟨input₂, depSize⟩ h₂
  apply (parseDependencies_consumes depSize input₂ .empty).bind
  rintro ⟨input₃, deps⟩ h₃
  dsimp only [pure, Except.pure, Ends] at h₁ h₂ h₃ ⊢
  omega

theorem parseNpmModules_yields {read : Nat} {bytes : Bytes} (hfuel : bytes.length ≤ fuel)
    : Yields (fun _ => True) (parseNpmModules fuel read bytes) := by
  induction fuel generalizing read bytes with
  | zero =>
    rw [List.length_eq_zero_iff.mp (Nat.le_zero.mp hfuel)]
    trivial
  | succ fuel ih =>
    cases bytes with
    | nil => trivial
    | cons byte bytes =>
      unfold parseNpmModules
      have hparse := EszipNpmModule.parse_consumes (byte :: bytes)
      split
      . apply yields_fail
      . next rest module heq =>
        rw [heq] at hparse
        have hlt : 1 + rest.length ≤ (byte :: bytes).length := hparse
        apply (ih (by omega)).bind
        intro modules _
        trivial

theorem packageId_yields (npm : NpmTexts Id Req) (module : EszipNpmModule)
    : Yields (fun _ => True) (packageId npm module) := by
  unfold packageId
  split
  . trivial
  . apply yields_fail

theorem finalPackage_yields (h : module.2 < ids.length)
    : Yields (fun _ => True) (finalPackage ids module) := by
  unfold finalPackage
  rw [List.getElem?_eq_getElem h]
  have hdeps : Yields (fun _ => True)
      (module.1.dependencies.entries.foldlM (resolveDependency ids module.1.name) .empty) := by
    apply Ends.foldlM
    . intro deps dep _ _
      unfold resolveDependency
      split
      . trivial
      . apply yields_fail
    . trivial
  apply hdeps.bind
  intro dependencies _
  trivial

theorem resolveSnapshot_yields [DecidableEq Req] (npm : NpmTexts Id Req) (modules : List EszipNpmModule)
    (npmSpecifiers : OrderedMap Str Nat)
    : Yields (fun _ => True) (resolveSnapshot npm modules npmSpecifiers) := by
  apply (Ends.mapM fun module _ => packageId_yields npm module).bind
  intro ids hids
  have hpackages : Yields (fun _ => True) (modules.zipIdx.mapM (finalPackage ids)) := by
    apply (Ends.mapM (R := fun _ _ => True) _).mono
    . intro _ _
      trivial
    . intro module hmem
      have hlt := List.snd_lt_of_mem_zipIdx hmem
      rw [Nat.add_zero, hids.length_eq] at hlt
      exact finalPackage_yields hlt
  apply hpackages.bind
  intro packages _
  have hroots : Yields (fun _ => True) (npmSpecifiers.entries.foldlM (resolveRoot npm ids) .empty) := by
    apply Ends.foldlM
    . intro roots specifier _ _
      unfold resolveRoot
      split
      . apply yields_fail
      . split
        . apply yields_fail
        . trivial
    . trivial
  apply hroots.bind
  intro rootPackages _
  trivial

theorem readNpmSection_yields [DecidableEq Req] (hashes : Hashes) (npm : NpmTexts Id Req)
    (h : options.Sized) (npmSpecifiers : OrderedMap Str Nat) (reader : Bytes)
    : Yields (fun _ => True) (readNpmSection hashes npm options npmSpecifiers reader) := by
  obtain ⟨size, hsize⟩ := h
  apply (Section.read_yields hsize reader).bind
  rintro ⟨snapshot, rest⟩ _
  dsimp only
  split
  . split
    . trivial
    . apply (parseNpmModules_yields (Nat.le_refl _)).bind
      intro modules _
      apply (resolveSnapshot_yields npm modules npmSpecifiers).bind
      intro _ _
      trivial
  . apply yields_fail

theorem readSnapshot_yields [DecidableEq Req] (hashes : Hashes) (npm : NpmTexts Id Req) (supportsNpm : Bool)
    (h : options.Sized) (npmSpecifiers : OrderedMap Str Nat) (reader : Bytes)
    : Yields (fun _ => True) (readSnapshot hashes npm supportsNpm options npmSpecifiers reader) := by
  unfold readSnapshot
  split
  . exact readNpmSection_yields hashes npm h npmSpecifiers reader
  . trivial

structure Parsed (archive : EszipV2 Id Req) (future : DataFuture) : Prop where
  sized : archive.options.Sized
  untaken : Untaken archive.modules
  sourceOffsets : future.sourceOffsets = collectOffsets .source archive.modules
  sourceMapOffsets : future.sourceMapOffsets = collectOffsets .sourceMap archive.modules

theorem parse_yields [DecidableEq Req] (hashes : Hashes) (npm : NpmTexts Id Req) (bytes : Bytes)
    : Yields (fun r => Parsed r.1 r.2) (parse hashes npm bytes) := by
  apply (readExact_yields bytes 8).bind
  rintro ⟨magic, reader⟩ _
  dsimp only
  split
  . apply yields_fail
  . next version _ =>
    apply (readOptions_yields hashes version reader).bind
    rintro ⟨options, reader₁⟩ hsized
    apply (readHeader_yields hashes version.supportsNpm hsized reader₁).bind
    rintro ⟨header, reader₂⟩ huntaken
    apply (readSnapshot_yields hashes npm version.supportsNpm hsized header.npmSpecifiers reader₂).bind
    rintro ⟨npmSnapshot, reader₃⟩ _
    exact ⟨hsized, huntaken, rfl, rfl⟩

end Deno.Eszip
