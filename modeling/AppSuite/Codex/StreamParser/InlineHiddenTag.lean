import AppSuite.Codex.StreamParser.StreamText
import AppSuite.Text.Search

/-!
This module contains the parser that hides inline tags from a stream.
-/

namespace Codex.StreamParser

open Text StreamTextChunk

structure ExtractedInlineTag (T : Type) where
  tag : T
  content : Str
  deriving DecidableEq, Repr

-- `new` refuses empty delimiters, so no parser holds a specification with one.
structure InlineTagSpec (T : Type) where
  tag : T
  openDelim : Str
  closeDelim : Str
  openDelim_ne_nil : openDelim ≠ []
  closeDelim_ne_nil : closeDelim ≠ []

structure ActiveTag (T : Type) where
  tag : T
  close : Str
  content : Str
  close_ne_nil : close ≠ []

structure InlineHiddenTagParser (T : Type) where
  specs : List (InlineTagSpec T)
  pending : Str
  active : Option (ActiveTag T)

namespace InlineHiddenTagParser

variable {T : Type} (specs : List (InlineTagSpec T))

def new : InlineHiddenTagParser T := ⟨specs, [], none⟩

def byteLen (s : Str) : Nat := (s.map Char.utf8Size).sum

def foundOpens (pending : Str) : List (Nat × Nat × Fin specs.length) :=
  (List.finRange specs.length).filterMap fun idx =>
    (find? specs[idx].openDelim pending).map fun pos => (pos, byteLen specs[idx].openDelim, idx)

def findNextOpen (pending : Str) : Option (Nat × Fin specs.length) :=
  ((foundOpens specs pending).argmin fun found =>
    toLex (found.1, toLex (OrderDual.toDual found.2.1, found.2.2))).map
      fun found => (found.1, found.2.2)

def maxOpenPrefixSuffixLen (pending : Str) : Nat :=
  (specs.map fun spec => longestSuffixPrefixLen pending spec.openDelim).max?.getD 0

variable {specs : List (InlineTagSpec T)} {pending s : Str} {pos : Nat} {spec : InlineTagSpec T}

variable {idx : Fin specs.length} {p : InlineHiddenTagParser T}

theorem mem_foundOpens
    : (pos, len, idx) ∈ foundOpens specs pending ↔
      find? specs[idx].openDelim pending = some pos ∧ byteLen specs[idx].openDelim = len := by
  simp only [foundOpens, List.mem_filterMap, List.mem_finRange, Option.map_eq_some_iff,
    Prod.mk.injEq, true_and]
  constructor
  . rintro ⟨idx', pos', hfind, hpos, hlen, hidx⟩
    subst hidx hpos
    exact ⟨hfind, hlen⟩
  . rintro ⟨hfind, hlen⟩
    exact ⟨idx, pos, hfind, rfl, hlen, rfl⟩

section

variable (h : findNextOpen specs pending = some (pos, idx))

include h

theorem findNextOpen_eq_some
    : (pos, byteLen specs[idx].openDelim, idx) ∈ (foundOpens specs pending).argmin fun found =>
      toLex (found.1, toLex (OrderDual.toDual found.2.1, found.2.2)) := by
  unfold findNextOpen at h
  rw [Option.map_eq_some_iff] at h
  have ⟨⟨pos', len, idx'⟩, hmin, heq⟩ := h
  simp only [Prod.mk.injEq] at heq
  have ⟨hpos, hidx⟩ := heq
  subst hpos hidx
  rw [(mem_foundOpens.mp (List.argmin_mem hmin)).2]
  exact hmin

theorem find?_of_findNextOpen : find? specs[idx].openDelim pending = some pos :=
  (mem_foundOpens.mp (List.argmin_mem (findNextOpen_eq_some h))).1

theorem preferred_of_findNextOpen
    (h' : find? specs[idx'].openDelim pending = some pos')
    : pos < pos' ∨ pos = pos' ∧
      (byteLen specs[idx'].openDelim < byteLen specs[idx].openDelim ∨
        byteLen specs[idx].openDelim = byteLen specs[idx'].openDelim ∧ idx ≤ idx') := by
  have hle := List.le_of_mem_argmin (mem_foundOpens.mpr ⟨h', rfl⟩) (findNextOpen_eq_some h)
  simp only [Prod.Lex.toLex_le_toLex, OrderDual.toDual_lt_toDual, OrderDual.toDual_inj] at hle
  exact hle

end

theorem find?_of_findNextOpen_eq_none (h : findNextOpen specs pending = none) (hspec : spec ∈ specs)
    : find? spec.openDelim pending = none := by
  unfold findNextOpen at h
  rw [Option.map_eq_none_iff, List.argmin_eq_none] at h
  have ⟨idx, hidx⟩ := List.mem_iff_get.mp hspec
  rw [Option.eq_none_iff_forall_ne_some]
  intro pos hpos
  rw [← hidx] at hpos
  have hmem := mem_foundOpens.mpr ⟨hpos, rfl⟩
  rw [h] at hmem
  cases hmem

theorem length_le_of_findNextOpen (h : findNextOpen specs pending = some (pos, idx))
    : pos + specs[idx].openDelim.length ≤ pending.length :=
  length_le_of_find? specs[idx].openDelim_ne_nil (find?_of_findNextOpen h)

theorem longestSuffixPrefixLen_le_maxOpenPrefixSuffixLen (h : spec ∈ specs) (pending : Str)
    : longestSuffixPrefixLen pending spec.openDelim ≤ maxOpenPrefixSuffixLen specs pending := by
  apply List.le_max?_getD_of_mem
  exact List.mem_map_of_mem h

def loop (specs : List (InlineTagSpec T)) (active : Option (ActiveTag T)) (pending : Str)
    (out : StreamTextChunk (ExtractedInlineTag T))
    : Option (ActiveTag T) × Str × StreamTextChunk (ExtractedInlineTag T) :=
  match active with
  | some active =>
    match _h : find? active.close pending with
    | some closeIdx =>
      loop specs none (pending.drop (closeIdx + active.close.length))
        (out ++ ⟨[], [⟨active.tag, active.content ++ pending.take closeIdx⟩]⟩)
    | none =>
      let take := pending.length - longestSuffixPrefixLen pending active.close
      (some { active with content := active.content ++ pending.take take }, pending.drop take, out)
  | none =>
    match _h : findNextOpen specs pending with
    | some (openIdx, specIdx) =>
      let spec := specs[specIdx]
      loop specs (some ⟨spec.tag, spec.closeDelim, [], spec.closeDelim_ne_nil⟩)
        (pending.drop (openIdx + spec.openDelim.length)) (out ++ ⟨pending.take openIdx, []⟩)
    | none =>
      let take := pending.length - maxOpenPrefixSuffixLen specs pending
      (none, pending.drop take, out ++ ⟨pending.take take, []⟩)
termination_by pending.length
decreasing_by
  . have := length_le_of_find? active.close_ne_nil _h
    have := List.length_pos_of_ne_nil active.close_ne_nil
    rw [List.length_drop]
    omega
  . have := length_le_of_findNextOpen _h
    have := List.length_pos_of_ne_nil specs[specIdx].openDelim_ne_nil
    rw [List.length_drop]
    omega

def pushStr (p : InlineHiddenTagParser T) (chunk : Str)
    : InlineHiddenTagParser T × StreamTextChunk (ExtractedInlineTag T) :=
  let (active, pending, out) := loop p.specs p.active (p.pending ++ chunk) {}
  (⟨p.specs, pending, active⟩, out)

def finish (p : InlineHiddenTagParser T)
    : InlineHiddenTagParser T × StreamTextChunk (ExtractedInlineTag T) :=
  match p.active with
  | some active => (⟨p.specs, [], none⟩, ⟨[], [⟨active.tag, active.content ++ p.pending⟩]⟩)
  | none => (⟨p.specs, [], none⟩, ⟨p.pending, []⟩)

def parser : StreamTextParser (InlineHiddenTagParser T) (ExtractedInlineTag T) :=
  ⟨pushStr, finish⟩

def reference (specs : List (InlineTagSpec T)) (s : Str) : StreamTextChunk (ExtractedInlineTag T) :=
  match s with
  | [] => {}
  | c :: cs =>
    match specs.find? fun spec => spec.openDelim <+: c :: cs with
    | none => ⟨[c], []⟩ ++ reference specs cs
    | some spec =>
      let hidden := (c :: cs).drop spec.openDelim.length
      match find? spec.closeDelim hidden with
      | none => ⟨[], [⟨spec.tag, hidden⟩]⟩
      | some i =>
        ⟨[], [⟨spec.tag, hidden.take i⟩]⟩ ++
          reference specs (hidden.drop (i + spec.closeDelim.length))
termination_by s.length
decreasing_by
  . simp
  . have := List.length_pos_of_ne_nil spec.openDelim_ne_nil
    simp only [List.length_drop, List.length_cons]
    omega

def referenceFrom (specs : List (InlineTagSpec T)) (active : Option (ActiveTag T)) (s : Str)
    : StreamTextChunk (ExtractedInlineTag T) :=
  match active with
  | none => reference specs s
  | some active =>
    match find? active.close s with
    | none => ⟨[], [⟨active.tag, active.content ++ s⟩]⟩
    | some i =>
      ⟨[], [⟨active.tag, active.content ++ s.take i⟩]⟩ ++
        reference specs (s.drop (i + active.close.length))

def Separate (specs : List (InlineTagSpec T)) : Prop :=
  ∀ a ∈ specs, ∀ b ∈ specs, a.openDelim <:+: b.openDelim → a.openDelim = b.openDelim

theorem reference_of_not_opens (hk : k ≤ s.length)
    (h : ∀ j < k, ∀ spec ∈ specs, ¬spec.openDelim <+: s.drop j)
    : reference specs s = ⟨s.take k, []⟩ ++ reference specs (s.drop k) := by
  induction k generalizing s with
  | zero => simp [append_def]
  | succ k ih =>
    cases s with
    | nil => simp at hk
    | cons c cs =>
      have hfind : (specs.find? fun spec => spec.openDelim <+: c :: cs) = none := by
        rw [List.find?_eq_none]
        intro spec hspec
        rw [decide_eq_true_iff]
        exact h 0 (by omega) spec hspec
      have hrest : ∀ j < k, ∀ spec ∈ specs, ¬spec.openDelim <+: cs.drop j := by
        intro j hj
        exact h (j + 1) (by omega)
      rw [List.length_cons] at hk
      rw [reference, hfind]
      rw [ih (by omega) hrest]
      simp [append_def]

theorem reference_of_opens (h : (specs.find? fun spec => spec.openDelim <+: s) = some spec)
    : reference specs s =
      referenceFrom specs (some ⟨spec.tag, spec.closeDelim, [], spec.closeDelim_ne_nil⟩)
        (s.drop spec.openDelim.length) := by
  cases s with
  | nil =>
    have := List.find?_some h
    rw [decide_eq_true_iff, List.prefix_nil] at this
    exact absurd this spec.openDelim_ne_nil
  | cons c cs =>
    rw [reference, h]
    simp only [referenceFrom, List.nil_append]

section

variable {specs : List (InlineTagSpec T)} {pending : Str} {pos : Nat} {idx : Fin specs.length}

section

variable (hsep : Separate specs) (h : findNextOpen specs pending = some (pos, idx)) (rest : Str)

include hsep h rest

theorem not_opens_before (hj : j < pos)
    {spec : InlineTagSpec T} (hspec : spec ∈ specs)
    : ¬spec.openDelim <+: (pending ++ rest).drop j := by
  intro hopens
  have hlen := length_le_of_findNextOpen h
  cases isPrefix_of_isPrefix_drop_append (by omega) hopens with
  | inl hat =>
    have ⟨idx', hidx'⟩ := List.mem_iff_get.mp hspec
    cases hfind : find? spec.openDelim pending with
    | none => exact find?_eq_none_iff.mp hfind j hat
    | some pos' =>
      have hle : pos' ≤ j := by
        by_contra hlt
        exact (find?_eq_some_iff.mp hfind).2 j (by omega) hat
      rw [← hidx'] at hfind
      have := preferred_of_findNextOpen h hfind
      omega
  | inr hover =>
    have hat := (find?_eq_some_iff.mp (find?_of_findNextOpen h)).1
    have hin : pending.drop pos <:+ pending.drop j := by
      rw [show pos = j + (pos - j) by omega, ← List.drop_drop]
      exact List.drop_suffix _ _
    have hinfix : specs[idx].openDelim <:+: spec.openDelim :=
      (hat.isInfix.trans hin.isInfix).trans hover.1.isInfix
    have heq : specs[idx].openDelim = spec.openDelim :=
      hsep _ (List.getElem_mem _) _ hspec hinfix
    rw [heq] at hlen
    omega

theorem opens_at
    : (specs.find? fun spec => spec.openDelim <+: (pending ++ rest).drop pos) =
      some specs[idx] := by
  have hfind := find?_of_findNextOpen h
  have hopens : specs[idx].openDelim <+: (pending ++ rest).drop pos :=
    isPrefix_drop_append (find?_eq_some_iff.mp hfind).1
  rw [List.find?_eq_some_iff_getElem]
  apply And.intro (decide_eq_true hopens)
  refine ⟨idx, idx.isLt, rfl, ?_⟩
  intro i hi
  rw [Bool.not_eq_true', decide_eq_false_iff_not]
  intro hopens'
  have heq : specs[i].openDelim = specs[idx].openDelim := by
    cases List.prefix_or_prefix_of_prefix hopens' hopens with
    | inl hpre => exact hsep _ (List.getElem_mem _) _ (List.getElem_mem _) hpre.isInfix
    | inr hpre => exact (hsep _ (List.getElem_mem _) _ (List.getElem_mem _) hpre.isInfix).symm
  have hi' : i < specs.length := by omega
  have hfind' : find? specs[(⟨i, hi'⟩ : Fin specs.length)].openDelim pending = some pos := by
    rw [← hfind]
    exact congrArg (find? · pending) heq
  have hpref := preferred_of_findNextOpen h hfind'
  have hlen : byteLen specs[(⟨i, hi'⟩ : Fin specs.length)].openDelim
      = byteLen specs[idx].openDelim := congrArg byteLen heq
  rw [hlen, Fin.le_def] at hpref
  dsimp only at hpref
  omega

theorem reference_of_findNextOpen
    : reference specs (pending ++ rest) =
      ⟨pending.take pos, []⟩ ++
        referenceFrom specs
          (some ⟨specs[idx].tag, specs[idx].closeDelim, [], specs[idx].closeDelim_ne_nil⟩)
          (pending.drop (pos + specs[idx].openDelim.length) ++ rest) := by
  have hlen := length_le_of_findNextOpen h
  rw [reference_of_not_opens (k := pos) (by rw [List.length_append]; omega)
    (fun j hj spec hspec => not_opens_before hsep h rest hj hspec)]
  rw [reference_of_opens (opens_at hsep h rest), List.drop_drop,
    List.drop_append_of_le_length hlen, List.take_append_of_le_length (by omega)]

end

theorem reference_of_findNextOpen_eq_none (h : findNextOpen specs pending = none) (rest : Str)
    (hk : k = pending.length - maxOpenPrefixSuffixLen specs pending)
    : reference specs (pending ++ rest) =
      ⟨pending.take k, []⟩ ++ reference specs (pending.drop k ++ rest) := by
  have hle : k ≤ pending.length := by omega
  rw [reference_of_not_opens (k := k) (by rw [List.length_append]; omega)]
  . rw [List.take_append_of_le_length hle, List.drop_append_of_le_length hle]
  . intro j hj spec hspec
    apply not_isPrefix_drop_append
    . exact find?_eq_none_iff.mp (find?_of_findNextOpen_eq_none h hspec)
    . have := longestSuffixPrefixLen_le_maxOpenPrefixSuffixLen hspec pending
      omega

end

section

variable {specs : List (InlineTagSpec T)} {pending : Str} {active : ActiveTag T}

theorem referenceFrom_of_close (h : find? active.close pending = some i) (rest : Str)
    : referenceFrom specs (some active) (pending ++ rest) =
      ⟨[], [⟨active.tag, active.content ++ pending.take i⟩]⟩ ++
        reference specs (pending.drop (i + active.close.length) ++ rest) := by
  have hlen := length_le_of_find? active.close_ne_nil h
  simp only [referenceFrom, find?_append_of_some active.close_ne_nil h rest]
  rw [List.take_append_of_le_length (by omega), List.drop_append_of_le_length hlen]

theorem referenceFrom_of_not_close (h : find? active.close pending = none) (rest : Str)
    (hk : k = pending.length - longestSuffixPrefixLen pending active.close)
    : referenceFrom specs (some active) (pending ++ rest) =
        referenceFrom specs (some { active with content := active.content ++ pending.take k })
          (pending.drop k ++ rest) := by
  have hle : k ≤ pending.length := by omega
  have hskip : find? active.close (pending ++ rest) =
      (find? active.close (pending.drop k ++ rest)).map (k + ·) := by
    rw [find?_drop (k := k), List.drop_append_of_le_length hle]
    intro j hj
    apply not_isPrefix_drop_append (find?_eq_none_iff.mp h)
    omega
  simp only [referenceFrom, hskip]
  cases hfind : find? active.close (pending.drop k ++ rest) with
  | none =>
    simp only [Option.map_none, List.append_assoc]
    rw [← List.append_assoc (pending.take k), List.take_append_drop]
  | some i =>
    simp only [Option.map_some, List.append_assoc]
    rw [List.take_add, List.take_append_of_le_length hle, List.drop_append_of_le_length hle,
      Nat.add_assoc, ← List.drop_drop, List.drop_append_of_le_length hle]

end

def Settled (p : InlineHiddenTagParser T) : Prop :=
  match p.active with
  | some active => find? active.close p.pending = none
  | none => ∀ spec ∈ p.specs, find? spec.openDelim p.pending = none

theorem find?_drop_eq_none (h : find? needle s = none) (k : Nat)
    : find? needle (s.drop k) = none := by
  rw [find?_eq_none_iff] at h ⊢
  intro j
  rw [List.drop_drop]
  exact h _

theorem settled_loop (specs : List (InlineTagSpec T)) (active : Option (ActiveTag T))
    (pending : Str) (out : StreamTextChunk (ExtractedInlineTag T))
    : Settled ⟨specs, (loop specs active pending out).2.1, (loop specs active pending out).1⟩ := by
  fun_induction loop with
  | case1 pending out active closeIdx h ih => exact ih
  | case2 pending out active h take => exact find?_drop_eq_none h take
  | case3 pending out openIdx specIdx h spec ih => exact ih
  | case4 pending out h take =>
    intro spec hspec
    exact find?_drop_eq_none (find?_of_findNextOpen_eq_none h hspec) take

theorem loop_reads (hsep : Separate specs) (active : Option (ActiveTag T)) (pending : Str)
    (out : StreamTextChunk (ExtractedInlineTag T)) (rest : Str)
    : out ++ referenceFrom specs active (pending ++ rest) =
      (loop specs active pending out).2.2 ++
        referenceFrom specs (loop specs active pending out).1
          ((loop specs active pending out).2.1 ++ rest) := by
  fun_induction loop with
  | case1 pending out active closeIdx h ih =>
    rw [← ih, referenceFrom_of_close h, append_assoc]
    rfl
  | case2 pending out active h take => rw [referenceFrom_of_not_close h rest rfl]
  | case3 pending out openIdx specIdx h spec ih =>
    rw [← ih, append_assoc, ← reference_of_findNextOpen hsep h rest]
    rfl
  | case4 pending out h take =>
    rw [append_assoc]
    exact congrArg (out ++ ·) (reference_of_findNextOpen_eq_none h rest rfl)

theorem finish_of_settled (h : p.Settled) : p.finish.2 = referenceFrom p.specs p.active p.pending := by
  unfold Settled at h
  unfold finish
  split
  next active hactive =>
    simp only [hactive] at h ⊢
    simp only [referenceFrom, h]
  next hactive =>
    simp only [hactive] at h ⊢
    rw [referenceFrom, reference_of_not_opens (Nat.le_refl p.pending.length)]
    . simp [reference]
    . intro j _ spec hspec
      exact find?_eq_none_iff.mp (h spec hspec) j

theorem pushStr_reads (hsep : Separate p.specs) (chunk rest : Str)
    : referenceFrom p.specs p.active (p.pending ++ (chunk ++ rest)) =
      (p.pushStr chunk).2 ++
        referenceFrom p.specs (p.pushStr chunk).1.active
          ((p.pushStr chunk).1.pending ++ rest) := by
  have h := loop_reads hsep p.active (p.pending ++ chunk) {} rest
  rw [empty_append, List.append_assoc] at h
  exact h

theorem collect_eq_reference (hsep : Separate specs) (chunks : List Str)
    : parser.collect (new specs) chunks = reference specs chunks.flatten := by
  apply StreamTextParser.collect_eq_of_reads
    (fun (p : InlineHiddenTagParser T) s => referenceFrom p.specs p.active (p.pending ++ s))
    (fun p => p.specs = specs ∧ p.Settled)
  . intro p chunk ⟨hspecs, _⟩
    subst hspecs
    apply And.intro
    . exact ⟨rfl, settled_loop _ _ _ _⟩
    . intro rest
      exact pushStr_reads hsep chunk rest
  . intro p ⟨_, hsettled⟩
    rw [List.append_nil]
    exact finish_of_settled hsettled
  . apply And.intro rfl
    intro spec _
    rw [find?_eq_none_iff]
    intro j
    simp [new, spec.openDelim_ne_nil]

theorem collect_eq_collect_whole (specs : List (InlineTagSpec T)) (hsep : Separate specs)
    (text : Str) (chunks : List Str) (hchunks : chunks.flatten = text)
    : parser.collect (new specs) chunks = parser.collect (new specs) [text] ∧
      parser.collect (new specs) [text] = reference specs text := by
  rw [collect_eq_reference hsep, collect_eq_reference hsep, hchunks]
  simp

instance (specs : List (InlineTagSpec T)) : Decidable (Separate specs) := by
  unfold Separate
  infer_instance

def twoTags : List (InlineTagSpec Nat) :=
  [⟨0, "<a>".toList, "</a>".toList, by decide, by decide⟩,
    ⟨1, "<b>".toList, "</b>".toList, by decide, by decide⟩]

theorem collect_eq_collect_whole_twoTags
    : parser.collect (new twoTags) ["x<".toList, "b>y</".toList, "b>z<a>u".toList] =
        parser.collect (new twoTags) ["x<b>y</b>z<a>u".toList] ∧
      parser.collect (new twoTags) ["x<b>y</b>z<a>u".toList] =
        reference twoTags "x<b>y</b>z<a>u".toList :=
  collect_eq_collect_whole twoTags (by decide) _ _ (by decide)

end InlineHiddenTagParser

end Codex.StreamParser
