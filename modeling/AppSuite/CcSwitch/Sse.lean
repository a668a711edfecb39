import AppSuite.Codex.StreamParser.Utf8Stream
import AppSuite.Text.Search

/-!
This module contains the framing of server-sent events, with `std::str::from_utf8` as a parameter.
-/

namespace CcSwitch.Proxy.Sse

open List Text

abbrev Str := List Char

-- What the standard library promises beyond the longest valid start: the length of an error is that of
-- the longest start of a character, and one if there is none.
structure FromUtf8 extends Codex.StreamParser.FromUtf8 where
  errorLen_pos {bytes e n} : read bytes = .error e → e.errorLen = some n → 1 ≤ n
  errorLen_le {bytes e n} : read bytes = .error e → e.errorLen = some n →
    n ≤ (bytes.drop e.validUpTo).length
  errorLen_take {bytes e n} : read bytes = .error e → e.errorLen = some n → 1 < n →
    Incomplete ((bytes.drop e.validUpTo).take n)
  le_errorLen {bytes e n k} : read bytes = .error e → e.errorLen = some n →
    k ≤ (bytes.drop e.validUpTo).length → Incomplete ((bytes.drop e.validUpTo).take k) → k ≤ n

namespace FromUtf8

open Codex.StreamParser (Utf8Error)

variable (rest : List UInt8)

open Classical in
noncomputable def startLen : Nat :=
  Nat.findGreatest (fun k => Incomplete (rest.take k)) rest.length

theorem startLen_le : startLen rest ≤ rest.length := by
  classical
  exact Nat.findGreatest_le _

theorem startLen_take : Incomplete (rest.take (startLen rest)) := by
  classical
  exact Nat.findGreatest_spec (P := fun k => Incomplete (rest.take k)) (Nat.zero_le _) incomplete_nil

theorem le_startLen {rest : List UInt8} (hle : k ≤ rest.length) (h : Incomplete (rest.take k))
    : k ≤ startLen rest := by
  classical
  exact Nat.le_findGreatest (P := fun k => Incomplete (rest.take k)) hle h

noncomputable def setErrorLen (bytes : List UInt8) (e : Utf8Error) : Utf8Error :=
  { e with errorLen := e.errorLen.map fun _ => max 1 (startLen (bytes.drop e.validUpTo)) }

variable {bytes : List UInt8} {e : Utf8Error}

theorem setErrorLen_of_error {r : Except Utf8Error Str} (h : r.mapError (setErrorLen bytes) = .error e)
    : ∃ e', r = .error e' ∧ e = setErrorLen bytes e' := by
  cases r with
  | ok s => contradiction
  | error e' => exact ⟨e', rfl, (Except.error.inj h).symm⟩

noncomputable def described : FromUtf8 where
  read bytes := (Codex.StreamParser.FromUtf8.described.read bytes).mapError (setErrorLen bytes)
  ok_iff {bytes s} := by
    rw [← Codex.StreamParser.FromUtf8.described.ok_iff]
    cases Codex.StreamParser.FromUtf8.described.read bytes <;> simp [Except.mapError]
  validUpTo_le h := by
    obtain ⟨e', he', rfl⟩ := setErrorLen_of_error h
    have hle := Codex.StreamParser.FromUtf8.described.validUpTo_le he'
    exact hle
  take_validUpTo h := by
    obtain ⟨e', he', rfl⟩ := setErrorLen_of_error h
    have htake := Codex.StreamParser.FromUtf8.described.take_validUpTo he'
    exact htake
  le_validUpTo h hs := by
    obtain ⟨e', he', rfl⟩ := setErrorLen_of_error h
    have hle := Codex.StreamParser.FromUtf8.described.le_validUpTo he' hs
    exact hle
  errorLen_eq_none_iff h := by
    obtain ⟨e', he', rfl⟩ := setErrorLen_of_error h
    rw [setErrorLen, Option.map_eq_none_iff]
    exact Codex.StreamParser.FromUtf8.described.errorLen_eq_none_iff he'
  errorLen_pos h hn := by
    obtain ⟨e', he', rfl⟩ := setErrorLen_of_error h
    obtain ⟨_, _, rfl⟩ := Option.map_eq_some_iff.mp hn
    exact Nat.le_max_left _ _
  errorLen_le {bytes e n} h hn := by
    obtain ⟨e', he', rfl⟩ := setErrorLen_of_error h
    obtain ⟨m, hm, rfl⟩ := Option.map_eq_some_iff.mp hn
    have hne : bytes.drop e'.validUpTo ≠ [] := by
      intro hnil
      have hnone := Codex.StreamParser.FromUtf8.described.errorLen_eq_none_iff he'
      rw [hnil, hm] at hnone
      exact absurd (hnone.mpr incomplete_nil) (Option.some_ne_none m)
    exact max_le (length_pos_of_ne_nil hne) (startLen_le _)
  errorLen_take {bytes e n} h hn hlt := by
    obtain ⟨e', he', rfl⟩ := setErrorLen_of_error h
    obtain ⟨m, hm, rfl⟩ := Option.map_eq_some_iff.mp hn
    rw [max_eq_right (by omega)]
    exact startLen_take _
  le_errorLen {bytes e n k} h hn hle hstart := by
    obtain ⟨e', he', rfl⟩ := setErrorLen_of_error h
    obtain ⟨m, hm, rfl⟩ := Option.map_eq_some_iff.mp hn
    exact (le_startLen hle hstart).trans (Nat.le_max_right _ _)

theorem drop_length_lt (std : FromUtf8) {n : Nat} (h : std.read bytes = .error e) (hn : e.errorLen = some n)
    : (bytes.drop (e.validUpTo + n)).length < bytes.length := by
  have hpos := std.errorLen_pos h hn
  have hle := std.errorLen_le h hn
  rw [length_drop] at hle ⊢
  omega

end FromUtf8

def fromUtf8Lossy (std : FromUtf8) (bytes : List UInt8) : Str :=
  match h : std.read bytes with
  | .ok s => s
  | .error e =>
    match std.read (bytes.take e.validUpTo) with
    | .error _ => []
    | .ok valid =>
      match hn : e.errorLen with
      | some n =>
        have := std.drop_length_lt h hn
        valid ++ replacement :: fromUtf8Lossy std (bytes.drop (e.validUpTo + n))
      | none => valid ++ [replacement]
termination_by bytes.length
decreasing_by exact this

-- The loop from a position on; there is no result if the valid start cannot be unwrapped.
def decodeFrom (std : FromUtf8) (input : List UInt8) : Option (Str × List UInt8) :=
  match h : std.read input with
  | .ok s => some (s, [])
  | .error e =>
    match std.read (input.take e.validUpTo) with
    | .error _ => none
    | .ok valid =>
      match hn : e.errorLen with
      | some invalidLen =>
        have := std.drop_length_lt h hn
        (decodeFrom std (input.drop (e.validUpTo + invalidLen))).map fun (s, remainder) =>
          (valid ++ replacement :: s, remainder)
      | none => some (valid, input.drop e.validUpTo)
termination_by input.length
decreasing_by exact this

def appendUtf8Safe (std : FromUtf8) (buffer : Str) (remainder newBytes : List UInt8)
    : Option (Str × List UInt8) :=
  let (buffer, input) :=
    if remainder.isEmpty then
      (buffer, newBytes)
    else if remainder.length > 3 then
      (buffer ++ fromUtf8Lossy std remainder, newBytes)
    else
      (buffer, remainder ++ newBytes)
  (decodeFrom std input).map fun (s, remainder) => (buffer ++ s, remainder)

def delimiters : List (Str × Nat) := [(['\r', '\n', '\r', '\n'], 4), (['\n', '\n'], 2)]

def takeSseBlock (buffer : Str) : Option (Str × Str) :=
  let best := delimiters.foldl
    (fun best (delimiter, len) =>
      match find? delimiter buffer with
      | some pos => if best.all (pos < ·.1) then some (pos, len) else best
      | none => best)
    (none : Option (Nat × Nat))
  best.map fun (pos, len) => (buffer.take pos, buffer.drop (pos + len))

section Decoding

open Codex.StreamParser (Utf8Error)

variable (std : FromUtf8) {bytes rest : List UInt8} {e : Utf8Error} {n : Nat}

theorem not_char_isPrefix (h : std.read bytes = .error e) (c : Char)
    : ¬String.utf8EncodeChar c <+: bytes.drop e.validUpTo := by
  intro hpre
  have ⟨s, hs⟩ := std.take_validUpTo h
  have hlonger : encode (s ++ [c]) <+: bytes := by
    rw [encode_append, ← hs, encode_cons, encode_nil, append_nil]
    nth_rewrite 2 [← take_append_drop e.validUpTo bytes]
    rw [prefix_append_right_inj]
    exact hpre
  have hle := std.le_validUpTo h hlonger
  have hlen := std.validUpTo_le h
  have hpos := length_pos_of_ne_nil (String.utf8EncodeChar_ne_nil (c := c))
  rw [encode_append, length_append, ← hs, length_take, encode_cons, length_append] at hle
  omega

variable {s : Str}

theorem decodes_error (h : std.read bytes = .error e) (hn : e.errorLen = some n)
    (hrest : Decodes (bytes.drop (e.validUpTo + n)) s rest)
    : Decodes (bytes.drop e.validUpTo) (replacement :: s) rest := by
  have hchar := not_char_isPrefix std h
  have hpos := std.errorLen_pos h hn
  have hle := std.errorLen_le h hn
  have htake := std.errorLen_take h hn
  have hmax {k : Nat} := std.le_errorLen (k := k) h hn
  have hcut : ¬Incomplete (bytes.drop e.validUpTo) := by
    rw [← std.errorLen_eq_none_iff h, hn]
    exact Option.some_ne_none n
  rw [← drop_drop] at hrest
  generalize bytes.drop e.validUpTo = all at *
  by_cases hpart : Incomplete (all.take n)
  . have hlt : n < all.length := by
      by_contra hge
      rw [take_of_length_le (by omega)] at hpart
      exact hcut hpart
    have hsplit : all = all.take n ++ all[n] :: all.drop (n + 1) := by
      rw [cons_getElem_drop_succ, take_append_drop]
    rw [← cons_getElem_drop_succ (h := hlt)] at hrest
    rw [hsplit]
    refine .badPart ?_ hpart ?_ hrest
    . apply ne_nil_of_length_pos
      rw [length_take]
      omega
    . intro hstart
      rw [take_concat_get' all n hlt] at hstart
      cases hstart.incomplete_or_eq with
      | inl hlonger =>
        have := hmax (by omega) hlonger
        omega
      | inr hfull =>
        have ⟨c, hc⟩ := hfull
        apply hchar c
        rw [← hc]
        exact take_prefix _ _
  . have hone : n = 1 := by
      by_contra hne
      exact hpart (htake (by omega))
    subst hone
    cases all with
    | nil => cases hle
    | cons b tail =>
      refine .badByte ?_ hrest
      intro hstart
      cases hstart.incomplete_or_eq with
      | inl hlonger => exact hpart hlonger
      | inr hfull =>
        have ⟨c, hc⟩ := hfull
        apply hchar c
        rw [← hc]
        exact ⟨tail, rfl⟩

theorem decodes_ok (h : std.read bytes = .ok s) : Decodes bytes s [] := by
  rw [std.ok_iff] at h
  have hdecodes := Decodes.encode_append s (.incomplete incomplete_nil)
  rw [append_nil, append_nil, ← h] at hdecodes
  exact hdecodes

theorem take_append_decodes {t : Str} (hs : bytes.take k = encode s)
    (h : Decodes (bytes.drop k) t rest)
    : Decodes bytes (s ++ t) rest := by
  rw [← take_append_drop k bytes, hs]
  exact h.encode_append s

theorem decodeFrom_eq (input : List UInt8)
    : ∃ s rest, decodeFrom std input = some (s, rest) ∧ Decodes input s rest := by
  induction hlen : input.length using Nat.strong_induction_on generalizing input with
  | _ len ih =>
    rw [decodeFrom]
    split
    . next s hread => exact ⟨s, [], rfl, decodes_ok std hread⟩
    . next e hread =>
      have ⟨valid, hvalid⟩ := std.take_validUpTo hread
      rw [hvalid, std.ok_iff.mpr rfl]
      dsimp only
      split
      . next n hn =>
        have ⟨s, rest, heq, hdecodes⟩ := ih _ (hlen ▸ std.drop_length_lt hread hn) _ rfl
        rw [heq]
        exact ⟨_, _, rfl, take_append_decodes hvalid (decodes_error std hread hn hdecodes)⟩
      . next hn =>
        rw [std.errorLen_eq_none_iff hread] at hn
        refine ⟨valid, _, rfl, ?_⟩
        have := take_append_decodes hvalid (.incomplete hn)
        rw [append_nil] at this
        exact this

theorem closed_append (s t : Str) (rest : List UInt8) : closed (s ++ t) rest = s ++ closed t rest := by
  unfold closed
  split
  . rfl
  . rw [List.append_assoc]

theorem fromUtf8Lossy_eq (bytes : List UInt8)
    : ∃ s rest, fromUtf8Lossy std bytes = closed s rest ∧ Decodes bytes s rest := by
  induction hlen : bytes.length using Nat.strong_induction_on generalizing bytes with
  | _ len ih =>
    rw [fromUtf8Lossy]
    split
    . next s hread => exact ⟨s, [], rfl, decodes_ok std hread⟩
    . next e hread =>
      have ⟨valid, hvalid⟩ := std.take_validUpTo hread
      rw [hvalid, std.ok_iff.mpr rfl]
      dsimp only
      split
      . next n hn =>
        have ⟨s, rest, heq, hdecodes⟩ := ih _ (hlen ▸ std.drop_length_lt hread hn) _ rfl
        refine ⟨_, _, ?_, take_append_decodes hvalid (decodes_error std hread hn hdecodes)⟩
        rw [heq, closed_append, closed_cons]
      . next hn =>
        rw [std.errorLen_eq_none_iff hread] at hn
        have hdecodes := take_append_decodes hvalid (.incomplete hn)
        refine ⟨_, _, ?_, hdecodes⟩
        rw [closed_append, closed, if_neg]
        . rfl
        . intro hnil
          have hall := take_append_drop e.validUpTo bytes
          rw [hnil, hvalid, append_nil] at hall
          rw [std.ok_iff.mpr hall.symm] at hread
          contradiction

theorem appendUtf8Safe_eq {text : Str} (h : Decodes bytes text rest) (buffer : Str) (newBytes : List UInt8)
    : ∃ s rest', appendUtf8Safe std buffer rest newBytes = some (buffer ++ s, rest') ∧
      Decodes (bytes ++ newBytes) (text ++ s) rest' := by
  have hlen := h.rest_incomplete.length_le
  have heq : appendUtf8Safe std buffer rest newBytes
      = (decodeFrom std (rest ++ newBytes)).map fun (s, remainder) => (buffer ++ s, remainder) := by
    unfold appendUtf8Safe
    cases rest with
    | nil => rfl
    | cons b rest => rw [if_neg (by simp), if_neg (by omega)]
  have ⟨s, rest', hdecode, hdecodes⟩ := decodeFrom_eq std (rest ++ newBytes)
  refine ⟨s, rest', ?_, h.append hdecodes⟩
  rw [heq, hdecode]
  rfl

end Decoding

/-! A block that has been taken stays the first one whatever arrives later. -/

def firstDelimiter (buffer : Str) : Option (Nat × Nat) :=
  match find? ['\r', '\n', '\r', '\n'] buffer, find? ['\n', '\n'] buffer with
  | some p, some q => if q < p then some (q, 2) else some (p, 4)
  | some p, none => some (p, 4)
  | none, some q => some (q, 2)
  | none, none => none

theorem takeSseBlock_eq (buffer : Str)
    : takeSseBlock buffer
      = (firstDelimiter buffer).map fun (pos, len) => (buffer.take pos, buffer.drop (pos + len)) := by
  unfold takeSseBlock delimiters firstDelimiter
  simp only [foldl_cons, foldl_nil]
  congr 1
  cases find? ['\r', '\n', '\r', '\n'] buffer with
  | none => cases find? ['\n', '\n'] buffer <;> rfl
  | some p => cases find? ['\n', '\n'] buffer <;> simp

variable {s block rest : Str} {needle t : Str} {i pos len : Nat}

theorem length_lt_of_find?_append (hnone : find? needle s = none) (h : find? needle (s ++ t) = some i)
    : s.length < i + needle.length := by
  rw [find?_eq_none_iff] at hnone
  have hat := (find?_eq_some_iff.mp h).1
  by_contra hle
  cases isPrefix_of_isPrefix_drop_append (by omega) hat with
  | inl h => exact hnone i h
  | inr h => exact hle h.2

theorem getElem?_of_find? (h : find? needle s = some i) (hk : needle[k]? = some c)
    : s[i + k]? = some c := by
  have ⟨t, ht⟩ := (find?_eq_some_iff.mp h).1
  rw [← getElem?_drop, ← ht, getElem?_append_left, hk]
  exact (List.getElem?_eq_some_iff.mp hk).1

theorem lt_of_find? (hnone : find? ['\r', '\n', '\r', '\n'] s = none)
    (hp : find? ['\r', '\n', '\r', '\n'] (s ++ t) = some p) (hq : find? ['\n', '\n'] s = some q)
    : q < p := by
  have hafter := length_lt_of_find?_append hnone hp
  have hinside := length_le_of_find? (by simp) hq
  have hq' := find?_append_of_some (by simp) hq t
  simp only [length_cons, length_nil] at hafter hinside
  have hne : p ≠ q := by
    rintro rfl
    have hr := getElem?_of_find? hp (k := 0) (c := '\r') rfl
    rw [getElem?_of_find? hq' (k := 0) (c := '\n') rfl] at hr
    contradiction
  have hne' : p + 1 ≠ q := by
    rintro rfl
    have hr := getElem?_of_find? hp (k := 2) (c := '\r') rfl
    rw [getElem?_of_find? hq' (k := 1) (c := '\n') rfl] at hr
    contradiction
  omega

theorem firstDelimiter_append (h : firstDelimiter s = some (pos, len)) (t : Str)
    : firstDelimiter (s ++ t) = some (pos, len) ∧ pos + len ≤ s.length := by
  unfold firstDelimiter at h ⊢
  cases hp : find? ['\r', '\n', '\r', '\n'] s with
  | none =>
    cases hq : find? ['\n', '\n'] s with
    | none =>
      rw [hp, hq] at h
      contradiction
    | some q =>
      rw [hp, hq] at h
      cases h
      refine ⟨?_, length_le_of_find? (by simp) hq⟩
      rw [find?_append_of_some (by simp) hq t]
      cases hp' : find? ['\r', '\n', '\r', '\n'] (s ++ t) with
      | none => rfl
      | some p =>
        dsimp only
        rw [if_pos (lt_of_find? hp hp' hq)]
  | some p =>
    have hle : p + 4 ≤ s.length := length_le_of_find? (by simp) hp
    rw [find?_append_of_some (by simp) hp t]
    cases hq : find? ['\n', '\n'] s with
    | some q =>
      have hle' : q + 2 ≤ s.length := length_le_of_find? (by simp) hq
      rw [hp, hq] at h
      rw [find?_append_of_some (by simp) hq t]
      refine ⟨h, ?_⟩
      dsimp only at h
      split at h <;> cases h <;> assumption
    | none =>
      rw [hp, hq] at h
      cases h
      refine ⟨?_, hle⟩
      cases hq' : find? ['\n', '\n'] (s ++ t) with
      | none => rfl
      | some q =>
        have hafter := length_lt_of_find?_append hq hq'
        simp only [length_cons, length_nil] at hafter
        dsimp only
        rw [if_neg (by omega)]

theorem takeSseBlock_append (h : takeSseBlock s = some (block, rest)) (t : Str)
    : takeSseBlock (s ++ t) = some (block, rest ++ t) := by
  rw [takeSseBlock_eq, Option.map_eq_some_iff] at h
  obtain ⟨⟨pos, len⟩, hfirst, heq⟩ := h
  cases heq
  have ⟨hfirst', hle⟩ := firstDelimiter_append hfirst t
  rw [takeSseBlock_eq, hfirst', Option.map_some]
  dsimp only
  rw [take_append_of_le_length (by omega), drop_append_of_le_length hle]

theorem firstDelimiter_len_pos (h : firstDelimiter s = some (pos, len)) : 0 < len := by
  unfold firstDelimiter at h
  split at h
  . split at h <;> cases h <;> decide
  . cases h
    decide
  . cases h
    decide
  . contradiction

theorem takeSseBlock_length_lt (h : takeSseBlock s = some (block, rest)) : rest.length < s.length := by
  rw [takeSseBlock_eq, Option.map_eq_some_iff] at h
  obtain ⟨⟨pos, len⟩, hfirst, heq⟩ := h
  cases heq
  have hpos := firstDelimiter_len_pos hfirst
  have hle := (firstDelimiter_append hfirst []).2
  rw [length_drop]
  omega

-- `while let Some(block) = take_sse_block(&mut buffer)`
def drain (buffer : Str) : List Str × Str :=
  match h : takeSseBlock buffer with
  | some (block, rest) =>
    have := takeSseBlock_length_lt h
    let (blocks, buffer) := drain rest
    (block :: blocks, buffer)
  | none => ([], buffer)
termination_by buffer.length

theorem drain_of_some (h : takeSseBlock s = some (block, rest))
    : drain s = (block :: (drain rest).1, (drain rest).2) := by
  rw [drain]
  split
  . next h' =>
    rw [h] at h'
    cases h'
    rfl
  . next h' =>
    rw [h] at h'
    contradiction

theorem drain_of_none (h : takeSseBlock s = none) : drain s = ([], s) := by
  rw [drain]
  split
  . next h' =>
    rw [h] at h'
    contradiction
  . rfl

theorem drain_append (s t : Str)
    : drain (s ++ t) = ((drain s).1 ++ (drain ((drain s).2 ++ t)).1, (drain ((drain s).2 ++ t)).2) := by
  induction hlen : s.length using Nat.strong_induction_on generalizing s with
  | _ len ih =>
    cases h : takeSseBlock s with
    | none =>
      rw [drain_of_none h]
      rfl
    | some taken =>
      have hrest := ih _ (hlen ▸ takeSseBlock_length_lt h) taken.2 rfl
      rw [drain_of_some (takeSseBlock_append h t), drain_of_some h, hrest]
      rfl

structure Framing where
  blocks : List Str
  buffer : Str
  remainder : List UInt8
  deriving DecidableEq, Repr

namespace Framing

def new : Framing := ⟨[], [], []⟩

def feed (std : FromUtf8) (f : Framing) (chunk : List UInt8) : Option Framing :=
  (appendUtf8Safe std f.buffer f.remainder chunk).map fun (buffer, remainder) =>
    let (blocks, buffer) := drain buffer
    ⟨f.blocks ++ blocks, buffer, remainder⟩

structure Holds (bytes : List UInt8) (text : Str) (f : Framing) : Prop where
  decodes : Decodes bytes text f.remainder
  framed : drain text = (f.blocks, f.buffer)

theorem new_holds : Holds [] [] new := by
  refine ⟨.incomplete incomplete_nil, drain_of_none ?_⟩
  decide

variable {bytes : List UInt8} {text : Str} {f : Framing}

theorem feed_holds (std : FromUtf8) (h : Holds bytes text f) (chunk : List UInt8)
    : ∃ s f', feed std f chunk = some f' ∧ Holds (bytes ++ chunk) (text ++ s) f' := by
  have ⟨s, rest, happend, hdecodes⟩ := appendUtf8Safe_eq std h.decodes f.buffer chunk
  refine ⟨s, ⟨f.blocks ++ (drain (f.buffer ++ s)).1, (drain (f.buffer ++ s)).2, rest⟩, ?_, hdecodes, ?_⟩
  . unfold feed
    rw [happend]
    rfl
  . rw [drain_append, h.framed]

theorem feedAll_holds (std : FromUtf8) (h : Holds bytes text f) (chunks : List (List UInt8))
    : ∃ s f', chunks.foldlM (feed std) f = some f' ∧ Holds (bytes ++ chunks.flatten) (text ++ s) f' := by
  induction chunks generalizing bytes text f with
  | nil =>
    refine ⟨[], f, rfl, ?_⟩
    rw [flatten_nil, append_nil, append_nil]
    exact h
  | cons chunk chunks ih =>
    have ⟨s, f', hfeed, hholds⟩ := feed_holds std h chunk
    have ⟨s', f'', hfeed', hholds'⟩ := ih hholds
    refine ⟨s ++ s', f'', ?_, ?_⟩
    . rw [foldlM_cons, hfeed]
      exact hfeed'
    . rw [flatten_cons, ← List.append_assoc, ← List.append_assoc]
      exact hholds'

theorem Holds.unique (h : Holds bytes text f) (h' : Holds bytes text' f')
    : text = text' ∧ f = f' := by
  have ⟨htext, hrest⟩ := h.decodes.unique h'.decodes
  subst htext
  have hframed := h.framed.symm.trans h'.framed
  rw [Prod.mk.injEq] at hframed
  refine ⟨rfl, ?_⟩
  cases f
  cases f'
  simp only [Framing.mk.injEq]
  exact ⟨hframed.1, hframed.2, hrest⟩

end Framing

variable (std : FromUtf8) (chunks : List (List UInt8))

def decoded : Option (Str × List UInt8) :=
  chunks.foldlM (fun (buffer, remainder) chunk => appendUtf8Safe std buffer remainder chunk) ([], [])

theorem decoded_eq
    : ∃ text rest, decoded std chunks = some (text, rest) ∧ Decodes chunks.flatten text rest := by
  have hrun : ∀ (chunks : List (List UInt8)) (bytes : List UInt8) (text : Str) (rest : List UInt8),
      Decodes bytes text rest → ∃ text' rest',
        chunks.foldlM (fun (buffer, remainder) chunk => appendUtf8Safe std buffer remainder chunk) (text, rest)
          = some (text', rest') ∧ Decodes (bytes ++ chunks.flatten) text' rest' := by
    intro chunks
    induction chunks with
    | nil =>
      intro bytes text rest h
      refine ⟨text, rest, rfl, ?_⟩
      rw [flatten_nil, append_nil]
      exact h
    | cons chunk chunks ih =>
      intro bytes text rest h
      have ⟨s, rest', happend, hdecodes⟩ := appendUtf8Safe_eq std h text chunk
      have ⟨text', rest'', hfold, hlast⟩ := ih _ _ _ hdecodes
      refine ⟨text', rest'', ?_, ?_⟩
      . rw [foldlM_cons]
        dsimp only
        rw [happend]
        exact hfold
      . rw [flatten_cons, ← List.append_assoc]
        exact hlast
  exact hrun chunks [] [] [] (.incomplete incomplete_nil)

theorem framing_eq_of_chunks (std : FromUtf8) (chunks : List (List UInt8))
    : ∃ f read, chunks.foldlM (Framing.feed std) .new = some f ∧
      Framing.feed std .new chunks.flatten = some f ∧
      chunks.flatten = read ++ f.remainder ∧ f.remainder.length ≤ 3 ∧
      decoded std chunks = some (fromUtf8Lossy std read, f.remainder) ∧
      drain (fromUtf8Lossy std read) = (f.blocks, f.buffer) := by
  have ⟨s, f, hfeed, hholds⟩ := Framing.feedAll_holds std Framing.new_holds chunks
  have ⟨s', f', hfeed', hholds'⟩ := Framing.feed_holds std Framing.new_holds chunks.flatten
  have ⟨text, rest, hdecoded, hdecodes⟩ := decoded_eq std chunks
  have ⟨_, heq⟩ := hholds.unique hholds'
  have ⟨htext, hrest⟩ := hdecodes.unique hholds.decodes
  have ⟨read, t, kept, hread, hkept, hclosed⟩ := hholds.decodes.exists_closed
  have ⟨t', kept', hlossy, hkept'⟩ := fromUtf8Lossy_eq std read
  have ⟨ht, hkeptEq⟩ := hkept.unique hkept'
  rw [← ht, ← hkeptEq, hclosed] at hlossy
  refine ⟨f, read, hfeed, ?_, hread, hholds.decodes.rest_incomplete.length_le, ?_, ?_⟩
  . rw [hfeed', heq]
  . rw [hdecoded, hlossy, htext, hrest]
  . rw [hlossy]
    exact hholds.framed

theorem framing_eq_of_chunks_split
    : ∃ f read, [[0x61, 0xC3], [0xA9, 0x0A], [0x0A, 0xE2]].foldlM (Framing.feed .described) .new = some f ∧
      [0x61, 0xC3, 0xA9, 0x0A, 0x0A, 0xE2] = read ++ f.remainder ∧
      drain (fromUtf8Lossy .described read) = (f.blocks, f.buffer) := by
  have ⟨f, read, hfeed, _, hread, _, _, hframed⟩ :=
    framing_eq_of_chunks .described [[0x61, 0xC3], [0xA9, 0x0A], [0x0A, 0xE2]]
  exact ⟨f, read, hfeed, hread, hframed⟩

end CcSwitch.Proxy.Sse
