import AppSuite.Codex.StreamParser.StreamText
import AppSuite.System.Run
import AppSuite.Text.Utf8

/-!
This module contains the parser that takes bytes and hands text to another parser, with
`std::str::from_utf8` as a parameter.
-/

namespace Codex.StreamParser

open List Text StreamTextParser

structure Utf8Error where
  validUpTo : Nat
  errorLen : Option Nat
  deriving DecidableEq, Repr

-- What the standard library promises of `from_utf8`: an error tells the longest valid start of the
-- bytes, and has no length exactly if what follows is a code point that the end of the bytes cuts off.
structure FromUtf8 where
  read : List UInt8 → Except Utf8Error Str
  ok_iff {bytes s} : read bytes = .ok s ↔ bytes = encode s
  validUpTo_le {bytes e} : read bytes = .error e → e.validUpTo ≤ bytes.length
  take_validUpTo {bytes e} : read bytes = .error e → ∃ s, bytes.take e.validUpTo = encode s
  le_validUpTo {bytes e s} : read bytes = .error e → encode s <+: bytes →
    (encode s).length ≤ e.validUpTo
  errorLen_eq_none_iff {bytes e} : read bytes = .error e →
    (e.errorLen = none ↔ Incomplete (bytes.drop e.validUpTo))

namespace FromUtf8

open Classical in
noncomputable def validUpTo (bytes : List UInt8) : Nat :=
  Nat.findGreatest (fun k => ∃ s, bytes.take k = encode s) bytes.length

theorem exists_take_validUpTo (bytes : List UInt8) : ∃ s, bytes.take (validUpTo bytes) = encode s := by
  classical
  exact Nat.findGreatest_spec (P := fun k => ∃ s, bytes.take k = encode s) (Nat.zero_le _)
    ⟨[], by simp⟩

theorem length_le_validUpTo {s : Str} (h : encode s <+: bytes)
    : (encode s).length ≤ validUpTo bytes := by
  classical
  apply Nat.le_findGreatest h.length_le
  exact ⟨s, (prefix_iff_eq_take.mp h).symm⟩

open Classical in
noncomputable def described : FromUtf8 where
  read bytes :=
    if h : ∃ s, bytes = encode s then .ok h.choose
    else
      .error ⟨validUpTo bytes, if Incomplete (bytes.drop (validUpTo bytes)) then none else some 1⟩
  ok_iff {bytes s} := by
    split
    next h =>
      rw [Except.ok.injEq]
      constructor
      . intro hs
        rw [← hs]
        exact h.choose_spec
      . intro hs
        apply encode_inj
        rw [← h.choose_spec, hs]
    next h =>
      simp only [reduceCtorEq, false_iff]
      intro hs
      exact h ⟨s, hs⟩
  validUpTo_le {bytes e} h := by
    split at h
    . cases h
    . cases h
      exact Nat.findGreatest_le _
  take_validUpTo {bytes e} h := by
    split at h
    . cases h
    . cases h
      exact exists_take_validUpTo bytes
  le_validUpTo {bytes e s} h hs := by
    split at h
    . cases h
    . cases h
      exact length_le_validUpTo hs
  errorLen_eq_none_iff {bytes e} h := by
    split at h
    . cases h
    . cases h
      simp

end FromUtf8

inductive Utf8StreamParserError where
  | invalidUtf8 (validUpTo errorLen : Nat)
  | incompleteUtf8AtEof
  deriving DecidableEq, Repr

structure Utf8StreamParser (P : Type) where
  inner : P
  pendingUtf8 : List UInt8

namespace Utf8StreamParser

variable {P E : Type} (std : FromUtf8) (parser : StreamTextParser P E)

def new (inner : P) : Utf8StreamParser P := ⟨inner, []⟩

def pushBytes (p : Utf8StreamParser P) (chunk : List UInt8)
    : Except Utf8StreamParserError (StreamTextChunk E) × Utf8StreamParser P :=
  let oldLen := p.pendingUtf8.length
  let pending := p.pendingUtf8 ++ chunk
  match std.read pending with
  | .ok s =>
    let (inner, out) := parser.pushStr p.inner s
    (.ok out, ⟨inner, []⟩)
  | .error err =>
    match err.errorLen with
    | some errorLen => (.error (.invalidUtf8 err.validUpTo errorLen), ⟨p.inner, pending.take oldLen⟩)
    | none =>
      if err.validUpTo = 0 then (.ok {}, ⟨p.inner, pending⟩)
      else
        match std.read (pending.take err.validUpTo) with
        | .ok s =>
          let (inner, out) := parser.pushStr p.inner s
          (.ok out, ⟨inner, pending.drop err.validUpTo⟩)
        | .error prefixErr =>
          (.error (.invalidUtf8 prefixErr.validUpTo (prefixErr.errorLen.getD 0)),
            ⟨p.inner, pending.take oldLen⟩)

def finish (p : Utf8StreamParser P)
    : Except Utf8StreamParserError (StreamTextChunk E) × Utf8StreamParser P :=
  if p.pendingUtf8 = [] then
    let (inner, tail) := parser.finish p.inner
    (.ok ({} ++ tail), ⟨inner, p.pendingUtf8⟩)
  else
    match std.read p.pendingUtf8 with
    | .error err =>
      match err.errorLen with
      | some errorLen => (.error (.invalidUtf8 err.validUpTo errorLen), p)
      | none => (.error .incompleteUtf8AtEof, p)
    | .ok s =>
      let (inner, out) := parser.pushStr p.inner s
      let (inner, tail) := parser.finish inner
      (.ok (out ++ tail), ⟨inner, []⟩)

end Utf8StreamParser

def StreamTextParser.recording {P E : Type} (parser : StreamTextParser P E)
    : StreamTextParser (P × List Str) E where
  pushStr p s := let (inner, out) := parser.pushStr p.1 s; ((inner, p.2 ++ [s]), out)
  finish p := let (inner, out) := parser.finish p.1; ((inner, p.2), out)

namespace Utf8StreamParser

variable {P E : Type} (std : FromUtf8) (parser : StreamTextParser P E)

theorem pushBytes_invalid (p : Utf8StreamParser P) (chunk : List UInt8)
    (h : ∀ s, ¬p.pendingUtf8 ++ chunk <+: encode s)
    : ∃ validUpTo errorLen,
      pushBytes std parser p chunk = (.error (.invalidUtf8 validUpTo errorLen), p) := by
  unfold pushBytes
  dsimp only
  cases hread : std.read (p.pendingUtf8 ++ chunk) with
  | ok s =>
    have hs := std.ok_iff.mp hread
    exact absurd (hs ▸ prefix_refl _) (h s)
  | error err =>
    cases hlen : err.errorLen with
    | some errorLen => exact ⟨err.validUpTo, errorLen, by simp [hlen]⟩
    | none =>
      have hincomplete := (std.errorLen_eq_none_iff hread).mp hlen
      have ⟨s, hs⟩ := std.take_validUpTo hread
      have ⟨t, ht⟩ := isPrefix_encode_of_incomplete (t := s) hincomplete
      rw [← hs, take_append_drop] at ht
      exact absurd ht (h t)

def Holds (bytes : List UInt8) (p : Utf8StreamParser (P × List Str)) : Prop :=
  encode p.inner.2.flatten ++ p.pendingUtf8 = bytes ∧ Incomplete p.pendingUtf8

variable {p : Utf8StreamParser (P × List Str)} {s : Str}

theorem pushBytes_valid (hp : Holds bytes p)
    (hvalid : bytes ++ chunk <+: encode s)
    : (pushBytes std parser.recording p chunk).1.isOk ∧
      Holds (bytes ++ chunk) (pushBytes std parser.recording p chunk).2 := by
  have ⟨hbytes, _⟩ := hp
  rw [← hbytes, List.append_assoc] at hvalid
  have ⟨rest, hrest⟩ := exists_append_of_encode_isPrefix ((prefix_append _ _).trans hvalid)
  rw [hrest, encode_append, prefix_append_right_inj] at hvalid
  have ⟨t, tail, htail, hincomplete⟩ := exists_encode_append_incomplete hvalid
  unfold pushBytes Holds
  rw [← hbytes]
  dsimp only
  cases hread : std.read (p.pendingUtf8 ++ chunk) with
  | ok s =>
    have hs := std.ok_iff.mp hread
    apply And.intro rfl
    simp [recording, encode_append, ← hs, incomplete_nil]
  | error err =>
    have hupTo : err.validUpTo = (encode t).length := by
      have ⟨u, hu⟩ := std.take_validUpTo hread
      have hle := std.le_validUpTo (s := t) hread (by rw [htail]; exact prefix_append _ _)
      have hge : (encode u).length ≤ (encode t).length := by
        apply length_encode_le_of_isPrefix hincomplete
        rw [← htail, ← hu]
        exact take_prefix _ _
      rw [← hu, length_take] at hge
      have := std.validUpTo_le hread
      omega
    have hdrop : (p.pendingUtf8 ++ chunk).drop err.validUpTo = tail := by
      rw [hupTo, htail, drop_left]
    have htake : (p.pendingUtf8 ++ chunk).take err.validUpTo = encode t := by
      rw [hupTo, htail, take_left]
    have hlen : err.errorLen = none := by
      rw [std.errorLen_eq_none_iff hread, hdrop]
      exact hincomplete
    simp only [hlen]
    split
    next hzero =>
      apply And.intro rfl
      rw [hzero, drop_zero] at hdrop
      rw [List.append_assoc, hdrop]
      exact ⟨rfl, hincomplete⟩
    next =>
      rw [htake, std.ok_iff.mpr rfl, hdrop]
      apply And.intro rfl
      simp [recording, encode_append, htail, hincomplete]

abbrev pushed (p : Utf8StreamParser (P × List Str)) (chunk : List UInt8)
    : Utf8StreamParser (P × List Str) :=
  (pushBytes std parser.recording p chunk).2

theorem run_of_valid (hp : Holds bytes p)
    (hvalid : bytes ++ chunks.flatten <+: encode s)
    : Run.Along (pushed std parser)
        (fun p chunk => (pushBytes std parser.recording p chunk).1.isOk) p chunks ∧
      Run.Always (pushed std parser) (fun p => p.pendingUtf8.length ≤ 3) p chunks ∧
      Holds (bytes ++ chunks.flatten) (chunks.foldl (pushed std parser) p) := by
  induction chunks generalizing p bytes with
  | nil =>
    rw [flatten_nil, append_nil]
    exact ⟨trivial, hp.2.length_le, hp⟩
  | cons chunk chunks ih =>
    rw [flatten_cons, ← List.append_assoc] at hvalid ⊢
    have ⟨hok, hholds⟩ := pushBytes_valid std parser hp ((prefix_append _ _).trans hvalid)
    have ⟨halong, halways, hlast⟩ := ih hholds hvalid
    exact ⟨⟨hok, halong⟩, ⟨hp.2.length_le, halways⟩, hlast⟩

theorem finish_of_holds (hp : Holds (encode s) p)
    : (finish std parser.recording p).1.isOk ∧
      (finish std parser.recording p).2.inner.2.flatten = s := by
  have ⟨hbytes, hincomplete⟩ := hp
  have ⟨rest, hrest⟩ := exists_append_of_encode_isPrefix (s := p.inner.2.flatten) (t := s)
    (hbytes ▸ prefix_append _ _)
  rw [hrest, encode_append, append_cancel_left_eq] at hbytes
  have hnil : rest = [] := hincomplete.eq_nil_of_encode_isPrefix (hbytes ▸ prefix_refl _)
  subst hnil
  simp [finish, hbytes, recording, hrest, Except.isOk, Except.toBool]

structure Decodes (std : FromUtf8) (parser : StreamTextParser P E) (inner : P)
    (chunks : List (List UInt8)) (text : Str) : Prop where
  isOk : Run.Along (pushed std parser)
    (fun p chunk => (pushBytes std parser.recording p chunk).1.isOk) (new (inner, [])) chunks
  length_pendingUtf8_le : Run.Always (pushed std parser) (fun p => p.pendingUtf8.length ≤ 3)
    (new (inner, [])) chunks
  finish_isOk :
    (finish std parser.recording (chunks.foldl (pushed std parser) (new (inner, [])))).1.isOk
  handed :
    (finish std parser.recording
      (chunks.foldl (pushed std parser) (new (inner, [])))).2.inner.2.flatten = text

def RollsBack : Prop :=
  ∀ (p : Utf8StreamParser P) (chunk : List UInt8), (∀ s, ¬p.pendingUtf8 ++ chunk <+: encode s) →
    ∃ validUpTo errorLen,
      pushBytes std parser p chunk = (.error (.invalidUtf8 validUpTo errorLen), p)

theorem decodes_of_valid (std : FromUtf8) (parser : StreamTextParser P E) (inner : P) (text : Str)
    (chunks : List (List UInt8)) (hchunks : chunks.flatten = encode text)
    : Decodes std parser inner chunks text ∧ RollsBack std parser := by
  have hnew : Holds [] (new (inner, ([] : List Str))) := ⟨rfl, incomplete_nil⟩
  have hvalid : [] ++ chunks.flatten <+: encode text := by
    rw [nil_append, hchunks]
  have ⟨hok, hpending, hlast⟩ := run_of_valid std parser hnew hvalid
  rw [nil_append, hchunks] at hlast
  have ⟨hfinish, hhanded⟩ := finish_of_holds std parser hlast
  exact ⟨⟨hok, hpending, hfinish, hhanded⟩, pushBytes_invalid std parser⟩

def plain : StreamTextParser Unit Unit := ⟨fun _ s => ((), ⟨s, []⟩), fun _ => ((), {})⟩

theorem decodes_of_valid_split
    : Decodes .described plain () [[0x61, 0xC3], [0xA9]] ['a', 'é'] ∧
      RollsBack .described plain :=
  decodes_of_valid .described plain () _ _ (by decide)

end Utf8StreamParser

end Codex.StreamParser
