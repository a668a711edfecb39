import Mathlib

/-!
This module contains the interface of the stream parsers.
-/

namespace Codex.StreamParser

abbrev Str := List Char

structure StreamTextChunk (E : Type) where
  visibleText : Str := []
  extracted : List E := []
  deriving DecidableEq, Repr

structure StreamTextParser (P E : Type) where
  pushStr : P → Str → P × StreamTextChunk E
  finish : P → P × StreamTextChunk E

variable {P E : Type}

namespace StreamTextChunk

instance : Append (StreamTextChunk E) where
  append a b := ⟨a.visibleText ++ b.visibleText, a.extracted ++ b.extracted⟩

theorem append_def (a b : StreamTextChunk E)
    : a ++ b = ⟨a.visibleText ++ b.visibleText, a.extracted ++ b.extracted⟩ := rfl

@[simp]
theorem append_empty (a : StreamTextChunk E) : a ++ {} = a := by
  simp [append_def]

@[simp]
theorem empty_append (a : StreamTextChunk E) : {} ++ a = a := by
  simp [append_def]

theorem append_assoc (a b c : StreamTextChunk E) : a ++ b ++ c = a ++ (b ++ c) := by
  simp [append_def]

end StreamTextChunk

namespace StreamTextParser

def pushAll (parser : StreamTextParser P E) (p : P) (chunks : List Str) : P × StreamTextChunk E :=
  match chunks with
  | [] => (p, {})
  | chunk :: chunks =>
    let pushed := parser.pushStr p chunk
    let rest := parser.pushAll pushed.1 chunks
    (rest.1, pushed.2 ++ rest.2)

variable (parser : StreamTextParser P E) (p : P)

def collect (chunks : List Str) : StreamTextChunk E :=
  let pushed := parser.pushAll p chunks
  pushed.2 ++ (parser.finish pushed.1).2

theorem collect_cons (chunk : Str) (chunks : List Str)
    : parser.collect p (chunk :: chunks) =
      (parser.pushStr p chunk).2 ++ parser.collect (parser.pushStr p chunk).1 chunks := by
  simp [collect, pushAll, StreamTextChunk.append_assoc]

theorem collect_eq_of_reads {parser : StreamTextParser P E} (read : P → Str → StreamTextChunk E)
    (Settled : P → Prop)
    (hpush : ∀ p chunk, Settled p → Settled (parser.pushStr p chunk).1 ∧ ∀ rest,
      read p (chunk ++ rest) =
        (parser.pushStr p chunk).2 ++ read (parser.pushStr p chunk).1 rest)
    (hfinish : ∀ p, Settled p → (parser.finish p).2 = read p [])
    {p : P} (hp : Settled p) (chunks : List Str)
    : parser.collect p chunks = read p chunks.flatten := by
  induction chunks generalizing p with
  | nil =>
    exact hfinish p hp
  | cons chunk chunks ih =>
    have ⟨hsettled, hread⟩ := hpush p chunk hp
    rw [collect_cons, ih hsettled, List.flatten_cons, hread]

end StreamTextParser

end Codex.StreamParser
