import Mathlib

/-!
This module contains texts as their UTF-8 bytes, and the lossy reading of bytes as they arrive.
-/

namespace Text

open List

open String (utf8EncodeChar)

def encode (s : List Char) : List UInt8 := s.flatMap utf8EncodeChar

@[simp]
theorem encode_nil : encode [] = [] := rfl

@[simp]
theorem encode_cons (c : Char) (s : List Char) : encode (c :: s) = utf8EncodeChar c ++ encode s := by
  simp [encode]

theorem encode_append (s t : List Char) : encode (s ++ t) = encode s ++ encode t := by
  simp [encode]

theorem length_utf8EncodeChar_le (c : Char) : (utf8EncodeChar c).length ≤ 4 := by
  rw [String.length_utf8EncodeChar]
  exact c.utf8Size_le_four

variable {c d : Char} {rest : List UInt8}

theorem eq_of_utf8EncodeChar_append {s t : List UInt8} (h : utf8EncodeChar c ++ s = utf8EncodeChar d ++ t)
    : c = d := by
  have hc := ByteArray.utf8DecodeChar?_utf8EncodeChar_append (b := s.toByteArray) (c := c)
  have hd := ByteArray.utf8DecodeChar?_utf8EncodeChar_append (b := t.toByteArray) (c := d)
  rw [← toByteArray_append, h, toByteArray_append, hd] at hc
  rw [Option.some.injEq] at hc
  exact hc.symm

theorem eq_of_utf8EncodeChar_isPrefix {s : List UInt8} (h : utf8EncodeChar c <+: utf8EncodeChar d ++ s)
    : c = d := by
  have ⟨t, ht⟩ := h
  exact eq_of_utf8EncodeChar_append ht

variable {s t : List Char} {bytes : List UInt8}

theorem encode_eq_nil_iff : encode s = [] ↔ s = [] := by
  cases s with
  | nil => simp
  | cons c s => simp [String.utf8EncodeChar_ne_nil]

theorem exists_append_of_encode_isPrefix (h : encode s <+: encode t) : ∃ rest, t = s ++ rest := by
  induction s generalizing t with
  | nil => exact ⟨t, rfl⟩
  | cons c s ih =>
    cases t with
    | nil =>
      rw [encode_nil, prefix_nil, encode_eq_nil_iff] at h
      cases h
    | cons d t =>
      rw [encode_cons, encode_cons] at h
      have hcd := eq_of_utf8EncodeChar_isPrefix ((prefix_append _ _).trans h)
      subst hcd
      rw [prefix_append_right_inj] at h
      have ⟨rest, hrest⟩ := ih h
      exact ⟨rest, by rw [hrest, cons_append]⟩

theorem encode_inj (h : encode s = encode t) : s = t := by
  have ⟨rest, hrest⟩ := exists_append_of_encode_isPrefix (s := s) (t := t) (by rw [h])
  rw [hrest, encode_append, self_eq_append_right, encode_eq_nil_iff] at h
  rw [hrest, h, append_nil]

def Incomplete (bytes : List UInt8) : Prop :=
  ∃ c, bytes <+: utf8EncodeChar c ∧ bytes.length < (utf8EncodeChar c).length

theorem Incomplete.length_le (h : Incomplete bytes) : bytes.length ≤ 3 := by
  have ⟨c, _, hlt⟩ := h
  have := length_utf8EncodeChar_le c
  omega

theorem incomplete_nil : Incomplete [] :=
  ⟨'a', nil_prefix, length_pos_of_ne_nil String.utf8EncodeChar_ne_nil⟩

theorem Incomplete.eq_nil_of_encode_isPrefix (h : Incomplete bytes) (hs : encode s <+: bytes) : s = [] := by
  have ⟨c, hpre, hlt⟩ := h
  cases s with
  | nil => rfl
  | cons d s =>
    have hd : utf8EncodeChar d <+: bytes := (prefix_append _ _).trans hs
    have hdc : utf8EncodeChar d <+: utf8EncodeChar c ++ [] := by
      rw [append_nil]
      exact hd.trans hpre
    have := eq_of_utf8EncodeChar_isPrefix hdc
    subst this
    have := hd.length_le
    omega

theorem exists_encode_append_incomplete (h : bytes <+: encode s)
    : ∃ t rest, bytes = encode t ++ rest ∧ Incomplete rest := by
  induction s generalizing bytes with
  | nil =>
    rw [encode_nil, prefix_nil] at h
    exact ⟨[], [], by simp [h], incomplete_nil⟩
  | cons c s ih =>
    rw [encode_cons] at h
    by_cases hlt : bytes.length < (utf8EncodeChar c).length
    . refine ⟨[], bytes, by simp, c, ?_, hlt⟩
      exact prefix_of_prefix_length_le h (prefix_append _ _) (by omega)
    . have hpre : utf8EncodeChar c <+: bytes :=
        prefix_of_prefix_length_le (prefix_append _ _) h (by omega)
      have ⟨bytes', hbytes'⟩ := hpre
      rw [← hbytes', prefix_append_right_inj] at h
      have ⟨t, rest, ht, hrest⟩ := ih h
      exact ⟨c :: t, rest, by simp [← hbytes', ht], hrest⟩

theorem isPrefix_encode_of_incomplete (h : Incomplete rest) : ∃ s, encode t ++ rest <+: encode s := by
  have ⟨c, hpre, _⟩ := h
  exists t ++ [c]
  rw [encode_append, prefix_append_right_inj, encode_cons, encode_nil, append_nil]
  exact hpre

theorem length_encode_le_of_isPrefix (h : Incomplete rest) (hs : encode s <+: encode t ++ rest)
    : (encode s).length ≤ (encode t).length := by
  cases prefix_or_prefix_of_prefix hs (prefix_append _ _) with
  | inl hle => exact hle.length_le
  | inr hle =>
    have ⟨u, hu⟩ := exists_append_of_encode_isPrefix hle
    rw [hu, encode_append, prefix_append_right_inj] at hs
    have hnil := h.eq_nil_of_encode_isPrefix hs
    rw [hu, hnil, append_nil]

def decode? : List UInt8 → Option (List Char)
  | [] => some []
  | byte :: bytes => (String.fromUTF8? (byte :: bytes).toByteArray).map String.toList

theorem fromUTF8?_eq_some_iff {bytes : ByteArray} {s : String}
    : String.fromUTF8? bytes = some s ↔ bytes = s.toByteArray := by
  unfold String.fromUTF8?
  constructor
  . intro h
    split at h
    . injection h with h
      rw [← h]
      rfl
    . contradiction
  . rintro rfl
    rw [dif_pos s.isValidUTF8]
    rfl

theorem decode?_eq_some_iff : decode? bytes = some s ↔ bytes = encode s := by
  cases bytes with
  | nil => rw [decode?, Option.some.injEq, eq_comm, eq_comm (a := []), encode_eq_nil_iff]
  | cons byte bytes =>
    rw [decode?, Option.map_eq_some_iff]
    constructor
    . rintro ⟨t, ht, rfl⟩
      rw [fromUTF8?_eq_some_iff, ← String.utf8Encode_toList, List.utf8Encode, toByteArray_inj] at ht
      exact ht
    . intro h
      refine ⟨String.ofList s, ?_, String.toList_ofList⟩
      rw [fromUTF8?_eq_some_iff, String.toByteArray_ofList, h]
      rfl

@[simp]
theorem decode?_encode (s : List Char) : decode? (encode s) = some s := by
  rw [decode?_eq_some_iff]

def replacement : Char := '�'

def IsStart (bytes : List UInt8) : Prop := ∃ c, bytes <+: utf8EncodeChar c

variable {bytes : List UInt8}

theorem IsStart.of_isPrefix (h : IsStart bytes') (hpre : bytes <+: bytes')
    : IsStart bytes := by
  have ⟨c, hc⟩ := h
  exact ⟨c, hpre.trans hc⟩

theorem Incomplete.isStart (h : Incomplete bytes) : IsStart bytes := by
  have ⟨c, hc, _⟩ := h
  exact ⟨c, hc⟩

theorem Incomplete.not_utf8EncodeChar_isPrefix (h : Incomplete bytes) (c : Char)
    : ¬utf8EncodeChar c <+: bytes := by
  intro hc
  have henc : encode [c] <+: bytes := by
    rw [encode_cons, encode_nil, append_nil]
    exact hc
  have := h.eq_nil_of_encode_isPrefix henc
  contradiction

theorem IsStart.incomplete_or_eq (h : IsStart bytes)
    : Incomplete bytes ∨ ∃ c, bytes = utf8EncodeChar c := by
  have ⟨c, hc⟩ := h
  by_cases hlt : bytes.length < (utf8EncodeChar c).length
  . exact .inl ⟨c, hc, hlt⟩
  . exact .inr ⟨c, hc.eq_of_length_le (by omega)⟩

inductive Decodes : List UInt8 → List Char → List UInt8 → Prop
  | incomplete {rest : List UInt8} : Incomplete rest → Decodes rest [] rest
  | char (c : Char) {bytes : List UInt8} {s : List Char} {rest : List UInt8} :
    Decodes bytes s rest → Decodes (utf8EncodeChar c ++ bytes) (c :: s) rest
  | badByte {b : UInt8} {bytes : List UInt8} {s : List Char} {rest : List UInt8} :
    ¬IsStart [b] → Decodes bytes s rest → Decodes (b :: bytes) (replacement :: s) rest
  | badPart {part : List UInt8} {b : UInt8} {bytes : List UInt8} {s : List Char} {rest : List UInt8} :
    part ≠ [] → Incomplete part → ¬IsStart (part ++ [b]) → Decodes (b :: bytes) s rest →
      Decodes (part ++ b :: bytes) (replacement :: s) rest

namespace Decodes

variable {bytes more rest rest' : List UInt8} {s t : List Char}

theorem encode_append (s : List Char) (h : Decodes bytes t rest)
    : Decodes (encode s ++ bytes) (s ++ t) rest := by
  induction s with
  | nil => exact h
  | cons c s ih =>
    rw [encode_cons, append_assoc]
    exact .char c ih

theorem rest_incomplete (h : Decodes bytes s rest) : Incomplete rest := by
  induction h with
  | incomplete hrest => exact hrest
  | char _ _ ih | badByte _ _ ih | badPart _ _ _ _ ih => exact ih

theorem append (h : Decodes bytes s rest) (hmore : Decodes (rest ++ more) t rest')
    : Decodes (bytes ++ more) (s ++ t) rest' := by
  induction h with
  | incomplete _ => exact hmore
  | char c _ ih =>
    rw [append_assoc]
    exact .char c (ih hmore)
  | badByte hbad _ ih => exact .badByte hbad (ih hmore)
  | badPart hne hpart hbad _ ih =>
    rw [append_assoc]
    exact .badPart hne hpart hbad (ih hmore)

variable {b b' : UInt8} {part : List UInt8}

theorem not_isStart_byte (hbad : ¬IsStart [b]) : ¬IsStart (b :: bytes) := by
  intro h
  exact hbad (h.of_isPrefix ⟨bytes, rfl⟩)

theorem not_isStart_part (hbad : ¬IsStart (part ++ [b])) : ¬IsStart (part ++ b :: bytes) := by
  intro h
  apply hbad
  apply h.of_isPrefix
  exact ⟨bytes, by simp⟩

variable {c : Char} {part' : List UInt8}

theorem isStart_of_char_eq (h : utf8EncodeChar c ++ more = b :: bytes) : IsStart [b] := by
  refine ⟨c, ?_⟩
  cases hc : utf8EncodeChar c with
  | nil => exact absurd hc String.utf8EncodeChar_ne_nil
  | cons b' tail =>
    rw [hc, cons_append, cons.injEq] at h
    rw [h.1]
    exact ⟨tail, rfl⟩

theorem isStart_of_char_eq_part (hpart : Incomplete part)
    (h : utf8EncodeChar c ++ more = part ++ b :: bytes)
    : IsStart (part ++ [b]) := by
  refine ⟨c, ?_⟩
  have hchar : utf8EncodeChar c <+: part ++ b :: bytes := ⟨more, h⟩
  have hnext : part ++ [b] <+: part ++ b :: bytes := ⟨bytes, by simp⟩
  by_cases hlt : part.length < (utf8EncodeChar c).length
  . exact prefix_of_prefix_length_le hnext hchar (by rw [length_append, length_singleton]; omega)
  . have hle : utf8EncodeChar c <+: part :=
      prefix_of_prefix_length_le hchar (prefix_append _ _) (by omega)
    exact absurd hle (hpart.not_utf8EncodeChar_isPrefix c)

theorem part_length_le (hpart' : Incomplete part') (hbad : ¬IsStart (part ++ [b]))
    (h : part ++ b :: bytes = part' ++ b' :: more)
    : part'.length ≤ part.length := by
  by_contra hlt
  apply hbad
  apply hpart'.isStart.of_isPrefix
  have hnext : part ++ [b] <+: part' ++ b' :: more := by
    rw [← h]
    exact ⟨bytes, by simp⟩
  exact prefix_of_prefix_length_le hnext (prefix_append _ _) (by rw [length_append, length_singleton]; omega)

theorem part_eq (hpart : Incomplete part) (hpart' : Incomplete part') (hbad : ¬IsStart (part ++ [b]))
    (hbad' : ¬IsStart (part' ++ [b'])) (h : part ++ b :: bytes = part' ++ b' :: more)
    : b :: bytes = b' :: more := by
  have hle := part_length_le hpart' hbad h
  have hle' := part_length_le hpart hbad' h.symm
  exact (append_inj h (by omega)).2

theorem isStart_of_part_eq (hne : part ≠ []) (hpart : Incomplete part) (h : b' :: more = part ++ b :: bytes)
    : IsStart [b'] := by
  cases part with
  | nil => contradiction
  | cons b'' tail =>
    rw [cons_append, cons.injEq] at h
    rw [h.1]
    exact hpart.isStart.of_isPrefix ⟨tail, rfl⟩

theorem unique (h : Decodes bytes s rest) (h' : Decodes bytes t rest') : s = t ∧ rest = rest' := by
  induction h generalizing t with
  | incomplete hrest =>
    cases h' with
    | incomplete _ => exact ⟨rfl, rfl⟩
    | char c _ => exact absurd (prefix_append _ _) (hrest.not_utf8EncodeChar_isPrefix c)
    | badByte hbad _ => exact absurd hrest.isStart (not_isStart_byte hbad)
    | badPart _ _ hbad _ => exact absurd hrest.isStart (not_isStart_part hbad)
  | @char c bytes s rest _ ih =>
    generalize heq : utf8EncodeChar c ++ bytes = all at h'
    cases h' with
    | incomplete hrest =>
      rw [← heq] at hrest
      exact absurd (prefix_append _ _) (hrest.not_utf8EncodeChar_isPrefix c)
    | char d h' =>
      have hcd := eq_of_utf8EncodeChar_append heq
      subst hcd
      rw [append_cancel_left_eq] at heq
      subst heq
      have ⟨hs, hrest⟩ := ih h'
      exact ⟨by rw [hs], hrest⟩
    | badByte hbad _ => exact absurd (isStart_of_char_eq heq) hbad
    | badPart _ hpart hbad _ => exact absurd (isStart_of_char_eq_part hpart heq) hbad
  | @badByte b bytes s rest hbad _ ih =>
    generalize heq : b :: bytes = all at h'
    cases h' with
    | incomplete hrest =>
      rw [← heq] at hrest
      exact absurd hrest.isStart (not_isStart_byte hbad)
    | char c _ => exact absurd (isStart_of_char_eq heq.symm) hbad
    | badByte _ h' =>
      rw [cons.injEq] at heq
      rw [← heq.2] at h'
      have ⟨hs, hrest⟩ := ih h'
      exact ⟨by rw [hs], hrest⟩
    | badPart hne hpart _ _ => exact absurd (isStart_of_part_eq hne hpart heq) hbad
  | @badPart part b bytes s rest hne hpart hbad _ ih =>
    generalize heq : part ++ b :: bytes = all at h'
    cases h' with
    | incomplete hrest =>
      rw [← heq] at hrest
      exact absurd hrest.isStart (not_isStart_part hbad)
    | char c _ => exact absurd (isStart_of_char_eq_part hpart heq.symm) hbad
    | badByte hbad' _ => exact absurd (isStart_of_part_eq hne hpart heq.symm) hbad'
    | badPart _ hpart' hbad' h' =>
      rw [← part_eq hpart hpart' hbad hbad' heq] at h'
      have ⟨hs, hrest⟩ := ih h'
      exact ⟨by rw [hs], hrest⟩

end Decodes

def closed (s : List Char) (rest : List UInt8) : List Char := if rest = [] then s else s ++ [replacement]

theorem closed_cons (c : Char) (s : List Char) (rest : List UInt8)
    : closed (c :: s) rest = c :: closed s rest := by
  unfold closed
  split <;> rfl

theorem Decodes.exists_closed {rest : List UInt8} {s : List Char} (h : Decodes bytes s rest)
    : ∃ read t kept, bytes = read ++ rest ∧ Decodes read t kept ∧ closed t kept = s := by
  induction h with
  | incomplete hrest => exact ⟨[], [], [], rfl, .incomplete incomplete_nil, rfl⟩
  | char c _ ih =>
    have ⟨read, t, kept, hread, ht, hclosed⟩ := ih
    refine ⟨utf8EncodeChar c ++ read, c :: t, kept, ?_, .char c ht, ?_⟩
    . rw [hread, append_assoc]
    . rw [closed_cons, hclosed]
  | @badByte b _ _ _ hbad _ ih =>
    have ⟨read, t, kept, hread, ht, hclosed⟩ := ih
    refine ⟨b :: read, replacement :: t, kept, ?_, .badByte hbad ht, ?_⟩
    . rw [hread, cons_append]
    . rw [closed_cons, hclosed]
  | @badPart part b bytes s rest hne hpart hbad _ ih =>
    have ⟨read, t, kept, hread, ht, hclosed⟩ := ih
    cases read with
    | nil =>
      have ⟨hnil, hkept⟩ := ht.unique (.incomplete incomplete_nil)
      rw [hnil, hkept] at hclosed
      refine ⟨part, [], part, ?_, .incomplete hpart, ?_⟩
      . rw [hread, nil_append]
      . rw [← hclosed, closed, if_neg hne]
        rfl
    | cons b' read =>
      rw [cons_append, cons.injEq] at hread
      obtain ⟨rfl, rfl⟩ := hread
      refine ⟨part ++ b :: read, replacement :: t, kept, ?_, .badPart hne hpart hbad ht, ?_⟩
      . rw [append_assoc, cons_append]
      . rw [closed_cons, hclosed]

end Text
