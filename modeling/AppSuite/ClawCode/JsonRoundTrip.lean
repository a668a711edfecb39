import AppSuite.ClawCode.Json

/-!
This module contains the round trip of the JSON of the session files.
-/

namespace ClawCode

open List JsonValue

section Strings

theorem hexDigit?_digitChar : ∀ {n : Nat}, n < 16 → hexDigit? (Nat.digitChar n) = some n := by
  decide

theorem parseHexDigits_cons (h : n < 16) (count value : Nat) (rest : Str)
    : parseHexDigits (count + 1) value (Nat.digitChar n :: rest)
      = parseHexDigits count (value <<< 4 ||| n) rest := by
  rw [parseHexDigits, hexDigit?_digitChar h]

theorem nibble_lt (n shift : Nat) : n >>> shift &&& 0xf < 16 :=
  Nat.and_lt_two_pow (n := 4) (n >>> shift) (by decide)

theorem nibbles_eq : ∀ n < 0xa0,
    (((0 <<< 4 ||| n >>> 12 &&& 0xf) <<< 4 ||| n >>> 8 &&& 0xf) <<< 4 ||| n >>> 4 &&& 0xf) <<< 4
      ||| n >>> 0 &&& 0xf = n := by
  decide +kernel

theorem parseEscape_pushUnicodeEscape (h : isControl c = true) (rest : Str)
    : parseEscape ('u' :: ([12, 8, 4, 0].map fun shift => Nat.digitChar (c.toNat >>> shift &&& 0xf)) ++ rest)
      = .ok (c, rest) := by
  have hlt : c.toNat < 0xa0 := by
    simp only [isControl, Bool.or_eq_true, Bool.and_eq_true, decide_eq_true_eq] at h
    omega
  have hvalid : c.toNat.isValidChar := c.valid
  simp only [map_cons, map_nil, cons_append, nil_append, parseEscape, parseUnicodeEscape]
  rw [parseHexDigits_cons (nibble_lt _ _), parseHexDigits_cons (nibble_lt _ _),
    parseHexDigits_cons (nibble_lt _ _), parseHexDigits_cons (nibble_lt _ _), parseHexDigits,
    nibbles_eq _ hlt]
  simp [bind, Except.bind, hvalid]

theorem parseStringTail_renderChar (fuel : Nat) (ch : Char) (chars value : Str)
    : parseStringTail (fuel + 1) (renderChar ch ++ chars) value
      = parseStringTail fuel chars (value ++ [ch]) := by
  unfold renderChar
  repeat' split
  all_goals try (next h => rw [h]; rfl)
  . next hcontrol =>
    have hescape := parseEscape_pushUnicodeEscape hcontrol chars
    rw [pushUnicodeEscape, append_assoc, cons_append, parseStringTail]
    exact congrArg (· >>= _) hescape
  . next hquote hbackslash _ _ _ _ _ _ =>
    rw [singleton_append, parseStringTail]
    . exact hquote
    . exact hbackslash

theorem parseStringTail_render (fuel : Nat) (s value rest : Str) (h : s.length < fuel)
    : parseStringTail fuel (s.flatMap renderChar ++ '"' :: rest) value = .ok (value ++ s, rest) := by
  induction s generalizing fuel value with
  | nil =>
    cases fuel with
    | zero => cases h
    | succ fuel => simp [parseStringTail]
  | cons ch s ih =>
    cases fuel with
    | zero => cases h
    | succ fuel =>
      rw [flatMap_cons, append_assoc, parseStringTail_renderChar,
        ih fuel _ (Nat.lt_of_succ_lt_succ h), append_assoc]
      rfl

theorem renderChar_ne_nil (ch : Char) : renderChar ch ≠ [] := by
  unfold renderChar pushUnicodeEscape
  repeat' split
  all_goals exact cons_ne_nil _ _

theorem length_le_flatMap_renderChar (s : Str) : s.length ≤ (s.flatMap renderChar).length := by
  induction s with
  | nil => simp
  | cons ch s ih =>
    have hpos := length_pos_of_ne_nil (renderChar_ne_nil ch)
    rw [flatMap_cons, length_append, length_cons]
    omega

theorem parseString_renderString (s rest : Str)
    : parseString (renderString s ++ rest) = .ok (s, rest) := by
  have hlen := length_le_flatMap_renderChar s
  have htail := parseStringTail_render ((s.flatMap renderChar ++ '"' :: rest).length + 1) s [] rest
    (by rw [length_append]; omega)
  rw [renderString, cons_append, cons_append, append_assoc]
  exact htail

end Strings

section Numbers

def EndsNumber (rest : Str) : Prop := ∀ c, rest.head? = some c → c.isDigit = false

theorem endsNumber_cons (h : c.isDigit = false) (rest : Str) : EndsNumber (c :: rest) := by
  intro c' hc'
  cases hc'
  exact h

theorem digits_append {digits rest : Str} (h : ∀ c ∈ digits, c.isDigit = true) (hrest : EndsNumber rest)
    : (digits ++ rest).takeWhile (·.isDigit) = digits
      ∧ (digits ++ rest).dropWhile (·.isDigit) = rest := by
  rw [takeWhile_append_of_pos h, dropWhile_append_of_pos h]
  cases rest with
  | nil => simp
  | cons c rest =>
    have hc := hrest c rfl
    simp [hc]

theorem tryConsume_digits (h : ∀ c ∈ digits, c.isDigit = true) (hne : digits ≠ [])
    (rest : Str)
    : tryConsume '-' (digits ++ rest) = none := by
  cases digits with
  | nil => cases hne rfl
  | cons c digits =>
    apply if_neg
    rintro rfl
    cases h '-' mem_cons_self

theorem parseNumber_renderNumber (value : Int64) {rest : Str} (hrest : EndsNumber rest)
    : parseNumber (renderNumber value ++ rest) = .ok (value, rest) := by
  have hdigits : ∀ c ∈ Nat.toDigits 10 value.toInt.natAbs, c.isDigit = true := by
    intro c hc
    exact Nat.isDigit_of_mem_toDigits (by decide) (by decide) hc
  have ⟨htake, hdrop⟩ := digits_append hdigits hrest
  unfold renderNumber parseNumber
  split
  . next hneg =>
    have hconsume : tryConsume '-' (['-'] ++ Nat.toDigits 10 value.toInt.natAbs ++ rest)
        = some (Nat.toDigits 10 value.toInt.natAbs ++ rest) := rfl
    have habs : -(value.toInt.natAbs : Int) = value.toInt := by omega
    simp only [hconsume, Option.getD_some, Option.isSome_some, htake, hdrop, if_true,
      Nat.ofDigitChars_ten_toDigits, habs, i64?_toInt]
    rw [if_neg Nat.toDigits_ne_nil]
  . next hneg =>
    have hconsume := tryConsume_digits hdigits Nat.toDigits_ne_nil rest
    have habs : (value.toInt.natAbs : Int) = value.toInt := by omega
    simp only [nil_append, hconsume, Option.getD_none, Option.isSome_none, Bool.false_eq_true,
      htake, hdrop, if_false, Nat.ofDigitChars_ten_toDigits, habs, i64?_toInt]
    rw [if_neg Nat.toDigits_ne_nil]

end Numbers

section Spacing

-- The tokens with whitespace in front of each, and the rest.
def Spaced (tokens : List Str) (text rest : Str) : Prop :=
  match tokens with
  | [] => text = rest
  | token :: tokens =>
    ∃ gap tail, (∀ c ∈ gap, isJsonWhitespace c = true) ∧ text = gap ++ (token ++ tail) ∧ Spaced tokens tail rest

theorem spaced_flatten (tokens : List Str) (rest : Str) : Spaced tokens (tokens.flatten ++ rest) rest := by
  induction tokens with
  | nil => rfl
  | cons token tokens ih => exact ⟨[], _, nofun, append_assoc .., ih⟩

variable {tokens : List Str} {text rest : Str}

theorem spaced_gaps (gaps : List Str) (hlength : gaps.length = tokens.length)
    (hgaps : ∀ gap ∈ gaps, ∀ c ∈ gap, isJsonWhitespace c = true) (rest : Str)
    : Spaced tokens ((zipWith (· ++ ·) gaps tokens).flatten ++ rest) rest := by
  induction tokens generalizing gaps with
  | nil =>
    rw [zipWith_nil_right]
    rfl
  | cons token tokens ih =>
    cases gaps with
    | nil => cases hlength
    | cons gap gaps =>
      rw [forall_mem_cons] at hgaps
      refine ⟨gap, _, hgaps.1, ?_, ih gaps (Nat.succ.inj hlength) hgaps.2⟩
      rw [zipWith_cons_cons, flatten_cons, append_assoc, append_assoc]

theorem Spaced.append (h : Spaced (tokens ++ tokens') text rest)
    : ∃ mid, Spaced tokens text mid ∧ mid.length ≤ text.length ∧ Spaced tokens' mid rest := by
  induction tokens generalizing text with
  | nil => exact ⟨text, rfl, Nat.le_refl _, h⟩
  | cons token tokens ih =>
    have ⟨gap, tail, hgap, htext, htail⟩ := h
    have ⟨mid, hmid, hle, hrest⟩ := ih htail
    refine ⟨mid, ⟨gap, tail, hgap, htext, hmid⟩, ?_, hrest⟩
    rw [htext, length_append, length_append]
    omega

theorem isDigit_of_isJsonWhitespace (h : isJsonWhitespace c = true) : c.isDigit = false ∧ c ≠ '-' := by
  simp only [isJsonWhitespace, Bool.or_eq_true, decide_eq_true_eq] at h
  rcases h with ((rfl | rfl) | rfl) | rfl <;> decide

theorem skipWhitespace_cons (h : isJsonWhitespace c = false) (rest : Str)
    : skipWhitespace (c :: rest) = c :: rest :=
  dropWhile_cons_of_neg (by rw [h]; decide)

theorem Spaced.skip (h : Spaced ((c :: token) :: tokens) text rest) (hc : isJsonWhitespace c = false)
    : ∃ tail, skipWhitespace text = c :: (token ++ tail) ∧ tail.length < text.length
      ∧ Spaced tokens tail rest := by
  have ⟨gap, tail, hgap, htext, htail⟩ := h
  refine ⟨tail, ?_, ?_, htail⟩
  . rw [htext, skipWhitespace, dropWhile_append_of_pos hgap]
    exact skipWhitespace_cons hc _
  . rw [htext, length_append, length_append, length_cons]
    omega

theorem Spaced.skip_last (h : Spaced [c :: token] text rest) (hc : isJsonWhitespace c = false)
    : skipWhitespace text = c :: (token ++ rest) := by
  have ⟨tail, hskip, _, htail⟩ := h.skip hc
  cases htail
  exact hskip

theorem endsNumber_of_skip (h : skipWhitespace text = c :: rest) (hc : c.isDigit = false)
    : EndsNumber text := by
  intro d hd
  cases hspace : isJsonWhitespace d with
  | true => exact (isDigit_of_isJsonWhitespace hspace).1
  | false =>
    have ⟨tail, htext⟩ := head?_eq_some_iff.mp hd
    rw [htext, skipWhitespace_cons hspace] at h
    cases h
    exact hc

theorem tryConsume_self (c : Char) (rest : Str) : tryConsume c (c :: rest) = some rest :=
  if_pos rfl

theorem tryConsume_of_ne (h : c ≠ expected) (rest : Str)
    : tryConsume expected (c :: rest) = none :=
  if_neg h

theorem expect_self (c : Char) (rest : Str) : expect c (c :: rest) = .ok rest :=
  if_pos rfl

variable {α : Type} {close : Char} {parseItem : Str → Except JsonError (α × Str)}
  {tokensOf : α → List Str} {items : List α}

theorem flatten_intercalate {f : α → List Str} {g : α → Str} (h : ∀ item ∈ items, (f item).flatten = g item)
    : ([[',']].intercalate (items.map f)).flatten = [','].intercalate (items.map g) := by
  induction items with
  | nil => rfl
  | cons first items ih =>
    rw [forall_mem_cons] at h
    cases items with
    | nil => simp [intercalate, h.1]
    | cons next items =>
      rw [map_cons, map_cons, intercalate_cons_cons, ← map_cons, flatten_append, flatten_append, h.1, ih h.2,
        map_cons, map_cons, map_cons, intercalate_cons_cons]
      rfl

theorem parseItems_spaced (hclose : isJsonWhitespace close = false) (hdigit : close.isDigit = false)
    (hcomma : close ≠ ',')
    (hitems : ∀ item ∈ items, ∀ text rest, text.length ≤ bound → Spaced (tokensOf item) text rest
      → EndsNumber rest → tryConsume close (skipWhitespace text) = none
        ∧ parseItem (skipWhitespace text) = .ok (item, rest))
    (h : Spaced ([[',']].intercalate (items.map tokensOf) ++ [[close]]) text rest)
    (hbound : text.length ≤ bound) (hfuel : text.length < fuel) (read : List α)
    : parseItems close parseItem fuel text read = .ok (read ++ items, rest) := by
  induction items generalizing fuel read text with
  | nil =>
    have hskip := Spaced.skip_last h hclose
    cases fuel with
    | zero => cases hfuel
    | succ fuel => simp [parseItems, hskip, tryConsume_self]
  | cons item items ih =>
    rw [forall_mem_cons] at hitems
    cases fuel with
    | zero => cases hfuel
    | succ fuel =>
      cases items with
      | nil =>
        rw [map_singleton, intercalate_singleton] at h
        have ⟨mid, hitem, _, hmid⟩ := h.append
        have hskip := hmid.skip_last hclose
        have ⟨hnone, hparse⟩ := hitems.1 text mid hbound hitem (endsNumber_of_skip hskip hdigit)
        simp [parseItems, hnone, hparse, hskip, tryConsume_self, bind, Except.bind]
      | cons next items =>
        rw [map_cons, map_cons, intercalate_cons_cons, ← map_cons, append_assoc, append_assoc] at h
        have ⟨mid, hitem, hle, hmid⟩ := h.append
        have ⟨tail, hskip, hlt, htail⟩ := hmid.skip (by decide)
        have ⟨hnone, hparse⟩ := hitems.1 text mid hbound hitem (endsNumber_of_skip hskip (by decide))
        have hnext := ih hitems.2 htail (by omega) (show tail.length < fuel by omega) (read ++ [item])
        rw [parseItems]
        dsimp only
        rw [hnone, hparse]
        simp only [bind, Except.bind]
        rw [hskip, tryConsume_of_ne hcomma.symm, expect_self]
        simp only [nil_append]
        rw [hnext, append_assoc]
        rfl

end Spacing

section Values

def renderEntry (entry : Str × JsonValue) : Str := renderString entry.1 ++ ':' :: entry.2.render

theorem renderValues_eq (values : List JsonValue) : renderValues values = values.map render := by
  induction values with
  | nil => rfl
  | cons value values ih => rw [renderValues, ih, map_cons]

theorem renderEntries_eq (entries : List (Str × JsonValue))
    : renderEntries entries = entries.map renderEntry := by
  induction entries with
  | nil => rfl
  | cons entry entries ih =>
    rw [renderEntries, ih, map_cons]
    rfl

inductive JsonValue.Sorted : JsonValue → Prop where
  | null : Sorted .null
  | bool (value : Bool) : Sorted (.bool value)
  | number (value : Int64) : Sorted (.number value)
  | string (value : Str) : Sorted (.string value)
  | array {values : List JsonValue} (h : ∀ value ∈ values, Sorted value) : Sorted (.array values)
  | object {entries : List (Str × JsonValue)} (hkeys : SortedMap.Sorted entries)
      (h : ∀ entry ∈ entries, Sorted entry.2) : Sorted (.object entries)

def JsonValue.tokens (value : JsonValue) : List Str :=
  match value with
  | .array values => ['['] :: [[',']].intercalate (values.map tokens) ++ [[']']]
  | .object entries =>
    ['\x7b'] :: [[',']].intercalate (entries.map fun entry => renderString entry.1 :: [':'] :: entry.2.tokens)
      ++ [['\x7d']]
  | value => [value.render]
decreasing_by
  . decreasing_tactic
  . next h =>
    have hlt := sizeOf_lt_of_mem h
    cases entry
    simp only [Prod.mk.sizeOf_spec, object.sizeOf_spec] at hlt ⊢
    omega

variable {value : JsonValue} {text rest : Str} {depth : Nat}

theorem flatten_tokens (hsorted : value.Sorted) : value.tokens.flatten = value.render := by
  induction hsorted with
  | @array values _ ih =>
    rw [tokens, flatten_append, flatten_cons, flatten_intercalate ih, render, renderValues_eq]
    rfl
  | @object entries _ _ ih =>
    rw [tokens, flatten_append, flatten_cons, flatten_intercalate (g := renderEntry), render, renderEntries_eq]
    . rfl
    . intro entry hentry
      rw [flatten_cons, flatten_cons, ih entry hentry]
      rfl
  | _ =>
    unfold tokens
    exact flatten_singleton

theorem renderNumber_eq_cons (value : Int64)
    : ∃ c rest, renderNumber value = c :: rest ∧ (c = '-' ∨ c.isDigit = true) := by
  unfold renderNumber
  split
  . exact ⟨_, _, rfl, .inl rfl⟩
  . cases hdigits : Nat.toDigits 10 value.toInt.natAbs with
    | nil => cases Nat.toDigits_ne_nil hdigits
    | cons c rest =>
      have hmem : c ∈ Nat.toDigits 10 value.toInt.natAbs := by rw [hdigits]; exact mem_cons_self
      exact ⟨c, rest, rfl, .inr (Nat.isDigit_of_mem_toDigits (by decide) (by decide) hmem)⟩

theorem number_start (h : c = '-' ∨ c.isDigit = true)
    : isJsonWhitespace c = false ∧ c ≠ ']' := by
  constructor
  . rw [Bool.eq_false_iff]
    intro hspace
    have := isDigit_of_isJsonWhitespace hspace
    simp_all
  . rintro rfl
    revert h
    decide

theorem tokens_eq_cons (value : JsonValue)
    : ∃ c token tokens, value.tokens = (c :: token) :: tokens ∧ isJsonWhitespace c = false ∧ c ≠ ']' := by
  cases value with
  | number value =>
    have ⟨c, rest, hrender, hc⟩ := renderNumber_eq_cons value
    unfold tokens
    rw [render, hrender]
    exact ⟨c, rest, [], rfl, number_start hc⟩
  | bool value =>
    unfold tokens
    cases value <;> exact ⟨_, _, _, rfl, by decide, by decide⟩
  | _ =>
    unfold tokens
    exact ⟨_, _, _, rfl, by decide, by decide⟩

theorem parseValue_skip (depth : Nat) (text : Str)
    : parseValue depth (skipWhitespace text) = parseValue depth text := by
  cases depth with
  | zero => rfl
  | succ depth =>
    unfold parseValue
    rw [skipWhitespace, skipWhitespace, dropWhile_idempotent]

theorem parseLiteral_append (expected : Str) (value : JsonValue) (rest : Str)
    : parseLiteral expected value (expected ++ rest) = .ok (value, rest) := by
  rw [parseLiteral, if_pos (prefix_append expected rest), drop_left]

theorem parseValue_number (h : c = '-' ∨ c.isDigit = true) (depth : Nat) (chars : Str)
    : parseValue (depth + 1) (c :: chars)
      = (parseNumber (c :: chars)).map fun (value, rest) => (.number value, rest) := by
  have hcond : (c = '-' || c.isDigit) = true := by simpa using h
  unfold parseValue
  dsimp only
  rw [skipWhitespace_cons (number_start h).1]
  split
  all_goals try (next heq => cases heq; exact absurd h (by decide))
  . next heq =>
    cases heq
    rw [if_pos hcond]
  . next heq => cases heq

theorem parseArray_spaced
    (hvalues : ∀ value ∈ values, ∀ text rest, text.length < depth → Spaced value.tokens text rest
      → EndsNumber rest → parseValue depth text = .ok (value, rest))
    (h : Spaced ([[',']].intercalate (values.map tokens) ++ [[']']]) text rest) (hdepth : text.length < depth)
    : parseArray (parseValue depth) ('[' :: text) = .ok (.array values, rest) := by
  rw [parseArray, expect_self]
  simp only [bind, Except.bind]
  rw [parseItems_spaced (by decide) (by decide) (by decide) ?_ h (Nat.le_refl _) (Nat.lt_succ_self _), nil_append]
  intro value hvalue item rest hle hspaced hrest
  have ⟨c, token, tokens, htokens, hc, hne⟩ := tokens_eq_cons value
  rw [parseValue_skip]
  refine ⟨?_, hvalues value hvalue item rest (by omega) hspaced hrest⟩
  rw [htokens] at hspaced
  have ⟨tail, hskip, _⟩ := hspaced.skip hc
  rw [hskip, tryConsume_of_ne hne]

theorem parseObject_spaced (hkeys : SortedMap.Sorted entries)
    (hvalues : ∀ entry ∈ entries, ∀ text rest, text.length < depth → Spaced entry.2.tokens text rest
      → EndsNumber rest → parseValue depth text = .ok (entry.2, rest))
    (h : Spaced ([[',']].intercalate (entries.map fun entry => renderString entry.1 :: [':'] :: entry.2.tokens)
      ++ [['\x7d']]) text rest) (hdepth : text.length < depth)
    : parseObject (parseValue depth) ('\x7b' :: text) = .ok (.object entries, rest) := by
  rw [parseObject, expect_self]
  simp only [bind, Except.bind]
  rw [parseItems_spaced (by decide) (by decide) (by decide) ?_ h (Nat.le_refl _) (Nat.lt_succ_self _), nil_append]
  . dsimp only
    rw [SortedMap.ofList_of_sorted hkeys]
  . intro entry hentry item rest hle hspaced hrest
    have ⟨tail, hskip, hlt, htail⟩ := Spaced.skip hspaced (by decide)
    have ⟨tail', hskip', hlt', htail'⟩ := htail.skip (by decide)
    have hkey : skipWhitespace item = renderString entry.1 ++ tail := hskip
    rw [hkey, parseEntry, parseString_renderString]
    refine ⟨tryConsume_of_ne (by decide) _, ?_⟩
    simp only [bind, Except.bind]
    rw [hskip', expect_self]
    simp only [nil_append, hvalues entry hentry tail' rest (by omega) htail' hrest]

theorem parseValue_spaced (hsorted : value.Sorted) (hdepth : text.length < depth)
    (h : Spaced value.tokens text rest) (hrest : EndsNumber rest)
    : parseValue depth text = .ok (value, rest) := by
  induction depth generalizing value text rest with
  | zero => cases hdepth
  | succ depth ih =>
    rw [← parseValue_skip]
    unfold tokens at h
    cases hsorted with
    | null =>
      rw [Spaced.skip_last h (by decide)]
      exact parseLiteral_append "null".toList .null rest
    | bool value =>
      cases value with
      | true =>
        rw [Spaced.skip_last h (by decide)]
        exact parseLiteral_append "true".toList (.bool true) rest
      | false =>
        rw [Spaced.skip_last h (by decide)]
        exact parseLiteral_append "false".toList (.bool false) rest
    | number value =>
      have ⟨c, chars, hrender, hc⟩ := renderNumber_eq_cons value
      have hparse := parseNumber_renderNumber value hrest
      dsimp only at h
      rw [render, hrender] at h
      rw [hrender, cons_append] at hparse
      rw [h.skip_last (number_start hc).1, parseValue_number hc, hparse]
      rfl
    | string value =>
      have hparse := parseString_renderString value rest
      rw [Spaced.skip_last h (by decide)]
      exact congrArg (Except.map _) hparse
    | array hvalues =>
      have ⟨tail, hskip, hlt, htail⟩ := Spaced.skip h (by decide)
      rw [hskip]
      apply parseArray_spaced _ htail (by omega)
      intro value hvalue text rest
      exact ih (hvalues value hvalue)
    | object hkeys hvalues =>
      have ⟨tail, hskip, hlt, htail⟩ := Spaced.skip h (by decide)
      rw [hskip]
      apply parseObject_spaced hkeys _ htail (by omega)
      intro entry hentry text rest
      exact ih (hvalues entry hentry)

theorem parse_spaced (hsorted : value.Sorted) (h : Spaced value.tokens text rest) (hrest : EndsNumber rest)
    : parse text
      = if skipWhitespace rest = [] then .ok value
        else .error (.new "unexpected trailing content".toList) := by
  rw [parse, parseValue_spaced hsorted (Nat.lt_succ_self _) h hrest]
  rfl

theorem spaced_render (hsorted : value.Sorted) (rest : Str)
    : Spaced value.tokens (value.render ++ rest) rest := by
  rw [← flatten_tokens hsorted]
  exact spaced_flatten value.tokens rest

theorem parse_render (hsorted : value.Sorted)
    : parse value.render = .ok value := by
  have hspaced := spaced_render hsorted []
  rw [append_nil] at hspaced
  rw [parse_spaced hsorted hspaced nofun]
  rfl

theorem parse_whitespace (hsorted : value.Sorted)
    : parse value.render = .ok value ∧ value.tokens.flatten = value.render
      ∧ ∀ text rest, Spaced value.tokens text rest → (∀ c ∈ rest, isJsonWhitespace c = true)
        → parse text = .ok value := by
  refine ⟨parse_render hsorted, flatten_tokens hsorted, ?_⟩
  intro text rest h hrest
  have hends : EndsNumber rest := by
    intro c hc
    exact (isDigit_of_isJsonWhitespace (hrest c (mem_of_mem_head? hc))).1
  rw [parse_spaced hsorted h hends, skipWhitespace, dropWhile_eq_nil_iff.mpr hrest, if_pos rfl]

theorem parse_whitespace_object
    : parse "\x7b \"a\" :\"x\\ny\",\n\"b\": [\t1 ]\x7d\n".toList
      = .ok (.object [(['a'], .string ['x', '\n', 'y']), (['b'], .array [.number 1])]) := by
  have hsorted : (object [(['a'], .string ['x', '\n', 'y']), (['b'], .array [.number 1])]).Sorted := by
    refine .object (by simp [SortedMap.Sorted]; decide) ?_
    simp [Sorted.string, Sorted.array, Sorted.number]
  refine (parse_whitespace hsorted).2.2 _ ['\n'] ?_ (by simp [isJsonWhitespace])
  have htokens : (object [(['a'], .string ['x', '\n', 'y']), (['b'], .array [.number 1])]).tokens
      = [['\x7b'], "\"a\"".toList, [':'], "\"x\\ny\"".toList, [','], "\"b\"".toList, [':'], ['['], ['1'], [']'],
        ['\x7d']] := by
    simp only [tokens, map_cons, map_nil]
    rfl
  rw [htokens]
  exact spaced_gaps [[], [' '], [' '], [], [], ['\n'], [], [' '], ['\t'], [' '], []] (by rfl)
    (by simp [isJsonWhitespace]) ['\n']

end Values

section OneLine

theorem newline_not_mem_renderChar (ch : Char) : '\n' ∉ renderChar ch := by
  unfold renderChar pushUnicodeEscape
  repeat' split
  all_goals try decide
  . simp
  . next hnewline _ _ _ _ _ =>
    rw [mem_singleton]
    exact Ne.symm hnewline

theorem newline_not_mem_renderString (s : Str) : '\n' ∉ renderString s := by
  simp [renderString, newline_not_mem_renderChar]

theorem newline_not_mem_renderNumber (value : Int64) : '\n' ∉ renderNumber value := by
  unfold renderNumber
  rw [mem_append]
  rintro (h | h)
  . split at h <;> simp at h
  . cases Nat.isDigit_of_mem_toDigits (by decide) (by decide) h

theorem newline_not_mem_items (h : ∀ text ∈ texts, '\n' ∉ text)
    : '\n' ∉ [','].intercalate texts := by
  induction texts with
  | nil => simp
  | cons first texts ih =>
    rw [forall_mem_cons] at h
    cases texts with
    | nil => simpa using h.1
    | cons next texts => simp [intercalate_cons_cons, h.1, ih h.2]

theorem newline_not_mem_render {value : JsonValue} (hsorted : value.Sorted) : '\n' ∉ value.render := by
  induction hsorted with
  | null => decide
  | bool value => cases value <;> decide
  | number value => exact newline_not_mem_renderNumber value
  | string value => exact newline_not_mem_renderString value
  | @array values _ ih =>
    have hitems : '\n' ∉ [','].intercalate (values.map render) := by
      apply newline_not_mem_items
      rw [forall_mem_map]
      exact ih
    simp [render, renderValues_eq, hitems]
  | @object entries _ _ ih =>
    have hitems : '\n' ∉ [','].intercalate (entries.map renderEntry) := by
      apply newline_not_mem_items
      rw [forall_mem_map]
      intro entry hentry
      simp [renderEntry, newline_not_mem_renderString, ih entry hentry]
    simp [render, renderEntries_eq, hitems]

end OneLine

end ClawCode
