import AppSuite.Data.OrderedMap
import AppSuite.Text.Whitespace

/-!
This module contains the parser of `.env` files. Every byte that the source looks for is an ASCII
character, so the text is taken character by character.
-/

namespace Deno.Dotenv

open List

abbrev Str := List Char

def isBlank (c : Char) : Bool := c = ' ' || c = '\t' || c = '\n'

def trimSpacesSlice (input : Str) : Str := Text.trim isBlank input

def findChar (input : Str) (charCode : Char) (start : Nat) : Option Nat :=
  ((input.drop start).findIdx? (· = charCode)).map (start + ·)

def findClosingQuote.scan (input : Str) (quote : Char) (first lineEnd : Nat) (bestEmpty : Option Nat)
    (i : Nat) : Nat :=
  match i with
  | 0 => bestEmpty.getD first
  | i + 1 =>
    if i + 1 ≤ first + 1 then
      bestEmpty.getD first
    else if input[i]? = some quote then
      let trimmed := trimSpacesSlice ((input.take lineEnd).drop (i + 1))
      if trimmed.head? = some '#' then
        i
      else if trimmed = [] ∧ bestEmpty = none then
        findClosingQuote.scan input quote first lineEnd (some i) i
      else
        findClosingQuote.scan input quote first lineEnd bestEmpty i
    else
      findClosingQuote.scan input quote first lineEnd bestEmpty i

def findClosingQuote (input : Str) (quote : Char) (start : Nat) : Option Nat :=
  match findChar input quote start with
  | none => none
  | some first =>
    let lineEnd := (findChar input '\n' (first + 1)).getD input.length
    let trimmedFirst := trimSpacesSlice ((input.take lineEnd).drop (first + 1))
    if trimmedFirst = [] ∨ trimmedFirst.head? = some '#' then
      some first
    else
      some (findClosingQuote.scan input quote first lineEnd none lineEnd)

def afterNewline (text : Str) (start : Nat) : Str :=
  match findChar text '\n' start with
  | some newline => text.drop (newline + 1)
  | none => []

def stripExport (key : Str) : Str :=
  if 7 ≤ key.length ∧ key.take 7 = "export ".toList then trimSpacesSlice (key.drop 7) else key

def unescapeNewlines (slice : Str) : Str :=
  match slice with
  | [] => []
  | '\\' :: 'n' :: rest => '\n' :: unescapeNewlines rest
  | c :: rest => c :: unescapeNewlines rest

def dropComment (value : Str) : Str :=
  match findChar value '#' 0 with
  | some hash => value.take hash
  | none => value

structure Emission where
  key : Str
  value : Str
  canSubstitute : Bool
  deriving DecidableEq, Repr

structure Round where
  emission : Option Emission
  rest : Option Str
  deriving DecidableEq, Repr

def parseValue (key text : Str) : Round :=
  match text with
  | [] => ⟨some ⟨key, [], false⟩, none⟩
  | quote :: _ =>
    match (if quote = '"' then findClosingQuote text '"' 1 else none) with
    | some closing =>
      ⟨some ⟨key, unescapeNewlines ((text.take closing).drop 1), true⟩,
        some (afterNewline text (closing + 1))⟩
    | none =>
      if quote = '\'' ∨ quote = '"' ∨ quote = '\x60' then
        match findClosingQuote text quote 1 with
        | some closing =>
          ⟨some ⟨key, (text.take closing).drop 1, quote = '"'⟩, some (afterNewline text (closing + 1))⟩
        | none =>
          match findChar text '\n' 0 with
          | some newline =>
            ⟨some ⟨key, text.take newline, false⟩, some (trimSpacesSlice (text.drop (newline + 1)))⟩
          | none => ⟨some ⟨key, text, false⟩, none⟩
      else
        match findChar text '\n' 0 with
        | some newline =>
          ⟨some ⟨key, trimSpacesSlice (dropComment (text.take newline)), true⟩,
            some (trimSpacesSlice (text.drop (newline + 1)))⟩
        | none => ⟨some ⟨key, trimSpacesSlice (dropComment text), true⟩, some []⟩

def parseAssignment (text : Str) : Round :=
  match text.findIdx? (fun c => c = '=' ∨ c = '\n') with
  | none => ⟨none, none⟩
  | some equalOrNewline =>
    let rest := text.drop (equalOrNewline + 1)
    if text[equalOrNewline]? = some '\n' then
      ⟨none, some (trimSpacesSlice rest)⟩
    else
      let key := trimSpacesSlice (text.take equalOrNewline)
      if rest = [] ∨ rest.head? = some '\n' then
        ⟨some ⟨key, [], false⟩, some rest⟩
      else if key = [] then
        ⟨none, some (trimSpacesSlice rest)⟩
      else
        parseValue (stripExport key) (trimSpacesSlice rest)

def parseRound (text : Str) : Round :=
  if text.head? = some '\n' ∨ text.head? = some '#' then
    ⟨none, some (afterNewline text 0)⟩
  else
    parseAssignment text

theorem length_trimSpacesSlice_le (input : Str) : (trimSpacesSlice input).length ≤ input.length := by
  exact Text.trimEnd_isPrefix.length_le.trans (dropWhile_suffix _).length_le

variable {text key rest final : Str} {pairs : List (Str × Str)}

theorem length_afterNewline_lt (htext : text ≠ []) (start : Nat)
    : (afterNewline text start).length < text.length := by
  have := length_pos_of_ne_nil htext
  unfold afterNewline
  split
  . rw [length_drop]
    omega
  . exact this

theorem length_rest_parseValue (htext : text ≠ []) (h : (parseValue key text).rest = some rest)
    : rest.length < text.length := by
  have hpos := length_pos_of_ne_nil htext
  have hdrop : ∀ i, (trimSpacesSlice (text.drop (i + 1))).length < text.length := by
    intro i
    have := length_trimSpacesSlice_le (text.drop (i + 1))
    rw [length_drop] at this
    omega
  have hafter := fun start => length_afterNewline_lt htext start
  unfold parseValue at h
  split at h
  . cases h
  . split at h
    . cases h
      exact hafter _
    . split at h
      . split at h
        . cases h
          exact hafter _
        . split at h
          . cases h
            exact hdrop _
          . cases h
      . split at h
        . cases h
          exact hdrop _
        . cases h
          exact hpos

theorem length_rest_parseRound (htext : text ≠ []) (h : (parseRound text).rest = some rest)
    : rest.length < text.length := by
  have hdrop : ∀ i, (text.drop (i + 1)).length < text.length := by
    intro i
    have := length_pos_of_ne_nil htext
    rw [length_drop]
    omega
  have htrim := fun i => (length_trimSpacesSlice_le (text.drop (i + 1))).trans_lt (hdrop i)
  unfold parseRound at h
  split at h
  . cases h
    exact length_afterNewline_lt htext 0
  . unfold parseAssignment at h
    split at h
    . cases h
    . next i _ =>
      dsimp only at h
      split at h
      . cases h
        exact htrim i
      . split at h
        . cases h
          exact hdrop i
        . split at h
          . cases h
            exact htrim i
          . by_cases hrest : trimSpacesSlice (text.drop (i + 1)) = []
            . rw [hrest] at h
              cases h
            . exact (length_rest_parseValue hrest h).trans (htrim i)

def parseRounds (text : Str) : List Emission :=
  if _htext : text = [] then
    []
  else
    match _hrest : (parseRound text).rest with
    | none => (parseRound text).emission.toList
    | some rest => (parseRound text).emission.toList ++ parseRounds rest
termination_by text.length
decreasing_by exact length_rest_parseRound _htext _hrest

def emissions (content : Str) : List Emission :=
  parseRounds (trimSpacesSlice (content.filter (· ≠ '\r')))

abbrev Environment := Str → Option Str

def lookupSubstitution (sys : Environment) (substitutionMap : OrderedMap Str Str)
    (substitutionName : Str) : Str :=
  match sys substitutionName with
  | some environmentValue => environmentValue
  | none => (substitutionMap.get? substitutionName).getD []

def applyValueSubstitution (sys : Environment) (substitutionMap : OrderedMap Str Str) (value : Str)
    : Str :=
  match value with
  | [] => []
  | '\\' :: '$' :: rest => '$' :: applyValueSubstitution sys substitutionMap rest
  | '$' :: '\x7b' :: rest =>
    lookupSubstitution sys substitutionMap (rest.takeWhile (· ≠ '\x7d'))
      ++ applyValueSubstitution sys substitutionMap ((rest.dropWhile (· ≠ '\x7d')).drop 1)
  | '$' :: rest =>
    lookupSubstitution sys substitutionMap (rest.takeWhile Char.isAlphanum)
      ++ applyValueSubstitution sys substitutionMap (rest.dropWhile Char.isAlphanum)
  | c :: rest => c :: applyValueSubstitution sys substitutionMap rest
termination_by value.length
decreasing_by
  all_goals
    simp only [length_cons, length_drop]
    first
    | omega
    | have := (dropWhile_suffix (l := rest) (· ≠ '\x7d')).length_le
      omega
    | have := (dropWhile_suffix (l := rest) Char.isAlphanum).length_le
      omega

structure Emitted where
  substitutionMap : OrderedMap Str Str
  calls : List (Str × Str)

def emitValue (substitution : Option Environment) (emitted : Emitted) (emission : Emission) : Emitted :=
  match substitution with
  | none => { emitted with calls := emitted.calls ++ [(emission.key, emission.value)] }
  | some sys =>
    let emittedValue :=
      if emission.canSubstitute then
        applyValueSubstitution sys emitted.substitutionMap emission.value
      else
        emission.value
    { substitutionMap := emitted.substitutionMap.set emission.key emittedValue
      calls := emitted.calls ++ [(emission.key, emittedValue)] }

def parseEnvContentHookImpl (content : Str) (substitution : Option Environment) : List (Str × Str) :=
  ((emissions content).foldl (emitValue substitution) ⟨.empty, []⟩).calls

def parseEnvContentHook (content : Str) : List (Str × Str) := parseEnvContentHookImpl content none

def parseEnvContentWithSubstitutionHook (sys : Environment) (content : Str) : List (Str × Str) :=
  parseEnvContentHookImpl content (some sys)

theorem parseRounds_cons (htext : text ≠ [])
    (h : parseRound text = ⟨some emission, some rest⟩)
    : parseRounds text = emission :: parseRounds rest := by
  rw [parseRounds, dif_neg htext]
  split
  . next hrest =>
    rw [h] at hrest
    cases hrest
  . next hrest =>
    rw [h] at hrest
    cases hrest
    rw [h]
    rfl

section

variable {before after : Str} {c : Char} {start : Nat}

theorem findChar_append (hstart : start ≤ before.length) (hc : c ∉ before.drop start)
    : findChar (before ++ c :: after) c start = some before.length := by
  unfold findChar
  rw [drop_append_of_le_length hstart, findIdx?_append, findIdx?_eq_none_iff.mpr]
  . have hlen := length_drop (l := before) (i := start)
    simp only [findIdx?_cons, decide_true, if_true, Option.none_or, Option.map_some, hlen]
    congr 1
    omega
  . intro x hx
    simp only [decide_eq_false_iff_not]
    intro hxc
    exact hc (hxc ▸ hx)

theorem findChar_eq_none (hc : c ∉ before.drop start) : findChar before c start = none := by
  unfold findChar
  rw [findIdx?_eq_none_iff.mpr]
  . rfl
  . intro x hx
    simp only [decide_eq_false_iff_not]
    intro hxc
    exact hc (hxc ▸ hx)

end

theorem findClosingQuote_endOfLine (before : Str) {after : Str} {start : Nat}
    (hstart : start ≤ before.length) (hquote : quote ∉ before.drop start)
    (hafter : after = [] ∨ after.head? = some '\n')
    : findClosingQuote (before ++ quote :: after) quote start = some before.length := by
  have hbetween
      : ((before ++ quote :: after).take
          ((findChar (before ++ quote :: after) '\n' (before.length + 1)).getD
            (before ++ quote :: after).length)).drop (before.length + 1) = [] := by
    cases after with
    | nil => simp
    | cons d after =>
      have hd : d = '\n' := by simpa using hafter
      subst hd
      have hline : before ++ quote :: '\n' :: after = (before ++ [quote]) ++ '\n' :: after := by simp
      rw [hline, findChar_append (by simp) (by simp)]
      simp
  unfold findClosingQuote
  rw [findChar_append hstart hquote]
  dsimp only
  rw [hbetween]
  rfl

-- A word over letters, digits and the underscore; the letters beyond ASCII are among the rest.
def isWordChar (c : Char) : Bool := c.isAlphanum || c = '_' || 0x80 ≤ c.toNat

def IsKey (key : Str) : Prop := key ≠ [] ∧ ∀ c ∈ key, isWordChar c = true

def IsValue (value : Str) : Prop := '\'' ∉ value ∧ '\r' ∉ value

instance : DecidablePred IsKey := fun key => inferInstanceAs (Decidable (key ≠ [] ∧ _))

instance : DecidablePred IsValue := fun value => inferInstanceAs (Decidable ('\'' ∉ value ∧ _))

def assignmentLine (pair : Str × Str) : Str := pair.1 ++ '=' :: '\'' :: (pair.2 ++ ['\''])

def assignmentLines (pairs : List (Str × Str)) : Str :=
  ['\n'].intercalate (pairs.map assignmentLine)

def followingLines (pairs : List (Str × Str)) : Str := pairs.flatMap ('\n' :: assignmentLine ·)

section

variable (pair : Str × Str) (pairs : List (Str × Str))

theorem assignmentLines_cons
    : assignmentLines (pair :: pairs) = assignmentLine pair ++ followingLines pairs := by
  induction pairs generalizing pair with
  | nil => simp [assignmentLines, followingLines]
  | cons next pairs ih =>
    have hnext := ih next
    unfold assignmentLines followingLines at *
    rw [map_cons, map_cons, intercalate_cons_cons, ← map_cons, hnext]
    simp

theorem followingLines_cons
    : followingLines (pair :: pairs) = '\n' :: assignmentLines (pair :: pairs) := by
  rw [assignmentLines_cons]
  rfl

variable {c : Char} {value following : Str}

theorem not_mem_of_isKey (hkey : IsKey key) (hc : isWordChar c = false) : c ∉ key := by
  intro hmem
  rw [hkey.2 c hmem] at hc
  cases hc

theorem not_isBlank_of_isWordChar (hc : isWordChar c = true) : isBlank c = false := by
  rw [Bool.eq_false_iff]
  intro hblank
  simp only [isBlank, Bool.or_eq_true, decide_eq_true_eq] at hblank
  obtain (rfl | rfl) | rfl := hblank <;> cases hc

theorem trimSpacesSlice_eq_self (hhead : ∀ c, text.head? = some c → isBlank c = false)
    (hlast : ∀ c, text.getLast? = some c → isBlank c = false)
    : trimSpacesSlice text = text := by
  unfold trimSpacesSlice
  rw [Text.trim_eq_trimEnd hhead, Text.trimEnd_eq_self_iff]
  exact hlast

theorem trimSpacesSlice_key (hkey : IsKey key) : trimSpacesSlice key = key := by
  apply trimSpacesSlice_eq_self
  . intro c hc
    exact not_isBlank_of_isWordChar (hkey.2 c (mem_of_head? hc))
  . intro c hc
    exact not_isBlank_of_isWordChar (hkey.2 c (mem_of_getLast? hc))

theorem stripExport_key (hkey : IsKey key) : stripExport key = key := by
  unfold stripExport
  rw [if_neg]
  intro ⟨_, hexport⟩
  have hspace : ' ' ∈ key.take 7 := by
    rw [hexport]
    decide
  exact not_mem_of_isKey hkey (by decide) (mem_of_mem_take hspace)

theorem parseValue_quoted (hvalue : '\'' ∉ value)
    (hfollowing : following = [] ∨ following.head? = some '\n')
    : parseValue key ('\'' :: (value ++ '\'' :: following))
      = ⟨some ⟨key, value, false⟩, some (following.drop 1)⟩ := by
  have hclosing
      : findClosingQuote ('\'' :: (value ++ '\'' :: following)) '\'' 1 = some (value.length + 1) :=
    findClosingQuote_endOfLine ('\'' :: value) (by simp) (by simpa using hvalue) hfollowing
  have hafter
      : afterNewline ('\'' :: (value ++ '\'' :: following)) (value.length + 1 + 1)
          = following.drop 1 := by
    unfold afterNewline
    cases following with
    | nil =>
      rw [findChar_eq_none (by simp)]
      rfl
    | cons d following =>
      have hd : d = '\n' := by simpa using hfollowing
      subst hd
      have hline
          : '\'' :: (value ++ '\'' :: '\n' :: following)
              = ('\'' :: (value ++ ['\''])) ++ '\n' :: following := by
        simp
      rw [hline, findChar_append (by simp) (by simp)]
      simp
  have hvalue' : (('\'' :: (value ++ '\'' :: following)).take (value.length + 1)).drop 1 = value := by
    simp
  unfold parseValue
  dsimp only
  rw [if_neg (by decide), hclosing]
  dsimp only
  rw [if_pos (by simp), hafter, hvalue']
  rfl

theorem parseRound_assignment (hkey : IsKey key) (hvalue : '\'' ∉ value)
    (hfollowing : following = [] ∨ following.head? = some '\n')
    (hlast : ∀ c, ('\'' :: following).getLast? = some c → isBlank c = false)
    : parseRound (key ++ '=' :: '\'' :: (value ++ '\'' :: following))
      = ⟨some ⟨key, value, false⟩, some (following.drop 1)⟩ := by
  have hequal
      : (key ++ '=' :: '\'' :: (value ++ '\'' :: following)).findIdx? (fun c => c = '=' ∨ c = '\n')
          = some key.length := by
    rw [findIdx?_append, findIdx?_eq_none_iff.mpr]
    . simp [findIdx?_cons]
    . intro c hc
      rw [decide_eq_false_iff_not, not_or]
      constructor
      all_goals
        rintro rfl
        exact not_mem_of_isKey hkey (by decide) hc
  have hhead
      : ∀ c, isWordChar c = false
          → (key ++ '=' :: '\'' :: (value ++ '\'' :: following)).head? ≠ some c := by
    intro c hc hhead
    rw [head?_append_of_ne_nil _ hkey.1] at hhead
    exact not_mem_of_isKey hkey hc (mem_of_head? hhead)
  have hrest
      : trimSpacesSlice ('\'' :: (value ++ '\'' :: following)) = '\'' :: (value ++ '\'' :: following) := by
    apply trimSpacesSlice_eq_self
    . intro c hc
      cases hc
      rfl
    . intro c hc
      apply hlast c
      rw [← cons_append, getLast?_append] at hc
      simpa using hc
  unfold parseRound
  rw [if_neg (not_or.mpr ⟨hhead _ (by decide), hhead _ (by decide)⟩)]
  unfold parseAssignment
  rw [hequal]
  dsimp only
  rw [if_neg (by simp), if_neg (by simp), take_left, trimSpacesSlice_key hkey, if_neg hkey.1,
    stripExport_key hkey]
  have hdrop
      : (key ++ '=' :: '\'' :: (value ++ '\'' :: following)).drop (key.length + 1)
          = '\'' :: (value ++ '\'' :: following) := by
    simp
  rw [hdrop, hrest, parseValue_quoted hvalue hfollowing]

theorem getLast?_quote_followingLines : ('\'' :: followingLines pairs).getLast? = some '\'' := by
  induction pairs with
  | nil => rfl
  | cons pair pairs ih =>
    have hsplit
        : '\'' :: followingLines (pair :: pairs)
            = ('\'' :: '\n' :: (pair.1 ++ '=' :: '\'' :: pair.2)) ++ '\'' :: followingLines pairs := by
      simp [followingLines_cons, assignmentLines_cons, assignmentLine]
    rw [hsplit, getLast?_append, ih]
    rfl

end

section

variable (hkeys : ∀ pair ∈ pairs, IsKey pair.1)

include hkeys

theorem parseRounds_assignmentLines (hvalues : ∀ pair ∈ pairs, IsValue pair.2)
    : parseRounds (assignmentLines pairs) = pairs.map fun pair => ⟨pair.1, pair.2, false⟩ := by
  induction pairs with
  | nil =>
    rw [parseRounds]
    rfl
  | cons pair pairs ih =>
    rw [forall_mem_cons] at hkeys hvalues
    have htext
        : assignmentLines (pair :: pairs)
            = pair.1 ++ '=' :: '\'' :: (pair.2 ++ '\'' :: followingLines pairs) := by
      simp [assignmentLines_cons, assignmentLine]
    have hfollowing : followingLines pairs = [] ∨ (followingLines pairs).head? = some '\n' := by
      cases pairs with
      | nil => exact .inl rfl
      | cons next pairs => exact .inr rfl
    have hrest : (followingLines pairs).drop 1 = assignmentLines pairs := by
      cases pairs with
      | nil => rfl
      | cons next pairs =>
        rw [followingLines_cons]
        rfl
    have hlast : ∀ c, ('\'' :: followingLines pairs).getLast? = some c → isBlank c = false := by
      intro c hc
      rw [getLast?_quote_followingLines] at hc
      cases hc
      rfl
    rw [htext, parseRounds_cons (by simp) (parseRound_assignment hkeys.1 hvalues.1.1 hfollowing hlast),
      hrest, ih hkeys.2 hvalues.2]
    rfl

theorem trimSpacesSlice_assignmentLines (hfinal : ∀ c ∈ final, isBlank c = true)
    : trimSpacesSlice (assignmentLines pairs ++ final) = assignmentLines pairs := by
  unfold trimSpacesSlice
  rw [Text.trim_append_blank hfinal]
  cases pairs with
  | nil => rfl
  | cons pair pairs =>
    have hkey := hkeys pair (by simp)
    have htext
        : assignmentLines (pair :: pairs)
            = (pair.1 ++ '=' :: '\'' :: pair.2) ++ '\'' :: followingLines pairs := by
      simp [assignmentLines_cons, assignmentLine]
    rw [htext]
    apply trimSpacesSlice_eq_self
    . intro c hc
      rw [List.append_assoc, head?_append_of_ne_nil _ hkey.1] at hc
      exact not_isBlank_of_isWordChar (hkey.2 c (mem_of_head? hc))
    . intro c hc
      rw [getLast?_append, getLast?_quote_followingLines] at hc
      cases hc
      rfl

theorem carriageReturn_not_mem_assignmentLines (hvalues : ∀ pair ∈ pairs, IsValue pair.2)
    : '\r' ∉ assignmentLines pairs := by
  have hline : ∀ pair ∈ pairs, '\r' ∉ assignmentLine pair := by
    intro pair hpair
    have hkey : '\r' ∉ pair.1 := not_mem_of_isKey (hkeys pair hpair) (by decide)
    have hvalue : '\r' ∉ pair.2 := (hvalues pair hpair).2
    simp [assignmentLine, hkey, hvalue]
  cases pairs with
  | nil => simp [assignmentLines]
  | cons pair pairs =>
    rw [forall_mem_cons] at hline
    simp only [assignmentLines_cons, followingLines, mem_append, mem_flatMap, mem_cons,
      not_or, not_exists, not_and]
    exact ⟨hline.1, fun next hnext => ⟨by decide, hline.2 next hnext⟩⟩

theorem emissions_assignmentLines
    (hvalues : ∀ pair ∈ pairs, IsValue pair.2) (hfinal : final = [] ∨ final = ['\n'])
    : emissions (assignmentLines pairs ++ final)
      = pairs.map fun pair => ⟨pair.1, pair.2, false⟩ := by
  have hblank : ∀ c ∈ final, isBlank c = true := by
    obtain rfl | rfl := hfinal <;> simp [isBlank]
  have hcr : (assignmentLines pairs ++ final).filter (· ≠ '\r') = assignmentLines pairs ++ final := by
    rw [filter_eq_self]
    intro c hc
    have hne : c ≠ '\r' := by
      rintro rfl
      cases mem_append.mp hc with
      | inl hc => exact carriageReturn_not_mem_assignmentLines hkeys hvalues hc
      | inr hc => cases hblank _ hc
    simpa using hne
  unfold emissions
  rw [hcr, trimSpacesSlice_assignmentLines hkeys hblank, parseRounds_assignmentLines hkeys hvalues]

end

variable (substitution : Option Environment)

theorem calls_foldl_emitValue (pairs : List (Str × Str)) (emitted : Emitted)
    : ((pairs.map fun pair => (⟨pair.1, pair.2, false⟩ : Emission)).foldl (emitValue substitution)
      emitted).calls
      = emitted.calls ++ pairs := by
  induction pairs generalizing emitted with
  | nil => simp
  | cons pair pairs ih =>
    have hcalls
        : (emitValue substitution emitted ⟨pair.1, pair.2, false⟩).calls = emitted.calls ++ [pair] := by
      cases substitution <;> rfl
    rw [map_cons, foldl_cons, ih, hcalls]
    simp

theorem parseEnvContentHookImpl_assignmentLines (hkeys : ∀ pair ∈ pairs, IsKey pair.1)
    (hvalues : ∀ pair ∈ pairs, IsValue pair.2) (hfinal : final = [] ∨ final = ['\n'])
    : parseEnvContentHookImpl (assignmentLines pairs ++ final) substitution = pairs := by
  unfold parseEnvContentHookImpl
  rw [emissions_assignmentLines hkeys hvalues hfinal, calls_foldl_emitValue]
  rfl

theorem parseEnvContent_assignmentLines (pairs : List (Str × Str)) (final : Str)
    (hkeys : ∀ pair ∈ pairs, IsKey pair.1) (hvalues : ∀ pair ∈ pairs, IsValue pair.2)
    (hfinal : final = [] ∨ final = ['\n'])
    : parseEnvContentHook (assignmentLines pairs ++ final) = pairs
      ∧ ∀ sys, parseEnvContentWithSubstitutionHook sys (assignmentLines pairs ++ final) = pairs :=
  ⟨parseEnvContentHookImpl_assignmentLines none hkeys hvalues hfinal,
    fun sys => parseEnvContentHookImpl_assignmentLines (some sys) hkeys hvalues hfinal⟩

def multilineSecret : List (Str × Str) :=
  [("SECRET".toList, "a\n#b=$HOME\\n\"c".toList), ("_2".toList, [])]

theorem parseEnvContent_multilineSecret
    : parseEnvContentHook (assignmentLines multilineSecret ++ ['\n']) = multilineSecret
      ∧ ∀ sys, parseEnvContentWithSubstitutionHook sys (assignmentLines multilineSecret ++ ['\n'])
          = multilineSecret :=
  parseEnvContent_assignmentLines multilineSecret ['\n']
    (by simp [multilineSecret, IsKey, isWordChar]) (by decide) (.inr rfl)

end Deno.Dotenv
