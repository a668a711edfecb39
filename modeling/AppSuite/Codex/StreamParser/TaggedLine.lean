import AppSuite.Codex.StreamParser.StreamText
import AppSuite.System.Run
import AppSuite.Text.Lines

/-!
This module contains the parser of tags that stand alone on a line.
-/

namespace Codex.StreamParser

open List Text

structure TagSpec (T : Type) where
  openTag : Str
  closeTag : Str
  tag : T

inductive TaggedLineSegment (T : Type) where
  | normal (text : Str)
  | tagStart (tag : T)
  | tagDelta (tag : T) (text : Str)
  | tagEnd (tag : T)
  deriving DecidableEq, Repr

structure TaggedLineParser (T : Type) where
  specs : List (TagSpec T)
  activeTag : Option T
  detectTag : Bool
  lineBuffer : Str

variable {T : Type}

namespace TaggedLineSegment

def text (active : Option T) (s : Str) : TaggedLineSegment T :=
  match active with
  | some tag => .tagDelta tag s
  | none => .normal s

def isEmptyText (segment : TaggedLineSegment T) : Bool :=
  match segment with
  | .normal s => s.isEmpty
  | .tagDelta _ s => s.isEmpty
  | _ => false

theorem text_inj {active active' : Option T} {s s' : Str}
    : text active s = text active' s' ↔ active = active' ∧ s = s' := by
  cases active <;> cases active' <;> simp [text]

theorem isEmptyText_text (active : Option T) (s : Str) : (text active s).isEmptyText = s.isEmpty := by
  cases active <;> rfl

def extend? [DecidableEq T] (existing segment : TaggedLineSegment T) : Option (TaggedLineSegment T) :=
  match existing, segment with
  | .normal s, .normal delta => some (.normal (s ++ delta))
  | .tagDelta existingTag s, .tagDelta tag delta =>
    if existingTag = tag then some (.tagDelta tag (s ++ delta)) else none
  | _, _ => none

end TaggedLineSegment

/-!
Segments by what they say of each character: two lists that say the same merge to the same list.
-/

inductive Token (T : Type) where
  | start (tag : T)
  | stop (tag : T)
  | char (active : Option T) (c : Char)

def Token.segment (token : Token T) : TaggedLineSegment T :=
  match token with
  | .start tag => .tagStart tag
  | .stop tag => .tagEnd tag
  | .char active c => .text active [c]

def TaggedLineSegment.tokens (segment : TaggedLineSegment T) : List (Token T) :=
  match segment with
  | .normal s => s.map (.char none)
  | .tagStart tag => [.start tag]
  | .tagDelta tag s => s.map (.char (some tag))
  | .tagEnd tag => [.stop tag]

def tokensOf (segments : List (TaggedLineSegment T)) : List (Token T) :=
  segments.flatMap TaggedLineSegment.tokens

open TaggedLineSegment

@[simp]
theorem tokens_text (active : Option T) (s : Str) : (text active s).tokens = s.map (.char active) := by
  cases active <;> rfl

variable {segment : TaggedLineSegment T}

theorem tokens_of_isEmptyText (h : segment.isEmptyText) : segment.tokens = [] := by
  cases segment <;> simp_all [isEmptyText, tokens]

@[simp]
theorem tokensOf_append (a b : List (TaggedLineSegment T))
    : tokensOf (a ++ b) = tokensOf a ++ tokensOf b := by
  simp [tokensOf]

@[simp]
theorem tokensOf_cons (segment : TaggedLineSegment T) (segments : List (TaggedLineSegment T))
    : tokensOf (segment :: segments) = segment.tokens ++ tokensOf segments := by
  simp [tokensOf]

@[simp]
theorem tokensOf_nil : tokensOf ([] : List (TaggedLineSegment T)) = [] := rfl

variable [DecidableEq T] (segments : List (TaggedLineSegment T))

def pushSegment (segment : TaggedLineSegment T) : List (TaggedLineSegment T) :=
  if segment.isEmptyText then segments
  else
    match segments.getLast?.bind (·.extend? segment) with
    | some extended => segments.dropLast ++ [extended]
    | none => segments ++ [segment]

def merge : List (TaggedLineSegment T) :=
  segments.foldl pushSegment []

theorem extend?_text (active : Option T) (s t : Str)
    : (text active s).extend? (text active t) = some (text active (s ++ t)) := by
  cases active <;> simp [text, extend?]

theorem exists_text_of_extend?
    (h : existing.extend? segment = some extended)
    : ∃ active s t, existing = text active s ∧ segment = text active t ∧
      extended = text active (s ++ t) := by
  unfold extend? at h
  split at h
  next s t =>
    cases h
    exact ⟨none, s, t, rfl, rfl, rfl⟩
  next existingTag s tag t =>
    split at h
    next htag =>
      cases h
      subst htag
      exact ⟨some existingTag, s, t, rfl, rfl, rfl⟩
    next => cases h
  next => cases h

section

variable (segment : TaggedLineSegment T)

theorem pushSegment_cases
    : (segment.isEmptyText ∧ pushSegment segments segment = segments) ∨
      (∃ init active s t, segments = init ++ [text active s] ∧ segment = text active t ∧
        pushSegment segments segment = init ++ [text active (s ++ t)]) ∨
      pushSegment segments segment = segments ++ [segment] := by
  unfold pushSegment
  split
  next h => exact .inl ⟨h, rfl⟩
  next =>
    split
    next extended h =>
      rw [Option.bind_eq_some_iff] at h
      have ⟨existing, hlast, hextend⟩ := h
      have ⟨init, hinit⟩ := getLast?_eq_some_iff.mp hlast
      have ⟨active, s, t, hs, ht, hst⟩ := exists_text_of_extend? hextend
      subst hinit hs ht hst
      apply Or.inr
      apply Or.inl
      exact ⟨init, active, s, t, rfl, rfl, by simp⟩
    next => exact .inr (.inr rfl)

theorem tokensOf_pushSegment
    : tokensOf (pushSegment segments segment) = tokensOf segments ++ segment.tokens := by
  rcases pushSegment_cases segments segment with ⟨hempty, h⟩ | ⟨init, active, s, t, hs, ht, h⟩ | h
  . simp [h, tokens_of_isEmptyText hempty]
  . rw [h, hs, ht]
    simp
  . simp [h]

variable (init : List (TaggedLineSegment T)) (active : Option T)

theorem pushSegment_append_text (s t : Str)
    : pushSegment (init ++ [text active s]) (text active t) = init ++ [text active (s ++ t)] := by
  unfold pushSegment
  rw [isEmptyText_text]
  split
  next h => simp [isEmpty_iff.mp h]
  next => simp [extend?_text]

theorem pushSegment_text_cons (c : Char) (s : Str)
    : pushSegment segments (text active (c :: s)) =
      pushSegment (pushSegment segments (text active [c])) (text active s) := by
  rcases pushSegment_cases segments (text active [c]) with
    ⟨hempty, _⟩ | ⟨init, active', s', t, hs, ht, h⟩ | h
  . simp [isEmptyText_text] at hempty
  . have ⟨hactive, hc⟩ := text_inj.mp ht
    subst hactive hc
    rw [h, hs, pushSegment_append_text, pushSegment_append_text]
    simp
  . rw [h, pushSegment_append_text]
    rcases pushSegment_cases segments (text active (c :: s)) with
      ⟨hempty, _⟩ | ⟨init, active', s', t, hs, ht, _⟩ | h'
    . simp [isEmptyText_text] at hempty
    . -- The text before would have taken in `c` as well.
      have ⟨hactive, _⟩ := text_inj.mp ht
      subst hactive
      rw [hs, pushSegment_append_text] at h
      have := congrArg length h
      simp at this
    . exact h'

def pushToken (token : Token T) : List (TaggedLineSegment T) :=
  pushSegment segments token.segment

theorem pushSegment_text_eq_foldl (s : Str)
    : pushSegment segments (text active s) = (s.map (Token.char active)).foldl pushToken segments := by
  induction s generalizing segments with
  | nil => simp [pushSegment, isEmptyText_text]
  | cons c s ih =>
    rw [pushSegment_text_cons, ih]
    rfl

theorem pushSegment_eq_foldl
    : pushSegment segments segment = segment.tokens.foldl pushToken segments := by
  cases segment with
  | normal s => exact pushSegment_text_eq_foldl segments none s
  | tagStart tag => rfl
  | tagDelta tag s => exact pushSegment_text_eq_foldl segments (some tag) s
  | tagEnd tag => rfl

end

theorem merge_eq_foldl : merge segments = (tokensOf segments).foldl pushToken [] := by
  unfold merge tokensOf
  generalize [] = acc
  induction segments generalizing acc with
  | nil => rfl
  | cons segment segments ih =>
    rw [foldl_cons, flatMap_cons, foldl_append, ih, pushSegment_eq_foldl]

theorem tokensOf_merge : tokensOf (merge segments) = tokensOf segments := by
  unfold merge
  rw [← nil_append (tokensOf segments), ← tokensOf_nil]
  generalize [] = acc
  induction segments generalizing acc with
  | nil => simp
  | cons segment segments ih => simp [ih, tokensOf_pushSegment]

theorem merge_eq_merge_iff {a b : List (TaggedLineSegment T)}
    : merge a = merge b ↔ tokensOf a = tokensOf b := by
  constructor
  . intro h
    rw [← tokensOf_merge a, h, tokensOf_merge]
  . intro h
    rw [merge_eq_foldl, h, merge_eq_foldl]

namespace TaggedLineParser

def new (specs : List (TagSpec T)) : TaggedLineParser T := ⟨specs, none, true, []⟩

variable (specs : List (TagSpec T)) (slug : Str)

def matchOpen : Option T :=
  (specs.find? fun spec => spec.openTag = slug).map TagSpec.tag

def matchClose : Option T :=
  (specs.find? fun spec => spec.closeTag = slug).map TagSpec.tag

def isTagPrefix : Bool :=
  let slug := trimEnd isWhiteSpace slug
  specs.any fun spec => slug <+: spec.openTag || slug <+: spec.closeTag

def stripNewline (line : Str) : Str :=
  if line.getLast? = some '\n' then line.dropLast else line

def lineSegment (active : Option T) (line : Str) : Option T × TaggedLineSegment T :=
  let slug := trim isWhiteSpace (stripNewline line)
  match matchOpen specs slug, active with
  | some tag, none => (some tag, .tagStart tag)
  | _, _ =>
    match matchClose specs slug with
    | some tag =>
      if active = some tag then (none, .tagEnd tag) else (active, .text active line)
    | none => (active, .text active line)

variable (p : TaggedLineParser T) (s : Str)

def pushText (segments : List (TaggedLineSegment T)) : List (TaggedLineSegment T) :=
  pushSegment segments (.text p.activeTag s)

def finishLine : TaggedLineParser T × List (TaggedLineSegment T) :=
  let (active, segment) := lineSegment p.specs p.activeTag p.lineBuffer
  ({ p with activeTag := active, detectTag := true, lineBuffer := [] }, pushSegment segments segment)

def parseChar
    (state : TaggedLineParser T × Str × List (TaggedLineSegment T)) (ch : Char)
    : TaggedLineParser T × Str × List (TaggedLineSegment T) :=
  let (p, run, segments) := state
  if p.detectTag then
    let segments := if run = [] then segments else p.pushText run segments
    let p := { p with lineBuffer := p.lineBuffer ++ [ch] }
    if ch = '\n' then
      let (p, segments) := p.finishLine segments
      (p, [], segments)
    else
      let slug := trimStart isWhiteSpace p.lineBuffer
      if slug = [] ∨ isTagPrefix p.specs slug then (p, [], segments)
      else
        let buffered := p.lineBuffer
        let p := { p with lineBuffer := [], detectTag := false }
        (p, [], p.pushText buffered segments)
  else if ch = '\n' then
    ({ p with detectTag := true }, [], p.pushText (run ++ [ch]) segments)
  else (p, run ++ [ch], segments)

def parse (delta : Str) : TaggedLineParser T × List (TaggedLineSegment T) :=
  let (p, run, segments) := delta.foldl parseChar (p, [], [])
  (p, if run = [] then segments else p.pushText run segments)

def finish : TaggedLineParser T × List (TaggedLineSegment T) :=
  let (active, segments) :=
    if p.lineBuffer = [] then (p.activeTag, [])
    else
      let (active, segment) := lineSegment p.specs p.activeTag p.lineBuffer
      (active, pushSegment [] segment)
  let segments :=
    match active with
    | some tag => pushSegment segments (.tagEnd tag)
    | none => segments
  ({ p with activeTag := none, detectTag := true, lineBuffer := [] }, segments)

def collect (p : TaggedLineParser T) (deltas : List Str) : List (TaggedLineSegment T) :=
  match deltas with
  | [] => p.finish.2
  | delta :: deltas => (p.parse delta).2 ++ (p.parse delta).1.collect deltas

def readLines (read : Option T → Str → Option T × TaggedLineSegment T) (active : Option T)
    (lines : List Str)
    : List (TaggedLineSegment T) :=
  match lines with
  | [] => active.toList.map .tagEnd
  | line :: lines => (read active line).2 :: readLines read (read active line).1 lines

def IsClosingTag (tag : T) (slug : Str) : Prop :=
  ∃ spec ∈ specs, spec.tag = tag ∧ spec.closeTag = slug

instance (specs : List (TagSpec T)) (tag : T) (slug : Str) : Decidable (IsClosingTag specs tag slug) :=
  inferInstanceAs (Decidable (∃ spec ∈ specs, spec.tag = tag ∧ spec.closeTag = slug))

def referenceSegment (active : Option T) (line : Str) : Option T × TaggedLineSegment T :=
  let slug := trim isWhiteSpace line
  match active with
  | none =>
    match matchOpen specs slug with
    | some tag => (some tag, .tagStart tag)
    | none => (none, .normal line)
  | some tag =>
    if IsClosingTag specs tag slug then (none, .tagEnd tag) else (some tag, .tagDelta tag line)

def reference : List (TaggedLineSegment T) :=
  readLines (referenceSegment specs) none (splitInclusive s)

/-!
What the parser gives, character by character: neither the runs of `parse` nor where it is called with
new text can be seen in it.
-/

def step (ch : Char) : TaggedLineParser T × List (Token T) :=
  if p.detectTag then
    let line := p.lineBuffer ++ [ch]
    let slug := trimStart isWhiteSpace line
    if ch = '\n' then
      let (active, segment) := lineSegment p.specs p.activeTag line
      (⟨p.specs, active, true, []⟩, segment.tokens)
    else if slug = [] ∨ isTagPrefix p.specs slug then
      (⟨p.specs, p.activeTag, true, line⟩, [])
    else (⟨p.specs, p.activeTag, false, []⟩, line.map (.char p.activeTag))
  else (⟨p.specs, p.activeTag, ch = '\n', p.lineBuffer⟩, [.char p.activeTag ch])

def feed (p : TaggedLineParser T) (s : Str) : TaggedLineParser T × List (Token T) :=
  match s with
  | [] => (p, [])
  | ch :: s => ((feed (p.step ch).1 s).1, (p.step ch).2 ++ (feed (p.step ch).1 s).2)

theorem feed_append (s t : Str)
    : p.feed (s ++ t) = (((p.feed s).1.feed t).1, (p.feed s).2 ++ ((p.feed s).1.feed t).2) := by
  induction s generalizing p with
  | nil => rfl
  | cons ch s ih => simp [feed, ih]

def Loops (given : List (Token T)) (state : TaggedLineParser T × Str × List (TaggedLineSegment T)) : Prop :=
  state.1 = p ∧ (p.detectTag = true → state.2.1 = []) ∧
    tokensOf state.2.2 ++ state.2.1.map (.char p.activeTag) = given

variable {p : TaggedLineParser T} {given : List (Token T)}
  {state : TaggedLineParser T × Str × List (TaggedLineSegment T)} {active : Option T}

theorem loops_parseChar (h : Loops p given state) (ch : Char)
    : Loops (p.step ch).1 (given ++ (p.step ch).2) (parseChar state ch) := by
  have ⟨p', run, segments⟩ := state
  have ⟨hp, hrun, hgiven⟩ := h
  subst hp hgiven
  unfold parseChar step
  dsimp only
  cases hdetect : p'.detectTag with
  | true =>
    have hrun := hrun hdetect
    subst hrun
    rw [if_pos rfl, if_pos rfl, if_pos rfl]
    split
    . simp [Loops, finishLine, tokensOf_pushSegment]
    . split
      . simp [Loops]
      . simp [Loops, pushText, tokensOf_pushSegment]
  | false =>
    rw [if_neg (by simp), if_neg (by simp)]
    split
    next hch => simp [Loops, pushText, tokensOf_pushSegment, hch]
    next hch =>
      simp only [Loops, hch]
      simp [← hdetect]

theorem loops_foldl (h : Loops p given state) (s : Str)
    : Loops (p.feed s).1 (given ++ (p.feed s).2) (s.foldl parseChar state) := by
  induction s generalizing p given state with
  | nil => simpa [feed] using h
  | cons ch s ih =>
    have := ih (loops_parseChar h ch)
    rw [append_assoc] at this
    exact this

theorem parse_eq_feed (p : TaggedLineParser T) (delta : Str)
    : (p.parse delta).1 = (p.feed delta).1 ∧ tokensOf (p.parse delta).2 = (p.feed delta).2 := by
  have hinit : Loops p [] (p, [], []) := by simp [Loops]
  have ⟨hp, _, hgiven⟩ := loops_foldl hinit delta
  unfold parse
  apply And.intro hp
  rw [nil_append] at hgiven
  rw [← hgiven]
  dsimp only
  rw [← hp]
  split
  next hrun => simp [hrun]
  next => simp [pushText, tokensOf_pushSegment]

theorem tokensOf_collect (p : TaggedLineParser T) (deltas : List Str)
    : tokensOf (p.collect deltas) =
      (p.feed deltas.flatten).2 ++ tokensOf (p.feed deltas.flatten).1.finish.2 := by
  induction deltas generalizing p with
  | nil => simp [collect, feed]
  | cons delta deltas ih =>
    have ⟨hp, hgiven⟩ := parse_eq_feed p delta
    rw [collect, tokensOf_append, ih, hp, hgiven, flatten_cons, feed_append]
    simp

/-!
A line as a whole: what the parser decides before its end is what `lineSegment` decides of it.
-/

def IsTag : Prop :=
  ∃ spec ∈ specs, spec.openTag = slug ∨ spec.closeTag = slug

variable {specs : List (TagSpec T)} {slug line s : Str}

omit [DecidableEq T] in
theorem matchOpen_eq_none_iff : matchOpen specs slug = none ↔ ∀ spec ∈ specs, spec.openTag ≠ slug := by
  simp [matchOpen]

omit [DecidableEq T] in
theorem matchClose_eq_none_iff : matchClose specs slug = none ↔ ∀ spec ∈ specs, spec.closeTag ≠ slug := by
  simp [matchClose]

theorem isWhiteSpace_newline : isWhiteSpace '\n' = true := by decide

theorem trim_stripNewline (line : Str)
    : trim isWhiteSpace (stripNewline line) = trim isWhiteSpace line := by
  unfold stripNewline
  split
  next h =>
    have ⟨init, hinit⟩ := getLast?_eq_some_iff.mp h
    rw [hinit, dropLast_concat, trim_append_blank]
    simp [isWhiteSpace_newline]
  next => rfl

theorem lineSegment_of_not_isTag (h : ¬IsTag specs (trim isWhiteSpace line)) (active : Option T)
    : lineSegment specs active line = (active, text active line) := by
  have hopen : matchOpen specs (trim isWhiteSpace line) = none := by
    rw [matchOpen_eq_none_iff]
    intro spec hspec heq
    exact h ⟨spec, hspec, .inl heq⟩
  have hclose : matchClose specs (trim isWhiteSpace line) = none := by
    rw [matchClose_eq_none_iff]
    intro spec hspec heq
    exact h ⟨spec, hspec, .inr heq⟩
  simp [lineSegment, trim_stripNewline, hopen, hclose]

omit [DecidableEq T] in
theorem isTagPrefix_of_isTag (hne : trimStart isWhiteSpace s ≠ [])
    (h : IsTag specs (trim isWhiteSpace (s ++ w)))
    : isTagPrefix specs (trimStart isWhiteSpace s) = true := by
  have hstart : trimStart isWhiteSpace (s ++ w) = trimStart isWhiteSpace s ++ w := by
    unfold trimStart at hne ⊢
    rw [dropWhile_append, if_neg]
    rw [List.isEmpty_iff]
    exact hne
  have hpre : trimEnd isWhiteSpace (trimStart isWhiteSpace s) <+: trim isWhiteSpace (s ++ w) := by
    unfold trim
    rw [hstart]
    exact trimEnd_isPrefix_trimEnd_append
  have ⟨spec, hspec, heq⟩ := h
  unfold isTagPrefix
  rw [any_eq_true]
  refine ⟨spec, hspec, ?_⟩
  rw [Bool.or_eq_true, decide_eq_true_iff, decide_eq_true_iff]
  cases heq with
  | inl heq =>
    rw [heq]
    exact .inl hpre
  | inr heq =>
    rw [heq]
    exact .inr hpre

section

variable (specs : List (TagSpec T)) (active : Option T)

theorem feed_of_not_mem (h : '\n' ∉ s)
    : feed ⟨specs, active, true, []⟩ s = (⟨specs, active, true, s⟩, []) ∨
      (feed ⟨specs, active, true, []⟩ s = (⟨specs, active, false, []⟩, s.map (.char active)) ∧
        ∀ w, ¬IsTag specs (trim isWhiteSpace (s ++ w))) := by
  induction s using reverseRecOn with
  | nil => exact .inl rfl
  | append_singleton s ch ih =>
    simp only [mem_append, mem_singleton, not_or] at h
    have hch : ch ≠ '\n' := Ne.symm h.2
    cases ih h.1 with
    | inl ih =>
      rw [feed_append, ih]
      simp only [feed, step, if_true, if_neg hch]
      split
      next => exact .inl (by simp)
      next hslug =>
        apply Or.inr
        apply And.intro (by simp)
        intro w htag
        rw [not_or] at hslug
        exact hslug.2 (isTagPrefix_of_isTag hslug.1 htag)
    | inr ih =>
      have ⟨hfeed, hno⟩ := ih
      apply Or.inr
      constructor
      . rw [feed_append, hfeed]
        simp [feed, step, hch]
      . intro w
        rw [append_assoc]
        exact hno _

theorem feed_line (h : '\n' ∉ s)
    : feed ⟨specs, active, true, []⟩ (s ++ ['\n']) =
      (⟨specs, (lineSegment specs active (s ++ ['\n'])).1, true, []⟩,
        (lineSegment specs active (s ++ ['\n'])).2.tokens) := by
  rw [feed_append]
  cases feed_of_not_mem specs active h with
  | inl hfeed =>
    rw [hfeed]
    simp [feed, step]
  | inr hfeed =>
    have ⟨hfeed, hno⟩ := hfeed
    rw [hfeed, lineSegment_of_not_isTag (hno ['\n'])]
    simp [feed, step]

theorem feed_finish_last (h : '\n' ∉ s)
    : (feed ⟨specs, active, true, []⟩ s).2 ++
      tokensOf (feed ⟨specs, active, true, []⟩ s).1.finish.2 =
        tokensOf (readLines (lineSegment specs) active (splitInclusive s)) := by
  by_cases hs : s = []
  . subst hs
    cases active <;> simp [feed, finish, readLines, splitInclusive_nil, pushSegment, isEmptyText]
  . rw [splitInclusive_of_not_mem h hs]
    cases feed_of_not_mem specs active h with
    | inl hfeed =>
      rw [hfeed]
      simp only [finish, if_neg hs, readLines, tokensOf_cons, nil_append]
      cases (lineSegment specs active s).1 <;> simp [tokensOf_pushSegment]
    | inr hfeed =>
      have ⟨hfeed, hno⟩ := hfeed
      have hno := hno []
      rw [append_nil] at hno
      rw [hfeed]
      simp only [finish, readLines, lineSegment_of_not_isTag hno]
      cases active <;> simp [tokensOf_pushSegment]

theorem feed_finish (s : Str)
    : (feed ⟨specs, active, true, []⟩ s).2 ++
      tokensOf (feed ⟨specs, active, true, []⟩ s).1.finish.2 =
        tokensOf (readLines (lineSegment specs) active (splitInclusive s)) := by
  induction s using line_induction generalizing active with
  | last s hs => exact feed_finish_last specs active hs
  | line first rest hfirst ih =>
    rw [splitInclusive_append_newline hfirst, readLines, tokensOf_cons, ← ih,
      append_cons, feed_append, feed_line specs active hfirst]
    simp

theorem tokensOf_collect_new (deltas : List Str)
    : tokensOf ((new specs).collect deltas) =
      tokensOf (readLines (lineSegment specs) none (splitInclusive deltas.flatten)) := by
  rw [tokensOf_collect]
  exact feed_finish specs none deltas.flatten

theorem merge_collect_flatten (deltas : List Str)
    : merge ((new specs).collect deltas) = merge ((new specs).collect [deltas.flatten]) := by
  rw [merge_eq_merge_iff, tokensOf_collect_new, tokensOf_collect_new, flatten_singleton]

def ClosesItsTag (line : Str) : Prop :=
  ∀ tag ∈ active, IsClosingTag specs tag (trim isWhiteSpace line) →
    matchClose specs (trim isWhiteSpace line) = some tag

end

instance (specs : List (TagSpec T)) (active : Option T) (line : Str)
    : Decidable (ClosesItsTag specs active line) :=
  match active with
  | none => .isTrue (by intro tag htag; cases htag)
  | some tag =>
    decidable_of_iff (IsClosingTag specs tag (trim isWhiteSpace line) →
      matchClose specs (trim isWhiteSpace line) = some tag) (by simp [ClosesItsTag])

omit [DecidableEq T] in
theorem isClosingTag_of_matchClose (h : matchClose specs slug = some tag)
    : IsClosingTag specs tag slug := by
  unfold matchClose at h
  rw [Option.map_eq_some_iff] at h
  have ⟨spec, hfind, htag⟩ := h
  have heq := find?_some hfind
  rw [decide_eq_true_iff] at heq
  exact ⟨spec, mem_of_find?_eq_some hfind, htag, heq⟩

theorem lineSegment_eq_referenceSegment (h : ClosesItsTag specs active line)
    : lineSegment specs active line = referenceSegment specs active line := by
  simp only [lineSegment, referenceSegment, trim_stripNewline]
  cases active with
  | none =>
    cases matchOpen specs (trim isWhiteSpace line) with
    | some tag => rfl
    | none => cases matchClose specs (trim isWhiteSpace line) <;> rfl
  | some tag =>
    have h := h tag rfl
    by_cases hclosing : IsClosingTag specs tag (trim isWhiteSpace line)
    . simp [hclosing, h hclosing]
    . cases hmatch : matchClose specs (trim isWhiteSpace line) with
      | none => simp [hclosing, text]
      | some tag' =>
        have hne : tag ≠ tag' := by
          intro heq
          subst heq
          exact hclosing (isClosingTag_of_matchClose hmatch)
        simp [hclosing, hne, text]

theorem segments_of_not_closesItsTag (h : ¬ClosesItsTag specs active line)
    : ∃ tag, (lineSegment specs active line).2 = .tagDelta tag line ∧
      (referenceSegment specs active line).2 = .tagEnd tag := by
  unfold ClosesItsTag at h
  simp only [not_forall] at h
  have ⟨tag, hactive, hclosing, hmatch⟩ := h
  subst hactive
  exists tag
  constructor
  . simp only [lineSegment, trim_stripNewline]
    cases hclose : matchClose specs (trim isWhiteSpace line) with
    | none => simp [text]
    | some tag' =>
      have hne : tag ≠ tag' := by
        intro heq
        subst heq
        exact hmatch hclose
      simp [hne, text]
  . simp [referenceSegment, hclosing]

theorem tokensOf_readLines_eq_iff (specs : List (TagSpec T)) (active : Option T)
    (lines : List Str) (hlines : ∀ line ∈ lines, line ≠ [])
    : tokensOf (readLines (lineSegment specs) active lines) =
        tokensOf (readLines (referenceSegment specs) active lines) ↔
      Run.Along (fun active line => (referenceSegment specs active line).1)
        (ClosesItsTag specs) active lines := by
  induction lines generalizing active with
  | nil => simp [readLines, Run.Along]
  | cons line lines ih =>
    rw [forall_mem_cons] at hlines
    rw [readLines, readLines, tokensOf_cons, tokensOf_cons, Run.Along]
    by_cases hline : ClosesItsTag specs active line
    . rw [lineSegment_eq_referenceSegment hline, append_cancel_left_eq, ih _ hlines.2]
      simp [hline]
    . obtain ⟨tag, hcode, href⟩ := segments_of_not_closesItsTag hline
      obtain ⟨c, cs, hcs⟩ := exists_cons_of_ne_nil hlines.1
      rw [hcode, href]
      subst hcs
      simp [tokens, hline]

theorem merge_collect_eq_iff (specs : List (TagSpec T)) (deltas : List Str)
    : merge ((new specs).collect deltas) = merge (reference specs deltas.flatten) ↔
      Run.Along (fun active line => (referenceSegment specs active line).1)
        (ClosesItsTag specs) none (splitInclusive deltas.flatten) := by
  rw [merge_eq_merge_iff, tokensOf_collect_new]
  exact tokensOf_readLines_eq_iff _ _ _ fun _ => ne_nil_of_mem_splitInclusive

theorem merge_collect_ne_reference
    : merge ((new [⟨"<a>".toList, "</>".toList, 0⟩, ⟨"<b>".toList, "</>".toList, 1⟩]).collect
        ["<b>\nx\n</>\ny".toList]) ≠
      merge (reference [⟨"<a>".toList, "</>".toList, 0⟩, ⟨"<b>".toList, "</>".toList, 1⟩]
        "<b>\nx\n</>\ny".toList) := by
  decide

end TaggedLineParser

end Codex.StreamParser
