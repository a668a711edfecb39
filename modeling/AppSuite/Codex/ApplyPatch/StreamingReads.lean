import AppSuite.Codex.ApplyPatch.Layout

/-!
This module contains what the streaming parser takes the lines of a layout for.
-/

namespace Codex.ApplyPatch

open ExceptFold Text Place

namespace Place

def inUpdate : Place → Bool
  | .outside => false
  | .adding => false
  | _ => true

variable (place : Place) (line : Str)

def text : Str := if place.inUpdate then trimEnd line else trim line

def skips : Bool :=
  trim line = []
    && (place = .header || place = .bare || place = .closed || changeLine line = none)

def next : Place :=
  match openHunk (place.text line) with
  | some hunk => .opened hunk
  | none =>
    if !place.inUpdate then
      place
    else if line = eofMarker then
      .closed
    else if moveToMarker <+: line then
      .bare
    else if line.head? = some '@' then
      .marked
    else if !place.skips line then
      .lines
    else if place = .header ∨ place = .bare then
      .bare
    else
      .closed

def differs : Bool :=
  place.inUpdate
    && (place.skips line
      || (moveToMarker <+: line || changeContextMarker <+: line) && trimEnd line ≠ line)

def walk (place : Place) : List Str → Option Place
  | [] => some place
  | line :: rest => if place.differs line then none else (place.next line).walk rest

end Place

section Heads

variable {text line : Str} {c : Char}

theorem not_isPrefix_of_head? (hmarker : marker.head? = some c) (htext : text.head? ≠ some c)
    : ¬marker <+: text := by
  rintro ⟨rest, hrest⟩
  rw [← hrest, List.head?_append, hmarker] at htext
  contradiction

theorem isPrefixOf?_eq_none (h : ¬marker <+: text) : marker.isPrefixOf? text = none := by
  cases hprefix : marker.isPrefixOf? text with
  | none => rfl
  | some rest =>
    rw [List.isPrefixOf?_eq_some_iff_append_eq] at hprefix
    exact (h ⟨rest, hprefix⟩).elim

theorem openHunk_of_head?_ne (h : text.head? ≠ some '*') : openHunk text = none := by
  have hmarker {marker : Str} (hstar : marker.head? = some '*') : marker.isPrefixOf? text = none :=
    isPrefixOf?_eq_none (not_isPrefix_of_head? hstar h)
  rw [openHunk, hmarker rfl, hmarker rfl, hmarker rfl]

theorem openHunk_updateFile
    (h : openHunk text = some (.updateFile path movePath chunks))
    : movePath = none ∧ chunks = [] := by
  unfold openHunk at h
  split at h
  . cases h
  . split at h
    . cases h
    . split at h
      . cases h
        exact ⟨rfl, rfl⟩
      . cases h

theorem ne_endPatchMarker_of_head?_ne (h : text.head? ≠ some '*') : text ≠ endPatchMarker := by
  intro heq
  rw [heq] at h
  contradiction

theorem head?_trimEnd (h : (trimEnd line).head? = some c) : line.head? = some c := by
  have ⟨rest, hrest⟩ : trimEnd line <+: line := trimEnd_isPrefix
  unfold trimEnd at h
  rw [← hrest, List.head?_append, h]
  rfl

theorem trimEnd_cons (hc : Text.isWhiteSpace c = false) : trimEnd (c :: line) = c :: trimEnd line :=
  Text.trimEnd_cons hc

theorem trim_eq_trimEnd (h : line.head? = some c) (hc : Text.isWhiteSpace c = false)
    : trim line = trimEnd line := by
  apply Text.trim_eq_trimEnd
  intro d hd
  rw [h] at hd
  cases hd
  assumption

theorem head?_ne_of_changeLine (h : changeLine line = some change)
    (hc : c ≠ ' ' ∧ c ≠ '+' ∧ c ≠ '-')
    : line.head? ≠ some c := by
  cases line with
  | nil => simp
  | cons d text =>
    rintro ⟨⟩
    rw [changeLine, if_neg hc.1, if_neg hc.2.1, if_neg hc.2.2] at h
    cases h

theorem trimEnd_moveToMarker_append (path : Str)
    : trimEnd (moveToMarker ++ path) = "*** Move to".toList ++ ':' :: trimEnd (' ' :: path) := by
  have hcolon : trimEnd (':' :: ' ' :: path) = ':' :: trimEnd (' ' :: path) := trimEnd_cons rfl
  have hne : trimEnd (':' :: ' ' :: path) ≠ [] := by
    rw [hcolon]
    simp
  rw [← hcolon]
  exact trimEnd_append_of_ne_nil (w := "*** Move to".toList) hne

end Heads

section Reads

variable {place place' : Place} {line : Str} {item : Item}

theorem Reads.openHunk_text (h : Reads place line (.header hunk) place')
    : openHunk (place.text line) = some hunk := by
  cases h with
  | header hplace hopen =>
    rcases hplace with hplace | hplace | ⟨hplace | hplace, hstar⟩ <;> rw [hplace]
    . exact hopen
    . exact hopen
    all_goals
      rw [trim_eq_trimEnd hstar rfl] at hopen
      exact hopen

theorem Place.text_of_inUpdate (h : place.inUpdate = true) : place.text line = trimEnd line :=
  if_pos h

theorem head?_text_ne (hstar : line.head? ≠ some '*') (h : place.inUpdate = true)
    : (place.text line).head? ≠ some '*' := by
  rw [text_of_inUpdate h]
  intro htext
  exact hstar (head?_trimEnd htext)

theorem head?_ne_of_trim_eq_nil {c : Char} (hc : isWhiteSpace c = false) (h : trim line = [])
    : line.head? ≠ some c := by
  cases line with
  | nil => simp
  | cons d text =>
    rintro ⟨⟩
    exact trim_cons_ne_nil hc h

def Item.isUpdate : Item → Bool
  | .header _ => false
  | .addLine _ => false
  | _ => true

theorem Reads.inUpdate (h : Reads place line item place') (hitem : item.isUpdate = true)
    : place.inUpdate = true := by
  cases h with
  | header _ _ | addLine => cases hitem
  | moveTo => rfl
  | blankBefore hplace _ => rcases hplace with hplace | hplace <;> rw [hplace] <;> rfl
  | blankAfter hplace _ => rcases hplace with hplace | ⟨hplace, _⟩ <;> rw [hplace] <;> rfl
  | marker hplace => rcases hplace with (hplace | hplace) | hplace | hplace <;> rw [hplace] <;> rfl
  | change hplace _ =>
    rcases hplace with hplace | hplace | ⟨hplace | hplace, _⟩ <;> rw [hplace] <;> rfl
  | endOfFile => rfl

theorem Reads.text_ne (h : Reads place line item place') (hitem : ∀ hunk, item ≠ .header hunk)
    : openHunk (place.text line) = none ∧ place.text line ≠ endPatchMarker := by
  have hhead (hstar : (place.text line).head? ≠ some '*') :=
    And.intro (openHunk_of_head?_ne hstar) (ne_endPatchMarker_of_head?_ne hstar)
  have hupdate := h.inUpdate
  cases h with
  | header _ _ => cases hitem _ rfl
  | addLine =>
    apply hhead
    rw [text, if_neg (by decide), trim_eq_trimEnd rfl rfl, trimEnd_cons rfl]
    rintro ⟨⟩
  | @moveTo path =>
    rw [text_of_inUpdate rfl, trimEnd_moveToMarker_append]
    exact ⟨rfl, by rintro ⟨⟩⟩
  | blankBefore _ hblank | blankAfter _ hblank =>
    apply hhead
    exact head?_text_ne (head?_ne_of_trim_eq_nil rfl hblank) (hupdate rfl)
  | @marker _ context _ =>
    apply hhead
    apply head?_text_ne _ (hupdate rfl)
    cases context <;> rintro ⟨⟩
  | change _ hchange =>
    apply hhead
    exact head?_text_ne (head?_ne_of_changeLine hchange (by decide)) (hupdate rfl)
  | endOfFile => decide

theorem Reads.skips_blank (h : Reads place line .blank place') : place.skips line = true := by
  cases h with
  | blankBefore hplace hblank =>
    rcases hplace with hplace | hplace <;> simp [skips, hblank, hplace]
  | blankAfter hplace hblank =>
    rcases hplace with hplace | ⟨hplace, hchange⟩
    . simp [skips, hblank, hplace]
    . simp [skips, hblank, hchange]

theorem Reads.skips_change {change : ChangeLine} (h : Reads place line (.change change) place')
    : place.skips line = false := by
  cases h with
  | change hplace hchange =>
    rcases hplace with hplace | hplace | ⟨_, hblank⟩
    . simp [skips, hplace, hchange]
    . simp [skips, hplace, hchange]
    . simp [skips, hblank]

theorem Place.next_of_plain (hopen : openHunk (place.text line) = none)
    (hupdate : place.inUpdate = true) (hstar : line.head? ≠ some '*') (hat : line.head? ≠ some '@')
    : place.next line
      = if !place.skips line then .lines
        else if place = .header ∨ place = .bare then .bare else .closed := by
  have heof : line ≠ eofMarker := by
    intro heq
    rw [heq] at hstar
    contradiction
  have hmove : ¬moveToMarker <+: line := not_isPrefix_of_head? rfl hstar
  rw [next, hopen]
  rw [hupdate, if_neg (by simp), if_neg heof, if_neg hmove, if_neg hat]

theorem Reads.next_eq (h : Reads place line item place') : place.next line = place' := by
  have htext := h.text_ne
  have hupdate := h.inUpdate
  cases h with
  | header hplace hopen => rw [next, (Reads.header hplace hopen).openHunk_text]
  | addLine =>
    rw [next, (htext (by simp)).1]
    rfl
  | @moveTo path =>
    have heof : moveToMarker ++ path ≠ eofMarker := by rintro ⟨⟩
    rw [next, (htext (by simp)).1]
    rw [if_neg (by decide), if_neg heof, if_pos (List.prefix_append ..)]
  | blankBefore hplace hblank =>
    have hskips := (Reads.blankBefore hplace hblank).skips_blank
    rw [next_of_plain (htext (by simp)).1 (hupdate rfl) (head?_ne_of_trim_eq_nil rfl hblank)
      (head?_ne_of_trim_eq_nil rfl hblank), hskips, if_neg (by decide), if_pos hplace]
  | blankAfter hplace hblank =>
    have hskips := (Reads.blankAfter hplace hblank).skips_blank
    have hafter : ¬(place = .header ∨ place = .bare) := by
      rcases hplace with hplace | ⟨hplace, _⟩ <;> simp [hplace]
    rw [next_of_plain (htext (by simp)).1 (hupdate rfl) (head?_ne_of_trim_eq_nil rfl hblank)
      (head?_ne_of_trim_eq_nil rfl hblank), hskips, if_neg (by decide), if_neg hafter]
  | @marker _ context hplace =>
    have heof : contextLine context ≠ eofMarker := by cases context <;> rintro ⟨⟩
    have hmove : ¬moveToMarker <+: contextLine context := by
      rintro ⟨rest, hrest⟩
      cases context <;> cases hrest
    have hat : (contextLine context).head? = some '@' := by cases context <;> rfl
    rw [next, (htext (by simp)).1]
    rw [hupdate rfl, if_neg (by decide), if_neg heof, if_neg hmove, if_pos hat]
  | change hplace hchange =>
    have hskips := (Reads.change hplace hchange).skips_change
    rw [next_of_plain (htext (by simp)).1 (hupdate rfl), hskips, if_pos (by decide)]
    . exact head?_ne_of_changeLine hchange (by decide)
    . exact head?_ne_of_changeLine hchange (by decide)
  | endOfFile => decide

end Reads

section Streamed

def streamedContext : Option Str → Option Str
  | none => none
  | some context => if trimEnd context = [] then none else some (trimEnd context)

def Item.streamed (line : Str) : Item → Option Item
  | .moveTo _ => (moveToMarker.isPrefixOf? (trimEnd line)).map .moveTo
  | .marker context => some (.marker (streamedContext context))
  | .blank => (changeLine line).map .change
  | item => some item

theorem trimEnd_contextLine (context : Option Str)
    : trimEnd (contextLine context) = contextLine (streamedContext context) := by
  cases context with
  | none => decide
  | some text =>
    rw [streamedContext]
    split
    . next h =>
      have htrim : trimEnd (contextLine (some text)) = trimEnd changeContextMarker :=
        trimEnd_append_blank (trimEnd_eq_nil_iff.mp h)
      rw [htrim]
      decide
    . next h => exact trimEnd_append_of_ne_nil h

def cost : Option Str → Int
  | none => 0
  | some text => text.length + 1

def UpdateFileChunk.weight (chunk : UpdateFileChunk) : Int :=
  chunk.oldLines.length + chunk.newLines.length - cost chunk.changeContext

def Hunk.weight : Hunk → Int
  | .updateFile _ movePath chunks => (chunks.map (·.weight)).sum - cost movePath
  | _ => 0

def weight (hunks : List Hunk) : Int := (hunks.map (·.weight)).sum

def ChangeLine.weight : ChangeLine → Int
  | .context _ => 2
  | _ => 1

def Item.weight : Item → Int
  | .header hunk => hunk.weight
  | .moveTo path => - cost (some path)
  | .marker context => - cost context
  | .change line => line.weight
  | _ => 0

variable {place place' : Place} {line : Str} {item item' : Item}

theorem Place.differs_eq_false (hskips : place.skips line = false) (hmove : ¬moveToMarker <+: line)
    (hcontext : ¬changeContextMarker <+: line)
    : place.differs line = false := by
  simp [differs, hskips, hmove, hcontext]

theorem Reads.differs_header (h : Reads place line (.header hunk) place')
    : place.differs line = false := by
  cases hupdate : place.inUpdate with
  | false => simp [differs, hupdate]
  | true =>
    have hopen := h.openHunk_text
    rw [text_of_inUpdate hupdate] at hopen
    have hstar : line.head? = some '*' := by
      by_contra hne
      rw [openHunk_of_head?_ne fun h => hne (head?_trimEnd h)] at hopen
      cases hopen
    apply differs_eq_false
    . have hblank : trim line ≠ [] := by
        intro hblank
        exact head?_ne_of_trim_eq_nil rfl hblank hstar
      simp [skips, hblank]
    . rintro ⟨rest, hrest⟩
      rw [← hrest, trimEnd_moveToMarker_append] at hopen
      cases hopen
    . apply not_isPrefix_of_head? (c := '@') rfl
      simp [hstar]

theorem Reads.differs_change {change : ChangeLine} (h : Reads place line (.change change) place')
    : place.differs line = false := by
  have hskips := h.skips_change
  cases h with
  | change hplace hchange =>
    apply differs_eq_false hskips
    . apply not_isPrefix_of_head? (c := '*') rfl
      exact head?_ne_of_changeLine hchange (by decide)
    . apply not_isPrefix_of_head? (c := '@') rfl
      exact head?_ne_of_changeLine hchange (by decide)

theorem Place.differs_moveTo
    : header.differs (moveToMarker ++ path)
      = decide (trimEnd (moveToMarker ++ path) ≠ moveToMarker ++ path) := by
  have hblank : trim (moveToMarker ++ path) ≠ [] := trim_cons_ne_nil rfl
  simp [differs, skips, inUpdate, hblank]

theorem contextLine_inj : contextLine a = contextLine b ↔ a = b := by
  have hne {text : Str} : emptyChangeContextMarker ≠ changeContextMarker ++ text := by rintro ⟨⟩
  cases a with
  | none =>
    cases b with
    | none => simp
    | some b => simpa [contextLine] using hne
  | some a =>
    cases b with
    | none => simpa [contextLine] using hne.symm
    | some b => simp [contextLine]

theorem Reads.differs_marker
    (h : Reads place (contextLine context) (.marker context) place')
    : place.differs (contextLine context) = decide (streamedContext context ≠ context) := by
  have hupdate := h.inUpdate rfl
  have hskips : place.skips (contextLine context) = false := by
    have hblank : trim (contextLine context) ≠ [] := by
      cases context <;> exact trim_cons_ne_nil rfl
    simp [skips, hblank]
  rw [differs, hupdate, hskips, trimEnd_contextLine]
  cases context with
  | none => simp [streamedContext]
  | some text =>
    have hcontext : changeContextMarker <+: contextLine (some text) := List.prefix_append ..
    simp [hcontext, contextLine_inj]

theorem weight_le_of_blank (h : Item.blank.streamed line = some item')
    : Item.blank.weight + (if place.differs line then 1 else 0) ≤ item'.weight := by
  rw [Item.streamed, Option.map_eq_some_iff] at h
  have ⟨change, _, hitem⟩ := h
  rw [← hitem]
  cases change <;> simp only [Item.weight, ChangeLine.weight] <;> split <;> decide

theorem cost_streamedContext (context : Option Str)
    : - cost context + (if decide (streamedContext context ≠ context) then 1 else 0)
      ≤ - cost (streamedContext context) := by
  cases context with
  | none => decide
  | some text =>
    rw [streamedContext]
    split
    . simp only [cost]
      split <;> omega
    . by_cases heq : trimEnd text = text
      . simp [heq]
      . have hlt : (trimEnd text).length < text.length := length_trimEnd_lt heq
        simp only [cost]
        split <;> omega

theorem Reads.weight_le_of_streamed (h : Reads place line item place')
    (hstreamed : item.streamed line = some item')
    : item.weight + (if place.differs line then 1 else 0) ≤ item'.weight := by
  cases h with
  | header hplace hopen =>
    cases hstreamed
    rw [(Reads.header hplace hopen).differs_header]
    simp
  | addLine =>
    cases hstreamed
    exact Int.le_refl _
  | @moveTo path =>
    rw [Item.streamed, Option.map_eq_some_iff] at hstreamed
    have ⟨dest, hdest, hitem⟩ := hstreamed
    rw [List.isPrefixOf?_eq_some_iff_append_eq] at hdest
    have hlength := congrArg List.length hdest
    rw [List.length_append] at hlength
    rw [differs_moveTo, ← hitem, Item.weight, Item.weight, cost, cost]
    split
    . next hne =>
      have := length_trimEnd_lt (of_decide_eq_true hne)
      rw [trimEnd, List.length_append] at *
      omega
    . next heq =>
      simp only [decide_eq_true_eq, ne_eq, Decidable.not_not] at heq
      rw [heq, List.length_append] at hlength
      omega
  | blankBefore hplace hblank | blankAfter hplace hblank => exact weight_le_of_blank hstreamed
  | @marker _ context hplace =>
    cases hstreamed
    rw [(Reads.marker hplace).differs_marker]
    exact cost_streamedContext context
  | change hplace hchange =>
    cases hstreamed
    rw [(Reads.change hplace hchange).differs_change]
    simp
  | endOfFile =>
    cases hstreamed
    decide

theorem Reads.streamed_eq (h : Reads place line item place') (hdiffers : place.differs line = false)
    : item.streamed line = some item := by
  cases h with
  | @moveTo path =>
    rw [differs_moveTo, decide_eq_false_iff_not, ne_eq, Decidable.not_not] at hdiffers
    rw [Item.streamed, hdiffers, List.isPrefixOf?_eq_some_iff_append_eq.mpr rfl]
    rfl
  | @marker _ context hplace =>
    rw [(Reads.marker hplace).differs_marker, decide_eq_false_iff_not, ne_eq, Decidable.not_not]
      at hdiffers
    rw [Item.streamed, hdiffers]
  | blankBefore hplace hblank =>
    have hread := Reads.blankBefore hplace hblank
    simp [differs, hread.inUpdate rfl, hread.skips_blank] at hdiffers
  | blankAfter hplace hblank =>
    have hread := Reads.blankAfter hplace hblank
    simp [differs, hread.inUpdate rfl, hread.skips_blank] at hdiffers
  | _ => rfl

end Streamed

end Codex.ApplyPatch
