import AppSuite.Codex.ApplyPatch.StreamingSteps

/-!
This module contains when the two parsers of patches agree.
-/

namespace Codex.ApplyPatch

open List ExceptFold Text StreamingPatchParser

section Endings

variable {p q : StreamingPatchParser} {place : Place} {hunks : List Hunk} {rest line : Str}

theorem readLine_of_endedPatch (h : p.mode = .endedPatch) (line : Str)
    : p.readLine line = .ok p.takeLine := by
  have hmode : p.takeLine.mode = .endedPatch := h
  unfold readLine processLine
  rw [hmode]
  rfl

theorem foldlM_readLine_of_endedPatch (h : p.mode = .endedPatch) (lines : List Str)
    : ∃ q, lines.foldlM readLine p = .ok q ∧ q.mode = .endedPatch
      ∧ q.hunks = p.hunks := by
  induction lines generalizing p with
  | nil => exact ⟨p, rfl, h, rfl⟩
  | cons line lines ih =>
    rw [foldlM_cons_of_ok (readLine_of_endedPatch h line)]
    exact ih h

theorem finish_of_endedPatch (h : p.mode = .endedPatch) (hbuffer : trim p.lineBuffer = [])
    : ∃ q, p.finish = .ok (p.hunks, q) := by
  have hne : ¬trim p.lineBuffer = endPatchMarker := by
    rw [hbuffer]
    decide
  have ⟨q, hq, hmode, hhunks⟩ : ∃ q, p.finishLine = .ok q ∧ q.mode = .endedPatch ∧ q.hunks = p.hunks := by
    unfold finishLine
    split
    . exact ⟨p, rfl, h, rfl⟩
    . exact ⟨_, readLine_of_endedPatch h _, h, rfl⟩
  refine ⟨q, ?_⟩
  unfold finish
  rw [hq, bind_eq_ok]
  refine ⟨q, rfl, ?_⟩
  rw [if_neg (by simp [hmode]), hhunks]
  rfl

def ending (p : StreamingPatchParser) (rest : Str) : Except ParseError (List Hunk × StreamingPatchParser) := do
  let q ← ((terminated rest).map chopCr).foldlM readLine p
  finish { q with lineBuffer := unterminated rest }

def Place.isFinal (place : Place) : Prop :=
  place = .outside ∨ place = .adding ∨ place = .lines ∨ place = .closed

theorem ending_eq_finish (hrest : '\n' ∉ rest)
    : ending p rest = finish { p with lineBuffer := rest } := by
  unfold ending
  rw [terminated_of_not_mem hrest, unterminated_of_not_mem hrest]
  rfl

theorem ending_eq_of_newline {first rest : Str} (hfirst : '\n' ∉ first)
    : ending p (first ++ '\n' :: rest) = p.readLine (chopCr first) >>= fun q => ending q rest := by
  unfold ending
  rw [terminated_append_newline, unterminated_append_newline,
    terminated_of_not_mem hfirst, unterminated_of_not_mem hfirst, nil_append,
    map_cons, foldlM_cons, bind_assoc]

theorem finishLine_of_endPatchMarker (hbuffer : trim p.lineBuffer = endPatchMarker)
    : p.finishLine = .ok q
        ↔ p.takeLine.ensureUpdateHunkIsNotEmpty endPatchMarker = .ok ()
            ∧ q = { p.takeLine with mode := .endedPatch } := by
  have hne : p.lineBuffer ≠ [] := by
    intro hnil
    rw [hnil] at hbuffer
    contradiction
  unfold finishLine
  rw [if_neg hne, if_pos hbuffer, unit_bind_eq_ok, pure_eq_ok, hbuffer, eq_comm (a := q)]

theorem finish_eq_ok_iff
    : p.finish = .ok (hunks, q) ↔ p.finishLine = .ok q ∧ q.mode = .endedPatch ∧ hunks = q.hunks := by
  unfold finish
  simp only [bind_eq_ok, guard_eq_ok, pure_eq_ok, Prod.mk.injEq, ne_eq, Decidable.not_not]
  constructor
  . rintro ⟨q', hline, hmode, hhunks, hq⟩
    rw [← hq]
    exact ⟨hline, hmode, hhunks.symm⟩
  . rintro ⟨hline, hmode, hhunks⟩
    exact ⟨q, hline, hmode, hhunks.symm, rfl⟩

def Closes (p : StreamingPatchParser) (hunks : List Hunk) : Prop :=
  p.takeLine.ensureUpdateHunkIsNotEmpty endPatchMarker = .ok () ∧ hunks = p.hunks

theorem exists_ending_iff (hrest : '\n' ∉ rest) (hend : trim rest = endPatchMarker)
    : (∃ q, ending p rest = .ok (hunks, q)) ↔ Closes p hunks := by
  simp only [ending_eq_finish hrest, finish_eq_ok_iff,
    finishLine_of_endPatchMarker (p := { p with lineBuffer := rest }) hend]
  constructor
  . rintro ⟨_, ⟨hensure, rfl⟩, _, hhunks⟩
    exact ⟨hensure, hhunks⟩
  . rintro ⟨hensure, hhunks⟩
    exact ⟨_, ⟨hensure, rfl⟩, rfl, hhunks⟩

theorem ending_of_endedPatch (hmode : p.mode = .endedPatch) (hrest : trim (unterminated rest) = [])
    : ∃ q, ending p rest = .ok (p.hunks, q) := by
  have ⟨q, hq, hmode, hhunks⟩ :=
    foldlM_readLine_of_endedPatch hmode ((terminated rest).map chopCr)
  have ⟨q', hq'⟩ := finish_of_endedPatch (p := { q with lineBuffer := unterminated rest }) hmode hrest
  refine ⟨q', ?_⟩
  unfold ending
  rw [hq, ← hhunks]
  exact hq'

theorem exists_ending_newline_iff {first rest : Str} (hfirst : '\n' ∉ first)
    (hmode : place.ModeAt p.mode) (hend : place.text (chopCr first) = endPatchMarker)
    (hrest : trim (unterminated rest) = [])
    : (∃ q, ending p (first ++ '\n' :: rest) = .ok (hunks, q)) ↔ Closes p hunks := by
  have hline {closed : StreamingPatchParser} : p.readLine (chopCr first) = .ok closed ↔ _ :=
    processLine_endPatch (p := p.takeLine) hmode hend
  obtain ⟨q, hq⟩ := ending_of_endedPatch (p := { p.takeLine with mode := .endedPatch }) rfl hrest
  simp only [ending_eq_of_newline hfirst, bind_eq_ok, hline]
  constructor
  . rintro ⟨_, _, ⟨hensure, rfl⟩, h⟩
    rw [hq] at h
    cases h
    exact ⟨hensure, rfl⟩
  . rintro ⟨hensure, rfl⟩
    exact ⟨q, _, ⟨hensure, rfl⟩, hq⟩

variable {n : Nat}

theorem mode_of_readLine (hmode : p.mode = .updateFile n) (hopen : openHunk (trimEnd line) = none)
    (hend : trimEnd line ≠ endPatchMarker) (h : p.readLine line = .ok q)
    : q.mode = .updateFile n := by
  have hhandle := handleHunkHeadersAndEndPatch_eq_none (p := p.takeLine) hend hopen
  rcases (processLine_eq_ok_of_updateFile (p := p.takeLine) hmode).mp h with h | h
  . rw [hhandle] at h
    cases h
  . have ⟨_, _, _, _, _, _, _, hset⟩ := h
    rw [hset]
    exact hmode

theorem mode_of_readLine_blank (hmode : p.mode = .updateFile n)
    (hblank : ∀ c ∈ line, isWhiteSpace c = true) (h : p.readLine line = .ok q)
    : q.mode = .updateFile n := by
  have htrim : trimEnd line = [] := trimEnd_eq_nil_iff.mpr hblank
  apply mode_of_readLine hmode _ _ h <;> rw [htrim] <;> decide

theorem trim_unterminated_eq_nil {rest : Str} (h : ∀ c ∈ rest, isWhiteSpace c = true)
    : trim (unterminated rest) = [] := by
  apply trim_eq_nil_iff.mpr
  intro c hc
  exact h c (mem_of_mem_unterminated hc)

theorem ending_ne_of_updateFile (hmode : p.mode = .updateFile n)
    (hrest : ∀ c ∈ rest, isWhiteSpace c = true)
    : ending p rest ≠ .ok (hunks, q) := by
  intro h
  rw [ending, bind_eq_ok] at h
  have ⟨mid, hlines, hfinish⟩ := h
  have hmid : mid.mode = .updateFile n := by
    apply inv_of_foldlM_ok (fun p => p.mode = .updateFile n) _ hmode hlines
    intro s line s' hline hs hread
    have ⟨raw, hraw, hchop⟩ := mem_map.mp hline
    apply mode_of_readLine_blank hs _ hread
    intro c hc
    rw [← hchop] at hc
    exact hrest c (mem_of_mem_terminated hraw (mem_of_mem_chopCr hc))
  have ⟨hline, hended, _⟩ := finish_eq_ok_iff.mp hfinish
  have hne : ¬trim (unterminated rest) = endPatchMarker := by
    rw [trim_unterminated_eq_nil hrest]
    decide
  unfold finishLine at hline
  split at hline
  . cases hline
    rw [hmid] at hended
    cases hended
  . have := mode_of_readLine_blank hmid (fun c hc => hrest c (mem_of_mem_unterminated hc)) hline
    rw [this] at hended
    cases hended

end Endings

section Agreement

variable {patch : Str} {args : ApplyPatchArgs}

def hunkLines (patch : Str) : List Str := (lines (trim patch)).tail.dropLast

def closingLine (patch : Str) : Str := (lines (trim patch)).getLastD []

def HeredocWrapped (patch : Str) : Prop :=
  ∃ first ∈ (lines (trim patch)).head?, first ∈ heredocMarkers

instance (patch : Str) : Decidable (HeredocWrapped patch) :=
  inferInstanceAs (Decidable (∃ first ∈ (lines (trim patch)).head?, first ∈ heredocMarkers))

def Streamable (patch : Str) : Prop :=
  '\n' ∉ leading isWhiteSpace patch
    ∧ ∃ place ∈ Place.outside.walk (hunkLines patch),
        place.inUpdate = true → '\n' ∈ trailing isWhiteSpace patch →
          closingLine patch = endPatchMarker

instance (patch : Str) : Decidable (Streamable patch) := by
  unfold Streamable
  infer_instance

theorem checkPatchBoundariesStrict_of_lenient {lines patchLines hunkLines : List Str}
    (h : checkPatchBoundariesLenient lines = .ok (patchLines, hunkLines))
    (hplain : ∀ first, lines.head? = some first → first ∉ heredocMarkers)
    : checkPatchBoundariesStrict lines = .ok (patchLines, hunkLines) := by
  unfold checkPatchBoundariesLenient at h
  split at h
  . next hstrict =>
    rw [hstrict]
    exact h
  . split at h
    . next first _ hfirst _ =>
      rw [if_neg (fun h => hplain first hfirst h.1)] at h
      cases h
    . cases h

theorem lines_of_parsePatch (hparse : parsePatch patch = .ok args) (hplain : ¬HeredocWrapped patch)
    : ∃ first, lines (trim patch) = first :: (hunkLines patch ++ [closingLine patch])
      ∧ trim first = beginPatchMarker ∧ trim (closingLine patch) = endPatchMarker
      ∧ parseHunks [] 2 (hunkLines patch) = .ok args.hunks := by
  have hlenient : parsePatchText patch .lenient = .ok args := hparse
  unfold parsePatchText at hlenient
  rw [bind_eq_ok] at hlenient
  have ⟨(patchLines, between), hcheck, hhunks⟩ := hlenient
  rw [bind_eq_ok] at hhunks
  have ⟨hunks, hhunks, hargs⟩ := hhunks
  have hstrict := checkPatchBoundariesStrict_of_lenient hcheck
    (fun first hfirst hmem => hplain ⟨first, hfirst, hmem⟩)
  have ⟨_, first, last, hlines, hbegin, hend⟩ := checkPatchBoundariesStrict_eq_ok_iff.mp hstrict
  have hbetween : hunkLines patch = between := by simp [hunkLines, hlines]
  have hclosing : closingLine patch = last := by
    rw [closingLine, hlines, ← cons_append, getLastD_eq_getLast?, getLast?_concat]
    rfl
  rw [hbetween, hclosing]
  rw [pure_eq_ok] at hargs
  rw [← hargs]
  exact ⟨first, hlines, hbegin, hend, hhunks⟩

variable {first : Str}

theorem text_of_lines (hlines : lines (trim patch) = first :: (hunkLines patch ++ [closingLine patch]))
    : ∃ raw raws, trim patch = unlines (raw :: raws) ++ closingLine patch
      ∧ (∀ line ∈ raw :: raws, '\n' ∉ line) ∧ '\n' ∉ closingLine patch
      ∧ chopCr raw = first ∧ raws.map chopCr = hunkLines patch := by
  have hne : unterminated (trim patch) ≠ [] := by
    intro hnil
    have hnonempty : trim patch ≠ [] := by
      intro htrim
      rw [htrim] at hlines
      cases hlines
    have hlast := getLast?_of_unterminated_eq_nil hnil hnonempty
    have := blank_getLast?_trim hlast
    contradiction
  have hsplit := hlines
  rw [lines, if_neg hne, ← cons_append] at hsplit
  have ⟨hterminated, hclosing⟩ := append_inj' hsplit rfl
  cases hraws : terminated (trim patch) with
  | nil =>
    rw [hraws] at hterminated
    cases hterminated
  | cons raw raws =>
    rw [hraws, map_cons, cons.injEq] at hterminated
    rw [cons.injEq] at hclosing
    refine ⟨raw, raws, ?_, ?_, ?_, hterminated⟩
    . rw [← hclosing.1, ← hraws, unlines_terminated]
    . intro line hline
      rw [← hraws] at hline
      exact not_mem_of_mem_terminated _ hline
    . rw [← hclosing.1]
      exact not_mem_unterminated _

theorem readLine_beginPatch {line : Str} (h : trim line = beginPatchMarker)
    : start.readLine line = .ok ⟨[], .startedPatch, [], 1⟩ := by
  exact if_pos h

variable {deltas : List Str} {place : Place} {blanks : Str}

theorem streamPatch_eq_ending (hdeltas : deltas.flatten = patch)
    (hlines : lines (trim patch) = first :: (hunkLines patch ++ [closingLine patch]))
    (hbegin : trim first = beginPatchMarker) (hstart : '\n' ∉ leading isWhiteSpace patch)
    : streamPatch deltas = (do
      let p ← (hunkLines patch).foldlM readLine ⟨[], .startedPatch, [], 1⟩
      return (← ending p (closingLine patch ++ trailing isWhiteSpace patch)).1) := by
  have ⟨raw, raws, htrim, hraws, hclosing, hraw, hhunks⟩ := text_of_lines hlines
  rw [forall_mem_cons] at hraws
  have hpatch : patch = unlines ((leading isWhiteSpace patch ++ raw) :: raws)
      ++ (closingLine patch ++ trailing isWhiteSpace patch) := by
    have hself : leading isWhiteSpace patch
        ++ (trim patch ++ trailing isWhiteSpace patch) = patch :=
      leading_append_trim_append_trailing
    rw [htrim, append_assoc, unlines_cons] at hself
    rw [unlines_cons, append_assoc]
    exact hself.symm
  have hbreaks : ∀ line ∈ (leading isWhiteSpace patch ++ raw) :: raws, '\n' ∉ line := by
    rw [forall_mem_cons]
    refine ⟨?_, hraws.2⟩
    simp [hstart, hraws.1]
  have hterminated := congrArg terminated hpatch
  rw [terminated_unlines_append hbreaks] at hterminated
  have hunterminated := congrArg unterminated hpatch
  rw [unterminated_unlines_append] at hunterminated
  have hfirst : trim (chopCr (leading isWhiteSpace patch ++ raw)) = beginPatchMarker := by
    rw [← hbegin, ← hraw]
    unfold trim
    rw [trim_chopCr rfl, trim_chopCr rfl, trim_blank_append]
    intro c hc
    exact blank_of_mem_leading hc
  rw [streamPatch_eq, hdeltas, hterminated, hunterminated, map_append, map_cons, hhunks,
    cons_append, foldlM_cons_of_ok (readLine_beginPatch hfirst), foldlM_append]
  simp only [bind_assoc, ending]

theorem trimEnd_closingLine
    (hlines : lines (trim patch) = first :: (hunkLines patch ++ [closingLine patch]))
    : trimEnd (closingLine patch) = closingLine patch := by
  have ⟨raw, raws, htrim, _⟩ := text_of_lines hlines
  apply trimEnd_eq_self_iff.mpr
  intro c hc
  apply blank_getLast?_trim (s := patch)
  have hself : (trim patch).getLast? = some c := by
    rw [htrim, getLast?_append, hc]
    rfl
  exact hself

theorem text_closingLine (hblanks : ∀ c ∈ blanks, isWhiteSpace c = true)
    (hend : trim (closingLine patch) = endPatchMarker)
    (hindent : place.inUpdate = true → closingLine patch = endPatchMarker)
    : place.text (chopCr (closingLine patch ++ blanks)) = endPatchMarker := by
  rw [Place.text]
  split
  . next hupdate =>
    have htrim : trimEnd (chopCr (endPatchMarker ++ blanks)) = trimEnd endPatchMarker := by
      unfold trimEnd
      rw [trimEnd_chopCr rfl, trimEnd_append_blank hblanks]
    rw [hindent hupdate, htrim]
    decide
  . rw [← hend]
    unfold trim
    rw [trim_chopCr rfl, trim_append_blank hblanks]

theorem openHunk_indented (hblanks : ∀ c ∈ blanks, isWhiteSpace c = true)
    (hlines : lines (trim patch) = first :: (hunkLines patch ++ [closingLine patch]))
    (hend : trim (closingLine patch) = endPatchMarker) (hindent : closingLine patch ≠ endPatchMarker)
    : openHunk (trimEnd (chopCr (closingLine patch ++ blanks))) = none
      ∧ trimEnd (chopCr (closingLine patch ++ blanks)) ≠ endPatchMarker := by
  have htrim : trimEnd (chopCr (closingLine patch ++ blanks)) = closingLine patch := by
    have hself := trimEnd_closingLine hlines
    unfold trimEnd at hself ⊢
    rw [trimEnd_chopCr rfl, trimEnd_append_blank hblanks, hself]
  rw [htrim]
  refine ⟨openHunk_of_head?_ne ?_, hindent⟩
  intro hstar
  rw [trim_eq_trimEnd hstar rfl, trimEnd_closingLine hlines] at hend
  contradiction

theorem not_ok_of_leading_newline (hdeltas : deltas.flatten = patch)
    (h : '\n' ∈ leading isWhiteSpace patch) (hunks : List Hunk)
    : streamPatch deltas ≠ .ok hunks := by
  have ⟨a, b, hab, ha⟩ := eq_append_cons_of_mem h
  have hself : leading isWhiteSpace patch
      ++ (trim patch ++ trailing isWhiteSpace patch) = patch :=
    leading_append_trim_append_trailing
  have hblank : trim (chopCr a) = [] := by
    unfold trim
    rw [trim_chopCr rfl, trim_eq_nil_iff]
    intro c hc
    apply blank_of_mem_leading (s := patch)
    rw [hab]
    simp [hc]
  have hterminated := congrArg terminated hself
  rw [hab, append_assoc, cons_append, terminated_append_newline,
    terminated_of_not_mem ha, unterminated_of_not_mem ha, nil_append] at hterminated
  intro hok
  rw [streamPatch_eq, hdeltas, ← hterminated, map_cons, bind_eq_ok] at hok
  have ⟨_, hrun, _⟩ := hok
  have ⟨_, hline, _⟩ := foldlM_cons_eq_ok hrun
  have hne : ¬trim (chopCr a) = beginPatchMarker := by
    rw [hblank]
    decide
  have herror : start.readLine (chopCr a) = .error .badFirstLine := if_neg hne
  rw [herror] at hline
  cases hline

theorem exists_ending_closingLine_iff {p : StreamingPatchParser} {hunks : List Hunk}
    (hlines : lines (trim patch) = first :: (hunkLines patch ++ [closingLine patch]))
    (hend : trim (closingLine patch) = endPatchMarker) (hmode : place.ModeAt p.mode)
    : (∃ q, ending p (closingLine patch ++ trailing isWhiteSpace patch) = .ok (hunks, q))
      ↔ Closes p hunks ∧ (place.inUpdate = true → '\n' ∈ trailing isWhiteSpace patch →
          closingLine patch = endPatchMarker) := by
  have hblank (c : Char) (hc : c ∈ trailing isWhiteSpace patch) := blank_of_mem_trailing hc
  obtain ⟨_, _, _, _, hclosing, _⟩ := text_of_lines hlines
  by_cases hnewline : '\n' ∈ trailing isWhiteSpace patch
  . obtain ⟨u, v, huv, hu⟩ := eq_append_cons_of_mem hnewline
    rw [huv] at hblank
    simp only [mem_append, mem_cons] at hblank
    have hublank (c : Char) (hc : c ∈ u) := hblank c (.inl hc)
    have hvblank (c : Char) (hc : c ∈ v) := hblank c (.inr (.inr hc))
    have hfirst : '\n' ∉ closingLine patch ++ u := by simp [hclosing, hu]
    simp only [hnewline, true_imp_iff]
    rw [huv, ← append_assoc]
    by_cases hindent : place.inUpdate = true → closingLine patch = endPatchMarker
    . rw [exists_ending_newline_iff hfirst hmode (text_closingLine hublank hend hindent)
        (trim_unterminated_eq_nil hvblank), and_iff_left hindent]
    . refine iff_of_false ?_ (fun h => hindent h.2)
      rw [Classical.not_imp] at hindent
      rintro ⟨q, h⟩
      obtain ⟨hopen, hne⟩ := openHunk_indented hublank hlines hend hindent.2
      obtain ⟨n, hmode⟩ := hmode.updateFile hindent.1
      rw [ending_eq_of_newline hfirst, bind_eq_ok] at h
      obtain ⟨mid, hline, hrest⟩ := h
      have hmid := mode_of_readLine hmode hopen hne hline
      exact ending_ne_of_updateFile hmid hvblank hrest
  . rw [exists_ending_iff, and_iff_left fun _ h => (hnewline h).elim]
    . simp [hclosing, hnewline]
    . rw [← hend]
      exact trim_append_blank hblank

theorem Ready.isFinal (h : Ready place []) : place.isFinal := by
  rcases h with h | h | ⟨h, _⟩
  . exact .inl h
  . exact .inr (.inl h)
  . exact .inr (.inr h)

theorem streamPatch_eq_ok_iff (patch : Str) (args : ApplyPatchArgs) (deltas : List Str)
    (hparse : parsePatch patch = .ok args) (hplain : ¬HeredocWrapped patch)
    (hdeltas : deltas.flatten = patch)
    : streamPatch deltas = .ok args.hunks ↔ Streamable patch := by
  have ⟨first, hlines, hbegin, hend, hhunks⟩ := lines_of_parsePatch hparse hplain
  have houtside : Ready .outside (hunkLines patch) := .inl rfl
  have ⟨place, hlayout, hready⟩ := layout_of_parseHunks houtside hhunks
  have hsolid : Place.outside.Solid [] := by
    intro path movePath chunks
    simp
  have htracks : Tracks ⟨[], .startedPatch, [], 1⟩ .outside := ⟨.inl rfl, trivial⟩
  by_cases hstart : '\n' ∈ leading isWhiteSpace patch
  . constructor
    . intro hok
      exact (not_ok_of_leading_newline hdeltas hstart _ hok).elim
    . intro h
      exact (h.1 hstart).elim
  . rw [streamPatch_eq_ending hdeltas hlines hbegin hstart]
    constructor
    . intro hok
      simp only [bind_eq_ok, pure_eq_ok] at hok
      have ⟨p, hrun, (hunks, q), hending, hargs⟩ := hok
      have ⟨htracks', hweight⟩ := hlayout.weight_of_run hsolid htracks hrun
      obtain ⟨⟨_, hsame⟩, hindent⟩ :=
        (exists_ending_closingLine_iff hlines hend htracks'.mode).mp ⟨q, hending⟩
      refine ⟨hstart, ?_⟩
      cases hwalk : Place.outside.walk (hunkLines patch) with
      | none =>
        rw [hwalk, ← hargs, hsame, Option.isNone_none, if_pos rfl] at hweight
        dsimp only at hweight
        omega
      | some last =>
        have ⟨hlast, _⟩ := hlayout.run_of_walk hwalk hsolid htracks rfl
        rw [hlast]
        exact ⟨place, rfl, hindent⟩
    . rintro ⟨_, last, hwalk, hindent⟩
      have ⟨hlast, p, hrun, hhunks', htracks'⟩ := hlayout.run_of_walk hwalk hsolid htracks rfl
      rw [hlast] at hindent
      have hsolid' : place.Solid p.takeLine.hunks := by
        rw [takeLine, hhunks']
        exact hlayout.solid hsolid
      have hensure : p.takeLine.ensureUpdateHunkIsNotEmpty endPatchMarker = .ok () :=
        hsolid'.ensure hready.isFinal
      obtain ⟨q, hq⟩ :=
        (exists_ending_closingLine_iff hlines hend htracks'.mode).mpr ⟨⟨hensure, hhunks'.symm⟩, hindent⟩
      simp only [bind_eq_ok, pure_eq_ok]
      exact ⟨p, hrun, _, hq, rfl⟩

theorem streamPatch_eq_ok_iff_cut
    : streamPatch ["  *** Begin Patch \n*** Update File: a  \n@@ f\n x\n\n".toList,
        " \n-y\n*** End of File\n*** Delete File: b\n *** End".toList, " Patch \n\n".toList]
      = .ok [.updateFile "a".toList none [⟨some "f".toList, ["x".toList, [], [], "y".toList],
          ["x".toList, [], []], true⟩], .deleteFile "b".toList] :=
  (streamPatch_eq_ok_iff
    ("  *** Begin Patch \n*** Update File: a  \n@@ f\n x\n\n \n-y\n*** End of File\n"
      ++ "*** Delete File: b\n *** End Patch \n\n").toList
    ⟨[.updateFile "a".toList none [⟨some "f".toList, ["x".toList, [], [], "y".toList],
        ["x".toList, [], []], true⟩], .deleteFile "b".toList],
      ("*** Begin Patch \n*** Update File: a  \n@@ f\n x\n\n \n-y\n*** End of File\n"
        ++ "*** Delete File: b\n *** End Patch").toList, none⟩
    _ (by decide +kernel) (by decide +kernel) (by decide +kernel)).mpr (by decide +kernel)

theorem not_streamPatch_blankLine
    : ¬HeredocWrapped "*** Begin Patch\n*** Update File: a\n\n@@\n-x\n+y\n*** End Patch\n".toList
      ∧ (parsePatch "*** Begin Patch\n*** Update File: a\n\n@@\n-x\n+y\n*** End Patch\n".toList).map
          (·.hunks) = .ok [.updateFile "a".toList none [⟨none, ["x".toList], ["y".toList], false⟩]]
      ∧ streamPatch ["*** Begin Patch\n*** Update File: a\n\n@@\n-x\n+y\n*** End Patch\n".toList]
          = .ok [.updateFile "a".toList none
              [⟨none, [[]], [[]], false⟩, ⟨none, ["x".toList], ["y".toList], false⟩]]
      ∧ streamPatch ["*** Begin Patch\n*** Update File: a\n\n@@\n-x\n+y\n*** End Patch\n".toList]
          ≠ (parsePatch "*** Begin Patch\n*** Update File: a\n\n@@\n-x\n+y\n*** End Patch\n".toList).map
              (·.hunks) := by
  decide +kernel

end Agreement

end Codex.ApplyPatch
