import Mathlib

/-!
This module contains the normalisation of a history: every call gets an output, and outputs without
a call go.
-/

namespace Codex.History

open List

-- `D` stands for the data that the passes only move.
inductive FunctionCallOutputBody (D : Type) where
  | text (s : String)
  | contentItems (items : List D)

structure FunctionCallOutputPayload (D : Type) where
  body : FunctionCallOutputBody D
  success : Option Bool

def FunctionCallOutputPayload.fromText {D : Type} (content : String) : FunctionCallOutputPayload D :=
  ⟨.text content, none⟩

inductive ResponseItem (D : Type) where
  | localShellCall (callId : Option String) (rest : D)
  | functionCall (callId : String) (rest : D)
  | toolSearchCall (callId : Option String) (execution : String) (rest : D)
  | functionCallOutput (callId : String) (output : FunctionCallOutputPayload D)
  | customToolCall (callId : String) (rest : D)
  | customToolCallOutput (callId : String) (name : Option String)
    (output : FunctionCallOutputPayload D)
  | toolSearchOutput (callId : Option String) (status execution : String) (tools : List D)
  -- A message, reasoning, a web search, a generated image, a compaction, or another item.
  | other (rest : D)

inductive OutputKind where
  | function
  | custom
  | toolSearch
  deriving DecidableEq, Repr

variable {D : Type}

namespace ResponseItem

def output? (item : ResponseItem D) : Option (OutputKind × String) :=
  match item with
  | .functionCallOutput callId _ => some (.function, callId)
  | .customToolCallOutput callId _ _ => some (.custom, callId)
  | .toolSearchOutput (some callId) _ _ _ => some (.toolSearch, callId)
  | _ => none

def call? (item : ResponseItem D) : Option (OutputKind × String) :=
  match item with
  | .functionCall callId _ => some (.function, callId)
  | .localShellCall (some callId) _ => some (.function, callId)
  | .customToolCall callId _ => some (.custom, callId)
  | .toolSearchCall (some callId) _ _ => some (.toolSearch, callId)
  | _ => none

end ResponseItem

variable (items : List (ResponseItem D)) (kind : OutputKind) (callId : String)

def hasOutput : Bool :=
  items.any fun item => item.output? = some (kind, callId)

variable (item : ResponseItem D)

def missingOutput : Option (ResponseItem D) :=
  match item with
  | .functionCall callId _ =>
    if hasOutput items .function callId then none
    else some (.functionCallOutput callId (.fromText "aborted"))
  | .toolSearchCall (some callId) _ _ =>
    if hasOutput items .toolSearch callId then none
    else some (.toolSearchOutput (some callId) "completed" "client" [])
  | .customToolCall callId _ =>
    if hasOutput items .custom callId then none
    else some (.customToolCallOutput callId none (.fromText "aborted"))
  | .localShellCall (some callId) _ =>
    if hasOutput items .function callId then none
    else some (.functionCallOutput callId (.fromText "aborted"))
  | _ => none

def missingOutputsToInsert : List (Nat × ResponseItem D) :=
  items.zipIdx.filterMap fun (item, idx) => (missingOutput items item).map (idx, ·)

def ensureCallOutputsPresent : List (ResponseItem D) :=
  (missingOutputsToInsert items).reverse.foldl
    (fun items (idx, outputItem) => items.insertIdx (idx + 1) outputItem) items

def functionCallIds : List String :=
  items.filterMap fun
    | .functionCall callId _ => some callId
    | _ => none

def toolSearchCallIds : List String :=
  items.filterMap fun
    | .toolSearchCall callId _ _ => callId
    | _ => none

def localShellCallIds : List String :=
  items.filterMap fun
    | .localShellCall callId _ => callId
    | _ => none

def customToolCallIds : List String :=
  items.filterMap fun
    | .customToolCall callId _ => some callId
    | _ => none

def retains : Bool :=
  match item with
  | .functionCallOutput callId _ =>
    callId ∈ functionCallIds items || callId ∈ localShellCallIds items
  | .customToolCallOutput callId _ _ => callId ∈ customToolCallIds items
  | .toolSearchOutput callId _ execution _ =>
    if execution = "server" then true
    else
      match callId with
      | some callId => callId ∈ toolSearchCallIds items
      | none => true
  | _ => true

def removeOrphanOutputs : List (ResponseItem D) :=
  items.filter (retains items)

/-!
The insertions from the last to the first one put every output right after its call.
-/

theorem insertIdx_append {α : Type} (init rest : List α) (a : α) (hn : n = init.length)
    : (init ++ rest).insertIdx n a = init ++ a :: rest := by
  subst hn
  induction init with
  | nil => simp
  | cons b init ih => simp [ih]

theorem foldr_insertIdx_eq_flatMap {α : Type} (f : α → Option α) (init items : List α)
    : ((items.zipIdx init.length).filterMap fun p => (f p.1).map (p.2, ·)).foldr
      (fun p items => items.insertIdx (p.1 + 1) p.2) (init ++ items) =
        init ++ items.flatMap fun item => item :: (f item).toList := by
  induction items generalizing init with
  | nil => simp
  | cons item items ih =>
    have ih := ih (init ++ [item])
    rw [length_append, length_singleton, List.append_assoc, singleton_append] at ih
    rw [zipIdx_cons, filterMap_cons]
    cases hf : f item with
    | none => simp [ih, hf]
    | some output =>
      simp only [Option.map_some, foldr_cons, ih]
      rw [insertIdx_append _ _ _ (by simp)]
      simp [hf]

theorem ensureCallOutputsPresent_eq_flatMap
    : ensureCallOutputsPresent items =
      items.flatMap fun item => item :: (missingOutput items item).toList := by
  unfold ensureCallOutputsPresent
  rw [foldl_reverse]
  exact foldr_insertIdx_eq_flatMap (missingOutput items) [] items

def synthetic : ResponseItem D :=
  match kind with
  | .function => .functionCallOutput callId (.fromText "aborted")
  | .custom => .customToolCallOutput callId none (.fromText "aborted")
  | .toolSearch => .toolSearchOutput (some callId) "completed" "client" []

def ResponseItem.checkedOutput? : Option (OutputKind × String) :=
  match item with
  | .functionCallOutput callId _ => some (.function, callId)
  | .customToolCallOutput callId _ _ => some (.custom, callId)
  | .toolSearchOutput (some callId) _ execution _ =>
    if execution = "server" then none else some (.toolSearch, callId)
  | _ => none

def HasCall (call : OutputKind × String) : Prop :=
  ∃ item ∈ items, item.call? = some call

theorem missingOutput_eq
    : missingOutput items item =
      item.call?.bind fun (kind, callId) =>
        if hasOutput items kind callId then none else some (synthetic kind callId) := by
  cases item with
  | localShellCall callId rest | toolSearchCall callId execution rest => cases callId <;> rfl
  | _ => rfl

def callIds : List String :=
  match kind with
  | .function => functionCallIds items ++ localShellCallIds items
  | .custom => customToolCallIds items
  | .toolSearch => toolSearchCallIds items

variable {items : List (ResponseItem D)} {kind : OutputKind} {callId : String}
  {item output : ResponseItem D} {call : OutputKind × String}

theorem hasCall_iff : HasCall items (kind, callId) ↔ callId ∈ callIds items kind := by
  cases kind
  all_goals
    simp only [HasCall, callIds, functionCallIds, localShellCallIds, customToolCallIds,
      toolSearchCallIds, mem_append, mem_filterMap, ← exists_or, ← and_or_left]
    apply exists_congr
    intro item
    apply and_congr_right
    intro _
    cases item with
    | localShellCall callId rest => cases callId <;> simp [ResponseItem.call?]
    | toolSearchCall callId execution rest => cases callId <;> simp [ResponseItem.call?]
    | _ => simp [ResponseItem.call?]

theorem retains_iff
    : retains items item = true ↔ ∀ call, item.checkedOutput? = some call → HasCall items call := by
  cases item with
  | functionCallOutput callId output | customToolCallOutput callId name output =>
    simp [retains, ResponseItem.checkedOutput?, hasCall_iff, callIds]
  | toolSearchOutput callId status execution tools =>
    cases callId with
    | none => simp [retains, ResponseItem.checkedOutput?]
    | some callId =>
      by_cases hserver : execution = "server" <;>
        simp [retains, ResponseItem.checkedOutput?, hasCall_iff, callIds, hserver]
  | _ => simp [retains, ResponseItem.checkedOutput?]

section

variable (kind : OutputKind) (callId : String)

@[simp]
theorem call?_synthetic : (synthetic kind callId : ResponseItem D).call? = none := by
  cases kind <;> rfl

@[simp]
theorem output?_synthetic : (synthetic kind callId : ResponseItem D).output? = some (kind, callId) := by
  cases kind <;> rfl

@[simp]
theorem checkedOutput?_synthetic
    : (synthetic kind callId : ResponseItem D).checkedOutput? = some (kind, callId) := by
  cases kind <;> rfl

end

theorem output?_of_checkedOutput? (h : item.checkedOutput? = some call) : item.output? = some call := by
  unfold ResponseItem.checkedOutput? at h
  split at h
  . exact h
  . exact h
  . split at h
    . cases h
    . exact h
  . cases h

theorem checkedOutput?_of_output? (h : item.output? = some call)
    (h' : item.checkedOutput? = some call')
    : call' = call := by
  have := output?_of_checkedOutput? h'
  rw [h, Option.some.injEq] at this
  exact this.symm

theorem checkedOutput?_of_call? (h : item.call? = some call) : item.checkedOutput? = none := by
  cases item <;> first | rfl | cases h

theorem missingOutput_eq_some_iff
    : missingOutput items item = some output ↔
      ∃ kind callId, item.call? = some (kind, callId) ∧ hasOutput items kind callId = false ∧
        output = synthetic kind callId := by
  rw [missingOutput_eq, Option.bind_eq_some_iff]
  constructor
  . intro ⟨⟨kind, callId⟩, hcall, hmissing⟩
    dsimp only at hmissing
    split at hmissing
    next => cases hmissing
    next hno =>
      rw [Option.some.injEq] at hmissing
      exact ⟨kind, callId, hcall, by simpa using hno, hmissing.symm⟩
  . intro ⟨kind, callId, hcall, hno, houtput⟩
    exact ⟨(kind, callId), hcall, by simp [hno, houtput]⟩

theorem hasOutput_iff
    : hasOutput items kind callId = true ↔ ∃ item ∈ items, item.output? = some (kind, callId) := by
  simp [hasOutput]

theorem hasCall_ensureCallOutputsPresent
    : HasCall (ensureCallOutputsPresent items) call ↔ HasCall items call := by
  rw [ensureCallOutputsPresent_eq_flatMap]
  constructor
  . intro ⟨item, hmem, hcall⟩
    simp only [mem_flatMap, mem_cons, Option.mem_toList] at hmem
    have ⟨item', hmem', hitem⟩ := hmem
    cases hitem with
    | inl heq =>
      subst heq
      exact ⟨item, hmem', hcall⟩
    | inr hmissing =>
      have ⟨kind, callId, _, _, houtput⟩ := missingOutput_eq_some_iff.mp hmissing
      subst houtput
      simp at hcall
  . intro ⟨item, hmem, hcall⟩
    exact ⟨item, mem_flatMap.mpr ⟨item, hmem, by simp⟩, hcall⟩

theorem retains_ensureCallOutputsPresent (items : List (ResponseItem D)) (item : ResponseItem D)
    : retains (ensureCallOutputsPresent items) item = retains items item := by
  rw [Bool.eq_iff_iff, retains_iff, retains_iff]
  simp only [hasCall_ensureCallOutputsPresent]

theorem retains_of_call? (h : item.call? = some call) : retains items item = true := by
  rw [retains_iff, checkedOutput?_of_call? h]
  simp

theorem retains_of_missingOutput (hmem : item ∈ items) (h : missingOutput items item = some output)
    : retains items output = true := by
  have ⟨kind, callId, hcall, _, houtput⟩ := missingOutput_eq_some_iff.mp h
  rw [retains_iff, houtput]
  intro call hcall'
  rw [checkedOutput?_synthetic, Option.some.injEq] at hcall'
  subst hcall'
  exact ⟨item, hmem, hcall⟩

def normalize (items : List (ResponseItem D)) : List (ResponseItem D) :=
  removeOrphanOutputs (ensureCallOutputsPresent items)

def IsOrphan (items : List (ResponseItem D)) (item : ResponseItem D) : Prop :=
  ∃ call ∈ item.checkedOutput?, ¬HasCall items call

theorem retains_iff_not_isOrphan : retains items item = true ↔ ¬IsOrphan items item := by
  simp [retains_iff, IsOrphan]

instance (items : List (ResponseItem D)) (item : ResponseItem D) : Decidable (IsOrphan items item) :=
  decidable_of_iff (¬retains items item = true) (by simp [retains_iff_not_isOrphan])

section

variable (items : List (ResponseItem D)) (item : ResponseItem D)

def normalized : List (ResponseItem D) :=
  if IsOrphan items item then []
  else
    match item.call? with
    | some (kind, callId) =>
      if hasOutput items kind callId then [item] else [item, synthetic kind callId]
    | none => [item]

theorem normalized_eq
    : normalized items item =
      if retains items item then item :: (missingOutput items item).toList else [] := by
  unfold normalized
  rw [missingOutput_eq]
  by_cases horphan : IsOrphan items item
  . rw [if_pos horphan, if_neg]
    rw [retains_iff_not_isOrphan]
    exact not_not_intro horphan
  . rw [if_neg horphan, if_pos (retains_iff_not_isOrphan.mpr horphan)]
    cases item.call? with
    | none => rfl
    | some call =>
      have ⟨kind, callId⟩ := call
      cases houtput : hasOutput items kind callId <;> simp [houtput]

theorem normalize_eq_flatMap : normalize items = items.flatMap (normalized items) := by
  unfold normalize removeOrphanOutputs
  rw [filter_congr (q := retains items) fun item _ => retains_ensureCallOutputsPresent _ item,
    ensureCallOutputsPresent_eq_flatMap, filter_flatMap]
  apply flatMap_congr
  intro item hmem
  rw [normalized_eq]
  cases hmissing : missingOutput items item with
  | none => cases hretains : retains items item <;> simp [hretains]
  | some output =>
    have ⟨_, _, hcall, _⟩ := missingOutput_eq_some_iff.mp hmissing
    simp [retains_of_call? hcall, retains_of_missingOutput hmem hmissing]

end

theorem mem_normalize_of_mem (hmem : item ∈ items) (h : retains items item = true)
    : item ∈ normalize items := by
  rw [normalize_eq_flatMap, mem_flatMap]
  exact ⟨item, hmem, by simp [normalized_eq, h]⟩

theorem mem_normalize_of_missingOutput (hmem : item ∈ items) (h : missingOutput items item = some output)
    : output ∈ normalize items := by
  have ⟨_, _, hcall, _⟩ := missingOutput_eq_some_iff.mp h
  rw [normalize_eq_flatMap, mem_flatMap]
  exact ⟨item, hmem, by simp [normalized_eq, retains_of_call? hcall, h]⟩

theorem of_mem_normalize (h : item ∈ normalize items)
    : (item ∈ items ∧ retains items item = true) ∨
      ∃ call ∈ items, missingOutput items call = some item := by
  rw [normalize_eq_flatMap, mem_flatMap] at h
  have ⟨item', hmem, hitem⟩ := h
  rw [normalized_eq] at hitem
  split at hitem
  next hretains =>
    rw [mem_cons, Option.mem_toList] at hitem
    cases hitem with
    | inl heq =>
      subst heq
      exact .inl ⟨hmem, hretains⟩
    | inr hmissing => exact .inr ⟨item', hmem, hmissing⟩
  next => cases hitem

theorem hasCall_normalize : HasCall (normalize items) call ↔ HasCall items call := by
  constructor
  . intro ⟨item, hmem, hcall⟩
    cases of_mem_normalize hmem with
    | inl h => exact ⟨item, h.1, hcall⟩
    | inr h =>
      have ⟨_, _, hmissing⟩ := h
      have ⟨_, _, _, _, houtput⟩ := missingOutput_eq_some_iff.mp hmissing
      rw [houtput, call?_synthetic] at hcall
      cases hcall
  . intro ⟨item, hmem, hcall⟩
    exact ⟨item, mem_normalize_of_mem hmem (retains_of_call? hcall), hcall⟩

theorem hasOutput_normalize (h : HasCall items (kind, callId))
    : hasOutput (normalize items) kind callId = true := by
  have ⟨item, hmem, hcall⟩ := h
  rw [hasOutput_iff]
  cases houtput : hasOutput items kind callId with
  | true =>
    have ⟨output, hmem', houtput⟩ := hasOutput_iff.mp houtput
    refine ⟨output, mem_normalize_of_mem hmem' ?_, houtput⟩
    rw [retains_iff]
    intro call hcall'
    rw [checkedOutput?_of_output? houtput hcall']
    exact h
  | false =>
    have hmissing := missingOutput_eq_some_iff.mpr ⟨kind, callId, hcall, houtput, rfl⟩
    exact ⟨_, mem_normalize_of_missingOutput hmem hmissing, output?_synthetic kind callId⟩

theorem hasCall_of_checkedOutput? (hmem : item ∈ normalize items) (h : item.checkedOutput? = some call)
    : HasCall (normalize items) call := by
  rw [hasCall_normalize]
  cases of_mem_normalize hmem with
  | inl hkept => exact retains_iff.mp hkept.2 call h
  | inr hnew =>
    have ⟨_, hmem', hmissing⟩ := hnew
    exact retains_iff.mp (retains_of_missingOutput hmem' hmissing) call h

theorem normalize_eq_self
    (hcalls : ∀ kind callId, HasCall items (kind, callId) → hasOutput items kind callId = true)
    (houtputs : ∀ item ∈ items, ∀ call, item.checkedOutput? = some call → HasCall items call)
    : normalize items = items := by
  rw [normalize_eq_flatMap]
  have hself : ∀ item ∈ items, normalized items item = [item] := by
    intro item hmem
    have hretains := retains_iff.mpr (houtputs item hmem)
    have hmissing : missingOutput items item = none := by
      rw [Option.eq_none_iff_forall_ne_some]
      intro output h
      have ⟨kind, callId, hcall, hno, _⟩ := missingOutput_eq_some_iff.mp h
      rw [hcalls kind callId ⟨item, hmem, hcall⟩] at hno
      cases hno
    simp [normalized_eq, hretains, hmissing]
  rw [flatMap_congr hself]
  simp

theorem normalize_normalize (items : List (ResponseItem D))
    : normalize (normalize items) = normalize items := by
  apply normalize_eq_self
  . intro kind callId h
    exact hasOutput_normalize (hasCall_normalize.mp h)
  . intro item hmem call h
    exact hasCall_of_checkedOutput? hmem h

theorem normalize_sound (items : List (ResponseItem D))
    : (∀ kind callId, HasCall (normalize items) (kind, callId) →
        ∃ output ∈ normalize items, output.output? = some (kind, callId)) ∧
      (∀ output ∈ normalize items, ∀ call, output.checkedOutput? = some call →
        HasCall (normalize items) call) ∧
      normalize items = items.flatMap (normalized items) ∧
      normalize (normalize items) = normalize items := by
  refine ⟨?_, ?_, normalize_eq_flatMap items, normalize_normalize items⟩
  . intro kind callId h
    exact hasOutput_iff.mp (hasOutput_normalize (hasCall_normalize.mp h))
  . intro output hmem call h
    exact hasCall_of_checkedOutput? hmem h

end Codex.History
