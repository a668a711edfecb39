import AppSuite.ClawCode.Session

/-!
This module contains when a tool result follows on its tool use, and for which boundaries a
compacted session has that property.
-/

namespace ClawCode

open List

namespace ConversationMessage

variable (message : ConversationMessage)

def leadingResult? : Option Str :=
  match message.blocks with
  | .toolResult toolUseId _ _ _ :: _ => some toolUseId
  | _ => none

def usesTool (id : Str) : Bool :=
  message.blocks.any fun block =>
    match block with
    | .toolUse id' _ _ => id' = id
    | _ => false

theorem startsWithToolResult_eq : message.startsWithToolResult = message.leadingResult?.isSome := by
  unfold startsWithToolResult leadingResult?
  cases message.blocks with
  | nil => rfl
  | cons block blocks => cases block <;> rfl

end ConversationMessage

def PairedFrom (partner : Option ConversationMessage) (messages : List ConversationMessage) : Prop :=
  match messages with
  | [] => True
  | message :: messages =>
    match message.leadingResult? with
    | some id => partner.any (·.usesTool id) = true ∧ PairedFrom partner messages
    | none => PairedFrom (some message) messages

def Paired (messages : List ConversationMessage) : Prop := PairedFrom none messages

def PairedFrom.decidable (partner : Option ConversationMessage) (messages : List ConversationMessage)
    : Decidable (PairedFrom partner messages) :=
  match messages with
  | [] => .isTrue trivial
  | message :: messages =>
    match h : message.leadingResult? with
    | some id =>
      have := decidable partner messages
      decidable_of_iff (partner.any (·.usesTool id) = true ∧ PairedFrom partner messages)
        (by rw [PairedFrom, h])
    | none =>
      have := decidable (some message) messages
      decidable_of_iff (PairedFrom (some message) messages) (by rw [PairedFrom, h])

instance : DecidablePred Paired := fun messages => PairedFrom.decidable none messages

def partnerAfter (partner : Option ConversationMessage) (messages : List ConversationMessage)
    : Option ConversationMessage :=
  messages.foldl (fun partner message =>
    if message.startsWithToolResult then partner else some message) partner

section

variable {partner other : Option ConversationMessage} {messages : List ConversationMessage}
  {message : ConversationMessage}

theorem pairedFrom_cons_result (h : message.startsWithToolResult = true)
    : PairedFrom partner (message :: messages)
      ↔ (∃ id, message.leadingResult? = some id ∧ partner.any (·.usesTool id) = true)
        ∧ PairedFrom partner messages := by
  rw [ConversationMessage.startsWithToolResult_eq] at h
  have ⟨id, hid⟩ := Option.isSome_iff_exists.mp h
  rw [PairedFrom, hid]
  simp

theorem pairedFrom_cons_other (h : message.startsWithToolResult = false)
    : PairedFrom partner (message :: messages) ↔ PairedFrom (some message) messages := by
  rw [ConversationMessage.startsWithToolResult_eq, Option.isSome_eq_false_iff,
    Option.isNone_iff_eq_none] at h
  rw [PairedFrom, h]

theorem pairedFrom_append (before : List ConversationMessage)
    : PairedFrom partner (before ++ messages)
      ↔ PairedFrom partner before ∧ PairedFrom (partnerAfter partner before) messages := by
  induction before generalizing partner with
  | nil => simp [PairedFrom, partnerAfter]
  | cons message before ih =>
    rw [cons_append, partnerAfter, foldl_cons, ← partnerAfter]
    cases h : message.startsWithToolResult with
    | true =>
      rw [pairedFrom_cons_result h, pairedFrom_cons_result h, ih, and_assoc]
      rfl
    | false =>
      rw [pairedFrom_cons_other h, pairedFrom_cons_other h, ih]
      rfl

end

variable (messages : List ConversationMessage) (i : Nat)

def resultAt : Bool :=
  messages[i]?.any (·.startsWithToolResult)

def toolUseAt : Bool := messages[i]?.any (·.hasToolUse)

def StrandedResult (start k : Nat) : Prop :=
  ∃ i, start ≤ i ∧ i ≤ k ∧ (∀ j, i ≤ j → j ≤ k → resultAt messages j = true)
    ∧ (∀ j, i < j → j < k → toolUseAt messages j = false)
    ∧ (i = start ∨ (i < k ∧ toolUseAt messages i = true))

section

variable {messages : List ConversationMessage} {start k : Nat}

theorem strandedResult_start : StrandedResult messages start start ↔ resultAt messages start = true := by
  constructor
  . intro ⟨i, hstart, hk, hresult, _⟩
    exact hresult start hk (Nat.le_refl _)
  . intro h
    refine ⟨start, Nat.le_refl _, Nat.le_refl _, ?_, ?_, .inl rfl⟩
    . intro j hle hge
      rw [Nat.le_antisymm hge hle]
      exact h
    . intro j hlt hgt
      omega

theorem not_strandedResult (h : resultAt messages k = false) : ¬StrandedResult messages start k := by
  intro ⟨i, _, hk, hresult, _⟩
  rw [hresult k hk (Nat.le_refl _)] at h
  cases h

theorem strandedResult_succ_of_toolUse (hstart : start ≤ k) (hresult : resultAt messages (k + 1) = true)
    (huse : toolUseAt messages k = true)
    : StrandedResult messages start (k + 1) ↔ resultAt messages k = true := by
  constructor
  . intro ⟨i, hi, hk, hall, _, hstop⟩
    apply hall k _ (by omega)
    omega
  . intro h
    refine ⟨k, hstart, by omega, ?_, ?_, .inr ⟨by omega, huse⟩⟩
    . intro j hle hge
      cases Nat.le_or_eq_of_le_succ hge with
      | inl hge =>
        rw [Nat.le_antisymm hge hle]
        exact h
      | inr heq =>
        rw [heq]
        exact hresult
    . intro j hlt hgt
      omega

theorem strandedResult_succ (hstart : start ≤ k) (hresult : resultAt messages (k + 1) = true)
    (huse : toolUseAt messages k = false)
    : StrandedResult messages start (k + 1) ↔ StrandedResult messages start k := by
  constructor
  . intro ⟨i, hi, hk, hall, hno, hstop⟩
    refine ⟨i, hi, by omega, fun j hle hge => hall j hle (by omega), fun j hlt hgt => hno j hlt (by omega), ?_⟩
    cases hstop with
    | inl heq => exact .inl heq
    | inr hstop =>
      have hne : i ≠ k := by
        intro heq
        rw [heq, huse] at hstop
        cases hstop.2
      exact .inr ⟨by omega, hstop.2⟩
  . intro ⟨i, hi, hk, hall, hno, hstop⟩
    refine ⟨i, hi, by omega, ?_, ?_, ?_⟩
    . intro j hle hge
      cases Nat.le_or_eq_of_le_succ hge with
      | inl hge => exact hall j hle hge
      | inr heq =>
        rw [heq]
        exact hresult
    . intro j hlt hgt
      cases Nat.lt_or_eq_of_le (Nat.le_of_lt_succ hgt) with
      | inl hgt => exact hno j hlt hgt
      | inr heq =>
        rw [heq]
        exact huse
    . exact hstop.imp id fun h => ⟨by omega, h.2⟩

theorem walkBack_spec (messages : List ConversationMessage) (start k : Nat) (hstart : start ≤ k)
    (hk : k < messages.length)
    : ∃ keepFrom, walkBack messages start k = some keepFrom ∧ start ≤ keepFrom ∧ keepFrom ≤ k
      ∧ (resultAt messages keepFrom = true ↔ StrandedResult messages start k) := by
  induction k with
  | zero =>
    have hzero : start = 0 := by omega
    subst hzero
    exact ⟨0, rfl, Nat.le_refl _, Nat.le_refl _, strandedResult_start.symm⟩
  | succ k ih =>
    rw [walkBack]
    split
    . next hle =>
      have heq : start = k + 1 := by omega
      subst heq
      exact ⟨k + 1, rfl, Nat.le_refl _, Nat.le_refl _, strandedResult_start.symm⟩
    . next hlt =>
      have hresult : resultAt messages (k + 1) = messages[k + 1].startsWithToolResult := by
        simp [resultAt, hk]
      have huse : toolUseAt messages k = messages[k].hasToolUse := by
        simp [toolUseAt, Nat.lt_of_succ_lt hk]
      rw [getElem?_eq_getElem hk, getElem?_eq_getElem (Nat.lt_of_succ_lt hk)]
      dsimp only
      split
      . next hfirst =>
        rw [← hresult] at hfirst
        split
        . next hpreceding =>
          rw [← huse] at hpreceding
          exact ⟨k, rfl, by omega, by omega,
            (strandedResult_succ_of_toolUse (by omega) hfirst hpreceding).symm⟩
        . next hpreceding =>
          rw [← huse, Bool.not_eq_true] at hpreceding
          have ⟨keepFrom, hwalk, hge, hle, hiff⟩ := ih (by omega) (by omega)
          exact ⟨keepFrom, hwalk, hge, by omega,
            hiff.trans (strandedResult_succ (by omega) hfirst hpreceding).symm⟩
      . next hfirst =>
        rw [← hresult, Bool.not_eq_true] at hfirst
        refine ⟨k + 1, rfl, hstart, Nat.le_refl _, ?_⟩
        rw [hfirst]
        simp [not_strandedResult hfirst]

theorem paired_summary_iff (summary : ConversationMessage) (hpaired : Paired messages)
    (hresult : summary.startsWithToolResult = false) (huse : ∀ id, summary.usesTool id = false)
    (hk : k < messages.length)
    : Paired (summary :: messages.drop k) ↔ resultAt messages k = false := by
  have hsplit := drop_eq_getElem_cons hk
  have hat : resultAt messages k = messages[k].startsWithToolResult := by simp [resultAt, hk]
  unfold Paired
  rw [pairedFrom_cons_other hresult, hsplit, hat]
  cases hfirst : messages[k].startsWithToolResult with
  | true =>
    rw [pairedFrom_cons_result hfirst]
    simp [huse]
  | false =>
    unfold Paired at hpaired
    rw [← take_append_drop k messages, pairedFrom_append, hsplit, pairedFrom_cons_other hfirst]
      at hpaired
    rw [pairedFrom_cons_other hfirst]
    simp [hpaired.2]

end

section

variable (writer : SummaryWriter) (now : UInt64) (session : Session) (config : CompactionConfig)

def KeepsPairs : Prop :=
  ∃ result, compactSession writer now session config = some result
    ∧ (result.compactedSession = session
      ∨ ∃ summary kept, result.compactedSession.messages = summary :: kept
          ∧ summary.role = .system ∧ kept <:+ session.messages
          ∧ session.messages.drop (session.messages.length - config.preserveRecentMessages) <:+ kept
          ∧ Paired result.compactedSession.messages
          ∧ result.removedMessageCount + kept.length + compactedSummaryPrefixLen session.messages
              = session.messages.length)

variable {session config}

theorem compactSession_of_not_shouldCompact (h : shouldCompact session config = false)
    : compactSession writer now session config = some ⟨[], [], session, 0⟩ := by
  rw [compactSession, h]
  rfl

theorem length_of_shouldCompact (h : shouldCompact session config = true)
    : compactedSummaryPrefixLen session.messages + config.preserveRecentMessages
      < session.messages.length := by
  unfold shouldCompact at h
  simp only [length_drop, decide_eq_true_eq] at h
  omega

theorem compaction_recordCompaction_ne (session : Session) (summary : Str) (removed : Nat)
    : (session.recordCompaction now summary removed).compaction ≠ session.compaction := by
  unfold Session.recordCompaction Session.touch
  cases session.compaction with
  | none => simp
  | some compaction =>
    intro h
    simp only [Option.some.injEq] at h
    have hcount := congrArg SessionCompaction.count h
    simp at hcount

theorem compactSession_of_shouldCompact (h : shouldCompact session config = true)
    (hpreserve : 1 ≤ config.preserveRecentMessages)
    : ∃ result keepFrom summary, compactSession writer now session config = some result
      ∧ result.compactedSession.compaction ≠ session.compaction
      ∧ result.compactedSession.messages
          = ⟨.system, [.text summary], none⟩ :: session.messages.drop keepFrom
      ∧ compactedSummaryPrefixLen session.messages ≤ keepFrom
      ∧ keepFrom ≤ session.messages.length - config.preserveRecentMessages
      ∧ result.removedMessageCount = keepFrom - compactedSummaryPrefixLen session.messages
      ∧ (resultAt session.messages keepFrom = true
          ↔ StrandedResult session.messages (compactedSummaryPrefixLen session.messages)
              (session.messages.length - config.preserveRecentMessages)) := by
  have hlen := length_of_shouldCompact h
  have ⟨keepFrom, hwalk, hge, hle, hiff⟩ :=
    walkBack_spec session.messages (compactedSummaryPrefixLen session.messages)
      (session.messages.length - config.preserveRecentMessages) (by omega) (by omega)
  rw [compactSession, h]
  dsimp only
  rw [hwalk]
  refine ⟨_, keepFrom, _, rfl, ?_, rfl, hge, hle, ?_, hiff⟩
  . exact compaction_recordCompaction_ne now _ _ _
  . simp only [length_drop, length_take]
    omega

theorem rtake_compactSession (recent maxTokens : Nat)
    : ∃ result, compactSession writer now session ⟨recent + 1, maxTokens⟩ = some result
      ∧ result.compactedSession.messages.rtake (recent + 1) = session.messages.rtake (recent + 1) := by
  cases h : shouldCompact session ⟨recent + 1, maxTokens⟩ with
  | false => exact ⟨_, compactSession_of_not_shouldCompact writer now h, rfl⟩
  | true =>
    obtain ⟨result, k, _, hresult, _, hmessages, _, hk, _⟩ :=
      compactSession_of_shouldCompact writer now h (Nat.le_add_left 1 recent)
    refine ⟨result, hresult, ?_⟩
    have hlen := length_of_shouldCompact h
    dsimp only at hk hlen
    have hdrop : session.messages.length - k + 1 - (recent + 1)
        = session.messages.length - k - (recent + 1) + 1 := by
      omega
    rw [hmessages, rtake, rtake, length_cons, length_drop, hdrop, drop_succ_cons, drop_drop]
    congr 1
    omega

theorem rtake_append_congr {α : Type} {n : Nat} {as bs : List α} (h : as.rtake n = bs.rtake n) (cs : List α)
    : (as ++ cs).rtake n = (bs ++ cs).rtake n := by
  rw [rtake_eq_reverse_take_reverse, rtake_eq_reverse_take_reverse, reverse_inj] at h ⊢
  have hless := congrArg (take (n - cs.length)) h
  simpa [take_append, take_take] using hless

def pushOrCompact (config : CompactionConfig) (session : Session) (step : UInt64 × Option ConversationMessage)
    : Option Session :=
  match step.2 with
  | some message => some { session.touch step.1 with messages := session.messages ++ [message] }
  | none => (compactSession writer step.1 session config).map (·.compactedSession)

theorem recent_messages_kept (session : Session) (recent maxTokens : Nat)
    (steps : List (UInt64 × Option ConversationMessage))
    : ∃ last, steps.foldlM (pushOrCompact writer ⟨recent + 1, maxTokens⟩) session = some last
      ∧ last.messages.rtake (recent + 1)
        = (session.messages ++ steps.filterMap (·.2)).rtake (recent + 1) := by
  induction steps generalizing session with
  | nil => exact ⟨session, rfl, by simp⟩
  | cons step steps ih =>
    obtain ⟨now, _ | message⟩ := step
    . obtain ⟨result, hresult, hrecent⟩ := rtake_compactSession writer now recent maxTokens
      obtain ⟨last, hlast, hkept⟩ := ih result.compactedSession
      refine ⟨last, ?_, hkept.trans (rtake_append_congr hrecent _)⟩
      rw [foldlM_cons, pushOrCompact, hresult]
      exact hlast
    . obtain ⟨last, hlast, hkept⟩ := ih { session.touch now with messages := session.messages ++ [message] }
      refine ⟨last, hlast, ?_⟩
      rw [hkept, append_assoc]
      rfl

end

theorem keepsPairs_iff (writer : SummaryWriter) (now : UInt64) (session : Session)
    (config : CompactionConfig) (hpaired : Paired session.messages)
    (hpreserve : 1 ≤ config.preserveRecentMessages)
    : KeepsPairs writer now session config
      ↔ ¬(shouldCompact session config = true
          ∧ StrandedResult session.messages (compactedSummaryPrefixLen session.messages)
              (session.messages.length - config.preserveRecentMessages)) := by
  cases hshould : shouldCompact session config with
  | false =>
    have hresult := compactSession_of_not_shouldCompact writer now hshould
    simp only [Bool.false_eq_true, false_and, not_false_eq_true, iff_true]
    exact ⟨_, hresult, .inl rfl⟩
  | true =>
    have ⟨result, keepFrom, text, hresult, hcompaction, hmessages, hge, hle, hremoved, hstranded⟩ :=
      compactSession_of_shouldCompact writer now hshould hpreserve
    have hlen := length_of_shouldCompact hshould
    have hiff := paired_summary_iff ⟨.system, [.text text], none⟩ hpaired rfl
      (fun _ => rfl) (show keepFrom < session.messages.length by omega)
    rw [← hmessages] at hiff
    simp only [true_and]
    rw [← hstranded, Bool.not_eq_true, ← hiff]
    constructor
    . intro ⟨result', hresult', hcases⟩
      rw [hresult] at hresult'
      cases hresult'
      cases hcases with
      | inl hsame => exact absurd (congrArg Session.compaction hsame) hcompaction
      | inr hkept =>
        have ⟨_, _, _, _, _, _, hkept, _⟩ := hkept
        exact hkept
    . intro hkept
      refine ⟨result, hresult, .inr ⟨_, _, hmessages, rfl, drop_suffix _ _, ?_, hkept, ?_⟩⟩
      . have hdrop := drop_suffix
          (session.messages.length - config.preserveRecentMessages - keepFrom)
          (session.messages.drop keepFrom)
        rw [drop_drop] at hdrop
        rwa [Nat.add_sub_cancel' hle] at hdrop
      . rw [hremoved, length_drop]
        omega

def plainWriter : SummaryWriter := ⟨fun _ => [], fun _ summary => summary, id⟩

def parallelResults : Session :=
  { Session.new 0 [] with
    messages := [
      ⟨.user, [.text "go".toList], none⟩,
      ⟨.assistant, [.toolUse "a".toList [] [], .toolUse "b".toList [] []], none⟩,
      .toolResult "a".toList [] [] false,
      .toolResult "b".toList [] [] false] }

theorem parallelResults_keepsPairs
    : Paired parallelResults.messages ∧ KeepsPairs plainWriter 0 parallelResults ⟨1, 0⟩ := by
  have hpaired : Paired parallelResults.messages := by decide
  refine ⟨hpaired, (keepsPairs_iff plainWriter 0 parallelResults ⟨1, 0⟩ hpaired (by decide)).mpr ?_⟩
  intro ⟨_, hstranded⟩
  have ⟨keepFrom, hwalk, _, _, hiff⟩ := walkBack_spec parallelResults.messages 0 3 (by decide) (by decide)
  cases hwalk
  cases hiff.mpr hstranded

def answeringUse : Session :=
  { Session.new 0 [] with
    messages := [
      ⟨.assistant, [.toolUse "a".toList [] [], .toolUse "b".toList [] []], none⟩,
      ⟨.tool, [.toolResult "a".toList [] [] false, .toolUse "c".toList [] []], none⟩,
      .toolResult "b".toList [] [] false] }

theorem answeringUse_orphaned
    : Paired answeringUse.messages ∧ ¬KeepsPairs plainWriter 0 answeringUse ⟨1, 0⟩ := by
  refine ⟨by decide, ?_⟩
  have hcompacted
      : ∃ result, compactSession plainWriter 0 answeringUse ⟨1, 0⟩ = some result
          ∧ result.compactedSession.compaction ≠ answeringUse.compaction
          ∧ ¬Paired result.compactedSession.messages :=
    ⟨_, rfl, by decide, by decide⟩
  have ⟨result, hresult, hcompaction, hpaired⟩ := hcompacted
  intro ⟨result', hresult', hcases⟩
  rw [hresult] at hresult'
  cases hresult'
  cases hcases with
  | inl hsame => exact hcompaction (congrArg Session.compaction hsame)
  | inr hkept =>
    have ⟨_, _, _, _, _, _, hkept, _⟩ := hkept
    exact hpaired hkept

end ClawCode
