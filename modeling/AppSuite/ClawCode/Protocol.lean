import AppSuite.System.Run
import AppSuite.ClawCode.Conversation
import AppSuite.ClawCode.Pairing

/-!
This module contains what holds over any number of turns.
-/

namespace ClawCode

open List ConversationMessage

namespace ConversationMessage

def toolUses (message : ConversationMessage) : List (Str × Str) :=
  (pendingToolUses message).map fun (id, name, _) => (id, name)

def resultOf? (message : ConversationMessage) : Option (Str × Str) :=
  match message.blocks with
  | .toolResult toolUseId toolName _ _ :: _ => some (toolUseId, toolName)
  | _ => none

end ConversationMessage

def leadingResults (messages : List ConversationMessage) : List (Str × Str) :=
  match messages with
  | [] => []
  | message :: messages =>
    match message.resultOf? with
    | some result => result :: leadingResults messages
    | none => []

def Answered (messages : List ConversationMessage) : Prop :=
  match messages with
  | [] => True
  | message :: messages =>
    (message.role = .assistant → leadingResults messages = message.toolUses) ∧ Answered messages

section Answered

variable {messages results : List ConversationMessage} {message : ConversationMessage}

theorem leadingResults_append (h : message.resultOf? = none)
    : leadingResults (messages ++ message :: results) = leadingResults messages := by
  induction messages with
  | nil => simp [leadingResults, h]
  | cons first messages ih => rw [cons_append, leadingResults, leadingResults, ih]

theorem leadingResults_of_results
    (h : results.map resultOf? = ids.map some)
    : leadingResults results = ids := by
  induction results generalizing ids with
  | nil =>
    rw [map_nil, eq_comm, map_eq_nil_iff] at h
    rw [h, leadingResults]
  | cons result results ih =>
    cases ids with
    | nil => cases h
    | cons id ids =>
      rw [map_cons, map_cons, cons.injEq] at h
      rw [leadingResults, h.1, ih h.2]

theorem answered_of_role (h : ∀ result ∈ results, result.role ≠ .assistant) : Answered results := by
  induction results with
  | nil => trivial
  | cons result results ih =>
    rw [forall_mem_cons] at h
    exact ⟨fun hrole => absurd hrole h.1, ih h.2⟩

theorem Answered.append (hmessages : Answered messages) (hmessage : message.resultOf? = none)
    (hresults : Answered (message :: results))
    : Answered (messages ++ message :: results) := by
  induction messages with
  | nil => exact hresults
  | cons first messages ih =>
    refine ⟨?_, ih hmessages.2⟩
    intro hrole
    exact (leadingResults_append hmessage).trans (hmessages.1 hrole)

theorem Answered.drop (h : Answered messages) (k : Nat) : Answered (messages.drop k) := by
  induction messages generalizing k with
  | nil =>
    rw [drop_nil]
    trivial
  | cons message messages ih =>
    cases k with
    | zero => exact h
    | succ k => exact ih h.2 k

end Answered

section Log

variable {ω : Type} (objectStrings : Str → Option (Str → Option Str)) (policy : PermissionPolicy)

def Cleared (ω : Type) (before : List LogEntry) (toolName input : Str) : Prop :=
  ∃ front rawInput result question,
    before = front ++ [.preHook toolName rawInput result,
      .authorized toolName input ⟨result.permissionOverride, result.permissionReason⟩ .allow question]
    ∧ result.cancelled = false ∧ result.failed = false ∧ result.denied = false
    ∧ input = result.updatedInput.getD rawInput
    ∧ ∃ (prompter : Option (PermissionPrompter ω)) (world : ω),
        (authorizeWithContext objectStrings policy toolName input
            ⟨result.permissionOverride, result.permissionReason⟩ prompter world).outcome = .allow
          ∧ (authorizeWithContext objectStrings policy toolName input
            ⟨result.permissionOverride, result.permissionReason⟩ prompter world).question = question

def Guarded (ω : Type) (log : List LogEntry) : Prop :=
  ∀ before toolName input after, log = before ++ .executed toolName input :: after
    → Cleared objectStrings policy ω before toolName input

variable {objectStrings policy} {log log' before : List LogEntry} {toolName input : Str}

theorem Cleared.append (front : List LogEntry) (h : Cleared objectStrings policy ω before toolName input)
    : Cleared objectStrings policy ω (front ++ before) toolName input := by
  have ⟨front', rawInput, result, question, hbefore, hrest⟩ := h
  refine ⟨front ++ front', rawInput, result, question, ?_, hrest⟩
  rw [hbefore, append_assoc]

theorem not_cleared_nil : ¬Cleared objectStrings policy ω [] toolName input := by
  intro ⟨front, rawInput, result, question, hbefore, _⟩
  simp at hbefore

theorem Guarded.append (h : Guarded objectStrings policy ω log) (h' : Guarded objectStrings policy ω log')
    : Guarded objectStrings policy ω (log ++ log') := by
  intro before toolName input after heq
  rw [append_eq_append_iff] at heq
  cases heq with
  | inl heq =>
    have ⟨rest, hbefore, hlog'⟩ := heq
    rw [hbefore]
    exact (h' rest toolName input after hlog').append log
  | inr heq =>
    have ⟨rest, hlog, hlog'⟩ := heq
    cases rest with
    | nil => exact absurd (h' [] toolName input after hlog'.symm) not_cleared_nil
    | cons entry rest =>
      rw [cons_append, cons.injEq] at hlog'
      rw [← hlog'.1] at hlog
      exact h before toolName input rest hlog

theorem guarded_of_not_executed (h : ∀ toolName input, .executed toolName input ∉ log)
    : Guarded objectStrings policy ω log := by
  intro before toolName input after heq
  refine absurd ?_ (h toolName input)
  rw [heq]
  simp

theorem Cleared.guarded (h : Cleared objectStrings policy ω before toolName input)
    (hbefore : ∀ toolName input, .executed toolName input ∉ before)
    : Guarded objectStrings policy ω (before ++ [.executed toolName input]) := by
  intro before' toolName' input' after heq
  rw [append_eq_append_iff] at heq
  cases heq with
  | inl heq =>
    have ⟨rest, hbefore', htail⟩ := heq
    cases rest with
    | nil =>
      cases htail
      rw [hbefore', append_nil]
      exact h
    | cons entry rest => simp at htail
  | inr heq =>
    have ⟨rest, hsplit, htail⟩ := heq
    cases rest with
    | nil =>
      cases htail
      rw [append_nil] at hsplit
      rw [← hsplit]
      exact h
    | cons entry rest =>
      rw [cons_append, cons.injEq] at htail
      refine absurd ?_ (hbefore toolName' input')
      rw [hsplit, ← htail.1]
      simp

end Log

section Build

theorem not_isToolResult_flushTextBlock (text : Str) {blocks : List ContentBlock}
    (h : ∀ block ∈ blocks, block.isToolResult = false)
    : ∀ block ∈ flushTextBlock text blocks, block.isToolResult = false := by
  unfold flushTextBlock
  split
  . exact h
  . rw [forall_mem_append, forall_mem_singleton]
    exact ⟨h, rfl⟩

theorem not_isToolResult_assemble {assembly : Assembly} (event : AssistantEvent)
    (h : ∀ block ∈ assembly.blocks, block.isToolResult = false)
    : ∀ block ∈ (assemble assembly event).blocks, block.isToolResult = false := by
  have hflush : ∀ {last : ContentBlock}, last.isToolResult = false
      → ∀ block ∈ flushTextBlock assembly.text assembly.blocks ++ [last], block.isToolResult = false := by
    intro last hlast
    rw [forall_mem_append, forall_mem_singleton]
    exact ⟨not_isToolResult_flushTextBlock assembly.text h, hlast⟩
  cases event with
  | thinking | toolUse => exact hflush rfl
  | textDelta | usage | promptCache | messageStop => exact h

theorem not_isToolResult_foldl_assemble (events : List AssistantEvent) (assembly : Assembly)
    (h : ∀ block ∈ assembly.blocks, block.isToolResult = false)
    : ∀ block ∈ (events.foldl assemble assembly).blocks, block.isToolResult = false :=
  foldlRecOn (motive := fun assembly => ∀ block ∈ assembly.blocks, block.isToolResult = false)
    events assemble h fun _ h event _ => not_isToolResult_assemble event h

theorem buildAssistantMessage_spec {events : List AssistantEvent} {message : ConversationMessage}
    {usage : Option TokenUsage} {promptCacheEvents : List PromptCacheEvent}
    (h : buildAssistantMessage events = .ok (message, usage, promptCacheEvents))
    : message.role = .assistant ∧ message.resultOf? = none := by
  have hblocks := not_isToolResult_flushTextBlock (events.foldl assemble {}).text
    (not_isToolResult_foldl_assemble events {} (by simp))
  unfold buildAssistantMessage at h
  dsimp only at h
  split at h
  . cases h
  . split at h
    . cases h
    . cases h
      refine ⟨rfl, ?_⟩
      unfold resultOf? assistantWithUsage
      dsimp only
      split
      . next heq =>
        rw [heq] at hblocks
        cases hblocks _ mem_cons_self
      . rfl

end Build

section Turn

variable {ω : Type} (objectStrings : Str → Option (Str → Option Str)) (ext : Externals ω)
  (prompter : Option (PermissionPrompter ω)) {policy : PermissionPolicy}

theorem runToolUse_spec (policy : PermissionPolicy) (toolUseId toolName input : Str) (world : ω)
    : (runToolUse objectStrings ext prompter policy toolUseId toolName input world).message.role = .tool
      ∧ (runToolUse objectStrings ext prompter policy toolUseId toolName input world).message.resultOf?
          = some (toolUseId, toolName)
      ∧ Guarded objectStrings policy ω
          (runToolUse objectStrings ext prompter policy toolUseId toolName input world).log := by
  unfold runToolUse
  dsimp only
  split
  . exact ⟨rfl, rfl, guarded_of_not_executed (by simp [deniedRun])⟩
  . next hcancelled =>
    split
    . exact ⟨rfl, rfl, guarded_of_not_executed (by simp [deniedRun])⟩
    . next hfailed =>
      split
      . exact ⟨rfl, rfl, guarded_of_not_executed (by simp [deniedRun])⟩
      . next hdenied =>
        split
        . next hallow =>
          refine ⟨rfl, rfl, Cleared.guarded ?_ (by simp)⟩
          refine ⟨[], input, (ext.preToolUse world toolName input).1, _, ?_, by simpa using hcancelled,
            by simpa using hfailed, by simpa using hdenied, rfl, prompter, _, hallow, rfl⟩
          rw [hallow]
          rfl
        . exact ⟨rfl, rfl, guarded_of_not_executed (by simp [deniedRun])⟩

structure Turn.Sound (objectStrings : Str → Option (Str → Option Str)) (policy : PermissionPolicy)
    (started : Prop) (turn : Turn ω) : Prop where
  policy_eq : turn.runtime.permissionPolicy = policy
  answered : started → Answered turn.runtime.session.messages
  guarded : Guarded objectStrings policy ω turn.log

variable {turn : Turn ω}

theorem answer_spec (hpolicy : turn.runtime.permissionPolicy = policy)
    (hguarded : Guarded objectStrings policy ω turn.log) (pending : Str × Str × Str)
    : ∃ result, (turn.answer objectStrings ext prompter pending).runtime.session.messages
        = turn.runtime.session.messages ++ [result]
      ∧ result.role = .tool ∧ result.resultOf? = some (pending.1, pending.2.1)
      ∧ (turn.answer objectStrings ext prompter pending).runtime.permissionPolicy = policy
      ∧ Guarded objectStrings policy ω (turn.answer objectStrings ext prompter pending).log := by
  subst hpolicy
  have ⟨hrole, hresult, hlog⟩ := runToolUse_spec objectStrings ext prompter
    turn.runtime.permissionPolicy pending.1 pending.2.1 pending.2.2 turn.world
  exact ⟨_, rfl, hrole, hresult, rfl, hguarded.append hlog⟩

theorem foldl_answer_spec (pending : List (Str × Str × Str)) (turn : Turn ω)
    (hpolicy : turn.runtime.permissionPolicy = policy)
    (hguarded : Guarded objectStrings policy ω turn.log)
    : ∃ results, (pending.foldl (Turn.answer objectStrings ext prompter) turn).runtime.session.messages
        = turn.runtime.session.messages ++ results
      ∧ (∀ result ∈ results, result.role = .tool)
      ∧ results.map resultOf? = (pending.map fun (id, name, _) => (id, name)).map some
      ∧ (pending.foldl (Turn.answer objectStrings ext prompter) turn).runtime.permissionPolicy = policy
      ∧ Guarded objectStrings policy ω
          (pending.foldl (Turn.answer objectStrings ext prompter) turn).log := by
  induction pending generalizing turn with
  | nil => exact ⟨[], by simp, by simp, rfl, hpolicy, hguarded⟩
  | cons first pending ih =>
    have ⟨result, hmessages, hrole, hresult, hpolicy', hguarded'⟩ :=
      answer_spec objectStrings ext prompter hpolicy hguarded first
    have ⟨results, hmessages', hroles, hresults, hrest⟩ := ih _ hpolicy' hguarded'
    refine ⟨result :: results, ?_, ?_, ?_, hrest⟩
    . rw [foldl_cons, hmessages', hmessages, append_assoc]
      rfl
    . rw [forall_mem_cons]
      exact ⟨hrole, hroles⟩
    . rw [map_cons, hresult, hresults]
      rfl

variable {objectStrings} {started : Prop}

theorem Turn.Sound.receive_answer (h : turn.Sound objectStrings policy started)
    {message : ConversationMessage} (hresult : message.resultOf? = none) (usage : Option TokenUsage)
    (promptCacheEvents : List PromptCacheEvent)
    : ((pendingToolUses message).foldl (Turn.answer objectStrings ext prompter)
      (turn.receive ext message usage promptCacheEvents)).Sound objectStrings policy started := by
  have ⟨results, hmessages, hroles, hresults, hpolicy, hguarded⟩ :=
    foldl_answer_spec objectStrings ext prompter (pendingToolUses message)
      (turn.receive ext message usage promptCacheEvents) h.policy_eq h.guarded
  have hreceived
      : (turn.receive ext message usage promptCacheEvents).runtime.session.messages ++ results
          = turn.runtime.session.messages ++ message :: results :=
    append_cons _ _ _ |>.symm
  refine ⟨hpolicy, ?_, hguarded⟩
  intro hstarted
  rw [hmessages, hreceived]
  refine (h.answered hstarted).append hresult ⟨fun _ => leadingResults_of_results hresults, answered_of_role ?_⟩
  intro result hmem hassistant
  rw [hroles result hmem] at hassistant
  cases hassistant

theorem Turn.Sound.loop (h : turn.Sound objectStrings policy started) (remaining : Nat)
    : (turn.loop objectStrings ext prompter remaining).2.Sound objectStrings policy started := by
  induction remaining generalizing turn with
  | zero => exact ⟨h.policy_eq, h.answered, h.guarded⟩
  | succ remaining ih =>
    rw [Turn.loop]
    split
    . exact ⟨h.policy_eq, h.answered, h.guarded⟩
    . next events world hstream =>
      have hturn
          : ({ turn with iterations := turn.iterations + 1, world := world } : Turn ω).Sound
              objectStrings policy started :=
        ⟨h.policy_eq, h.answered, h.guarded⟩
      split
      . exact hturn
      . next message usage promptCacheEvents hbuild =>
        have ⟨hrole, hresult⟩ := buildAssistantMessage_spec hbuild
        have hnext := hturn.receive_answer ext prompter hresult usage promptCacheEvents
        split
        . next hpending =>
          rw [hpending] at hnext
          exact hnext
        . exact ih hnext

theorem messages_compactSession {writer : SummaryWriter}
    (hpreserve : 1 ≤ config.preserveRecentMessages)
    (h : compactSession writer now session config = some result)
    : result.compactedSession.messages = session.messages
      ∨ ∃ summary keepFrom, result.compactedSession.messages
          = ⟨.system, [.text summary], none⟩ :: session.messages.drop keepFrom := by
  cases hshould : shouldCompact session config with
  | false =>
    rw [compactSession_of_not_shouldCompact writer now hshould] at h
    cases h
    exact .inl rfl
  | true =>
    have ⟨result', keepFrom, summary, hresult, _, hmessages, _⟩ :=
      compactSession_of_shouldCompact writer now hshould hpreserve
    rw [hresult] at h
    cases h
    exact .inr ⟨summary, keepFrom, hmessages⟩

theorem Turn.Sound.maybeAutoCompact (h : turn.Sound objectStrings policy started) (writer : SummaryWriter)
    : (turn.maybeAutoCompact ext writer).2.Sound objectStrings policy started := by
  unfold Turn.maybeAutoCompact
  split
  . exact h
  . dsimp only
    split
    . exact ⟨h.policy_eq, h.answered, h.guarded⟩
    . next result hresult =>
      split
      . exact ⟨h.policy_eq, h.answered, h.guarded⟩
      . refine ⟨h.policy_eq, ?_, h.guarded⟩
        intro hstarted
        cases messages_compactSession (by decide) hresult with
        | inl hsame =>
          rw [hsame]
          exact h.answered hstarted
        | inr hkept =>
          have ⟨summary, keepFrom, hmessages⟩ := hkept
          rw [hmessages]
          exact ⟨(fun hrole => nomatch hrole), (h.answered hstarted).drop keepFrom⟩

end Turn

section Run

variable {ω : Type} (objectStrings : Str → Option (Str → Option Str)) (ext : Externals ω)
  (writer : SummaryWriter)

structure Conversation (ω : Type) where
  runtime : ConversationRuntime
  world : ω
  log : List LogEntry := []

def turnStep (conversation : Conversation ω) (call : Str × Option (PermissionPrompter ω))
    : Conversation ω :=
  let turnEnd := runTurn objectStrings ext call.2 writer conversation.runtime call.1 conversation.world
  ⟨turnEnd.runtime, turnEnd.world, conversation.log ++ turnEnd.log⟩

structure Conversation.Sound (policy : PermissionPolicy) (started : Prop)
    (conversation : Conversation ω) : Prop where
  policy_eq : conversation.runtime.permissionPolicy = policy
  answered : started → Answered conversation.runtime.session.messages
  guarded : Guarded objectStrings policy ω conversation.log

variable {policy : PermissionPolicy} {started : Prop}

theorem not_executed_runSessionHealthProbe (session : Session) (world : ω) (toolName input : Str)
    : .executed toolName input ∉ (runSessionHealthProbe ext session world).2.2 := by
  unfold runSessionHealthProbe
  split
  . simp
  . split <;> simp

variable (prompter : Option (PermissionPrompter ω)) (runtime : ConversationRuntime) (userInput : Str)
  (world : ω)

theorem runTurn_spec (hpolicy : runtime.permissionPolicy = policy)
    (hanswered : started → Answered runtime.session.messages)
    : (runTurn objectStrings ext prompter writer runtime userInput world).runtime.permissionPolicy = policy
      ∧ (started → Answered (runTurn objectStrings ext prompter writer runtime userInput
          world).runtime.session.messages)
      ∧ Guarded objectStrings policy ω
          (runTurn objectStrings ext prompter writer runtime userInput world).log := by
  have hlog : ∀ toolName input, .executed toolName input
      ∉ (if runtime.session.compaction.isSome then
          runSessionHealthProbe ext runtime.session world
        else
          (.ok (), world, [])).2.2 := by
    intro toolName input
    split
    . exact not_executed_runSessionHealthProbe ext _ _ _ _
    . simp
  unfold runTurn
  generalize (if runtime.session.compaction.isSome then
      runSessionHealthProbe ext runtime.session world
    else
      (.ok (), world, [])) = probed at *
  have ⟨probe, world, log⟩ := probed
  cases probe with
  | error error => exact ⟨hpolicy, hanswered, guarded_of_not_executed hlog⟩
  | ok =>
    have hturn
        : (({ runtime := runtime, world := world, log := log } : Turn ω).pushMessage ext
            (.userText userInput)).Sound objectStrings policy started := by
      refine ⟨hpolicy, ?_, guarded_of_not_executed hlog⟩
      intro hstarted
      exact (hanswered hstarted).append rfl ⟨(fun hrole => nomatch hrole), trivial⟩
    have hloop := hturn.loop ext prompter runtime.maxIterations
    dsimp only
    split
    . next hend =>
      rw [hend] at hloop
      exact ⟨hloop.policy_eq, hloop.answered, hloop.guarded⟩
    . next hend =>
      rw [hend] at hloop
      have hcompact := hloop.maybeAutoCompact ext writer
      exact ⟨hcompact.policy_eq, hcompact.answered, hcompact.guarded⟩

theorem Conversation.Sound.turnStep
    (h : conversation.Sound objectStrings policy started) (call : Str × Option (PermissionPrompter ω))
    : (turnStep objectStrings ext writer conversation call).Sound objectStrings policy started := by
  have ⟨hpolicy, hanswered, hguarded⟩ := runTurn_spec objectStrings ext writer call.2
    conversation.runtime call.1 conversation.world h.policy_eq h.answered
  exact ⟨hpolicy, hanswered, h.guarded.append hguarded⟩

theorem sound_start
    : ({ runtime := runtime, world := world } : Conversation ω).Sound objectStrings
        runtime.permissionPolicy (Answered runtime.session.messages) :=
  ⟨rfl, id, guarded_of_not_executed (by simp)⟩

theorem always_of_sound {P : Conversation ω → Prop} (runtime : ConversationRuntime) (world : ω)
    (calls : List (Str × Option (PermissionPrompter ω)))
    (h : ∀ conversation : Conversation ω, conversation.Sound objectStrings runtime.permissionPolicy
      (Answered runtime.session.messages) → P conversation)
    : Run.Always (turnStep objectStrings ext writer) P { runtime := runtime, world := world } calls := by
  have halong
      : Run.Along (turnStep objectStrings ext writer) (fun _ _ => True)
          { runtime := runtime, world := world } calls :=
    Run.along_of_ok (fun _ _ => trivial) _ _
  exact Run.always_of_along _ h (fun _ call hsound _ => hsound.turnStep objectStrings ext writer call)
    (sound_start objectStrings runtime world) halong

end Run

theorem conversation_protocol {ω : Type} (objectStrings : Str → Option (Str → Option Str))
    (ext : Externals ω) (writer : SummaryWriter) (runtime : ConversationRuntime) (world : ω)
    (calls : List (Str × Option (PermissionPrompter ω)))
    (hstart : Answered runtime.session.messages)
    : Run.Always (turnStep objectStrings ext writer)
        (fun conversation => Answered conversation.runtime.session.messages
          ∧ Guarded objectStrings runtime.permissionPolicy ω conversation.log)
        { runtime := runtime, world := world } calls := by
  apply always_of_sound objectStrings ext writer runtime world calls
  intro conversation hsound
  exact ⟨hsound.answered hstart, hsound.guarded⟩

def obligingExternals : Externals Nat where
  now world := (0, world)
  stream world _ :=
    if world = 0 then
      (.ok [.toolUse "1".toList "bash".toList "ls".toList, .messageStop], 1)
    else
      (.ok [.textDelta "done".toList, .messageStop], world)
  execute world _ _ := (.ok [], world)
  preToolUse world _ _ := ({}, world)
  postToolUse world _ _ _ _ := ({}, world)
  postToolUseFailure world _ _ _ := ({}, world)

def freshRuntime (mode : PermissionMode) : ConversationRuntime where
  session := Session.new 0 []
  permissionPolicy := ⟨mode, .empty, [], [], []⟩
  systemPrompt := []
  maxIterations := 4
  cumulativeUsage := ⟨0, 0, 0, 0⟩
  autoCompactionInputTokensThreshold := 100000

theorem conversation_protocol_fresh
    : Run.Always (turnStep (fun _ => none) obligingExternals plainWriter)
        (fun conversation => Answered conversation.runtime.session.messages
          ∧ Guarded (fun _ => none) (freshRuntime .allow).permissionPolicy Nat conversation.log)
        { runtime := freshRuntime .allow, world := 0 } [("list".toList, none), ("again".toList, none)] :=
  conversation_protocol (fun _ => none) obligingExternals plainWriter (freshRuntime .allow) 0 _ trivial

end ClawCode
