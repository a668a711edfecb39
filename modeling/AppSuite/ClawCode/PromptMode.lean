import AppSuite.ClawCode.Protocol

/-!
This module contains what the mode `prompt` asks the user.
-/

namespace ClawCode

def PermissionMode.isLevel (mode : PermissionMode) : Bool :=
  match mode with
  | .readOnly | .workspaceWrite | .dangerFullAccess => true
  | .prompt | .allow => false

variable (objectStrings : Str → Option (Str → Option Str)) (policy : PermissionPolicy)

def denyOrAskRule (toolName input : Str) : Bool :=
  (findMatchingRule objectStrings policy.denyRules toolName input).isSome
    || (findMatchingRule objectStrings policy.askRules toolName input).isSome

def AsksFirst (toolName input : Str) (context : PermissionContext) : Prop :=
  ∀ (ω : Type) (prompter : Option (PermissionPrompter ω)) (world : ω),
    ((authorizeWithContext objectStrings policy toolName input context prompter world).outcome = .allow
      → ∃ request : PermissionRequest, request.toolName = toolName ∧ request.input = input
          ∧ (authorizeWithContext objectStrings policy toolName input context prompter world).question
              = some (request, .allow))
    ∧ (prompter = none
      → ∃ reason, (authorizeWithContext objectStrings policy toolName input context prompter
          world).outcome = .deny reason)

variable {objectStrings policy} {ω : Type} {toolName input : Str} {context : PermissionContext}
  {prompter : Option (PermissionPrompter ω)} {world : ω}

theorem promptOrDeny_spec (toolName input : Str) (currentMode requiredMode : PermissionMode)
    (reason : Option Str) (prompter : Option (PermissionPrompter ω)) (world : ω)
    : ((promptOrDeny toolName input currentMode requiredMode reason prompter world).outcome = .allow
        → ∃ request : PermissionRequest, request.toolName = toolName ∧ request.input = input
            ∧ (promptOrDeny toolName input currentMode requiredMode reason prompter world).question
                = some (request, .allow))
      ∧ (prompter = none
        → ∃ reason', (promptOrDeny toolName input currentMode requiredMode reason prompter
            world).outcome = .deny reason') := by
  unfold promptOrDeny
  cases prompter with
  | none =>
    constructor
    . intro hallow
      cases hallow
    . intro _
      exact ⟨_, rfl⟩
  | some decide =>
    constructor
    . dsimp only
      split
      . intro _
        exact ⟨_, rfl, rfl, rfl⟩
      . intro hallow
        cases hallow
    . intro hnone
      cases hnone

theorem asksFirst_of_rule (hcontext : context.overrideDecision = none)
    (hrule : denyOrAskRule objectStrings policy toolName input = true)
    : AsksFirst objectStrings policy toolName input context := by
  intro ω prompter world
  unfold authorizeWithContext
  cases hdeny : findMatchingRule objectStrings policy.denyRules toolName input with
  | some rule =>
    constructor
    . intro hallow
      cases hallow
    . intro _
      exact ⟨_, rfl⟩
  | none =>
    simp only [denyOrAskRule, hdeny, Option.isSome_none, Bool.false_or] at hrule
    have ⟨rule, hask⟩ := Option.isSome_iff_exists.mp hrule
    simp only [hcontext, authorizeByMode, hask]
    exact promptOrDeny_spec _ _ _ _ _ _ _

section

variable (hmode : policy.activeMode = .prompt)
  (hlevel : (policy.requiredModeFor toolName).isLevel = true)
  (hcontext : context.overrideDecision = none)

include hmode hlevel hcontext

theorem allow_of_no_rule (hrule : denyOrAskRule objectStrings policy toolName input = false)
    : authorizeWithContext objectStrings policy toolName input context prompter world
      = ⟨.allow, none, world⟩ := by
  simp only [denyOrAskRule, Bool.or_eq_false_iff, Option.isSome_eq_false_iff,
    Option.isNone_iff_eq_none] at hrule
  have hle : policy.requiredModeFor toolName ≤ .prompt := by
    cases hrequired : policy.requiredModeFor toolName <;> simp_all [PermissionMode.isLevel] <;> decide
  unfold authorizeWithContext authorizeByMode
  simp only [hrule.1, hrule.2, hcontext, hmode]
  rw [if_pos (.inr (.inr hle))]

theorem asksFirst_iff
    : AsksFirst objectStrings policy toolName input context
      ↔ denyOrAskRule objectStrings policy toolName input = true := by
  constructor
  . intro hasks
    by_contra hrule
    rw [Bool.not_eq_true] at hrule
    have ⟨reason, hdeny⟩ := (hasks Unit none ()).2 rfl
    rw [allow_of_no_rule hmode hlevel hcontext hrule] at hdeny
    cases hdeny
  . exact asksFirst_of_rule hcontext

end

def ApprovedByUser (before : List LogEntry) (toolName input : Str) : Prop :=
  ∃ front rawInput result context question,
    before = front ++ [.preHook toolName rawInput result,
      .authorized toolName input context .allow question]
    ∧ (result.permissionOverride = none → ∃ request, question = some (request, .allow))

theorem approvedByUser_of_cleared
    (h : Cleared objectStrings policy ω before toolName input)
    (hrule : denyOrAskRule objectStrings policy toolName input = true)
    : ApprovedByUser before toolName input := by
  have ⟨front, rawInput, result, question, hbefore, _, _, _, _, prompter, world, hallow, hquestion⟩ := h
  refine ⟨front, rawInput, result, _, question, hbefore, ?_⟩
  intro hoverride
  have ⟨request, _, _, hasked⟩ := (asksFirst_of_rule hoverride hrule ω prompter world).1 hallow
  exact ⟨request, hquestion.symm.trans hasked⟩

theorem promptMode_asks_iff (objectStrings : Str → Option (Str → Option Str)) (policy : PermissionPolicy)
    (hmode : policy.activeMode = .prompt)
    : (∀ toolName input context, (policy.requiredModeFor toolName).isLevel = true
        → context.overrideDecision = none
        → (AsksFirst objectStrings policy toolName input context
            ↔ denyOrAskRule objectStrings policy toolName input = true))
      ∧ ∀ (ω : Type) (ext : Externals ω) (writer : SummaryWriter) (runtime : ConversationRuntime)
          (world : ω) (calls : List (Str × Option (PermissionPrompter ω))),
          runtime.permissionPolicy = policy
          → Run.Always (turnStep objectStrings ext writer)
              (fun conversation => ∀ before toolName input after,
                conversation.log = before ++ .executed toolName input :: after
                → denyOrAskRule objectStrings policy toolName input = true
                → ApprovedByUser before toolName input)
              { runtime := runtime, world := world } calls := by
  constructor
  . intro toolName input context hlevel hcontext
    exact asksFirst_iff hmode hlevel hcontext
  . intro ω ext writer runtime world calls hpolicy
    subst hpolicy
    apply always_of_sound objectStrings ext writer runtime world calls
    intro conversation hsound before toolName input after hlog hrule
    exact approvedByUser_of_cleared (hsound.guarded before toolName input after hlog) hrule

def askingPolicy : PermissionPolicy :=
  ⟨.prompt, .empty, [], [], [⟨"bash".toList, "bash".toList, .any⟩]⟩

theorem askingPolicy_asksFirst : AsksFirst (fun _ => none) askingPolicy "bash".toList "ls".toList {} :=
  ((promptMode_asks_iff (fun _ => none) askingPolicy rfl).1 "bash".toList "ls".toList {} rfl rfl).mpr rfl

theorem promptMode_executes_unasked
    : ((freshRuntime .prompt).permissionPolicy.requiredModeFor "bash".toList).isLevel = true
      ∧ ¬AsksFirst (fun _ => none) (freshRuntime .prompt).permissionPolicy "bash".toList "ls".toList {}
      ∧ (runTurn (fun _ => none) obligingExternals none plainWriter (freshRuntime .prompt)
          "list".toList 0).log
          = [.preHook "bash".toList "ls".toList {},
              .authorized "bash".toList "ls".toList {} .allow none,
              .executed "bash".toList "ls".toList] := by
  refine ⟨rfl, ?_, by decide⟩
  intro hasks
  have ⟨reason, hdeny⟩ := (hasks Unit none ()).2 rfl
  cases hdeny

end ClawCode
