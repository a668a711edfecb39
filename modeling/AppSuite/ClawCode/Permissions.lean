import AppSuite.Data.OrderedMap
import AppSuite.Text.Whitespace

/-!
This module contains the permission policy of the runtime, and the second check in front of a tool.
-/

namespace ClawCode

abbrev Str := List Char

inductive PermissionMode where
  | readOnly
  | workspaceWrite
  | dangerFullAccess
  | prompt
  | allow
  deriving DecidableEq, Repr

namespace PermissionMode

-- The derived order is that of the variants.
def rank (mode : PermissionMode) : Nat :=
  match mode with
  | readOnly => 0
  | workspaceWrite => 1
  | dangerFullAccess => 2
  | prompt => 3
  | allow => 4

instance : LE PermissionMode := ⟨fun lhs rhs => lhs.rank ≤ rhs.rank⟩

instance : DecidableLE PermissionMode := fun lhs rhs => inferInstanceAs (Decidable (lhs.rank ≤ rhs.rank))

instance : Preorder PermissionMode where
  le_refl mode := Nat.le_refl mode.rank
  le_trans _ _ _ h h' := Nat.le_trans h h'

def asStr (mode : PermissionMode) : Str :=
  match mode with
  | readOnly => "read-only".toList
  | workspaceWrite => "workspace-write".toList
  | dangerFullAccess => "danger-full-access".toList
  | prompt => "prompt".toList
  | allow => "allow".toList

end PermissionMode

inductive PermissionOverride where
  | allow
  | deny
  | ask
  deriving DecidableEq, Repr

structure PermissionContext where
  overrideDecision : Option PermissionOverride := none
  overrideReason : Option Str := none
  deriving DecidableEq, Repr

structure PermissionRequest where
  toolName : Str
  input : Str
  currentMode : PermissionMode
  requiredMode : PermissionMode
  reason : Option Str
  deriving DecidableEq, Repr

inductive PermissionPromptDecision where
  | allow
  | deny (reason : Str)
  deriving DecidableEq, Repr

inductive PermissionOutcome where
  | allow
  | deny (reason : Str)
  deriving DecidableEq, Repr

inductive PermissionRuleMatcher where
  | any
  | exact (expected : Str)
  | startsWith (start : Str)
  deriving DecidableEq, Repr

structure PermissionRule where
  raw : Str
  toolName : Str
  matcher : PermissionRuleMatcher
  deriving DecidableEq, Repr

def subjectKeys : List Str :=
  ["command".toList, "path".toList, "file_path".toList, "filePath".toList, "notebook_path".toList,
    "notebookPath".toList, "url".toList, "pattern".toList, "code".toList, "message".toList]

section Rules

-- The members of the object that `serde_json` reads from a text, as far as they are strings.
variable (objectStrings : Str → Option (Str → Option Str))

def extractPermissionSubject (input : Str) : Option Str :=
  match (objectStrings input).bind fun object => subjectKeys.findSome? object with
  | some value => some value
  | none => if Text.trim Text.isWhiteSpace input = [] then none else some input

def PermissionRule.ruleMatches (rule : PermissionRule) (toolName input : Str) : Bool :=
  if rule.toolName ≠ toolName then
    false
  else
    match rule.matcher with
    | .any => true
    | .exact expected => (extractPermissionSubject objectStrings input).any (· = expected)
    | .startsWith start => (extractPermissionSubject objectStrings input).any (start.isPrefixOf ·)

def findMatchingRule (rules : List PermissionRule) (toolName input : Str) : Option PermissionRule :=
  rules.find? (·.ruleMatches objectStrings toolName input)

end Rules

structure PermissionPolicy where
  activeMode : PermissionMode
  toolRequirements : OrderedMap Str PermissionMode
  allowRules : List PermissionRule
  denyRules : List PermissionRule
  askRules : List PermissionRule

def PermissionPolicy.requiredModeFor (policy : PermissionPolicy) (toolName : Str) : PermissionMode :=
  (policy.toolRequirements.get? toolName).getD .dangerFullAccess

abbrev PermissionPrompter (ω : Type) := ω → PermissionRequest → PermissionPromptDecision × ω

structure Authorization (ω : Type) where
  outcome : PermissionOutcome
  question : Option (PermissionRequest × PermissionPromptDecision)
  world : ω

section Authorize

variable {ω : Type}

def promptOrDeny (toolName input : Str) (currentMode requiredMode : PermissionMode)
    (reason : Option Str) (prompter : Option (PermissionPrompter ω)) (world : ω) : Authorization ω :=
  let request : PermissionRequest := ⟨toolName, input, currentMode, requiredMode, reason⟩
  match prompter with
  | some decide =>
    match decide world request with
    | (.allow, world) => ⟨.allow, some (request, .allow), world⟩
    | (.deny reason, world) => ⟨.deny reason, some (request, .deny reason), world⟩
  | none =>
    ⟨.deny (reason.getD ("tool '".toList ++ toolName
        ++ "' requires approval to run while mode is ".toList ++ currentMode.asStr)),
      none, world⟩

def askRuleReason (toolName : Str) (rule : PermissionRule) : Str :=
  "tool '".toList ++ toolName ++ "' requires approval due to ask rule '".toList ++ rule.raw
    ++ "'".toList

variable (objectStrings : Str → Option (Str → Option Str)) (policy : PermissionPolicy)

def authorizeByMode (toolName input : Str) (prompter : Option (PermissionPrompter ω)) (world : ω)
    : Authorization ω :=
  let currentMode := policy.activeMode
  let requiredMode := policy.requiredModeFor toolName
  match findMatchingRule objectStrings policy.askRules toolName input with
  | some rule =>
    promptOrDeny toolName input currentMode requiredMode (some (askRuleReason toolName rule)) prompter
      world
  | none =>
    if (findMatchingRule objectStrings policy.allowRules toolName input).isSome
        ∨ currentMode = .allow ∨ requiredMode ≤ currentMode then
      ⟨.allow, none, world⟩
    else if currentMode = .prompt
        ∨ (currentMode = .workspaceWrite ∧ requiredMode = .dangerFullAccess) then
      let reason := "tool '".toList ++ toolName ++ "' requires approval to escalate from ".toList
        ++ currentMode.asStr ++ " to ".toList ++ requiredMode.asStr
      promptOrDeny toolName input currentMode requiredMode (some reason) prompter world
    else
      ⟨.deny ("tool '".toList ++ toolName ++ "' requires ".toList ++ requiredMode.asStr
          ++ " permission; current mode is ".toList ++ currentMode.asStr),
        none, world⟩

def authorizeWithContext (toolName input : Str) (context : PermissionContext)
    (prompter : Option (PermissionPrompter ω)) (world : ω) : Authorization ω :=
  match findMatchingRule objectStrings policy.denyRules toolName input with
  | some rule =>
    ⟨.deny ("Permission to use ".toList ++ toolName ++ " has been denied by rule '".toList ++ rule.raw
        ++ "'".toList),
      none, world⟩
  | none =>
    match context.overrideDecision with
    | some .deny =>
      ⟨.deny (context.overrideReason.getD ("tool '".toList ++ toolName ++ "' denied by hook".toList)),
        none, world⟩
    | some .ask =>
      let reason := context.overrideReason.getD
        ("tool '".toList ++ toolName ++ "' requires approval due to hook guidance".toList)
      promptOrDeny toolName input policy.activeMode (policy.requiredModeFor toolName) (some reason)
        prompter world
    | some .allow | none => authorizeByMode objectStrings policy toolName input prompter world

end Authorize

inductive EnforcementResult where
  | allowed
  | denied (tool activeMode requiredMode reason : Str)
  deriving DecidableEq, Repr

section Enforce

variable (objectStrings : Str → Option (Str → Option Str)) (policy : PermissionPolicy)

def checkWithRequiredMode (toolName input : Str) (requiredMode : PermissionMode) : EnforcementResult :=
  if policy.activeMode = .prompt then
    .allowed
  else if requiredMode ≤ policy.activeMode then
    .allowed
  else
    .denied toolName policy.activeMode.asStr requiredMode.asStr
      ("'".toList ++ toolName ++ "' with input '".toList ++ input ++ "' requires '".toList
        ++ requiredMode.asStr ++ "' permission, but current mode is '".toList
        ++ policy.activeMode.asStr ++ "'".toList)

end Enforce

end ClawCode
