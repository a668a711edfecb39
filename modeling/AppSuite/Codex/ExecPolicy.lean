import AppSuite.Data.OrderedMap

/-!
This module contains the execution policies, and what a second policy laid over the first one does
to a decision.
-/

namespace Codex.ExecPolicy

open List

inductive Decision where
  | allow
  | prompt
  | forbidden
  deriving DecidableEq, Repr

namespace Decision

def rank : Decision → Nat
  | allow => 0
  | prompt => 1
  | forbidden => 2

theorem rank_injective : Function.Injective rank := by
  intro a b h
  cases a <;> cases b <;> first | rfl | contradiction

instance : LinearOrder Decision := LinearOrder.lift' rank rank_injective

end Decision

inductive PatternToken where
  | single (expected : String)
  | alts (alternatives : List String)
  deriving DecidableEq, Repr

def PatternToken.matches : PatternToken → String → Bool
  | single expected, token => expected == token
  | alts alternatives, token => alternatives.any (· == token)

structure PrefixPattern where
  first : String
  rest : List PatternToken
  deriving DecidableEq, Repr

def PrefixPattern.matchesPrefix (p : PrefixPattern) (cmd : List String) : Option (List String) :=
  let patternLength := p.rest.length + 1
  if cmd.length < patternLength ∨ cmd.head? ≠ some p.first then
    none
  else if (p.rest.zip ((cmd.take patternLength).drop 1)).all (fun e => e.1.matches e.2) then
    some (cmd.take patternLength)
  else
    none

structure PrefixRule where
  pattern : PrefixPattern
  decision : Decision
  justification : Option String
  deriving DecidableEq, Repr

inductive RuleMatch (Path : Type) where
  | prefixRuleMatch (matchedPrefix : List String) (decision : Decision) (resolvedProgram : Option Path)
    (justification : Option String)
  | heuristicsRuleMatch (command : List String) (decision : Decision)
  deriving DecidableEq, Repr

namespace RuleMatch

variable {Path : Type}

def decision : RuleMatch Path → Decision
  | prefixRuleMatch _ decision _ _ => decision
  | heuristicsRuleMatch _ decision => decision

def withResolvedProgram (m : RuleMatch Path) (program : Path) : RuleMatch Path :=
  match m with
  | prefixRuleMatch matchedPrefix decision _ justification =>
    prefixRuleMatch matchedPrefix decision (some program) justification
  | other => other

end RuleMatch

def PrefixRule.matches {Path : Type} (rule : PrefixRule) (cmd : List String)
    : Option (RuleMatch Path) :=
  (rule.pattern.matchesPrefix cmd).map fun matchedPrefix =>
    .prefixRuleMatch matchedPrefix rule.decision none rule.justification

inductive NetworkRuleProtocol where
  | http
  | https
  | socks5Tcp
  | socks5Udp
  deriving DecidableEq, Repr

structure NetworkRule where
  host : String
  protocol : NetworkRuleProtocol
  decision : Decision
  justification : Option String
  deriving DecidableEq, Repr

-- What the platform says about paths: which texts are absolute paths (after expansion and
-- normalisation), and under which name the executable at a path is looked up.
structure Paths (Path : Type) where
  absolutePathBuf : String → Option Path
  executablePathLookupKey : Path → Option String

structure MatchOptions where
  resolveHostExecutables : Bool

structure Policy (Path : Type) where
  rulesByProgram : MultiMap String PrefixRule
  networkRules : List NetworkRule
  hostExecutablesByName : OrderedMap String (List Path)

structure Evaluation (Path : Type) where
  decision : Decision
  matchedRules : List (RuleMatch Path)

def Evaluation.fromMatches {Path : Type} (matchedRules : List (RuleMatch Path))
    : Option (Evaluation Path) :=
  (matchedRules.map RuleMatch.decision).max?.map fun decision => ⟨decision, matchedRules⟩

theorem Evaluation.fromMatches_mono {Path : Type} {ms ms' : List (RuleMatch Path)} (hne : ms ≠ [])
    (hstrict : ∀ m ∈ ms, ∃ m' ∈ ms', m.decision ≤ m'.decision)
    : ∃ e e', fromMatches ms = some e ∧ fromMatches ms' = some e' ∧ e.decision ≤ e'.decision := by
  have hne' : ms' ≠ [] := by
    obtain ⟨m, hm⟩ := exists_mem_of_ne_nil ms hne
    obtain ⟨m', hm', _⟩ := hstrict m hm
    exact ne_nil_of_mem hm'
  have hsome : ∀ {l : List (RuleMatch Path)}, l ≠ [] → ∃ d, (l.map RuleMatch.decision).max? = some d := by
    intro l hl
    apply Option.ne_none_iff_exists'.mp
    rw [Ne, max?_eq_none_iff, map_eq_nil_iff]
    exact hl
  obtain ⟨d, hd⟩ := hsome hne
  obtain ⟨d', hd'⟩ := hsome hne'
  refine ⟨⟨d, ms⟩, ⟨d', ms'⟩, ?_, ?_, ?_⟩
  . rw [fromMatches, hd]
    rfl
  . rw [fromMatches, hd']
    rfl
  . rw [max?_eq_some_iff] at hd hd'
    obtain ⟨m, hm, rfl⟩ := mem_map.mp hd.1
    obtain ⟨m', hm', hle⟩ := hstrict m hm
    exact hle.trans (hd'.2 _ (mem_map_of_mem hm'))

namespace Policy

variable {Path : Type} [DecidableEq Path]

def mergeOverlay (policy overlay : Policy Path) : Policy Path where
  rulesByProgram := policy.rulesByProgram.insertAll overlay.rulesByProgram.entries
  networkRules := policy.networkRules ++ overlay.networkRules
  hostExecutablesByName := policy.hostExecutablesByName.assign overlay.hostExecutablesByName

def matchExactRules (policy : Policy Path) (cmd : List String) : Option (List (RuleMatch Path)) :=
  match cmd with
  | [] => none
  | first :: _ => some ((policy.rulesByProgram.getVec first).filterMap (·.matches cmd))

-- A name without a list of executables stands for every executable of that name.
def listsHostExecutable (policy : Policy Path) (basename : String) (program : Path) : Bool :=
  match policy.hostExecutablesByName.get? basename with
  | none => true
  | some programs => programs.any (· == program)

variable (paths : Paths Path) (policy : Policy Path) (cmd : List String)

def matchHostExecutableRules : List (RuleMatch Path) :=
  match cmd with
  | [] => []
  | first :: args =>
    match paths.absolutePathBuf first with
    | none => []
    | some program =>
      match paths.executablePathLookupKey program with
      | none => []
      | some basename =>
        if policy.listsHostExecutable basename program then
          ((policy.rulesByProgram.getVec basename).filterMap (·.matches (basename :: args))).map
            (·.withResolvedProgram program)
        else
          []

def matchesForCommandWithOptions (heuristicsFallback : Option (List String → Decision))
    (options : MatchOptions) : List (RuleMatch Path) :=
  let exact := (policy.matchExactRules cmd).filter (!·.isEmpty)
  let resolved :=
    (if options.resolveHostExecutables then some (policy.matchHostExecutableRules paths cmd) else none).filter
      (!·.isEmpty)
  let matchedRules := (exact.or resolved).getD []
  match matchedRules, heuristicsFallback with
  | [], some heuristicsFallback => [.heuristicsRuleMatch cmd (heuristicsFallback cmd)]
  | matchedRules, _ => matchedRules

def checkWithOptions (heuristicsFallback : List String → Decision) (options : MatchOptions) : Option (Evaluation Path) :=
  Evaluation.fromMatches (policy.matchesForCommandWithOptions paths cmd (some heuristicsFallback) options)

def checkMultipleWithOptions (commands : List (List String))
    (heuristicsFallback : List String → Decision) (options : MatchOptions) : Option (Evaluation Path) :=
  Evaluation.fromMatches (commands.flatMap fun cmd =>
    policy.matchesForCommandWithOptions paths cmd (some heuristicsFallback) options)

/-! Which rules match a command, and the order in which the two kinds of match are tried. -/

def exactMatches : List (RuleMatch Path) :=
  (policy.matchExactRules cmd).getD []

def MatchesExactly : Prop := policy.exactMatches cmd ≠ []

def MatchesThroughPath (options : MatchOptions) (cmd : List String) : Prop :=
  options.resolveHostExecutables = true ∧ policy.matchHostExecutableRules paths cmd ≠ []

omit [DecidableEq Path] in
theorem exactMatches_cons (first : String) (args : List String)
    : policy.exactMatches (first :: args)
      = (policy.rulesByProgram.getVec first).filterMap (·.matches (first :: args)) := by
  rfl

variable {cmd : List String} {overlay : Policy Path} {policy base : Policy Path} {options : MatchOptions}

theorem matchesForCommandWithOptions_of_exact (h : policy.MatchesExactly cmd)
    (fallback : Option (List String → Decision)) (options : MatchOptions)
    : policy.matchesForCommandWithOptions paths cmd fallback options = policy.exactMatches cmd := by
  unfold MatchesExactly exactMatches at h
  unfold matchesForCommandWithOptions exactMatches
  cases hrules : policy.matchExactRules cmd with
  | none =>
    rw [hrules] at h
    contradiction
  | some rules =>
    rw [hrules] at h
    cases rules with
    | nil => contradiction
    | cons rule rules => rfl

theorem matchesForCommandWithOptions_of_path (hexact : ¬policy.MatchesExactly cmd)
    (h : policy.MatchesThroughPath paths options cmd) (fallback : Option (List String → Decision))
    : policy.matchesForCommandWithOptions paths cmd fallback options
      = policy.matchHostExecutableRules paths cmd := by
  unfold MatchesExactly exactMatches at hexact
  unfold matchesForCommandWithOptions
  have hnone : (policy.matchExactRules cmd).filter (!·.isEmpty) = none := by
    cases hrules : policy.matchExactRules cmd with
    | none => rfl
    | some rules =>
      rw [hrules, not_not] at hexact
      change rules = [] at hexact
      rw [hexact]
      rfl
  rw [hnone, if_pos h.1]
  cases hrules : policy.matchHostExecutableRules paths cmd with
  | nil => exact absurd hrules h.2
  | cons rule rules => rfl

theorem matchesForCommandWithOptions_ne_nil (policy : Policy Path) (cmd : List String)
    (fallback : List String → Decision) (options : MatchOptions)
    : policy.matchesForCommandWithOptions paths cmd (some fallback) options ≠ [] := by
  unfold matchesForCommandWithOptions
  dsimp only
  split
  . simp
  . next hne =>
    intro h
    exact hne fallback h rfl

omit [DecidableEq Path] in
theorem getVec_mergeOverlay (base overlay : Policy Path) (program : String)
    : (base.mergeOverlay overlay).rulesByProgram.getVec program
      = base.rulesByProgram.getVec program ++ overlay.rulesByProgram.getVec program := by
  exact MultiMap.getVec_insertAll_entries base.rulesByProgram overlay.rulesByProgram program

omit [DecidableEq Path] in
theorem exactMatches_mergeOverlay (base overlay : Policy Path) (cmd : List String)
    : (base.mergeOverlay overlay).exactMatches cmd
      = base.exactMatches cmd ++ overlay.exactMatches cmd := by
  cases cmd with
  | nil => rfl
  | cons first args =>
    rw [exactMatches_cons, exactMatches_cons, exactMatches_cons, getVec_mergeOverlay,
      filterMap_append]

theorem listsHostExecutable_mergeOverlay
    (hbase : base.listsHostExecutable basename program = true)
    (hoverlay : overlay.listsHostExecutable basename program = true)
    : (base.mergeOverlay overlay).listsHostExecutable basename program = true := by
  unfold listsHostExecutable at *
  unfold mergeOverlay
  rw [OrderedMap.get?_assign]
  cases hlist : overlay.hostExecutablesByName.get? basename with
  | none => exact hbase
  | some programs =>
    rw [hlist] at hoverlay
    exact hoverlay

def AdmitsHostExecutable (policy : Policy Path) (cmd : List String) : Prop :=
  ∀ first ∈ cmd.head?, ∀ program ∈ paths.absolutePathBuf first,
    ∀ basename ∈ paths.executablePathLookupKey program,
      policy.listsHostExecutable basename program = true

theorem matchHostExecutableRules_subset (base : Policy Path) (h : overlay.AdmitsHostExecutable paths cmd)
    : base.matchHostExecutableRules paths cmd
      ⊆ (base.mergeOverlay overlay).matchHostExecutableRules paths cmd := by
  unfold matchHostExecutableRules
  split
  . apply nil_subset
  . next first args =>
    specialize h first rfl
    split
    . apply nil_subset
    . next program hprogram =>
      specialize h program hprogram
      split
      . apply nil_subset
      . next basename hbasename =>
        specialize h basename hbasename
        split
        . next hlisted =>
          rw [if_pos (listsHostExecutable_mergeOverlay hlisted h), getVec_mergeOverlay,
            filterMap_append, map_append]
          apply subset_append_left
        . apply nil_subset

def KeepsDeciding (base overlay : Policy Path) (options : MatchOptions) (cmd : List String) : Prop :=
  base.MatchesExactly cmd ∨
    (base.MatchesThroughPath paths options cmd ∧
      (¬overlay.MatchesExactly cmd ∧ overlay.AdmitsHostExecutable paths cmd ∨
        ∃ m' ∈ overlay.exactMatches cmd, ∀ m ∈ base.matchHostExecutableRules paths cmd,
          m.decision ≤ m'.decision))

theorem exists_stricter_match {paths : Paths Path} (h : KeepsDeciding paths base overlay options cmd)
    (fallback : Option (List String → Decision))
    : ∀ m ∈ base.matchesForCommandWithOptions paths cmd fallback options,
      ∃ m' ∈ (base.mergeOverlay overlay).matchesForCommandWithOptions paths cmd fallback options,
        m.decision ≤ m'.decision := by
  have hmerged (hne : base.MatchesExactly cmd ∨ overlay.MatchesExactly cmd)
      : (base.mergeOverlay overlay).matchesForCommandWithOptions paths cmd fallback options
        = base.exactMatches cmd ++ overlay.exactMatches cmd := by
    rw [matchesForCommandWithOptions_of_exact, exactMatches_mergeOverlay]
    rw [MatchesExactly, exactMatches_mergeOverlay, ne_eq, append_eq_nil_iff, not_and_or]
    exact hne
  by_cases hexact : base.MatchesExactly cmd
  . rw [matchesForCommandWithOptions_of_exact paths hexact, hmerged (.inl hexact)]
    exact fun m hm => ⟨m, mem_append_left _ hm, le_rfl⟩
  . obtain ⟨hpath, ⟨hoverlay, hadmits⟩ | ⟨m', hm', hstrict⟩⟩ := h.resolve_left hexact
    . have hsub := matchHostExecutableRules_subset paths base hadmits
      have hnot : ¬(base.mergeOverlay overlay).MatchesExactly cmd := by
        unfold MatchesExactly at *
        rw [not_not] at *
        rw [exactMatches_mergeOverlay, hexact, hoverlay]
        rfl
      have hmergedPath : (base.mergeOverlay overlay).MatchesThroughPath paths options cmd := by
        refine ⟨hpath.1, ?_⟩
        intro hnil
        rw [hnil, subset_nil] at hsub
        exact hpath.2 hsub
      rw [matchesForCommandWithOptions_of_path paths hexact hpath,
        matchesForCommandWithOptions_of_path paths hnot hmergedPath]
      exact fun m hm => ⟨m, hsub hm, le_rfl⟩
    . rw [matchesForCommandWithOptions_of_path paths hexact hpath, hmerged (.inr (ne_nil_of_mem hm'))]
      exact fun m hm => ⟨m', mem_append_right _ hm', hstrict m hm⟩

theorem mergeOverlay_at_least_as_strict (paths : Paths Path) (base overlay : Policy Path)
    (fallback : List String → Decision) (options : MatchOptions)
    : (∀ cmd, KeepsDeciding paths base overlay options cmd →
        ∃ e e', base.checkWithOptions paths cmd fallback options = some e ∧
          (base.mergeOverlay overlay).checkWithOptions paths cmd fallback options = some e' ∧
          e.decision ≤ e'.decision) ∧
      (∀ commands, commands ≠ [] → (∀ cmd ∈ commands, KeepsDeciding paths base overlay options cmd) →
        ∃ e e', base.checkMultipleWithOptions paths commands fallback options = some e ∧
          (base.mergeOverlay overlay).checkMultipleWithOptions paths commands fallback options = some e' ∧
          e.decision ≤ e'.decision) := by
  constructor
  . intro cmd h
    apply Evaluation.fromMatches_mono
    . apply matchesForCommandWithOptions_ne_nil
    . exact exists_stricter_match h _
  . intro commands hne h
    apply Evaluation.fromMatches_mono
    . obtain ⟨cmd, hcmd⟩ := exists_mem_of_ne_nil commands hne
      intro hnil
      rw [flatMap_eq_nil_iff] at hnil
      exact matchesForCommandWithOptions_ne_nil paths base cmd fallback options (hnil cmd hcmd)
    . intro m hm
      obtain ⟨cmd, hcmd, hmem⟩ := mem_flatMap.mp hm
      obtain ⟨m', hm', hle⟩ := exists_stricter_match (h cmd hcmd) _ m hmem
      exact ⟨m', mem_flatMap.mpr ⟨cmd, hcmd, hm'⟩, hle⟩

/-! A base policy that forbids `git push`, reached through the path of the executable as well. -/

def slashPaths : Paths String where
  absolutePathBuf s := if s.toList.head? = some '/' then some s else none
  executablePathLookupKey s := some (String.ofList (s.toList.reverse.takeWhile (· ≠ '/')).reverse)

def forbidsGitPush : Policy String :=
  ⟨MultiMap.insert .empty "git" ⟨⟨"git", [.single "push"]⟩, .forbidden, none⟩, [], .empty⟩

def promptsForGit : Policy String :=
  ⟨MultiMap.insert .empty "git" ⟨⟨"git", []⟩, .prompt, none⟩, [], .empty⟩

def allowsGitPath : Policy String :=
  ⟨MultiMap.insert .empty "/usr/bin/git" ⟨⟨"/usr/bin/git", []⟩, .allow, none⟩, [], .empty⟩

theorem mergeOverlay_at_least_as_strict_gitPush
    : ∃ e e', forbidsGitPush.checkWithOptions slashPaths ["/usr/bin/git", "push"] (fun _ => .allow) ⟨true⟩ = some e ∧
      (forbidsGitPush.mergeOverlay promptsForGit).checkWithOptions slashPaths ["/usr/bin/git", "push"]
        (fun _ => .allow) ⟨true⟩ = some e' ∧
      e.decision ≤ e'.decision := by
  apply (mergeOverlay_at_least_as_strict slashPaths forbidsGitPush promptsForGit (fun _ => .allow) ⟨true⟩).1
  refine .inr ⟨⟨rfl, by decide⟩, .inl ⟨?_, ?_⟩⟩
  . unfold MatchesExactly
    decide
  . intro _ _ _ _ _ _
    rfl

def listsOptGit : Policy String := ⟨.empty, [], OrderedMap.empty.set "git" ["/opt/bin/git"]⟩

theorem mergeOverlay_weakens_resolved
    : forbidsGitPush.MatchesThroughPath slashPaths ⟨true⟩ ["/usr/bin/git", "push"] ∧
      (forbidsGitPush.checkWithOptions slashPaths ["/usr/bin/git", "push"] (fun _ => .allow) ⟨true⟩).map
        Evaluation.decision = some .forbidden ∧
      ((forbidsGitPush.mergeOverlay allowsGitPath).checkWithOptions slashPaths ["/usr/bin/git", "push"]
        (fun _ => .allow) ⟨true⟩).map Evaluation.decision = some .allow ∧
      ((forbidsGitPush.mergeOverlay listsOptGit).checkWithOptions slashPaths ["/usr/bin/git", "push"]
        (fun _ => .allow) ⟨true⟩).map Evaluation.decision = some .allow := by
  refine ⟨⟨rfl, ?_⟩, ?_, ?_, ?_⟩
  . decide
  . decide
  . decide
  . decide

end Policy

end Codex.ExecPolicy
