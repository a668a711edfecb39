import AppSuite.Deno.Npm.Overrides

/-!
This module contains which rule each of the two override lookups reads.
-/

namespace Deno.Npm

open List NpmOverrideRule

variable {ρ ν : Type} (value : NpmOverrideValue ρ)

def NpmOverrideValue.versionReq? : Option ρ :=
  match value with
  | .version req | .alias _ req => some req
  | .inherited | .removed => none

def NpmOverrideValue.package? : Option Str :=
  match value with
  | .alias package _ => some package
  | _ => none

def NpmOverrideValue.isInherited : Bool :=
  match value with
  | .inherited => true
  | _ => false

def NpmOverrideRule.unconditional (depName : Str) (rule : NpmOverrideRule ρ) : Bool :=
  rule.name = depName ∧ rule.selector.isNone

variable (satisfies : ρ → ν → Bool)

def NpmOverrideRule.applies (depName : Str) (resolvedVersion : Option ν) (rule : NpmOverrideRule ρ)
    : Bool :=
  rule.name = depName ∧ ¬rule.value.isInherited
    ∧ rule.selector.all fun selector => resolvedVersion.any (satisfies selector)

variable (rules : NpmOverrides ρ) (depName : Str) (resolvedVersion : Option ν)

def overridingRule : Option (NpmOverrideRule ρ) :=
  (rules.find? (·.applies satisfies depName resolvedVersion)).filter (·.value.versionReq?.isSome)

theorem getOverrideFor_eq_find?
    : getOverrideFor satisfies rules depName resolvedVersion
      = (rules.find? (·.applies satisfies depName resolvedVersion)).bind (·.value.versionReq?) := by
  induction rules with
  | nil => rfl
  | cons rule rules ih =>
    have ⟨name, selector, value, children⟩ := rule
    rw [getOverrideFor, find?_cons]
    by_cases hname : name = depName
    . cases selector with
      | none =>
        cases value <;>
          simp [hname, ih, applies, NpmOverrideValue.isInherited,
            NpmOverrideValue.versionReq?]
      | some selector =>
        cases hmatch : resolvedVersion.any (satisfies selector) <;> cases value <;>
          simp [hname, hmatch, ih, applies, NpmOverrideValue.isInherited,
            NpmOverrideValue.versionReq?]
    . simp [hname, ih, applies]

theorem getOverrideFor_eq
    : getOverrideFor satisfies rules depName resolvedVersion
      = (overridingRule satisfies rules depName resolvedVersion).bind (·.value.versionReq?) := by
  rw [getOverrideFor_eq_find?, overridingRule]
  cases rules.find? (·.applies satisfies depName resolvedVersion) with
  | none => rfl
  | some rule => cases hreq : rule.value.versionReq? <;> simp [Option.filter, hreq]

theorem getAliasFor_eq
    : getAliasFor rules depName = (rules.find? (·.unconditional depName)).bind (·.value.package?) := by
  induction rules with
  | nil => rfl
  | cons rule rules ih =>
    rw [getAliasFor, find?_cons]
    split
    . next h =>
      have hno : rule.unconditional depName = false := by
        simp only [unconditional, decide_eq_false_iff_not, not_and]
        intro hname
        have hsome : rule.selector.isSome := h.resolve_left (not_not_intro hname)
        rw [Option.isNone_eq_false_iff.mpr hsome]
        exact Bool.false_ne_true
      rw [hno, ih]
    . next h =>
      have hyes : rule.unconditional depName = true := by
        simpa [unconditional] using h
      rw [hyes]
      rfl

theorem find?_of_imp {α : Type} {p q : α → Bool} {l : List α} {a : α}
    (hpq : ∀ x, p x = true → q x = true) (h : l.find? q = some a) (ha : p a = true)
    : l.find? p = some a := by
  rw [find?_eq_some_iff_append] at h ⊢
  have ⟨_, before, after, hl, hbefore⟩ := h
  refine ⟨ha, before, after, hl, ?_⟩
  intro x hx
  have hq := hbefore x hx
  cases hp : p x with
  | false => rfl
  | true =>
    rw [hpq x hp] at hq
    cases hq

section

variable {satisfies} {rules : NpmOverrides ρ} {depName : Str} {rule : NpmOverrideRule ρ}

theorem applies_none_iff
    : rule.applies satisfies depName none = true
      ↔ rule.unconditional depName = true ∧ rule.value.isInherited = false := by
  unfold applies unconditional
  cases rule.selector <;> simp

variable {resolvedVersion : Option ν}

theorem find?_applies_of_unconditional
    (h : rules.find? (·.unconditional depName) = some rule) (hvalue : rule.value.isInherited = false)
    : rules.find? (·.applies satisfies depName none) = some rule := by
  apply find?_of_imp _ h
  . exact applies_none_iff.mpr ⟨find?_some h, hvalue⟩
  . intro x hx
    exact (applies_none_iff.mp hx).1

theorem applies_of_overridingRule (h : overridingRule satisfies rules depName resolvedVersion = some rule)
    : rules.find? (·.applies satisfies depName resolvedVersion) = some rule
      ∧ rule.value.versionReq?.isSome = true := by
  unfold overridingRule at h
  rw [Option.filter_eq_some_iff] at h
  exact h

theorem package?_of_isInherited {value : NpmOverrideValue ρ} (h : value.isInherited = true)
    : value.package? = none := by
  cases value
  case inherited => rfl
  all_goals cases h

theorem filter_bind_package? (rule : NpmOverrideRule ρ)
    : ((some rule).filter (·.value.versionReq?.isSome)).bind (·.value.package?)
      = rule.value.package? := by
  cases hvalue : rule.value <;>
    simp [Option.filter, hvalue, NpmOverrideValue.versionReq?, NpmOverrideValue.package?]

end

structure LookupsAgree (rules : NpmOverrides ρ) (depName : Str) : Prop where
  alias_iff : ∀ package, getAliasFor rules depName = some package
    ↔ ∃ rule, overridingRule satisfies rules depName none = some rule
        ∧ rule.value.package? = some package
  none_of_no_alias : (∀ rule, overridingRule satisfies rules depName none = some rule
    → rule.value.package? = none) → getAliasFor rules depName = none

def AliasBehindInherited (depName package : Str) : Prop :=
  ∃ before rule after, rules = before ++ rule :: after
    ∧ rule.unconditional depName = true ∧ rule.value.package? = some package
    ∧ (∀ other ∈ before, other.unconditional depName = true → other.value.isInherited = true)
    ∧ ∃ other ∈ before, other.unconditional depName = true

section

variable {satisfies} {rules : NpmOverrides ρ} {depName package : Str} {value : NpmOverrideValue ρ}

theorem isInherited_of_package? (h : value.package? = some package) : value.isInherited = false := by
  rw [Bool.eq_false_iff]
  intro hinherited
  rw [package?_of_isInherited hinherited] at h
  cases h

theorem isSome_versionReq?_of_package? (h : value.package? = some package)
    : value.versionReq?.isSome = true := by
  cases value <;> first | rfl | cases h

theorem overridingRule_eq_some_iff {rule : NpmOverrideRule ρ} (hpackage : rule.value.package? = some package)
    : overridingRule satisfies rules depName none = some rule
      ↔ ∃ before after, rules = before ++ rule :: after ∧ rule.unconditional depName = true
          ∧ ∀ other ∈ before, other.unconditional depName = true → other.value.isInherited = true := by
  have hown := isInherited_of_package? hpackage
  have hreq := isSome_versionReq?_of_package? hpackage
  have hpass : ∀ other : NpmOverrideRule ρ, (!other.applies satisfies depName none) = true
      ↔ (other.unconditional depName = true → other.value.isInherited = true) := by
    intro other
    rw [Bool.not_eq_true', Bool.eq_false_iff, ne_eq, applies_none_iff, not_and, Bool.not_eq_false]
  unfold overridingRule
  rw [Option.filter_eq_some_iff, find?_eq_some_iff_append, applies_none_iff]
  simp only [hown, hreq, hpass, and_true]
  constructor
  . intro ⟨hcond, before, after, hrules, hbefore⟩
    exact ⟨before, after, hrules, hcond, hbefore⟩
  . intro ⟨before, after, hrules, hcond, hbefore⟩
    exact ⟨hcond, before, after, hrules, hbefore⟩

variable (satisfies) in
theorem overridingRule_of_behind (h : AliasBehindInherited rules depName package)
    : ∃ rule, overridingRule satisfies rules depName none = some rule
      ∧ rule.value.package? = some package := by
  have ⟨before, rule, after, hrules, hcond, hpackage, hbefore, _⟩ := h
  exact ⟨rule, (overridingRule_eq_some_iff hpackage).mpr ⟨before, after, hrules, hcond, hbefore⟩, hpackage⟩

theorem getAliasFor_of_behind (h : AliasBehindInherited rules depName package)
    : getAliasFor rules depName = none := by
  have ⟨before, rule, after, hrules, _, _, hbefore, other, hother, hcond⟩ := h
  rw [getAliasFor_eq, hrules, find?_append]
  cases hfirst : before.find? (·.unconditional depName) with
  | none => exact absurd hcond (find?_eq_none.mp hfirst other hother)
  | some first =>
    have hinherited := hbefore first (mem_of_find?_eq_some hfirst) (find?_some hfirst)
    exact package?_of_isInherited hinherited

variable (satisfies) in
theorem getAliasFor_eq_overridingRule (h : ∀ package, ¬AliasBehindInherited rules depName package)
    : getAliasFor rules depName
      = (overridingRule satisfies rules depName none).bind (·.value.package?) := by
  rw [getAliasFor_eq]
  cases hfirst : rules.find? (·.unconditional depName) with
  | none =>
    cases hrule : overridingRule satisfies rules depName none with
    | none => rfl
    | some rule =>
      have hfound := (applies_of_overridingRule hrule).1
      have happlies := applies_none_iff.mp (find?_some hfound)
      exact absurd happlies.1 (find?_eq_none.mp hfirst rule (mem_of_find?_eq_some hfound))
  | some first =>
    cases hvalue : first.value.isInherited with
    | false =>
      rw [overridingRule, find?_applies_of_unconditional hfirst hvalue]
      exact (filter_bind_package? first).symm
    | true =>
      have hnone := package?_of_isInherited hvalue
      cases hrule : overridingRule satisfies rules depName none with
      | none => exact hnone
      | some rule =>
        cases hpackage : rule.value.package? with
        | none => simp [hnone, hpackage]
        | some package =>
          have ⟨before, after, hrules, hcond, hbefore⟩ := (overridingRule_eq_some_iff hpackage).mp hrule
          refine absurd ⟨before, rule, after, hrules, hcond, hpackage, hbefore, ?_⟩ (h package)
          by_contra hno
          have hskip : before.find? (·.unconditional depName) = none := by
            rw [find?_eq_none]
            intro other hother hcond'
            exact hno ⟨other, hother, hcond'⟩
          rw [hrules, find?_append, hskip, Option.none_or, find?_cons_of_pos hcond] at hfirst
          cases hfirst
          rw [isInherited_of_package? hpackage] at hvalue
          cases hvalue

theorem lookupsAgree_iff
    : LookupsAgree satisfies rules depName ↔ ∀ package, ¬AliasBehindInherited rules depName package := by
  constructor
  . intro hagree package hbehind
    have hsome := (hagree.alias_iff package).mpr (overridingRule_of_behind satisfies hbehind)
    rw [getAliasFor_of_behind hbehind] at hsome
    cases hsome
  . intro hbehind
    have heq := getAliasFor_eq_overridingRule satisfies hbehind
    constructor
    . intro package
      rw [heq, Option.bind_eq_some_iff]
    . intro hno
      rw [heq, Option.bind_eq_none_iff]
      exact hno

end

variable (rules : NpmOverrides ρ) (entry : NpmDependencyEntry ρ) (naturalVersion : Option ν)

def effectiveRule : Option (NpmOverrideRule ρ) :=
  (overridingRule satisfies rules entry.name none).or
    (naturalVersion.bind fun version => overridingRule satisfies rules entry.name (some version))

theorem effectiveReq_eq
    : effectiveReq satisfies rules entry naturalVersion
      = ((effectiveRule satisfies rules entry naturalVersion).bind (·.value.versionReq?)).getD
          entry.versionReq := by
  unfold effectiveReq effectiveRule
  simp only [getOverrideFor_eq]
  cases hrule : overridingRule satisfies rules entry.name none with
  | some rule =>
    have ⟨req, hreq⟩ := Option.isSome_iff_exists.mp (applies_of_overridingRule hrule).2
    simp [hreq]
  | none =>
    cases naturalVersion with
    | none => rfl
    | some version =>
      cases hnatural : overridingRule satisfies rules entry.name (some version) with
      | none => simp [hnatural]
      | some rule =>
        have ⟨req, hreq⟩ := Option.isSome_iff_exists.mp (applies_of_overridingRule hnatural).2
        simp [hnatural, hreq]

def requirementPackage : Str :=
  ((effectiveRule satisfies rules entry naturalVersion).bind (·.value.package?)).getD entry.name

def AliasBySelector (depName : Str) (naturalVersion : Option ν) (package : Str) : Prop :=
  (∀ rule, rules.find? (·.applies satisfies depName none) = some rule → rule.value.versionReq? = none)
    ∧ ∃ version rule, naturalVersion = some version
        ∧ rules.find? (·.applies satisfies depName (some version)) = some rule
        ∧ rule.value.package? = some package

section

variable {satisfies} {rules : NpmOverrides ρ} {entry : NpmDependencyEntry ρ} {naturalVersion : Option ν}

theorem overridingRule_eq_none_iff {depName : Str} {resolvedVersion : Option ν}
    : overridingRule satisfies rules depName resolvedVersion = none
      ↔ ∀ rule, rules.find? (·.applies satisfies depName resolvedVersion) = some rule
          → rule.value.versionReq? = none := by
  unfold overridingRule
  cases rules.find? (·.applies satisfies depName resolvedVersion) <;>
    simp [Option.filter_eq_none_iff]

variable {package : Str}

theorem requirementPackage_of_behind (h : AliasBehindInherited rules entry.name package)
    : requirementPackage satisfies rules entry naturalVersion = package := by
  have ⟨rule, hrule, hpackage⟩ := overridingRule_of_behind satisfies h
  rw [requirementPackage, effectiveRule, hrule, Option.some_or, Option.bind_some, hpackage,
    Option.getD_some]

theorem effectiveRule_bind_package?_iff (hnone : overridingRule satisfies rules entry.name none = none)
    : (effectiveRule satisfies rules entry naturalVersion).bind (·.value.package?) = some package
      ↔ AliasBySelector satisfies rules entry.name naturalVersion package := by
  unfold effectiveRule AliasBySelector
  rw [hnone, Option.none_or, ← overridingRule_eq_none_iff, Option.bind_eq_some_iff]
  constructor
  . intro ⟨rule, hrule, hpackage⟩
    have ⟨version, hversion, hoverriding⟩ := Option.bind_eq_some_iff.mp hrule
    exact ⟨hnone, version, rule, hversion, (applies_of_overridingRule hoverriding).1, hpackage⟩
  . intro ⟨_, version, rule, hversion, hfind, hpackage⟩
    refine ⟨rule, ?_, hpackage⟩
    rw [hversion, Option.bind_some, overridingRule, Option.filter_eq_some_iff]
    exact ⟨hfind, isSome_versionReq?_of_package? hpackage⟩

theorem not_aliasBySelector (h : overridingRule satisfies rules entry.name none ≠ none)
    : ¬AliasBySelector satisfies rules entry.name naturalVersion package := by
  intro ⟨hnone, _⟩
  exact h (overridingRule_eq_none_iff.mpr hnone)

theorem fetchedName_eq_iff
    : fetchedName rules entry = requirementPackage satisfies rules entry naturalVersion
      ↔ ∀ package, package ≠ entry.name → ¬AliasBehindInherited rules entry.name package
          ∧ ¬AliasBySelector satisfies rules entry.name naturalVersion package := by
  by_cases hbehind : ∃ package, AliasBehindInherited rules entry.name package
  . have ⟨package, hbehind⟩ := hbehind
    have hrequirement
        : requirementPackage satisfies rules entry naturalVersion = package :=
      requirementPackage_of_behind hbehind
    have ⟨rule, hrule, _⟩ := overridingRule_of_behind satisfies hbehind
    rw [fetchedName, getAliasFor_of_behind hbehind, hrequirement, Option.getD_none]
    constructor
    . intro heq other hne
      constructor
      . intro hother
        rw [requirementPackage_of_behind hother] at hrequirement
        exact hne (hrequirement.trans heq.symm)
      . apply not_aliasBySelector
        rw [hrule]
        exact Option.some_ne_none rule
    . intro hall
      by_contra hne
      exact (hall package (Ne.symm hne)).1 hbehind
  . rw [not_exists] at hbehind
    have halias := getAliasFor_eq_overridingRule satisfies hbehind
    unfold fetchedName requirementPackage
    rw [halias]
    cases hrule : overridingRule satisfies rules entry.name none with
    | some rule =>
      have heffective : effectiveRule satisfies rules entry naturalVersion = some rule := by
        rw [effectiveRule, hrule, Option.some_or]
      rw [heffective]
      simp only [true_iff]
      intro package _
      refine ⟨hbehind package, not_aliasBySelector ?_⟩
      rw [hrule]
      exact Option.some_ne_none rule
    | none =>
      have hselector
          : ∀ package,
              (effectiveRule satisfies rules entry naturalVersion).bind (·.value.package?) = some package
                ↔ AliasBySelector satisfies rules entry.name naturalVersion package :=
        fun _ => effectiveRule_bind_package?_iff hrule
      constructor
      . intro heq package hne
        refine ⟨hbehind package, ?_⟩
        intro hby
        rw [(hselector package).mpr hby] at heq
        exact hne heq.symm
      . intro hall
        cases heffective : (effectiveRule satisfies rules entry naturalVersion).bind (·.value.package?) with
        | none => rfl
        | some package =>
          by_contra hne
          exact (hall package (Ne.symm hne)).2 ((hselector package).mp heffective)

end

theorem activeRules_lookups_iff (overrides : NpmOverrides ρ) (chain : List (Str × ν))
    (entry : NpmDependencyEntry ρ) (naturalVersion : Option ν)
    : (LookupsAgree satisfies (activeRules satisfies overrides chain) entry.name
        ↔ ∀ package,
            ¬AliasBehindInherited (activeRules satisfies overrides chain) entry.name package)
      ∧ (fetchedName (activeRules satisfies overrides chain) entry
            = requirementPackage satisfies (activeRules satisfies overrides chain) entry naturalVersion
          ↔ ∀ package, package ≠ entry.name
              → ¬AliasBehindInherited (activeRules satisfies overrides chain) entry.name package
                ∧ ¬AliasBySelector satisfies (activeRules satisfies overrides chain) entry.name
                    naturalVersion package)
      ∧ (∀ resolvedVersion,
          getOverrideFor satisfies (activeRules satisfies overrides chain) entry.name resolvedVersion
            = (overridingRule satisfies (activeRules satisfies overrides chain) entry.name
                resolvedVersion).bind (·.value.versionReq?))
      ∧ effectiveReq satisfies (activeRules satisfies overrides chain) entry naturalVersion
          = ((effectiveRule satisfies (activeRules satisfies overrides chain) entry
              naturalVersion).bind (·.value.versionReq?)).getD entry.versionReq := by
  refine ⟨lookupsAgree_iff, fetchedName_eq_iff, ?_, ?_⟩
  . intro resolvedVersion
    exact getOverrideFor_eq satisfies _ entry.name resolvedVersion
  . exact effectiveReq_eq satisfies _ entry naturalVersion

def exactly (req version : Str) : Bool := req = version

def parseExactly (text : Str) : Except Unit Str := .ok text

def scopedAlias : Json :=
  .object [
    ("parent".toList, .object [("foo".toList, .string "npm:bar@2.0.0".toList)]),
    ("foo".toList, .string "1.0.0".toList)]

def scopedAliasRules : NpmOverrides Str :=
  [⟨"parent".toList, none, .inherited,
      [⟨"foo".toList, none, .alias "bar".toList "2.0.0".toList, []⟩]⟩,
    ⟨"foo".toList, none, .version "1.0.0".toList, []⟩]

theorem scopedAlias_lookups
    : fromValue parseExactly .empty .empty scopedAlias = .ok scopedAliasRules
      ∧ LookupsAgree exactly
          (activeRules exactly scopedAliasRules [("parent".toList, "1.0.0".toList)]) "foo".toList := by
  apply And.intro rfl
  apply (activeRules_lookups_iff exactly scopedAliasRules [("parent".toList, "1.0.0".toList)]
    ⟨"foo".toList, "*".toList⟩ none).1.mpr
  intro package hbehind
  have hnone := getAliasFor_of_behind hbehind
  cases hnone

def hiddenAlias : Json :=
  .object [
    ("parent".toList, .object [("foo".toList, .object [("baz".toList, .string "1.0.0".toList)])]),
    ("foo".toList, .string "npm:bar@2.0.0".toList)]

def hiddenAliasRules : NpmOverrides Str :=
  [⟨"parent".toList, none, .inherited,
      [⟨"foo".toList, none, .inherited, [⟨"baz".toList, none, .version "1.0.0".toList, []⟩]⟩]⟩,
    ⟨"foo".toList, none, .alias "bar".toList "2.0.0".toList, []⟩]

theorem hiddenAlias_lookups_disagree
    : fromValue parseExactly .empty .empty hiddenAlias = .ok hiddenAliasRules
      ∧ ¬LookupsAgree exactly
          (activeRules exactly hiddenAliasRules [("parent".toList, "1.0.0".toList)]) "foo".toList
      ∧ effectiveReq exactly (activeRules exactly hiddenAliasRules [("parent".toList, "1.0.0".toList)])
          ⟨"foo".toList, "*".toList⟩ none
          = "2.0.0".toList
      ∧ fetchedName (activeRules exactly hiddenAliasRules [("parent".toList, "1.0.0".toList)])
          ⟨"foo".toList, "*".toList⟩
          = "foo".toList := by
  refine ⟨rfl, ?_, rfl, rfl⟩
  intro hagree
  have hnone := (hagree.alias_iff "bar".toList).mpr ⟨_, rfl, rfl⟩
  cases hnone

end Deno.Npm
