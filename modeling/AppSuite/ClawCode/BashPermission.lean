import AppSuite.Text.Search
import AppSuite.Text.Words
import AppSuite.ClawCode.Permissions

/-!
This module contains how a shell command is classified before it is run, and which chains of
commands are classified below one of their parts.
-/

namespace ClawCode

open Text

-- `std::env::var("HOME")` and `std::env::current_dir()`, where they succeed.
structure ShellEnv where
  home : Option Str
  cwd : Option Str

inductive PathComponent where
  | rootDir
  | curDir
  | parentDir
  | normal (name : Str)
  deriving DecidableEq, Repr

-- `Path::components`: a `.` counts only at the start of a relative path.
def pathComponents (path : Str) : List PathComponent :=
  let start :=
    if path.head? = some '/' then [PathComponent.rootDir]
    else if (path.splitOn '/').head? = some ['.'] then [.curDir]
    else []
  start ++ (path.splitOn '/').filterMap fun name =>
    if name = [] ∨ name = ['.'] then none
    else if name = ['.', '.'] then some .parentDir
    else some (.normal name)

def readOnlyCommands : List Str :=
  ["cat".toList, "head".toList, "tail".toList, "less".toList, "more".toList, "ls".toList, "ll".toList,
    "dir".toList, "find".toList, "test".toList, "[".toList, "[[".toList, "grep".toList, "rg".toList,
    "awk".toList, "sed".toList, "file".toList, "stat".toList, "readlink".toList, "wc".toList,
    "sort".toList, "uniq".toList, "cut".toList, "tr".toList, "pwd".toList, "echo".toList,
    "printf".toList]

def splitWhitespace (s : Str) : List Str := words isWhiteSpace s

-- `s.split(c).next().unwrap_or("").trim()`
def cutAt (c : Char) (s : Str) : Str := trim isWhiteSpace (s.takeWhile (· ≠ c))

def namesReadOnlyCommand (word : Str) : Bool :=
  let baseCmd := cutAt '<' (cutAt '>' (cutAt ';' (cutAt '|' word)))
  readOnlyCommands.contains (baseCmd.rtakeWhile (· ≠ '/'))

section

variable (env : ShellEnv)

def isDangerousPath (token : Str) : Bool :=
  if token.head? = some '-' then
    false
  else
    let outside :=
      if token.head? = some '/' ∨ "~/".toList <+: token then
        let path := token.flatMap fun c => if c = '~' then env.home.getD [] else [c]
        env.cwd.any fun cwd => ¬pathComponents cwd <+: pathComponents path
      else
        false
    outside || (find? "../..".toList token).isSome
      || ("../".toList <+: token ∧ ¬"./".toList <+: token)

def hasDangerousPaths (command : Str) : Bool := (splitWhitespace command).any (isDangerousPath env)

def classifyBashPermission (command : Str) : PermissionMode :=
  if !namesReadOnlyCommand ((splitWhitespace command).headD []) then
    .dangerFullAccess
  else if hasDangerousPaths env command then
    .dangerFullAccess
  else
    .workspaceWrite

def enforceBash (enforcer : Option PermissionPolicy) (input command : Str) : Except Str Unit :=
  match enforcer with
  | none => .ok ()
  | some policy =>
    match checkWithRequiredMode policy "bash".toList input (classifyBashPermission env command) with
    | .allowed => .ok ()
    | .denied _ _ _ reason => .error reason

end

def chainOperators : List Str := [";".toList, "&&".toList, "||".toList, "|".toList]

def CoversParts (env : ShellEnv) (first second chain : Str) : Prop :=
  classifyBashPermission env first ≤ classifyBashPermission env chain
    ∧ classifyBashPermission env second ≤ classifyBashPermission env chain

section

variable (env : ShellEnv)

def needsOnlyWorkspace (command : Str) : Prop :=
  namesReadOnlyCommand ((splitWhitespace command).headD []) = true
    ∧ ∀ word ∈ splitWhitespace command, isDangerousPath env word = false

theorem classifyBashPermission_eq (command : Str)
    : (needsOnlyWorkspace env command
        ∧ classifyBashPermission env command = .workspaceWrite)
      ∨ (¬needsOnlyWorkspace env command
        ∧ classifyBashPermission env command = .dangerFullAccess) := by
  unfold needsOnlyWorkspace classifyBashPermission hasDangerousPaths
  cases hname : namesReadOnlyCommand ((splitWhitespace command).headD []) with
  | false => simp
  | true =>
    cases hpath : (splitWhitespace command).any (isDangerousPath env) with
    | false =>
      simp_all
    | true =>
      rw [List.any_eq_true] at hpath
      have ⟨word, hword, hdanger⟩ := hpath
      simp only [Bool.not_true, Bool.false_eq_true, if_false, if_true, true_and, and_true]
      refine .inr ?_
      intro hall
      rw [hall word hword] at hdanger
      cases hdanger

theorem coversParts_iff (first second chain : Str)
    : CoversParts env first second chain
      ↔ (needsOnlyWorkspace env chain → needsOnlyWorkspace env first ∧ needsOnlyWorkspace env second) := by
  unfold CoversParts
  obtain ⟨hfirst, hf⟩ | ⟨hfirst, hf⟩ := classifyBashPermission_eq env first <;>
    obtain ⟨hsecond, hs⟩ | ⟨hsecond, hs⟩ := classifyBashPermission_eq env second <;>
    obtain ⟨hchain, hc⟩ | ⟨hchain, hc⟩ := classifyBashPermission_eq env chain <;>
    simp only [hf, hs, hc, hfirst, hsecond, hchain] <;> decide

end

structure Slips (env : ShellEnv) (first second front operator back : Str) : Prop where
  first_word : namesReadOnlyCommand
    ((splitWhitespace (beforeLastWord isWhiteSpace front)).headD
      (lastWord isWhiteSpace front ++ operator ++ firstWord isWhiteSpace back)) = true
  before : ∀ word ∈ splitWhitespace (beforeLastWord isWhiteSpace front),
    isDangerousPath env word = false
  joined : isDangerousPath env
    (lastWord isWhiteSpace front ++ operator ++ firstWord isWhiteSpace back) = false
  after : ∀ word ∈ splitWhitespace (afterFirstWord isWhiteSpace back),
    isDangerousPath env word = false
  part : namesReadOnlyCommand ((splitWhitespace first).headD []) = false
    ∨ isDangerousPath env (lastWord isWhiteSpace front) = true
    ∨ namesReadOnlyCommand ((splitWhitespace second).headD []) = false
    ∨ isDangerousPath env (firstWord isWhiteSpace back) = true

section

variable {env : ShellEnv} {first second blanks blanks' operator : Str}

theorem headD_append_cons {α : Type} (l : List α) (a d : α) (r : List α)
    : (l ++ a :: r).headD d = l.headD a := by
  cases l <;> rfl

theorem needsOnlyWorkspace_optional (front : List Str) {back : List Str}
    (h : splitWhitespace text = front ++ (if word = [] then [] else [word]) ++ back)
    : needsOnlyWorkspace env text
      ↔ namesReadOnlyCommand ((splitWhitespace text).headD []) = true
        ∧ (∀ word ∈ front, isDangerousPath env word = false) ∧ isDangerousPath env word = false
        ∧ ∀ word ∈ back, isDangerousPath env word = false := by
  have hnil : isDangerousPath env [] = false := rfl
  unfold needsOnlyWorkspace
  rw [and_congr_right_iff]
  intro _
  rw [h, List.forall_mem_append, List.forall_mem_append, and_assoc]
  split
  . next hword => simp [hword, hnil]
  . simp

theorem needsOnlyWorkspace_chain (hoperator : operator ∈ chainOperators) (front back : Str)
    : needsOnlyWorkspace env (front ++ (operator ++ back))
      ↔ namesReadOnlyCommand
          ((splitWhitespace (beforeLastWord isWhiteSpace front)).headD
            (lastWord isWhiteSpace front ++ operator
              ++ firstWord isWhiteSpace back)) = true
        ∧ (∀ word ∈ splitWhitespace (beforeLastWord isWhiteSpace front),
            isDangerousPath env word = false)
        ∧ isDangerousPath env (lastWord isWhiteSpace front ++ operator
            ++ firstWord isWhiteSpace back) = false
        ∧ ∀ word ∈ splitWhitespace (afterFirstWord isWhiteSpace back),
            isDangerousPath env word = false := by
  have hblank : ∀ operator ∈ chainOperators,
      (∀ c ∈ operator, isWhiteSpace c = false) ∧ operator ≠ [] := by
    simp [chainOperators, isWhiteSpace]
  have ⟨hop, hne⟩ := hblank operator hoperator
  unfold needsOnlyWorkspace splitWhitespace
  rw [words_join hop hne, headD_append_cons, List.forall_mem_append, List.forall_mem_cons]

theorem needsOnlyWorkspace_first (hblanks : ∀ c ∈ blanks, isWhiteSpace c = true)
    : needsOnlyWorkspace env first
      ↔ namesReadOnlyCommand ((splitWhitespace first).headD []) = true
        ∧ (∀ word ∈ splitWhitespace (beforeLastWord isWhiteSpace (first ++ blanks)),
            isDangerousPath env word = false)
        ∧ isDangerousPath env (lastWord isWhiteSpace (first ++ blanks)) = false := by
  have hwords := words_eq_beforeLastWord isWhiteSpace (first ++ blanks)
  rw [words_append_of_blank hblanks, ← List.append_nil (_ ++ _)] at hwords
  rw [needsOnlyWorkspace_optional _ hwords]
  simp [splitWhitespace]

theorem needsOnlyWorkspace_second (hblanks : ∀ c ∈ blanks, isWhiteSpace c = true)
    : needsOnlyWorkspace env second
      ↔ namesReadOnlyCommand ((splitWhitespace second).headD []) = true
        ∧ isDangerousPath env (firstWord isWhiteSpace (blanks ++ second)) = false
        ∧ ∀ word ∈ splitWhitespace (afterFirstWord isWhiteSpace (blanks ++ second)),
            isDangerousPath env word = false := by
  have hwords := words_eq_firstWord isWhiteSpace (blanks ++ second)
  rw [words_of_blank_append hblanks] at hwords
  rw [needsOnlyWorkspace_optional [] hwords]
  simp [splitWhitespace]

theorem coversParts_iff_slips (hoperator : operator ∈ chainOperators)
    (hblanks : ∀ c ∈ blanks, isWhiteSpace c = true)
    (hblanks' : ∀ c ∈ blanks', isWhiteSpace c = true)
    : CoversParts env first second (first ++ blanks ++ (operator ++ (blanks' ++ second)))
      ↔ ¬Slips env first second (first ++ blanks) operator (blanks' ++ second) := by
  rw [coversParts_iff, needsOnlyWorkspace_chain hoperator, needsOnlyWorkspace_first hblanks,
    needsOnlyWorkspace_second hblanks']
  constructor
  . intro hcovers hslips
    have ⟨⟨hfirst, _, hlast⟩, hsecond, hnext, _⟩ :=
      hcovers ⟨hslips.first_word, hslips.before, hslips.joined, hslips.after⟩
    obtain h | h | h | h := hslips.part
    . rw [hfirst] at h
      cases h
    . rw [hlast] at h
      cases h
    . rw [hsecond] at h
      cases h
    . rw [hnext] at h
      cases h
  . intro hno ⟨hword, hbefore, hjoined, hafter⟩
    have hpart := mt (Slips.mk hword hbefore hjoined hafter) hno
    simp only [not_or, Bool.not_eq_false, Bool.not_eq_true] at hpart
    have ⟨hfirst, hlast, hsecond, hnext⟩ := hpart
    exact ⟨⟨hfirst, hbefore, hlast⟩, hsecond, hnext, hafter⟩

theorem classify_le_of_enforceBash
    (hmode : policy.activeMode = .workspaceWrite)
    (h : enforceBash env (some policy) input command = .ok ())
    : classifyBashPermission env command ≤ .workspaceWrite := by
  unfold enforceBash checkWithRequiredMode at h
  dsimp only at h
  rw [hmode] at h
  simp only [reduceCtorEq, if_false] at h
  split at h
  . next hallowed =>
    split at hallowed
    . assumption
    . cases hallowed
  . cases h

end

theorem coversParts_iff_not_slips (env : ShellEnv) (first second blanks blanks' operator : Str)
    (hoperator : operator ∈ chainOperators) (hblanks : ∀ c ∈ blanks, isWhiteSpace c = true)
    (hblanks' : ∀ c ∈ blanks', isWhiteSpace c = true)
    : (CoversParts env first second (first ++ blanks ++ (operator ++ (blanks' ++ second)))
        ↔ ¬Slips env first second (first ++ blanks) operator (blanks' ++ second))
      ∧ ∀ (policy : PermissionPolicy) (input : Str), policy.activeMode = .workspaceWrite
          → enforceBash env (some policy) input (first ++ blanks ++ (operator ++ (blanks' ++ second)))
              = .ok ()
          → ¬Slips env first second (first ++ blanks) operator (blanks' ++ second)
          → classifyBashPermission env first ≤ .workspaceWrite
            ∧ classifyBashPermission env second ≤ .workspaceWrite := by
  have hiff : CoversParts env first second (first ++ blanks ++ (operator ++ (blanks' ++ second)))
      ↔ ¬Slips env first second (first ++ blanks) operator (blanks' ++ second) :=
    coversParts_iff_slips hoperator hblanks hblanks'
  refine ⟨hiff, ?_⟩
  intro policy input hmode hpassed hslips
  have hchain := classify_le_of_enforceBash hmode hpassed
  have ⟨hfirst, hsecond⟩ := hiff.mpr hslips
  exact ⟨hfirst.trans hchain, hsecond.trans hchain⟩

def workspaceEnv : ShellEnv := ⟨some "/home/u".toList, some "/home/u/project".toList⟩

theorem listAndCount_covered
    : CoversParts workspaceEnv "ls src".toList "wc -l".toList "ls src | wc -l".toList := by
  refine (coversParts_iff_not_slips workspaceEnv "ls src".toList "wc -l".toList [' '] [' '] ['|']
    (by decide) (by simp [isWhiteSpace]) (by simp [isWhiteSpace])).1.mpr ?_
  intro hslips
  have hpart := hslips.part
  revert hpart
  decide

theorem removal_slips
    : ¬CoversParts workspaceEnv "cat notes".toList "rm -rf notes".toList
        "cat notes; rm -rf notes".toList
      ∧ classifyBashPermission workspaceEnv "rm -rf notes".toList = .dangerFullAccess
      ∧ enforceBash workspaceEnv (some ⟨.workspaceWrite, .empty, [], [], []⟩) []
          "cat notes; rm -rf notes".toList = .ok () := by
  refine ⟨?_, by decide, by decide⟩
  intro ⟨_, hsecond⟩
  revert hsecond
  decide

end ClawCode
