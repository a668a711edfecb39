import AppSuite.ClawCode.Permissions

/-!
This module contains the check of a file write against the workspace, and which of the paths that it
allows lead out of it.
-/

namespace ClawCode

open List

section Check

variable (path workspaceRoot : Str)

def normalized : Str := if path.head? = some '/' then path else workspaceRoot ++ '/' :: path

def withSlash : Str := if workspaceRoot.getLast? = some '/' then workspaceRoot else workspaceRoot ++ ['/']

def isWithinWorkspace : Bool :=
  withSlash workspaceRoot <+: normalized path workspaceRoot
    || normalized path workspaceRoot = workspaceRoot.rdropWhile (· = '/')

def PermissionPolicy.checkFileWrite (policy : PermissionPolicy) : EnforcementResult :=
  let denied (requiredMode : PermissionMode) (reason : Str) : EnforcementResult :=
    .denied "write_file".toList policy.activeMode.asStr requiredMode.asStr reason
  match policy.activeMode with
  | .readOnly =>
    denied .workspaceWrite
      ("file writes are not allowed in '".toList ++ policy.activeMode.asStr ++ "' mode".toList)
  | .workspaceWrite =>
    if isWithinWorkspace path workspaceRoot then
      .allowed
    else
      denied .dangerFullAccess
        ("path '".toList ++ path ++ "' is outside workspace root '".toList ++ workspaceRoot ++ "'".toList)
  | .allow | .dangerFullAccess => .allowed
  | .prompt => denied .workspaceWrite "file write requires confirmation in prompt mode".toList

end Check

section Resolve

def names (path : Str) : List Str := (path.splitOn '/').filter fun name => name ≠ [] ∧ name ≠ ['.']

def enter (dir : List Str) (name : Str) : List Str :=
  if name = ['.', '.'] then dir.dropLast else dir ++ [name]

def resolve (path : Str) : List Str := (names path).foldl enter []

-- How many levels a path climbs above the place it starts from, and what it enters there.
def climb (place : Nat × List Str) (name : Str) : Nat × List Str :=
  if name ≠ ['.', '.'] then (place.1, place.2 ++ [name])
  else if place.2 = [] then (place.1 + 1, [])
  else (place.1, place.2.dropLast)

def climbed (path : List Str) : Nat × List Str := path.foldl climb (0, [])

def below? (path workspaceRoot : Str) : Option Str :=
  if path.head? ≠ some '/' then some path
  else if withSlash workspaceRoot <+: path then some (path.drop (withSlash workspaceRoot).length)
  else none

def ReturnsToRoot (path workspaceRoot : Str) : Prop :=
  ∀ rest ∈ below? path workspaceRoot,
    (names workspaceRoot).drop ((names workspaceRoot).length - (climbed (names rest)).1)
      <+: (climbed (names rest)).2

theorem names_slash (s t : Str) : names (s ++ '/' :: t) = names s ++ names t := by
  simp [names, splitOn_append_cons_self]

theorem names_concat_slash (s : Str) : names (s ++ ['/']) = names s := by
  rw [names_slash, names, names, splitOn_nil]
  simp

theorem names_withSlash (root rest : Str) : names (withSlash root ++ rest) = names root ++ names rest := by
  unfold withSlash
  split
  . next h =>
    have ⟨s, hs⟩ := getLast?_eq_some_iff.mp h
    rw [hs, append_assoc, singleton_append, names_slash, names_concat_slash]
  . rw [append_assoc, singleton_append, names_slash]

theorem names_rdropWhile (root : Str) : names (root.rdropWhile (· = '/')) = names root := by
  induction root using reverseRecOn with
  | nil => rfl
  | append_singleton s c ih =>
    rw [rdropWhile_concat]
    split
    . next h =>
      rw [ih, of_decide_eq_true h, names_concat_slash]
    . rfl

theorem foldl_enter (h : ['.', '.'] ∉ entered) (dir : List Str) : entered.foldl enter dir = dir ++ entered := by
  induction entered generalizing dir with
  | nil => simp
  | cons name entered ih =>
    rw [mem_cons, not_or] at h
    rw [foldl_cons, ih h.2, enter, if_neg (Ne.symm h.1), append_assoc]
    rfl

theorem enter_climb (dir : List Str) (place : Nat × List Str) (name : Str)
    : enter (dir.take (dir.length - place.1) ++ place.2) name
      = dir.take (dir.length - (climb place name).1) ++ (climb place name).2 := by
  unfold enter climb
  split
  . next h =>
    rw [if_neg (not_not.mpr h)]
    split
    . next hnil =>
      rw [hnil, append_nil, append_nil, dropLast_eq_take, take_take, length_take]
      congr 1
      omega
    . next hne => rw [dropLast_append_of_ne_nil hne]
  . rw [append_assoc]

theorem foldl_enter_climb (path dir : List Str) (place : Nat × List Str)
    : path.foldl enter (dir.take (dir.length - place.1) ++ place.2)
      = dir.take (dir.length - (path.foldl climb place).1) ++ (path.foldl climb place).2 := by
  induction path generalizing place with
  | nil => rfl
  | cons name path ih => rw [foldl_cons, enter_climb, ih, foldl_cons]

variable {path root : Str} (hroot : ['.', '.'] ∉ root.splitOn '/')

include hroot

theorem resolve_names_root (h : names path = names root ++ entered)
    : names root <+: resolve path
      ↔ (names root).drop ((names root).length - (climbed entered).1) <+: (climbed entered).2 := by
  have hdots : ['.', '.'] ∉ names root := fun hmem => hroot (mem_of_mem_filter hmem)
  have hclimb := foldl_enter_climb entered (names root) (0, [])
  rw [Nat.sub_zero, take_length, append_nil] at hclimb
  rw [resolve, h, foldl_append, foldl_enter hdots, nil_append, hclimb, ← climbed]
  nth_rewrite 1 [← take_append_drop ((names root).length - (climbed entered).1) (names root)]
  exact prefix_append_right_inj _

theorem checkFileWrite_within_iff {policy : PermissionPolicy} (hmode : policy.activeMode = .workspaceWrite)
    : (policy.checkFileWrite path root = .allowed → names root <+: resolve (normalized path root))
      ↔ ReturnsToRoot path root := by
  have hallowed : policy.checkFileWrite path root = .allowed ↔ isWithinWorkspace path root := by
    simp [PermissionPolicy.checkFileWrite, hmode]
  simp only [hallowed, isWithinWorkspace, normalized, ReturnsToRoot, below?]
  split
  . next habs =>
    rw [if_neg (not_not.mpr habs)]
    split
    . next h =>
      have ⟨rest, hrest⟩ := h
      have hnames := names_withSlash root rest
      subst hrest
      simp [resolve_names_root hroot hnames, climbed]
    . next h =>
      have htrim : path = root.rdropWhile (· = '/') → names root <+: resolve path := by
        intro heq
        have hnames : names path = names root ++ [] := by rw [heq, names_rdropWhile, append_nil]
        simp [resolve_names_root hroot hnames, climbed]
      simpa [h] using htrim
  . next hrel =>
    have hbelow : withSlash root <+: root ++ '/' :: path := by
      unfold withSlash
      split
      . exact prefix_append _ _
      . exact ⟨path, by rw [append_assoc, singleton_append]⟩
    simp [hbelow, resolve_names_root hroot (names_slash root path)]

omit hroot

def workspaceWriter : PermissionPolicy := ⟨.workspaceWrite, .empty, [], [], []⟩

theorem checkFileWrite_within_iff_parent
    : ['.', '.'] ∉ "/w".toList.splitOn '/'
      ∧ (workspaceWriter.checkFileWrite "a/../b".toList "/w".toList = .allowed
        → names "/w".toList <+: resolve (normalized "a/../b".toList "/w".toList)) :=
  ⟨by decide, (checkFileWrite_within_iff (by decide) rfl).mpr (by unfold ReturnsToRoot; decide)⟩

theorem checkFileWrite_leaves_workspace
    : workspaceWriter.checkFileWrite "../x".toList "/w".toList = .allowed
      ∧ ¬names "/w".toList <+: resolve (normalized "../x".toList "/w".toList) := by
  decide

end Resolve

end ClawCode
