import AppSuite.Deno.Permissions.Unary

/-!
This module contains the descriptors of paths, and what a query reads from descriptors. A path is the
list of its components.
-/

namespace Deno.Permissions

section Order

variable {C : Type} [LinearOrder C]

def comparePaths : List C → List C → Ordering
  | [], [] => .eq
  | [], _ :: _ => .lt
  | _ :: _, [] => .gt
  | a :: as, b :: bs => (compare a b).then (comparePaths as bs)

def postorder : List C → List C → Ordering
  | [], [] => .eq
  | [], _ :: _ => .gt
  | _ :: _, [] => .lt
  | a :: as, b :: bs => (compare a b).then (postorder as bs)

theorem postorder_self (as : List C) : postorder as as = .eq := by
  induction as with
  | nil => rfl
  | cons a as ih =>
    unfold postorder
    rw [compare_eq_iff_eq.mpr rfl, ih]
    rfl

variable {as bs : List C}

theorem eq_of_postorder (h : postorder as bs = .eq) : as = bs := by
  induction as generalizing bs with
  | nil =>
    cases bs with
    | nil => rfl
    | cons b bs => contradiction
  | cons a as ih =>
    cases bs with
    | nil => contradiction
    | cons b bs =>
      unfold postorder at h
      rw [Ordering.then_eq_eq] at h
      rw [compare_eq_iff_eq.mp h.1, ih h.2]

theorem postorder_trans (h : postorder as bs = .lt) (h' : postorder bs cs = .lt)
    : postorder as cs = .lt := by
  induction as generalizing bs cs with
  | nil => cases bs <;> contradiction
  | cons a as ih =>
    cases cs with
    | nil => rfl
    | cons c cs =>
      cases bs with
      | nil => contradiction
      | cons b bs =>
        unfold postorder at h h' ⊢
        rw [Ordering.then_eq_lt] at h h' ⊢
        rw [compare_lt_iff_lt, compare_eq_iff_eq] at *
        rcases h with hab | ⟨rfl, hab⟩
        . rcases h' with hbc | ⟨rfl, _⟩
          . exact .inl (hab.trans hbc)
          . exact .inl hab
        . rcases h' with hbc | ⟨rfl, hbc⟩
          . exact .inl hbc
          . exact .inr ⟨rfl, ih hab hbc⟩

theorem postorder_swap (as bs : List C) : (postorder as bs).swap = postorder bs as := by
  induction as generalizing bs with
  | nil => cases bs <;> rfl
  | cons a as ih =>
    cases bs with
    | nil => rfl
    | cons b bs =>
      unfold postorder
      rw [Ordering.swap_then, ih, ← Std.OrientedCmp.eq_swap]

theorem postorder_gt (h : postorder as bs = .gt) : postorder bs as = .lt := by
  rw [← postorder_swap, h]
  rfl

theorem postorder_of_isPrefix (h : as <+: bs) (hne : as ≠ bs) : postorder as bs = .gt := by
  induction as generalizing bs with
  | nil =>
    cases bs with
    | nil => contradiction
    | cons b bs => rfl
  | cons a as ih =>
    obtain ⟨t, rfl⟩ := h
    rw [List.cons_append] at hne ⊢
    unfold postorder
    rw [compare_eq_iff_eq.mpr rfl, ih (List.prefix_append as t)]
    . rfl
    . intro heq
      exact hne (by rw [← heq])

theorem not_isPrefix_of_postorder (h : postorder as bs = .lt) : ¬as <+: bs := by
  intro hpre
  by_cases heq : as = bs
  . rw [heq, postorder_self] at h
    contradiction
  . rw [postorder_of_isPrefix hpre heq] at h
    contradiction

theorem postorder_of_apart (h : ¬as <+: bs) (h' : ¬bs <+: as) : postorder as bs = comparePaths as bs := by
  induction as generalizing bs with
  | nil => exact absurd List.nil_prefix h
  | cons a as ih =>
    cases bs with
    | nil => exact absurd List.nil_prefix h'
    | cons b bs =>
      unfold postorder comparePaths
      by_cases hab : a = b
      . subst hab
        rw [List.prefix_cons_inj] at h h'
        rw [ih h h']
      . have hne : compare a b ≠ .eq := by
          rw [ne_eq, compare_eq_iff_eq]
          exact hab
        cases hcmp : compare a b with
        | lt => rfl
        | eq => exact absurd hcmp hne
        | gt => rfl

end Order

structure PathDescriptor (C : Type) where
  cmpPath : List C
  displayName : Str
  deriving DecidableEq, Repr

structure PathQueryDescriptor (C : Type) where
  cmpPath : List C
  displayName : Str
  deriving DecidableEq, Repr

section Compare

variable {C : Type} [LinearOrder C]

def PathQueryDescriptor.startsWith (self : PathQueryDescriptor C) (base : PathDescriptor C) : Bool :=
  decide (base.cmpPath <+: self.cmpPath)

def PathQueryDescriptor.asDescriptor (self : PathQueryDescriptor C) : PathDescriptor C :=
  ⟨self.cmpPath, self.displayName⟩

namespace PathDescriptor

def startsWith (self : PathDescriptor C) (base : PathQueryDescriptor C) : Bool :=
  decide (base.cmpPath <+: self.cmpPath)

def asQueryDescriptor (self : PathDescriptor C) : PathQueryDescriptor C := ⟨self.cmpPath, self.displayName⟩

variable (self other : PathDescriptor C)

def cmpAllowAllow : Ordering :=
  if self.cmpPath = other.cmpPath then .eq
  else if self.cmpPath <+: other.cmpPath then .gt
  else if other.cmpPath <+: self.cmpPath then .lt
  else comparePaths self.cmpPath other.cmpPath

def cmpAllowDeny : Ordering :=
  if self.cmpPath <+: other.cmpPath then .gt
  else if other.cmpPath <+: self.cmpPath then .lt
  else .gt

def cmpDenyDeny : Ordering := self.cmpAllowAllow other

theorem cmpAllowAllow_eq : self.cmpAllowAllow other = postorder self.cmpPath other.cmpPath := by
  unfold cmpAllowAllow
  split
  . next h => rw [h, postorder_self]
  . next hne =>
    split
    . next h => rw [postorder_of_isPrefix h hne]
    . next hnot =>
      split
      . next h =>
        rw [← postorder_swap, postorder_of_isPrefix h (Ne.symm hne)]
        rfl
      . next hnot' => exact (postorder_of_apart hnot hnot').symm

theorem cmpAllowDeny_lt {self other : PathDescriptor C} (h : self.cmpAllowDeny other = .lt)
    : other.cmpPath <+: self.cmpPath ∧ other.cmpPath ≠ self.cmpPath := by
  unfold cmpAllowDeny at h
  split at h
  . contradiction
  . next hnot =>
    split at h
    . next hpre =>
      refine ⟨hpre, ?_⟩
      intro heq
      apply hnot
      rw [heq]
    . contradiction

theorem cmpAllowDeny_ne_eq : self.cmpAllowDeny other ≠ .eq := by
  unfold cmpAllowDeny
  split
  . nofun
  . split <;> nofun

end PathDescriptor

abbrev ReadDescriptor (C : Type) := PathDescriptor C

abbrev ReadQueryDescriptor (C : Type) := PathQueryDescriptor C

instance : DenyDescriptor (ReadDescriptor C) := ⟨PathDescriptor.cmpDenyDeny⟩

instance : AllowDescriptor (ReadDescriptor C) (ReadDescriptor C) (ReadQueryDescriptor C) :=
  ⟨PathDescriptor.cmpAllowAllow, PathDescriptor.cmpAllowDeny⟩

instance : QueryDescriptor (ReadQueryDescriptor C) (ReadDescriptor C) (ReadDescriptor C) where
  flagName := "read".toList
  displayName := PathQueryDescriptor.displayName
  fromAllow allow := allow.asQueryDescriptor
  asAllow self := some self.asDescriptor
  asDeny self := self.asDescriptor
  assertNonPartial := true
  matchesAllow self other := self.startsWith other
  matchesDeny self other := self.startsWith other
  revokes self other := self.startsWith other
  strongerThanDeny self other := other.startsWith self
  overlapsDeny self other := other.startsWith self

end Compare

section FirstMatch

open QueryDescriptor

variable {A D Q : Type} [QueryDescriptor Q A D]

def UnaryPermissionDesc.isMatch (desc : Q) : UnaryPermissionDesc A D → Bool
  | granted v => matchesAllow desc v
  | flagDenied v => matchesDeny desc v
  | flagIgnored v => matchesDeny desc v
  | promptDenied v => strongerThanDeny desc v

namespace UnaryPermission

variable (self : UnaryPermission A D) (desc : Q) (allowPartial : AllowPartial)

def stateOf : UnaryPermissionDesc A D → PermissionState
  | .granted _ => self.queryAllowedDesc (some desc) allowPartial
  | .flagDenied _ => .denied
  | .flagIgnored _ => .ignored
  | .promptDenied _ => .denied

def unmatched : PermissionState :=
  if self.flagIgnoredGlobal then .ignored
  else if allowPartial = .treatAsDenied ∧ self.isPartialFlagDenied (some desc) then .deniedPartial
  else if self.flagDeniedGlobal then .denied
  else if self.grantedGlobal then self.queryAllowedDesc (some desc) allowPartial
  else .prompt

theorem findSome?_eq_find?_map {α β : Type} {f : α → Option β} {p : α → Bool} {g : α → β}
    (h : ∀ x, f x = if p x then some (g x) else none) (xs : List α)
    : xs.findSome? f = (xs.find? p).map g := by
  induction xs with
  | nil => rfl
  | cons x xs ih =>
    rw [List.findSome?_cons, List.find?_cons, h]
    cases p x with
    | true => rfl
    | false => exact ih

theorem queryDesc_eq
    : self.queryDesc (some desc) allowPartial
      = ((self.descriptors.inner.find? (UnaryPermissionDesc.isMatch desc)).map
          (self.stateOf desc allowPartial)).getD (self.unmatched desc allowPartial) := by
  have hmatch : self.queryAllowedDescForExactMatch (some desc) allowPartial
      = (self.descriptors.inner.find? (UnaryPermissionDesc.isMatch desc)).map
          (self.stateOf desc allowPartial) := by
    apply findSome?_eq_find?_map
    intro x
    cases x <;> rfl
  unfold queryDesc
  rw [hmatch]
  cases self.descriptors.inner.find? (UnaryPermissionDesc.isMatch desc) with
  | none =>
    unfold unmatched
    simp
  | some x => rfl

variable {self : UnaryPermission A D} {desc : Q}

theorem queryDesc_of_find?
    (h : self.descriptors.inner.find? (UnaryPermissionDesc.isMatch desc) = some x)
    (allowPartial : AllowPartial)
    : self.queryDesc (some desc) allowPartial = self.stateOf desc allowPartial x := by
  rw [queryDesc_eq, h]
  rfl

theorem queryDesc_of_none (h : self.descriptors.inner.find? (UnaryPermissionDesc.isMatch desc) = none)
    (allowPartial : AllowPartial)
    : self.queryDesc (some desc) allowPartial = self.unmatched desc allowPartial := by
  rw [queryDesc_eq, h]
  rfl

end UnaryPermission

end FirstMatch

namespace UnaryPermissionDescriptors

variable {A D Q : Type} [DenyDescriptor D] [AllowDescriptor A D Q]

variable (ds : UnaryPermissionDescriptors A D) (item : UnaryPermissionDesc A D)

omit [DenyDescriptor D] in
theorem mark_inner : (ds.mark item).inner = ds.inner := by
  cases item <;> rfl

theorem insert_cases
    : (∃ i, BinarySearch.binarySearchBy (fun x => x.cmp item) ds.inner = .ok i ∧
        (ds.insert item).inner = ds.inner) ∨
      ∃ i, BinarySearch.binarySearchBy (fun x => x.cmp item) ds.inner = .error i ∧
        (ds.insert item).inner = ds.inner.take i ++ item :: ds.inner.drop i := by
  unfold insert
  dsimp only
  rw [mark_inner]
  cases hsearch : BinarySearch.binarySearchBy (fun x => x.cmp item) ds.inner with
  | ok i => exact .inl ⟨i, rfl, mark_inner ds item⟩
  | error i =>
    refine .inr ⟨i, rfl, ?_⟩
    exact BinarySearch.insertIdx_eq (BinarySearch.binarySearchBy_error hsearch).1 item

end UnaryPermissionDescriptors

section Paths

variable {C : Type}

abbrev PathDesc (C : Type) := UnaryPermissionDesc (ReadDescriptor C) (ReadDescriptor C)

abbrev PathPermission (C : Type) := UnaryPermission (ReadDescriptor C) (ReadDescriptor C)

namespace UnaryPermissionDesc

def path : PathDesc C → List C
  | granted v => v.cmpPath
  | flagDenied v => v.cmpPath
  | flagIgnored v => v.cmpPath
  | promptDenied v => v.cmpPath

def key (x : PathDesc C) : Nat × List C := (x.kindPrecedence, x.path)

variable [LinearOrder C] {q : ReadQueryDescriptor C} {v : ReadDescriptor C}

theorem isMatch_granted : isMatch q (granted v : PathDesc C) = true ↔ v.cmpPath <+: q.cmpPath := by
  exact decide_eq_true_iff

theorem isMatch_flagDenied : isMatch q (flagDenied v : PathDesc C) = true ↔ v.cmpPath <+: q.cmpPath := by
  exact decide_eq_true_iff

theorem isMatch_flagIgnored : isMatch q (flagIgnored v : PathDesc C) = true ↔ v.cmpPath <+: q.cmpPath := by
  exact decide_eq_true_iff

theorem isMatch_promptDenied
    : isMatch q (promptDenied v : PathDesc C) = true ↔ q.cmpPath <+: v.cmpPath := by
  exact decide_eq_true_iff

theorem cmp_granted (v v' : ReadDescriptor C)
    : (granted v : PathDesc C).cmp (granted v') = postorder v.cmpPath v'.cmpPath := by
  exact PathDescriptor.cmpAllowAllow_eq v v'

theorem cmp_flagDenied (v v' : ReadDescriptor C)
    : (flagDenied v : PathDesc C).cmp (flagDenied v') = postorder v.cmpPath v'.cmpPath := by
  rw [← PathDescriptor.cmpAllowAllow_eq]
  exact Ordering.then_eq

theorem cmp_granted_flagDenied_lt
    (h : (granted v : PathDesc C).cmp (flagDenied v') = .lt)
    : postorder v.cmpPath v'.cmpPath = .lt := by
  cases Ordering.then_eq_lt.mp h with
  | inl hlt =>
    obtain ⟨hpre, hne⟩ := PathDescriptor.cmpAllowDeny_lt hlt
    rw [← postorder_swap, postorder_of_isPrefix hpre hne]
    rfl
  | inr heq => exact absurd heq.1 (PathDescriptor.cmpAllowDeny_ne_eq v v')

theorem key_eq_of_cmp {x y : PathDesc C} (h : x.cmp y = .eq) : x.key = y.key := by
  have hsame {v v' : ReadDescriptor C} (heq : v.cmpAllowAllow v' = .eq) : v.cmpPath = v'.cmpPath := by
    rw [PathDescriptor.cmpAllowAllow_eq] at heq
    exact eq_of_postorder heq
  cases x with
  | granted v =>
    cases y with
    | granted v' => exact Prod.ext rfl (hsame h)
    | _ v' => exact absurd (Ordering.then_eq_eq.mp h).1 (PathDescriptor.cmpAllowDeny_ne_eq v v')
  | _ v =>
    cases y with
    | granted v' =>
      simp only [cmp, allowOrDenyDesc] at h
      split at h
      . next hcmp => exact absurd hcmp (PathDescriptor.cmpAllowDeny_ne_eq v' v)
      . contradiction
      . contradiction
    | _ v' =>
      have heq : v.cmpAllowAllow v' = .eq ∧ _ := Ordering.then_eq_eq.mp h
      first
      | exact Prod.ext rfl (hsame heq.1)
      | exact absurd heq.2 (by decide)

end UnaryPermissionDesc

namespace UnaryPermissionDescriptors

variable [LinearOrder C]

theorem mem_insert_keys (ds : UnaryPermissionDescriptors (ReadDescriptor C) (ReadDescriptor C))
    (item : PathDesc C) (k : Nat × List C)
    : k ∈ (ds.insert item).inner.map UnaryPermissionDesc.key ↔
      k = item.key ∨ k ∈ ds.inner.map UnaryPermissionDesc.key := by
  rcases ds.insert_cases item with ⟨i, hsearch, heq⟩ | ⟨i, _, heq⟩
  . obtain ⟨x, hx, hcmp⟩ := BinarySearch.binarySearchBy_ok hsearch
    rw [heq]
    constructor
    . exact .inr
    . rintro (rfl | hk)
      . rw [← UnaryPermissionDesc.key_eq_of_cmp hcmp]
        exact List.mem_map_of_mem hx
      . exact hk
  . rw [heq, List.map_append, List.map_cons, List.mem_append, List.mem_cons, or_left_comm,
      ← List.mem_append, ← List.map_append, List.take_append_drop]

theorem mem_foldl_insert_keys (items : List (PathDesc C))
    (ds : UnaryPermissionDescriptors (ReadDescriptor C) (ReadDescriptor C)) (k : Nat × List C)
    : k ∈ (items.foldl .insert ds).inner.map UnaryPermissionDesc.key ↔
      k ∈ items.map UnaryPermissionDesc.key ∨ k ∈ ds.inner.map UnaryPermissionDesc.key := by
  induction items generalizing ds with
  | nil => simp
  | cons item items ih =>
    rw [List.foldl_cons, ih, mem_insert_keys, List.map_cons, List.mem_cons, or_left_comm, or_assoc]

end UnaryPermissionDescriptors

end Paths

end Deno.Permissions
