import AppSuite.Deno.Permissions.Flags

/-!
This module contains the permissions of a child.
-/

namespace Deno.Permissions

open List UnaryPermission UnaryPermissionDesc UnaryPermissionDescriptors QueryDescriptor

open UnaryPermissionDesc (isMatch)

variable {C : Type} [LinearOrder C]

def UnaryPermissionDesc.isDenialBelow (q : ReadQueryDescriptor C) : PathDesc C → Bool
  | flagIgnored v => v.startsWith q
  | flagDenied v => v.startsWith q
  | granted _ => false
  | promptDenied _ => false

open UnaryPermissionDesc (isDenialBelow)

structure Opens (perm : PathPermission C) (q : ReadQueryDescriptor C) : Prop where
  whole : ∀ x ∈ perm.descriptors.inner, isDenialBelow q x = false
  first : (∃ g, perm.descriptors.inner.find? (isMatch q) = some (.granted g)) ∨
    perm.descriptors.inner.find? (isMatch q) = none ∧ perm.flagIgnoredGlobal = false ∧
      perm.flagDeniedGlobal = false ∧ perm.grantedGlobal = true

variable {perm : PathPermission C} {q : ReadQueryDescriptor C} {x : PathDesc C} {ds : PathDescriptors C}

theorem isPartialFlagDenied_eq_false_iff
    : perm.isPartialFlagDenied (some q) = false ↔ ∀ x ∈ perm.descriptors.inner, isDenialBelow q x = false := by
  unfold isPartialFlagDenied
  rw [any_eq_false]
  apply forall₂_congr
  intro x _
  rw [Bool.not_eq_true]
  cases x <;> rfl

theorem queryAllowedDesc_eq_granted_iff
    : perm.queryAllowedDesc (some q) .treatAsDenied = .granted ↔
      perm.isPartialFlagDenied (some q) = false := by
  unfold queryAllowedDesc
  cases perm.isPartialFlagDenied (some q) <;> simp

theorem queryDesc_eq_granted_iff : perm.queryDesc (some q) .treatAsDenied = .granted ↔ Opens perm q := by
  constructor
  . intro h
    cases hfind : perm.descriptors.inner.find? (isMatch q) with
    | none =>
      rw [queryDesc_of_none hfind] at h
      unfold unmatched at h
      split at h
      . contradiction
      . next hignored =>
        split at h
        . contradiction
        . split at h
          . contradiction
          . next hdenied =>
            split at h
            . next hglobal =>
              rw [queryAllowedDesc_eq_granted_iff, isPartialFlagDenied_eq_false_iff] at h
              exact ⟨h, .inr ⟨hfind, Bool.eq_false_of_not_eq_true hignored,
                Bool.eq_false_of_not_eq_true hdenied, hglobal⟩⟩
            . contradiction
    | some x =>
      rw [queryDesc_of_find? hfind] at h
      cases x with
      | granted g =>
        change perm.queryAllowedDesc (some q) .treatAsDenied = .granted at h
        rw [queryAllowedDesc_eq_granted_iff, isPartialFlagDenied_eq_false_iff] at h
        exact ⟨h, .inl ⟨g, hfind⟩⟩
      | _ d => contradiction
  . rintro ⟨hwhole, hfirst⟩
    rw [← isPartialFlagDenied_eq_false_iff] at hwhole
    rcases hfirst with ⟨g, hfind⟩ | ⟨hfind, hignored, hdenied, hglobal⟩
    . rw [queryDesc_of_find? hfind]
      exact queryAllowedDesc_eq_granted_iff.mpr hwhole
    . rw [queryDesc_of_none hfind]
      unfold unmatched
      rw [hignored, hdenied, hglobal, hwhole]
      exact queryAllowedDesc_eq_granted_iff.mpr hwhole

variable {p : ReadQueryDescriptor C} {item : PathDesc C} {g : ReadDescriptor C}
  {child : PathPermission C}

omit [LinearOrder C] in
theorem eq_granted (h : x.isGranted = true) : ∃ g, x = .granted g := by
  cases x with
  | granted g => exact ⟨g, rfl⟩
  | _ d => contradiction

theorem Opens.denial_matches (h : Opens perm p) (hpq : p.cmpPath <+: q.cmpPath)
    (hx : x ∈ perm.descriptors.inner) (hdenial : x.isGranted = false) (hmatch : isMatch q x = true)
    : isMatch p x = true := by
  have hflag {v : ReadDescriptor C} (hbelow : v.startsWith p = false) (hv : v.cmpPath <+: q.cmpPath)
      : v.cmpPath <+: p.cmpPath := by
    apply Or.resolve_right <| prefix_or_prefix_of_prefix hv hpq
    intro hpre
    exact absurd (decide_eq_true hpre) (ne_true_of_eq_false hbelow)
  have hwhole := h.whole x hx
  cases x with
  | granted g => contradiction
  | flagDenied d =>
    rw [isMatch_flagDenied] at hmatch ⊢
    exact hflag hwhole hmatch
  | flagIgnored d =>
    rw [isMatch_flagIgnored] at hmatch ⊢
    exact hflag hwhole hmatch
  | promptDenied d =>
    rw [isMatch_promptDenied] at hmatch ⊢
    exact hpq.trans hmatch

theorem Opens.below (h : Opens perm p) (hpq : p.cmpPath <+: q.cmpPath) : Opens perm q := by
  constructor
  . intro x hx
    have hwhole := h.whole x hx
    cases x with
    | granted g | promptDenied d => rfl
    | _ d =>
      rw [← Bool.not_eq_true] at hwhole ⊢
      intro hbelow
      apply hwhole
      exact decide_eq_true (hpq.trans (of_decide_eq_true hbelow))
  . rcases h.first with ⟨g, hfind⟩ | ⟨hfind, hglobals⟩
    . left
      rw [find?_eq_some_iff_append] at hfind
      obtain ⟨hmatch, before, after, heq, hnone⟩ := hfind
      have hfirst : isMatch q (.granted g : PathDesc C) = true :=
        isMatch_granted.mpr ((isMatch_granted.mp hmatch).trans hpq)
      cases hbefore : before.find? (isMatch q) with
      | none =>
        refine ⟨g, ?_⟩
        rw [heq, find?_append, hbefore, find?_cons_of_pos hfirst]
        rfl
      | some x =>
        have hmem := mem_of_find?_eq_some hbefore
        have hgranted : x.isGranted = true := by
          by_contra hdenial
          rw [Bool.not_eq_true] at hdenial
          have hin : x ∈ perm.descriptors.inner := by
            rw [heq]
            exact mem_append.mpr (.inl hmem)
          have hx := h.denial_matches hpq hin hdenial (find?_some hbefore)
          have hnot := hnone x hmem
          rw [hx] at hnot
          contradiction
        obtain ⟨g', rfl⟩ := eq_granted hgranted
        refine ⟨g', ?_⟩
        rw [heq, find?_append, hbefore]
        rfl
    . cases hq : perm.descriptors.inner.find? (isMatch q) with
      | none => exact .inr ⟨rfl, hglobals⟩
      | some x =>
        have hgranted : x.isGranted = true := by
          by_contra hdenial
          rw [Bool.not_eq_true] at hdenial
          have hx := h.denial_matches hpq (mem_of_find?_eq_some hq) hdenial (find?_some hq)
          rw [find?_eq_none] at hfind
          exact hfind x (mem_of_find?_eq_some hq) hx
        obtain ⟨g', rfl⟩ := eq_granted hgranted
        exact .inl ⟨g', rfl⟩

theorem granted_iff_granted_below (perm : PathPermission C) (p : ReadQueryDescriptor C)
    : perm.queryDesc (some p) .treatAsDenied = .granted ↔
      ∀ q : ReadQueryDescriptor C, p.cmpPath <+: q.cmpPath →
        perm.queryDesc (some q) .treatAsDenied = .granted := by
  constructor
  . intro h q hpq
    rw [queryDesc_eq_granted_iff] at h ⊢
    exact h.below hpq
  . intro h
    exact h p (prefix_refl _)

structure FlagsSet (ds : PathDescriptors C) : Prop where
  flagDenied : ∀ d, .flagDenied d ∈ ds.inner → ds.hasFlagDenied = true
  promptDenied : ∀ d, .promptDenied d ∈ ds.inner → ds.hasPromptDenied = true
  flagIgnored : ∀ d, .flagIgnored d ∈ ds.inner → ds.hasFlagIgnored = true

theorem mem_of_mem_insert (h : x ∈ (ds.insert item).inner) : x = item ∨ x ∈ ds.inner := by
  rcases ds.insert_cases item with ⟨_, _, heq⟩ | ⟨i, _, heq⟩
  . rw [heq] at h
    exact .inr h
  . rw [heq, BinarySearch.mem_insertAt] at h
    exact h

theorem insert_flags (ds : PathDescriptors C) (item : PathDesc C)
    : (ds.insert item).hasFlagDenied = (ds.mark item).hasFlagDenied ∧
      (ds.insert item).hasPromptDenied = (ds.mark item).hasPromptDenied ∧
      (ds.insert item).hasFlagIgnored = (ds.mark item).hasFlagIgnored := by
  unfold UnaryPermissionDescriptors.insert
  dsimp only
  split <;> exact ⟨rfl, rfl, rfl⟩

theorem FlagsSet.insert (h : FlagsSet ds) (item : PathDesc C) : FlagsSet (ds.insert item) := by
  obtain ⟨hdenied, hprompt, hignored⟩ := insert_flags ds item
  constructor
  all_goals
    intro d hd
    simp only [hdenied, hprompt, hignored]
    rcases mem_of_mem_insert hd with rfl | hold
    . rfl
    . cases item <;>
        first | rfl | exact h.flagDenied d hold | exact h.promptDenied d hold | exact h.flagIgnored d hold

theorem FlagsSet.foldl (h : FlagsSet ds) (items : List (PathDesc C))
    : FlagsSet (items.foldl .insert ds) :=
  foldlRecOn items _ h fun _ h item _ => h.insert item

omit [LinearOrder C] in
theorem FlagsSet.isGranted (h : FlagsSet ds) (hnone : ds.hasAnyDeniedOrIgnored = false)
    : ∀ x ∈ ds.inner, x.isGranted = true := by
  unfold hasAnyDeniedOrIgnored at hnone
  rw [Bool.or_eq_false_iff, Bool.or_eq_false_iff] at hnone
  obtain ⟨⟨hdenied, hprompt⟩, hignored⟩ := hnone
  intro x hx
  cases x with
  | granted g => rfl
  | flagDenied d => exact absurd (h.flagDenied d hx) (ne_true_of_eq_false hdenied)
  | promptDenied d => exact absurd (h.promptDenied d hx) (ne_true_of_eq_false hprompt)
  | flagIgnored d => exact absurd (h.flagIgnored d hx) (ne_true_of_eq_false hignored)

structure Silent (perm : PathPermission C) : Prop where
  flags : FlagsSet perm.descriptors
  prompt : perm.prompt = false

theorem opens_of_granted (hgranted : ∀ x ∈ perm.descriptors.inner, isMatch q x = true → x.isGranted = true)
    (hwhole : ∀ x ∈ perm.descriptors.inner, isDenialBelow q x = false)
    (hignored : perm.flagIgnoredGlobal = false) (hdenied : perm.flagDeniedGlobal = false)
    (hglobal : perm.grantedGlobal = true)
    : Opens perm q := by
  refine ⟨hwhole, ?_⟩
  cases hfind : perm.descriptors.inner.find? (isMatch q) with
  | none => exact .inr ⟨rfl, hignored, hdenied, hglobal⟩
  | some x =>
    obtain ⟨g, rfl⟩ := eq_granted (hgranted x (mem_of_find?_eq_some hfind) (find?_some hfind))
    exact .inl ⟨g, rfl⟩

theorem opens_of_isAllowAll (h : Silent perm) (hall : perm.isAllowAll none = true)
    (q : ReadQueryDescriptor C)
    : Opens perm q := by
  unfold isAllowAll at hall
  simp only [Bool.and_eq_true, Bool.not_eq_true'] at hall
  obtain ⟨⟨⟨⟨⟨hglobal, hdenied⟩, _⟩, hignored⟩, hnone⟩, _⟩ := hall
  have hgranted := h.flags.isGranted hnone
  apply opens_of_granted (fun x hx _ => hgranted x hx) _ hignored hdenied hglobal
  intro x hx
  obtain ⟨g, rfl⟩ := eq_granted (hgranted x hx)
  rfl

theorem checkDesc_silent (h : perm.prompt = false) (desc : Option (ReadQueryDescriptor C))
    (assertNonPartial : Bool) (answer : PromptResponse)
    : (perm.checkDesc desc assertNonPartial none answer).2 = perm ∧
      ((perm.checkDesc desc assertNonPartial none answer).1 = .ok () →
        perm.queryDesc desc (.from !assertNonPartial) = .granted) := by
  unfold checkDesc
  rw [h]
  generalize perm.queryDesc desc (.from !assertNonPartial) = state
  cases state with
  | granted => exact ⟨rfl, fun _ => rfl⟩
  | _ => exact ⟨rfl, nofun⟩

theorem check_silent (h : Silent perm) (q : ReadQueryDescriptor C) (answer : PromptResponse)
    : (perm.check q none answer).2 = perm ∧ ((perm.check q none answer).1 = .ok () → Opens perm q) := by
  unfold check
  split
  . next hall => exact ⟨rfl, fun _ => opens_of_isAllowAll h hall q⟩
  . obtain ⟨hsame, hgranted⟩ := checkDesc_silent h.prompt (some q)
      (assertNonPartial (ReadQueryDescriptor C)) answer
    refine ⟨hsame, ?_⟩
    intro hok
    exact queryDesc_eq_granted_iff.mp (hgranted hok)

theorem checkAllApi_silent (h : Silent perm) (answer : PromptResponse)
    : (perm.checkAllApi none answer).2 = perm ∧
      ((perm.checkAllApi none answer).1 = .ok () → perm.grantedGlobal = true) := by
  unfold checkAllApi
  split
  . next hall =>
    refine ⟨rfl, fun _ => ?_⟩
    unfold isAllowAll at hall
    simp only [Bool.and_eq_true] at hall
    exact hall.1.1.1.1.1
  . obtain ⟨hsame, hgranted⟩ := checkDesc_silent h.prompt none false answer
    refine ⟨hsame, ?_⟩
    intro hok
    have hstate := hgranted hok
    unfold queryDesc at hstate
    dsimp only [queryAllowedDescForExactMatch, Option.bind_none] at hstate
    split at hstate
    . contradiction
    . split at hstate
      . contradiction
      . split at hstate
        . contradiction
        . split at hstate
          . next hglobal => exact hglobal
          . contradiction

theorem grantList_silent {E : Type} (h : Silent perm) (parse : Str → Except E (Option (ReadDescriptor C)))
    (answer : ReadQueryDescriptor C → PromptResponse) (list : List Str) (ds : PathDescriptors C)
    : (grantList parse none answer list perm ds).2 = perm ∧
      ∀ ds', (grantList parse none answer list perm ds).1 = .ok ds' →
        ∀ g, .granted g ∈ ds'.inner → .granted g ∈ ds.inner ∨ Opens perm g.asQueryDescriptor := by
  induction list generalizing ds with
  | nil =>
    refine ⟨rfl, ?_⟩
    intro ds' hds g hg
    cases hds
    exact .inl hg
  | cons text list ih =>
    unfold grantList
    split
    . exact ⟨rfl, nofun⟩
    . exact ih ds
    . next desc _ =>
      obtain ⟨hsame, hopens⟩ := check_silent h (fromAllow desc : ReadQueryDescriptor C)
        (answer (fromAllow desc))
      dsimp only
      split
      . next hcheck =>
        rw [hcheck] at hsame
        exact ⟨hsame, nofun⟩
      . next hcheck =>
        rw [hcheck] at hsame hopens
        subst hsame
        obtain ⟨hlast, hgrants⟩ := ih (ds.insert (.granted desc))
        refine ⟨hlast, ?_⟩
        intro ds' hds g hg
        rcases hgrants ds' hds g hg with hg | hg
        . rcases mem_of_mem_insert hg with heq | hg
          . injection heq with heq
            rw [heq]
            exact .inr (hopens rfl)
          . exact .inl hg
        . exact .inr hg

theorem find?_insert_denial (hitem : item.isGranted = false)
    (h : (ds.insert item).inner.find? (isMatch q) = some (.granted g))
    : ds.inner.find? (isMatch q) = some (.granted g) := by
  rcases ds.insert_cases item with ⟨_, _, heq⟩ | ⟨i, _, heq⟩
  . rw [heq] at h
    exact h
  . rw [heq, find?_append, Option.or_eq_some_iff] at h
    rw [← take_append_drop i ds.inner, find?_append, Option.or_eq_some_iff]
    rcases h with h | ⟨hbefore, h⟩
    . exact .inl h
    . rw [find?_cons] at h
      split at h
      . injection h with h
        rw [h] at hitem
        contradiction
      . exact .inr ⟨hbefore, h⟩

theorem find?_foldl_denials {items : List (PathDesc C)} (hitems : ∀ x ∈ items, x.isGranted = false)
    (h : (items.foldl .insert ds).inner.find? (isMatch q) = some (.granted g))
    : ds.inner.find? (isMatch q) = some (.granted g) := by
  induction items generalizing ds with
  | nil => exact h
  | cons item items ih =>
    rw [forall_mem_cons] at hitems
    exact find?_insert_denial hitems.1 (ih hitems.2 h)

theorem isMatch_of_key (h : x.key = y.key) (q : ReadQueryDescriptor C)
    : isMatch q x = isMatch q y ∧ isDenialBelow q x = isDenialBelow q y := by
  cases x <;> cases y <;>
    simp [key, kindPrecedence, path] at h <;>
    simp [isMatch, isDenialBelow, matchesAllow, matchesDeny,
      strongerThanDeny, PathQueryDescriptor.startsWith, PathDescriptor.startsWith, h]

theorem exists_denial {parent : PathDescriptors C} (hx : x ∈ parent.inner) (hdenial : x.isGranted = false)
    : ∃ y ∈ ((parent.inner.filter fun x => !x.isGranted).foldl .insert ds).inner, y.key = x.key := by
  have hkey : x.key ∈ (((parent.inner.filter fun x => !x.isGranted).foldl .insert ds).inner).map
      key := by
    rw [mem_foldl_insert_keys]
    left
    apply mem_map_of_mem
    rw [List.mem_filter, hdenial]
    exact ⟨hx, rfl⟩
  obtain ⟨y, hy, heq⟩ := mem_map.mp hkey
  exact ⟨y, hy, heq⟩

structure Handed (perm start : PathPermission C) : Prop where
  global : start.grantedGlobal = true → perm.grantedGlobal = true
  grants : ∀ (q : ReadQueryDescriptor C) g, start.descriptors.inner.find? (isMatch q) = some (.granted g) →
    perm.descriptors.inner.find? (isMatch q) = some (.granted g) ∨ Opens perm g.asQueryDescriptor

theorem childGrants_silent {E : Type} (h : Silent perm) (flag : ChildUnaryPermissionArg)
    (parse : Str → Except E (Option (ReadDescriptor C)))
    (answer : Option (ReadQueryDescriptor C) → PromptResponse)
    : (perm.childGrants flag parse none answer).2 = perm ∧
      ∀ start, (perm.childGrants flag parse none answer).1 = .ok start → Handed perm start := by
  cases flag with
  | inherit =>
    refine ⟨rfl, ?_⟩
    intro start hstart
    cases hstart
    exact ⟨id, fun q g hfind => .inl hfind⟩
  | notGranted =>
    refine ⟨rfl, ?_⟩
    intro start hstart
    cases hstart
    exact ⟨nofun, nofun⟩
  | granted =>
    obtain ⟨hsame, hglobal⟩ := checkAllApi_silent h (answer none)
    unfold childGrants
    dsimp only
    split
    . next hcheck =>
      rw [hcheck] at hsame
      exact ⟨hsame, nofun⟩
    . next hcheck =>
      rw [hcheck] at hsame hglobal
      refine ⟨hsame, ?_⟩
      intro start hstart
      cases hstart
      exact ⟨fun _ => hglobal rfl, nofun⟩
  | grantedList list =>
    obtain ⟨hsame, hgrants⟩ := grantList_silent h parse (answer ∘ some) list .empty
    unfold childGrants
    dsimp only
    split
    . next hlist =>
      rw [hlist] at hsame
      exact ⟨hsame, nofun⟩
    . next ds _ hlist =>
      rw [hlist] at hsame hgrants
      refine ⟨hsame, ?_⟩
      intro start hstart
      cases hstart
      refine ⟨nofun, ?_⟩
      intro q g hfind
      rcases hgrants ds rfl g (mem_of_find?_eq_some hfind) with hg | hg
      . contradiction
      . exact .inr hg

theorem createChildPermissions_silent {E : Type} (h : Silent perm)
    {parse : Str → Except E (Option (ReadDescriptor C))}
    {answer : Option (ReadQueryDescriptor C) → PromptResponse}
    (hchild : (perm.createChildPermissions flag parse none answer).1 = .ok child)
    : ∃ start, Handed perm start ∧
        child =
          { start with
            flagDeniedGlobal := perm.flagDeniedGlobal
            promptDeniedGlobal := perm.promptDeniedGlobal
            prompt := perm.prompt
            flagIgnoredGlobal := perm.flagIgnoredGlobal
            descriptors := (perm.descriptors.inner.filter fun x => !x.isGranted).foldl .insert
              start.descriptors } := by
  obtain ⟨hsame, hhanded⟩ := childGrants_silent h flag parse answer
  unfold createChildPermissions at hchild
  split at hchild
  . contradiction
  . next start _ hgrants =>
    rw [hgrants] at hsame hhanded
    subst hsame
    cases hchild
    exact ⟨start, hhanded start rfl, rfl⟩

theorem Opens.of_child {start : PathPermission C} (h : Opens child q) (hhanded : Handed perm start)
    (hignored : child.flagIgnoredGlobal = perm.flagIgnoredGlobal)
    (hdenied : child.flagDeniedGlobal = perm.flagDeniedGlobal)
    (hglobal : child.grantedGlobal = start.grantedGlobal)
    (hdescs : child.descriptors = (perm.descriptors.inner.filter fun x => !x.isGranted).foldl .insert start.descriptors)
    : Opens perm q := by
  have hdenials : ∀ x ∈ perm.descriptors.inner, x.isGranted = false →
      ∃ y ∈ child.descriptors.inner, y.key = x.key := by
    intro x hx hdenial
    rw [hdescs]
    exact exists_denial hx hdenial
  have hwhole : ∀ x ∈ perm.descriptors.inner, isDenialBelow q x = false := by
    intro x hx
    cases hgranted : x.isGranted with
    | true =>
      obtain ⟨g, rfl⟩ := eq_granted hgranted
      rfl
    | false =>
      obtain ⟨y, hy, hkey⟩ := hdenials x hx hgranted
      rw [← (isMatch_of_key hkey q).2]
      exact h.whole y hy
  rcases h.first with ⟨g, hfind⟩ | ⟨hfind, hig, hde, hgl⟩
  . rw [hdescs] at hfind
    have hstart := find?_foldl_denials (by simp) hfind
    rcases hhanded.grants q g hstart with hparent | hopens
    . exact ⟨hwhole, .inl ⟨g, hparent⟩⟩
    . exact hopens.below (isMatch_granted.mp (find?_some hstart))
  . rw [hignored] at hig
    rw [hdenied] at hde
    rw [hglobal] at hgl
    apply opens_of_granted _ hwhole hig hde (hhanded.global hgl)
    intro x hx hmatch
    by_contra hdenial
    rw [Bool.not_eq_true] at hdenial
    obtain ⟨y, hy, hkey⟩ := hdenials x hx hdenial
    rw [find?_eq_none] at hfind
    apply hfind y hy
    rw [(isMatch_of_key hkey q).1]
    exact hmatch

theorem newUnary_silent (allow deny : Option (List (ReadDescriptor C)))
    : Silent (newUnary allow deny false) := by
  refine ⟨?_, rfl⟩
  rw [newUnary_descriptors]
  have hempty : FlagsSet (empty : PathDescriptors C) := ⟨nofun, nofun, nofun⟩
  exact (hempty.foldl _).foldl _

theorem Silent.insertGranted (h : Silent perm) (q : Option (ReadQueryDescriptor C))
    : Silent (perm.insertGranted q) := by
  cases q with
  | none => exact ⟨h.flags, h.prompt⟩
  | some q => exact ⟨h.flags.insert _, h.prompt⟩

theorem Silent.foldl (h : Silent perm) (grants : List (Option (ReadQueryDescriptor C)))
    : Silent (grants.foldl UnaryPermission.insertGranted perm) :=
  foldlRecOn grants _ h fun _ h q _ => h.insertGranted q

theorem createChildPermissions_not_escalating {E : Type} (allow deny : Option (List (ReadDescriptor C)))
    (grants : List (Option (ReadQueryDescriptor C))) (flag : ChildUnaryPermissionArg)
    (parse : Str → Except E (Option (ReadDescriptor C)))
    (answer : Option (ReadQueryDescriptor C) → PromptResponse) (child : PathPermission C)
    (hchild : ((grants.foldl insertGranted (newUnary allow deny false)).createChildPermissions
      flag parse none answer).1 = .ok child)
    (q : ReadQueryDescriptor C) (hq : child.queryDesc (some q) .treatAsDenied = .granted)
    : (grants.foldl insertGranted (newUnary allow deny false)).queryDesc (some q) .treatAsDenied
      = .granted := by
  have hsilent := (newUnary_silent allow deny).foldl grants
  obtain ⟨start, hhanded, rfl⟩ := createChildPermissions_silent hsilent hchild
  rw [queryDesc_eq_granted_iff] at hq ⊢
  exact hq.of_child hhanded rfl rfl rfl rfl

theorem createChildPermissions_not_escalating_list
    : (newUnary (some [pathOf ['a']]) (some [pathOf ['a', 'b']]) false : PathPermission Char).queryDesc
      (some (queryOf ['a', 'c', 'd'])) .treatAsDenied = .granted := by
  refine createChildPermissions_not_escalating (some [pathOf ['a']]) (some [pathOf ['a', 'b']]) []
    (.grantedList [['a', 'c']]) (fun text => (.ok (some (pathOf text)) : Except Unit _)) (fun _ => .deny)
    ⟨false, false, false, false, ⟨[.flagDenied (pathOf ['a', 'b']), .granted (pathOf ['a', 'c'])],
      true, false, false⟩, false⟩ ?_ (queryOf ['a', 'c', 'd']) ?_
  . decide
  . decide

end Deno.Permissions
