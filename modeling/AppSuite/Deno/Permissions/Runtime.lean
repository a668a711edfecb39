import AppSuite.Deno.Permissions.Flags
import AppSuite.System.Run

/-!
This module contains what becomes of the path permissions while a program runs.
-/

namespace Deno.Permissions

open List UnaryPermission UnaryPermissionDesc

variable {C : Type} [LinearOrder C]

inductive Call (C : Type) where
  | check (desc : ReadQueryDescriptor C) (broker : Option BrokerResponse) (answer : PromptResponse)
  | request (desc : ReadQueryDescriptor C) (answer : PromptResponse)
  | revoke (desc : ReadQueryDescriptor C)
  deriving DecidableEq, Repr

def Call.NotAllowAll : Call C → Prop
  | check _ _ answer => answer ≠ .allowAll
  | request _ answer => answer ≠ .allowAll
  | revoke _ => True

def UnaryPermission.call (perm : PathPermission C) : Call C → PathPermission C
  | .check desc broker answer => (perm.check desc broker answer).2
  | .request desc answer => (perm.requestDesc (some desc) answer).2
  | .revoke desc => (perm.revokeDesc (some desc)).2

def FailsClosed (deny : List (List C)) (perm : PathPermission C) : Prop :=
  ∀ q : ReadQueryDescriptor C,
    (∃ d ∈ deny, d <+: q.cmpPath ∧ ∀ g, .granted g ∈ perm.descriptors.inner → g.cmpPath <+: q.cmpPath →
      g.cmpPath.length ≤ d.length) →
    perm.query (some q) ≠ .granted ∧ perm.query (some q) ≠ .grantedPartial

def UnaryPermissionDesc.isAbove (path : List C) : PathDesc C → Bool
  | granted v => decide (v.cmpPath <+: path)
  | flagDenied v => decide (v.cmpPath <+: path)
  | flagIgnored _ => false
  | promptDenied _ => false

open UnaryPermissionDesc (isAbove isMatch)

def DenialsHold (v : List (PathDesc C)) : Prop :=
  ∀ d, .flagDenied d ∈ v → ∃ f, v.find? (isAbove d.cmpPath) = some (.flagDenied f)

structure Running (deny : List (List C)) (v : List (PathDesc C)) : Prop where
  deny_iff : ∀ {path}, path ∈ deny ↔ ∃ d, .flagDenied d ∈ v ∧ d.cmpPath = path
  notIgnored : ∀ d, .flagIgnored d ∉ v

variable {path : List C} {v : List (PathDesc C)} {deny : List (List C)} {perm : PathPermission C}
  {c : Call C} {ds : PathDescriptors C}

theorem isAbove_granted {v : ReadDescriptor C} : isAbove path (.granted v) = true ↔ v.cmpPath <+: path := by
  exact decide_eq_true_iff

theorem isAbove_flagDenied {v : ReadDescriptor C}
    : isAbove path (.flagDenied v) = true ↔ v.cmpPath <+: path := by
  exact decide_eq_true_iff

variable {x : PathDesc C} {q : ReadQueryDescriptor C} {ds' : PathDescriptors C}

theorem granted_or_flagDenied_of_isAbove (h : isAbove path x = true)
    : (∃ g, x = .granted g ∧ g.cmpPath <+: path) ∨ ∃ f, x = .flagDenied f ∧ f.cmpPath <+: path := by
  cases x with
  | granted g => exact .inl ⟨g, rfl, isAbove_granted.mp h⟩
  | flagDenied f => exact .inr ⟨f, rfl, isAbove_flagDenied.mp h⟩
  | flagIgnored _ | promptDenied _ => contradiction

theorem exists_fresh [Infinite C] (v : List (PathDesc C)) : ∃ c, ∀ x ∈ v, c ∉ x.path := by
  obtain ⟨c, hc⟩ := Infinite.exists_notMem_finset (v.flatMap path).toFinset
  refine ⟨c, ?_⟩
  intro x hx hmem
  apply hc
  rw [mem_toFinset, mem_flatMap]
  exact ⟨x, hx, hmem⟩

theorem isMatch_fresh (hignored : ∀ d, .flagIgnored d ∉ v) {c : C} (hc : ∀ x ∈ v, c ∉ x.path)
    (path : List C) (hq : q.cmpPath = path ++ [c])
    : ∀ x ∈ v, isMatch q x = isAbove path x := by
  have hbelow {x : PathDesc C} (hx : x ∈ v) : x.path <+: path ++ [c] ↔ x.path <+: path := by
    rw [prefix_concat_iff]
    constructor
    . intro h
      apply h.resolve_left
      intro heq
      apply hc x hx
      rw [heq]
      simp
    . exact .inr
  intro x hx
  have := hbelow hx
  cases x with
  | granted g =>
    rw [Bool.eq_iff_iff, isMatch_granted, isAbove_granted, hq]
    exact this
  | flagDenied d =>
    rw [Bool.eq_iff_iff, isMatch_flagDenied, isAbove_flagDenied, hq]
    exact this
  | flagIgnored d => exact absurd hx (hignored d)
  | promptDenied d =>
    show isMatch q (.promptDenied d) = false
    rw [← Bool.not_eq_true, isMatch_promptDenied, hq]
    intro hpre
    apply hc _ hx
    exact hpre.subset (by simp)

theorem failsClosed_of_denialsHold (h : Running deny perm.descriptors.inner)
    (hhold : DenialsHold perm.descriptors.inner)
    : FailsClosed deny perm := by
  intro q ⟨path, hpath, habove, hlongest⟩
  obtain ⟨d, hd, rfl⟩ := h.deny_iff.mp hpath
  obtain ⟨f, hf⟩ := hhold d hd
  suffices hnot : ∀ g, perm.descriptors.inner.find? (isMatch q) ≠ some (.granted g) by
    rw [← not_or]
    intro hstate
    cases hfind : perm.descriptors.inner.find? (isMatch q) with
    | none =>
      rw [find?_eq_none] at hfind
      exact hfind _ hd (isMatch_flagDenied.mpr habove)
    | some x =>
      rw [query, queryDesc_of_find? hfind] at hstate
      obtain ⟨g, rfl⟩ := granted_of_stateOf hstate
      exact hnot g hfind
  intro g hfind
  have hmatch := isMatch_granted.mp (find?_some hfind)
  have hle := hlongest g (mem_of_find?_eq_some hfind) hmatch
  have hgd : g.cmpPath <+: d.cmpPath := prefix_of_prefix_length_le hmatch habove hle
  rw [find?_eq_some_iff_append] at hfind
  obtain ⟨_, before, after, heq, hnone⟩ := hfind
  have hbefore : before.find? (isAbove d.cmpPath) = none := by
    rw [find?_eq_none]
    intro x hx hxabove
    have hx' := hnone x hx
    rcases granted_or_flagDenied_of_isAbove hxabove with ⟨g', rfl, hpre⟩ | ⟨f', rfl, hpre⟩
    . rw [isMatch_granted.mpr (hpre.trans habove)] at hx'
      contradiction
    . rw [isMatch_flagDenied.mpr (hpre.trans habove)] at hx'
      contradiction
  rw [heq, find?_append, hbefore, find?_cons_of_pos (isAbove_granted.mpr hgd)] at hf
  cases hf

theorem denialsHold_of_find? (h : ∀ d g, .flagDenied d ∈ v → v.find? (isAbove d.cmpPath) ≠ some (.granted g))
    : DenialsHold v := by
  intro d hd
  cases hfind : v.find? (isAbove d.cmpPath) with
  | none =>
    rw [find?_eq_none] at hfind
    exact absurd (isAbove_flagDenied.mpr prefix_rfl) (hfind _ hd)
  | some x =>
    rcases granted_or_flagDenied_of_isAbove (find?_some hfind) with ⟨g, rfl, _⟩ | ⟨f, rfl, _⟩
    . exact absurd hfind (h d g hd)
    . exact ⟨f, rfl⟩

theorem denialsHold_of_failsClosed [Infinite C] (h : Running deny perm.descriptors.inner)
    (hclosed : FailsClosed deny perm)
    : DenialsHold perm.descriptors.inner := by
  apply denialsHold_of_find?
  intro d g hd hfind
  obtain ⟨c, hc⟩ := exists_fresh perm.descriptors.inner
  have hmatch := isMatch_fresh h.notIgnored hc d.cmpPath (q := ⟨d.cmpPath ++ [c], []⟩) rfl
  have hquery := hclosed ⟨d.cmpPath ++ [c], []⟩ ⟨d.cmpPath, h.deny_iff.mpr ⟨d, hd, rfl⟩,
    prefix_append _ _, ?_⟩
  . rw [← find?_congr hmatch] at hfind
    rw [query, queryDesc_of_find? hfind, ← not_or] at hquery
    exact hquery (stateOf_granted perm _ g)
  . intro g' hg' hpre'
    have hgm := hmatch _ hg'
    rw [isMatch_granted.mpr hpre'] at hgm
    exact (isAbove_granted.mp hgm.symm).length_le

theorem failsClosed_iff_denialsHold [Infinite C] (h : Running deny perm.descriptors.inner)
    : FailsClosed deny perm ↔ DenialsHold perm.descriptors.inner := by
  exact ⟨denialsHold_of_failsClosed h, failsClosed_of_denialsHold h⟩

def CoveredAt (v : List (PathDesc C)) (g : ReadDescriptor C) (i : Nat) : Prop :=
  ∀ d, .flagDenied d ∈ v → g.cmpPath <+: d.cmpPath →
    ∃ f, .flagDenied f ∈ v.take i ∧ f.cmpPath <+: d.cmpPath

theorem find?_insertAt {α : Type} {v : List α} {p : α → Bool} {y : α} (hy : p y = false) (i : Nat)
    : (v.take i ++ y :: v.drop i).find? p = v.find? p := by
  rw [find?_append, find?_cons_of_neg (by rw [hy]; exact Bool.false_ne_true), ← find?_append,
    take_append_drop]

theorem denialsHold_granted_iff (hhold : DenialsHold v) (g : ReadDescriptor C) (i : Nat)
    : DenialsHold (v.take i ++ .granted g :: v.drop i) ↔ CoveredAt v g i := by
  have hmem {d : ReadDescriptor C} : .flagDenied d ∈ v.take i ++ .granted g :: v.drop i ↔ .flagDenied d ∈ v :=
    (BinarySearch.mem_insertAt i).trans (or_iff_right (by nofun))
  constructor
  . intro hnew d hd hgd
    obtain ⟨f, hf⟩ := hnew d (hmem.mpr hd)
    rw [find?_append, find?_cons_of_pos (isAbove_granted.mpr hgd)] at hf
    cases hbefore : (v.take i).find? (isAbove d.cmpPath) with
    | none =>
      rw [hbefore] at hf
      cases hf
    | some x =>
      rw [hbefore] at hf
      injection hf with hf
      subst hf
      exact ⟨f, mem_of_find?_eq_some hbefore, isAbove_flagDenied.mp (find?_some hbefore)⟩
  . intro hcovered d hd
    rw [hmem] at hd
    obtain ⟨f, hf⟩ := hhold d hd
    by_cases hgd : g.cmpPath <+: d.cmpPath
    . obtain ⟨f', hf', hpre⟩ := hcovered d hd hgd
      cases hbefore : (v.take i).find? (isAbove d.cmpPath) with
      | none =>
        rw [find?_eq_none] at hbefore
        exact absurd (isAbove_flagDenied.mpr hpre) (hbefore _ hf')
      | some x =>
        rw [← take_append_drop i v, find?_append, hbefore] at hf
        refine ⟨f, ?_⟩
        rw [find?_append, hbefore]
        exact hf
    . refine ⟨f, ?_⟩
      rw [find?_insertAt, hf]
      rw [← Bool.not_eq_true, isAbove_granted]
      exact hgd

theorem DenialsHold.promptDenied (h : DenialsHold v) (d : ReadDescriptor C) (i : Nat)
    : DenialsHold (v.take i ++ .promptDenied d :: v.drop i) := by
  intro d' hd'
  rw [BinarySearch.mem_insertAt, or_iff_right (by nofun)] at hd'
  obtain ⟨f, hf⟩ := h d' hd'
  refine ⟨f, ?_⟩
  rw [find?_insertAt rfl, hf]

theorem DenialsHold.filter (h : DenialsHold v) {keep : PathDesc C → Bool}
    (hkeep : ∀ d, keep (.flagDenied d) = true)
    : DenialsHold (v.filter keep) := by
  intro d hd
  obtain ⟨f, hf⟩ := h d (List.mem_filter.mp hd).1
  refine ⟨f, ?_⟩
  rw [find?_eq_some_iff_append] at hf ⊢
  obtain ⟨habove, before, after, rfl, hnone⟩ := hf
  refine ⟨habove, before.filter keep, after.filter keep, ?_, ?_⟩
  . rw [filter_append, filter_cons_of_pos (hkeep f)]
  . intro x hx
    exact hnone x (List.mem_filter.mp hx).1

section Calls

variable {perm : PathPermission C} {q : ReadQueryDescriptor C}

theorem not_isPrefix_of_not_partial (h : perm.isPartialFlagDenied (some q) = false)
    (hd : .flagDenied d ∈ perm.descriptors.inner)
    : ¬q.cmpPath <+: d.cmpPath := by
  unfold isPartialFlagDenied at h
  rw [any_eq_false] at h
  have hnot := h _ hd
  intro hpre
  exact hnot (decide_eq_true hpre)

theorem not_partial_of_prompt (h : perm.queryDesc (some q) .treatAsDenied = .prompt)
    : perm.isPartialFlagDenied (some q) = false := by
  rw [queryDesc_eq] at h
  cases hfind : perm.descriptors.inner.find? (isMatch q) with
  | none =>
    rw [hfind] at h
    unfold unmatched at h
    rw [← Bool.not_eq_true]
    intro hpartial
    rw [if_pos (⟨rfl, hpartial⟩ : AllowPartial.treatAsDenied = .treatAsDenied ∧ _)] at h
    split at h <;> contradiction
  | some x =>
    rw [hfind] at h
    cases x with
    | granted g =>
      unfold stateOf queryAllowedDesc at h
      dsimp only at h
      split at h <;> contradiction
    | _ d => contradiction

theorem not_partial_of_granted (h : perm.queryDesc (some q) .treatAsPartialGranted = .granted)
    : perm.isPartialFlagDenied (some q) = false := by
  have hallowed (hstate : perm.queryAllowedDesc (some q) .treatAsPartialGranted = .granted)
      : perm.isPartialFlagDenied (some q) = false := by
    unfold queryAllowedDesc at hstate
    dsimp only at hstate
    split at hstate
    . contradiction
    . next hnot => exact Bool.eq_false_of_not_eq_true hnot
  rw [queryDesc_eq] at h
  cases hfind : perm.descriptors.inner.find? (isMatch q) with
  | none =>
    rw [hfind] at h
    unfold unmatched at h
    split at h
    . contradiction
    . rw [if_neg (by rintro ⟨h, _⟩; contradiction)] at h
      split at h
      . contradiction
      . split at h
        . exact hallowed h
        . contradiction
  | some x =>
    rw [hfind] at h
    cases x with
    | granted g => exact hallowed h
    | _ d => contradiction

end Calls

inductive Harmless (ds : PathDescriptors C) : PathDescriptors C → Prop
  | same : Harmless ds ds
  | grant (g : ReadDescriptor C) (h : ∀ d, .flagDenied d ∈ ds.inner → ¬g.cmpPath <+: d.cmpPath) :
    Harmless ds (ds.insert (.granted g))
  | deny (d : ReadDescriptor C) : Harmless ds (ds.insert (.promptDenied d))
  | revoke (q : ReadQueryDescriptor C) : Harmless ds (ds.revokeGranted q)

section

variable (perm : PathPermission C)

def IsPromptedGrant (c : Call C) (q : ReadQueryDescriptor C) : Prop :=
  c = .request q .allow ∧ perm.query (some q) = .prompt ∧ perm.prompt = true

theorem check_harmless (q : ReadQueryDescriptor C) (broker : Option BrokerResponse)
    (hanswer : answer ≠ .allowAll)
    : Harmless perm.descriptors (perm.call (.check q broker answer)).descriptors := by
  show Harmless _ (perm.check q broker answer).2.descriptors
  unfold check
  split
  . exact .same
  . unfold checkDesc
    generalize hstate : perm.queryDesc (some q) (.from !QueryDescriptor.assertNonPartial (ReadQueryDescriptor C))
      = state
    cases broker with
    | some response => cases response <;> exact .same
    | none =>
      cases state with
      | prompt =>
        cases hprompt : perm.prompt with
        | false => exact .same
        | true =>
          cases answer with
          | allowAll => contradiction
          | deny => exact .deny _
          | allow =>
            apply Harmless.grant
            intro d hd
            exact not_isPrefix_of_not_partial (not_partial_of_prompt hstate) hd
      | _ => exact .same

theorem call_cases (hc : c.NotAllowAll)
    : Harmless perm.descriptors (perm.call c).descriptors ∨
      ∃ q, IsPromptedGrant perm c q ∧
        (perm.call c).descriptors = perm.descriptors.insert (.granted q.asDescriptor) := by
  cases c with
  | check q broker answer => exact .inl (check_harmless perm q broker hc)
  | revoke q => exact .inl (.revoke q)
  | request q answer =>
    have hcall : perm.call (.request q answer) = (perm.requestDesc (some q) answer).2 := rfl
    rw [hcall]
    unfold requestDesc
    dsimp only
    split
    . next hgranted =>
      refine .inl (.grant _ ?_)
      intro d hd
      exact not_isPrefix_of_not_partial (not_partial_of_granted hgranted) hd
    . split
      . exact .inl .same
      . next hstate =>
        rw [not_not] at hstate
        cases hprompt : perm.prompt with
        | false => exact .inl .same
        | true =>
          cases answer with
          | allowAll => contradiction
          | deny => exact .inl (.deny _)
          | allow => exact .inr ⟨q, ⟨rfl, hstate, hprompt⟩, rfl⟩

end

theorem call_of_isPromptedGrant (h : IsPromptedGrant perm c q)
    : (perm.call c).descriptors = perm.descriptors.insert (.granted q.asDescriptor) := by
  obtain ⟨rfl, hstate, hprompt⟩ := h
  show (perm.requestDesc (some q) .allow).2.descriptors = _
  unfold query at hstate
  unfold requestDesc
  rw [hstate, hprompt]
  rfl

def PlacesGrants (perm : PathPermission C) (c : Call C) : Prop :=
  ∀ q, IsPromptedGrant perm c q →
    ∀ i, BinarySearch.binarySearchBy (fun x => x.cmp (.granted q.asDescriptor)) perm.descriptors.inner
        = .error i →
      CoveredAt perm.descriptors.inner q.asDescriptor i

theorem mem_insert_iff (hne : x ≠ item)
    : x ∈ (ds.insert item).inner ↔ x ∈ ds.inner := by
  rcases ds.insert_cases item with ⟨_, _, heq⟩ | ⟨i, _, heq⟩
  . rw [heq]
  . rw [heq, BinarySearch.mem_insertAt, or_iff_right hne]

theorem Harmless.flags_iff (h : Harmless ds ds') (d : ReadDescriptor C)
    : (.flagDenied d ∈ ds'.inner ↔ .flagDenied d ∈ ds.inner) ∧
      (.flagIgnored d ∈ ds'.inner ↔ .flagIgnored d ∈ ds.inner) := by
  cases h with
  | same => exact ⟨Iff.rfl, Iff.rfl⟩
  | grant g _ | deny d' => exact ⟨mem_insert_iff (by nofun), mem_insert_iff (by nofun)⟩
  | revoke q =>
    unfold UnaryPermissionDescriptors.revokeGranted
    simp [List.mem_filter]

theorem Harmless.denialsHold (h : Harmless ds ds') (hhold : DenialsHold ds.inner)
    : DenialsHold ds'.inner := by
  cases h with
  | same => exact hhold
  | grant g hbelow =>
    rcases ds.insert_cases (.granted g) with ⟨_, _, heq⟩ | ⟨i, _, heq⟩
    . rw [heq]
      exact hhold
    . rw [heq, denialsHold_granted_iff hhold]
      intro d hd hpre
      exact absurd hpre (hbelow d hd)
  | deny d =>
    rcases ds.insert_cases (.promptDenied d) with ⟨_, _, heq⟩ | ⟨i, _, heq⟩
    . rw [heq]
      exact hhold
    . rw [heq]
      exact hhold.promptDenied d i
  | revoke q => exact hhold.filter fun _ => rfl

omit [LinearOrder C] in
theorem Running.of_flags_iff (h : Running deny v)
    (hflags : ∀ d, (.flagDenied d ∈ v' ↔ .flagDenied d ∈ v) ∧ (.flagIgnored d ∈ v' ↔ .flagIgnored d ∈ v))
    : Running deny v' := by
  constructor
  . intro path
    rw [h.deny_iff]
    constructor
    . rintro ⟨d, hd, rfl⟩
      exact ⟨d, (hflags d).1.mpr hd, rfl⟩
    . rintro ⟨d, hd, rfl⟩
      exact ⟨d, (hflags d).1.mp hd, rfl⟩
  . intro d hd
    exact h.notIgnored d ((hflags d).2.mp hd)

theorem Running.call (h : Running deny perm.descriptors.inner) (hc : c.NotAllowAll)
    : Running deny (perm.call c).descriptors.inner := by
  rcases call_cases perm hc with hharmless | ⟨q, _, heq⟩
  . exact h.of_flags_iff hharmless.flags_iff
  . rw [heq]
    apply h.of_flags_iff
    intro d
    exact ⟨mem_insert_iff (by nofun), mem_insert_iff (by nofun)⟩

theorem denialsHold_call (hhold : DenialsHold perm.descriptors.inner) (hc : c.NotAllowAll)
    (hplaces : PlacesGrants perm c)
    : DenialsHold (perm.call c).descriptors.inner := by
  rcases call_cases perm hc with hharmless | ⟨q, hgrant, heq⟩
  . exact hharmless.denialsHold hhold
  . rw [heq]
    rcases perm.descriptors.insert_cases (.granted q.asDescriptor) with ⟨_, _, hsame⟩ | ⟨i, hsearch, hinsert⟩
    . rw [hsame]
      exact hhold
    . rw [hinsert, denialsHold_granted_iff hhold]
      exact hplaces q hgrant i hsearch

theorem not_denialsHold_call (hhold : DenialsHold perm.descriptors.inner) (hplaces : ¬PlacesGrants perm c)
    : ¬DenialsHold (perm.call c).descriptors.inner := by
  unfold PlacesGrants at hplaces
  push Not at hplaces
  obtain ⟨q, hgrant, i, hsearch, hcovered⟩ := hplaces
  rw [call_of_isPromptedGrant hgrant]
  rcases perm.descriptors.insert_cases (.granted q.asDescriptor) with ⟨j, hsearch', _⟩ | ⟨j, hsearch', hinsert⟩
  . rw [hsearch] at hsearch'
    contradiction
  . rw [hsearch] at hsearch'
    cases hsearch'
    rw [hinsert, denialsHold_granted_iff hhold]
    exact hcovered

theorem newUnary_running (allow deny : Option (List (ReadDescriptor C))) (prompt : Bool)
    : Running ((deny.getD []).map PathDescriptor.cmpPath) (newUnary allow deny prompt).descriptors.inner ∧
      DenialsHold (newUnary allow deny prompt).descriptors.inner := by
  have hlists := newUnary_lists allow deny prompt
  generalize (newUnary allow deny prompt).descriptors.inner = v at hlists
  refine ⟨⟨hlists.deny_iff, ?_⟩, ?_⟩
  . intro d hd
    rcases hlists.setUp.kinds _ hd with ⟨g, h⟩ | ⟨d', h⟩ <;> contradiction
  . apply denialsHold_of_find?
    intro d g hd hfind
    apply hlists.setUp.not_isPrefix hfind hd (isAbove_flagDenied.mpr prefix_rfl)
    exact isAbove_granted.mp (find?_some hfind)

theorem always_failsClosed_iff [Infinite C] (allow deny : Option (List (ReadDescriptor C))) (prompt : Bool)
    (calls : List (Call C)) (hcalls : ∀ c ∈ calls, c.NotAllowAll)
    : Run.Always call (FailsClosed ((deny.getD []).map PathDescriptor.cmpPath))
        (newUnary allow deny prompt) calls ↔
      Run.Along call PlacesGrants (newUnary allow deny prompt) calls := by
  apply Run.always_iff_along
    (fun perm => Running ((deny.getD []).map PathDescriptor.cmpPath) perm.descriptors.inner ∧
      DenialsHold perm.descriptors.inner)
    Call.NotAllowAll
  . rintro perm ⟨hrunning, hhold⟩
    exact failsClosed_of_denialsHold hrunning hhold
  . rintro perm c ⟨hrunning, hhold⟩ hc hplaces
    exact ⟨hrunning.call hc, denialsHold_call hhold hc hplaces⟩
  . rintro perm c ⟨hrunning, hhold⟩ hc hplaces
    rw [failsClosed_iff_denialsHold (hrunning.call hc)]
    exact not_denialsHold_call hhold hplaces
  . exact newUnary_running allow deny prompt
  . exact hcalls

theorem always_failsClosed_of_not_below (allow deny : Option (List (ReadDescriptor C))) (prompt : Bool)
    (calls : List (Call C)) (hcalls : ∀ c ∈ calls, c.NotAllowAll)
    (hbelow : ∀ q, .request q .allow ∈ calls → ∀ d ∈ deny.getD [], ¬q.cmpPath <+: d.cmpPath)
    : Run.Always call (FailsClosed ((deny.getD []).map PathDescriptor.cmpPath))
        (newUnary allow deny prompt) calls := by
  apply Run.always_of_along
    (fun perm => Running ((deny.getD []).map PathDescriptor.cmpPath) perm.descriptors.inner ∧
      DenialsHold perm.descriptors.inner)
    _ _ (newUnary_running allow deny prompt) (Run.along_of_forall call _ fun _ hc => hc)
  . rintro perm ⟨hrunning, hhold⟩
    exact failsClosed_of_denialsHold hrunning hhold
  . rintro perm c ⟨hrunning, hhold⟩ hc
    refine ⟨hrunning.call (hcalls c hc), denialsHold_call hhold (hcalls c hc) ?_⟩
    -- the denied paths are those of the flag, so that there is none for the grant to be placed for
    rintro q ⟨rfl, _⟩ i _ d hd hpre
    obtain ⟨d', hd', heq⟩ := mem_map.mp (hrunning.deny_iff.mpr ⟨d, hd, rfl⟩)
    rw [← heq] at hpre
    exact absurd hpre (hbelow q hc d' hd')

def numbered (path : List Nat) : ReadDescriptor Nat := ⟨path, []⟩

def askedFor (path : List Nat) : ReadQueryDescriptor Nat := ⟨path, []⟩

def deniesBelow : PathPermission Nat := newUnary none (some [numbered [1], numbered [2, 1]]) true

theorem always_failsClosed_iff_deniesBelow
    : Run.Always call (FailsClosed [[1], [2, 1]]) deniesBelow [.request (askedFor [2]) .allow] := by
  refine (always_failsClosed_iff none (some [numbered [1], numbered [2, 1]]) true
    [.request (askedFor [2]) .allow] ?_).mpr ⟨?_, trivial⟩
  . intro c hc
    rw [mem_singleton.mp hc]
    nofun
  . rintro q ⟨hq, _⟩ i hi d hd hpre
    injection hq with hq
    subst hq
    -- the grant of `[2]` comes after the denial of `[2, 1]`
    have hsearch : BinarySearch.binarySearchBy (fun x => x.cmp (.granted (askedFor [2]).asDescriptor))
        deniesBelow.descriptors.inner = .error 2 := by decide
    injection hsearch.symm.trans hi with hplace
    subst hplace
    exact ⟨d, hd, prefix_rfl⟩

def misplacing : List (Call Nat) :=
  [.request (askedFor [3]) .deny, .revoke (askedFor [1, 3]), .request (askedFor [3, 3]) .allow]

theorem granted_below_denied
    : (misplacing.foldl call
      (newUnary (some [numbered [1, 3]])
        (some [numbered [1], numbered [3, 3, 1], numbered [1, 3], numbered [1, 2]]) true)).query
          (some (askedFor [3, 3, 1])) = .grantedPartial := by
  decide

end Deno.Permissions
