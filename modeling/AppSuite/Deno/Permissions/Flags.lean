import AppSuite.Deno.Permissions.Query

/-!
This module contains the path permissions as the flags set them up.
-/

namespace Deno.Permissions

open List BinarySearch UnaryPermissionDesc UnaryPermissionDescriptors PathDescriptor UnaryPermission

variable {C : Type} [LinearOrder C]

def InOrder : PathDesc C → PathDesc C → Prop
  | .granted v, .granted v' => postorder v.cmpPath v'.cmpPath = .lt
  | .granted v, .flagDenied v' => postorder v.cmpPath v'.cmpPath = .lt
  | _, _ => True

structure SetUp (v : List (PathDesc C)) : Prop where
  inOrder : v.Pairwise InOrder
  kinds : ∀ x ∈ v, (∃ g, x = .granted g) ∨ ∃ d, x = .flagDenied d

structure Grants (v : List (PathDesc C)) : Prop where
  sorted : v.Pairwise fun x y => postorder x.path y.path = .lt
  kinds : ∀ x ∈ v, ∃ g, x = .granted g

variable {v : List (PathDesc C)} {q : ReadQueryDescriptor C}

theorem Grants.setUp (h : Grants v) : SetUp v := by
  refine ⟨?_, fun x hx => .inl (h.kinds x hx)⟩
  apply h.sorted.imp_of_mem
  intro x y hx hy hlt
  obtain ⟨g, rfl⟩ := h.kinds x hx
  obtain ⟨g', rfl⟩ := h.kinds y hy
  exact hlt

abbrev PathDescriptors (C : Type) := UnaryPermissionDescriptors (ReadDescriptor C) (ReadDescriptor C)

variable {ds : PathDescriptors C}

theorem Grants.insert (h : Grants ds.inner) (g : ReadDescriptor C)
    : Grants (ds.insert (.granted g)).inner := by
  rcases ds.insert_cases (.granted g) with ⟨_, _, heq⟩ | ⟨i, hsearch, heq⟩
  . rw [heq]
    exact h
  . have hbefore : ∀ x ∈ ds.inner.take i, postorder x.path g.cmpPath = .lt := by
      refine forall_before hsearch h.sorted fun y hy hlt => ?_
      obtain ⟨g', rfl⟩ := h.kinds y hy
      rw [cmp_granted] at hlt
      exact ⟨hlt, fun _ hx => postorder_trans hx hlt⟩
    have hafter : ∀ x ∈ ds.inner.drop i, postorder g.cmpPath x.path = .lt := by
      refine forall_after hsearch h.sorted fun y hy hgt => ?_
      obtain ⟨g', rfl⟩ := h.kinds y hy
      rw [cmp_granted] at hgt
      exact ⟨postorder_gt hgt, fun _ hx => postorder_trans (postorder_gt hgt) hx⟩
    rw [heq]
    refine ⟨pairwise_insertAt h.sorted hbefore hafter, ?_⟩
    intro x hx
    rcases (mem_insertAt i).mp hx with rfl | hx
    . exact ⟨g, rfl⟩
    . exact h.kinds x hx

theorem SetUp.insert (h : SetUp ds.inner) (d : ReadDescriptor C)
    : SetUp (ds.insert (.flagDenied d)).inner := by
  rcases ds.insert_cases (.flagDenied d) with ⟨_, _, heq⟩ | ⟨i, hsearch, heq⟩
  . rw [heq]
    exact h
  . have hbefore : ∀ x ∈ ds.inner.take i, InOrder x (.flagDenied d) := by
      refine forall_before hsearch h.inOrder fun y hy hlt => ?_
      rcases h.kinds y hy with ⟨g, rfl⟩ | ⟨d', rfl⟩
      . have hlt := cmp_granted_flagDenied_lt hlt
        refine ⟨hlt, fun x hx => ?_⟩
        cases x with
        | granted _ => exact postorder_trans hx hlt
        | _ => trivial
      . rw [cmp_flagDenied] at hlt
        refine ⟨trivial, fun x hx => ?_⟩
        cases x with
        | granted _ => exact postorder_trans hx hlt
        | _ => trivial
    rw [heq]
    refine ⟨pairwise_insertAt h.inOrder hbefore (fun _ _ => trivial), ?_⟩
    intro x hx
    rcases (mem_insertAt i).mp hx with rfl | hx
    . exact .inr ⟨d, rfl⟩
    . exact h.kinds x hx

theorem Grants.foldl (h : Grants ds.inner) (allow : List (ReadDescriptor C))
    : Grants ((allow.map .granted).foldl .insert ds).inner := by
  induction allow generalizing ds with
  | nil => exact h
  | cons g allow ih => exact ih (h.insert g)

theorem SetUp.foldl (h : SetUp ds.inner) (deny : List (ReadDescriptor C))
    : SetUp ((deny.map .flagDenied).foldl .insert ds).inner := by
  induction deny generalizing ds with
  | nil => exact h
  | cons d deny ih => exact ih (h.insert d)

section

variable (allow deny : Option (List (ReadDescriptor C))) (prompt : Bool)

include allow deny prompt

theorem newUnary_descriptors
    : (newUnary allow deny prompt).descriptors
      = ((deny.getD []).map .flagDenied).foldl .insert
          (((allow.getD []).map .granted).foldl .insert .empty) := by
  unfold newUnary newUnaryWithIgnore
  dsimp only
  rw [Option.getD_none, map_nil, append_nil, foldl_append]

theorem newUnary_setUp : SetUp (newUnary allow deny prompt).descriptors.inner := by
  rw [newUnary_descriptors]
  have hempty : Grants (empty : PathDescriptors C).inner := ⟨.nil, nofun⟩
  exact (hempty.foldl _).setUp.foldl _

theorem newUnary_keys (k : Nat × List C)
    : k ∈ (newUnary allow deny prompt).descriptors.inner.map key ↔
      (k.1 = 3 ∧ k.2 ∈ (allow.getD []).map cmpPath) ∨
        (k.1 = 0 ∧ k.2 ∈ (deny.getD []).map cmpPath) := by
  obtain ⟨kind, path⟩ := k
  rw [newUnary_descriptors, mem_foldl_insert_keys,
    mem_foldl_insert_keys]
  simp only [empty, map_nil, not_mem_nil, or_false, map_map,
    mem_map, Function.comp_apply, key, kindPrecedence,
    UnaryPermissionDesc.path, Prod.mk.injEq]
  constructor
  . rintro (⟨d, hd, rfl, rfl⟩ | ⟨g, hg, rfl, rfl⟩)
    . exact .inr ⟨rfl, d, hd, rfl⟩
    . exact .inl ⟨rfl, g, hg, rfl⟩
  . rintro (⟨rfl, g, hg, rfl⟩ | ⟨rfl, d, hd, rfl⟩)
    . exact .inr ⟨g, hg, rfl, rfl⟩
    . exact .inl ⟨d, hd, rfl, rfl⟩

end

structure Lists (v : List (PathDesc C)) (allow deny : List (List C)) : Prop where
  setUp : SetUp v
  allow_iff : ∀ {path}, path ∈ allow ↔ ∃ g, .granted g ∈ v ∧ g.cmpPath = path
  deny_iff : ∀ {path}, path ∈ deny ↔ ∃ d, .flagDenied d ∈ v ∧ d.cmpPath = path

theorem newUnary_lists (allow deny : Option (List (ReadDescriptor C))) (prompt : Bool)
    : Lists (newUnary allow deny prompt).descriptors.inner ((allow.getD []).map cmpPath)
      ((deny.getD []).map cmpPath) := by
  have hsetUp := newUnary_setUp allow deny prompt
  refine ⟨hsetUp, ?_, ?_⟩
  . intro path
    have hkeys := newUnary_keys allow deny prompt (3, path)
    simp only [true_and, Nat.reduceEqDiff, false_and, or_false] at hkeys
    rw [← hkeys, mem_map]
    constructor
    . rintro ⟨x, hx, hkey⟩
      rcases hsetUp.kinds x hx with ⟨g, rfl⟩ | ⟨d, rfl⟩
      . exact ⟨g, hx, congrArg Prod.snd hkey⟩
      . have hkind := congrArg Prod.fst hkey
        contradiction
    . rintro ⟨g, hg, rfl⟩
      exact ⟨_, hg, rfl⟩
  . intro path
    have hkeys := newUnary_keys allow deny prompt (0, path)
    simp only [true_and, Nat.reduceEqDiff, false_and, false_or] at hkeys
    rw [← hkeys, mem_map]
    constructor
    . rintro ⟨x, hx, hkey⟩
      rcases hsetUp.kinds x hx with ⟨g, rfl⟩ | ⟨d, rfl⟩
      . have hkind := congrArg Prod.fst hkey
        contradiction
      . exact ⟨d, hx, congrArg Prod.snd hkey⟩
    . rintro ⟨d, hd, rfl⟩
      exact ⟨_, hd, rfl⟩

theorem SetUp.not_isPrefix (h : SetUp v) {p : PathDesc C → Bool} (hfind : v.find? p = some (.granted g))
    (hd : .flagDenied d ∈ v) (hp : p (.flagDenied d) = true)
    : ¬g.cmpPath <+: d.cmpPath := by
  rw [find?_eq_some_iff_append] at hfind
  obtain ⟨_, before, after, rfl, hnone⟩ := hfind
  have hafter : .flagDenied d ∈ after := by
    rw [mem_append, mem_cons] at hd
    rcases hd with hd | hd | hd
    . have hnot := hnone _ hd
      rw [hp] at hnot
      contradiction
    . contradiction
    . exact hd
  exact not_isPrefix_of_postorder ((pairwise_cons.mp (pairwise_append.mp h.inOrder).2.1).1 _ hafter)

theorem SetUp.denied_above (h : SetUp v)
    (hfind : v.find? (isMatch q) = some (.granted g)) (hd : .flagDenied d ∈ v)
    (hpre : d.cmpPath <+: q.cmpPath)
    : d.cmpPath.length < g.cmpPath.length := by
  have hnot := h.not_isPrefix hfind hd (isMatch_flagDenied.mpr hpre)
  have hor := prefix_or_prefix_of_prefix (isMatch_granted.mp (find?_some hfind)) hpre
  have hbelow := hor.resolve_left hnot
  apply Nat.lt_of_le_of_ne hbelow.length_le
  intro hlen
  exact hnot (hbelow.eq_of_length hlen ▸ prefix_rfl)

structure Longest (listed : List (List C)) (p path : List C) : Prop where
  mem : path ∈ listed
  above : path <+: p
  longest : ∀ path' ∈ listed, path' <+: p → path'.length ≤ path.length

theorem exists_longest {listed : List (List C)} {p path : List C} (hmem : path ∈ listed)
    (habove : path <+: p)
    : ∃ longest, Longest listed p longest := by
  have hne : (listed.filter (· <+: p)).toFinset.Nonempty := by
    refine ⟨path, ?_⟩
    rw [mem_toFinset, mem_filter, decide_eq_true_iff]
    exact ⟨hmem, habove⟩
  obtain ⟨longest, hlongest, hmax⟩ := Finset.exists_max_image _ length hne
  rw [mem_toFinset, mem_filter, decide_eq_true_iff] at hlongest
  refine ⟨longest, hlongest.1, hlongest.2, ?_⟩
  intro path' hmem' habove'
  apply hmax
  rw [mem_toFinset, mem_filter, decide_eq_true_iff]
  exact ⟨hmem', habove'⟩

structure MostSpecificDecides (allow deny : List (List C)) (p : List C) (state : PermissionState) : Prop where
  granted : (state = .granted ∨ state = .grantedPartial) ↔
    ∃ path, Longest (allow ++ deny) p path ∧ path ∈ allow ∧ path ∉ deny
  denied : state = .denied ↔ ∃ path, Longest (allow ++ deny) p path ∧ path ∈ deny
  prompt : (∀ path ∈ allow ++ deny, ¬path <+: p) → state = .prompt

def GrantsStandFirst (v : List (PathDesc C)) : Prop :=
  ∀ g, .granted g ∈ v → (∀ d, .flagDenied d ∈ v → d.cmpPath ≠ g.cmpPath) →
    ∀ before d after, v = before ++ .flagDenied d :: after → d.cmpPath <+: g.cmpPath →
      ∃ g', .granted g' ∈ before ∧ g'.cmpPath <+: g.cmpPath

namespace Lists

variable {v : List (PathDesc C)} {allow deny : List (List C)} {q : ReadQueryDescriptor C}

theorem not_longest_of_none (h : Lists v allow deny)
    (hfind : v.find? (isMatch q) = none) (path : List C)
    : ¬Longest (allow ++ deny) q.cmpPath path := by
  rw [find?_eq_none] at hfind
  intro hlongest
  rcases mem_append.mp hlongest.mem with hmem | hmem
  . obtain ⟨g, hg, rfl⟩ := h.allow_iff.mp hmem
    exact hfind _ hg (isMatch_granted.mpr hlongest.above)
  . obtain ⟨d, hd, rfl⟩ := h.deny_iff.mp hmem
    exact hfind _ hd (isMatch_flagDenied.mpr hlongest.above)

theorem decides_of_none (h : Lists v allow deny)
    (hfind : v.find? (isMatch q) = none)
    : MostSpecificDecides allow deny q.cmpPath .prompt := by
  have hnone := h.not_longest_of_none hfind
  constructor
  . constructor
    . rintro (h | h) <;> contradiction
    . rintro ⟨path, hlongest, _⟩
      exact absurd hlongest (hnone path)
  . constructor
    . intro h
      contradiction
    . rintro ⟨path, hlongest, _⟩
      exact absurd hlongest (hnone path)
  . intro _
    rfl

theorem decides_of_granted (h : Lists v allow deny) {g : ReadDescriptor C}
    (hfind : v.find? (isMatch q) = some (.granted g)) {state : PermissionState}
    (hstate : state = .granted ∨ state = .grantedPartial)
    : MostSpecificDecides allow deny q.cmpPath state := by
  have hg : g.cmpPath ∈ allow := h.allow_iff.mpr ⟨g, mem_of_find?_eq_some hfind, rfl⟩
  have hmatch : g.cmpPath <+: q.cmpPath :=
    isMatch_granted.mp (find?_some hfind)
  have hlisted : g.cmpPath ∈ allow ++ deny := mem_append.mpr (.inl hg)
  have hnot : ∀ path, Longest (allow ++ deny) q.cmpPath path → path ∉ deny := by
    intro path hlongest hpath
    obtain ⟨d, hd, rfl⟩ := h.deny_iff.mp hpath
    have hlt := h.setUp.denied_above hfind hd hlongest.above
    have hle := hlongest.longest _ hlisted hmatch
    omega
  constructor
  . refine iff_of_true hstate ?_
    obtain ⟨path, hlongest⟩ := exists_longest hlisted hmatch
    have hdeny := hnot path hlongest
    exact ⟨path, hlongest, (mem_append.mp hlongest.mem).resolve_right hdeny, hdeny⟩
  . constructor
    . rintro rfl
      rcases hstate with h | h <;> contradiction
    . rintro ⟨path, hlongest, hpath⟩
      exact absurd hpath (hnot path hlongest)
  . intro hnone
    exact absurd hmatch (hnone _ hlisted)

theorem decides_of_denied (h : Lists v allow deny) (hfirst : GrantsStandFirst v) {d : ReadDescriptor C}
    (hfind : v.find? (isMatch q) = some (.flagDenied d))
    : MostSpecificDecides allow deny q.cmpPath .denied := by
  have hd : d.cmpPath ∈ deny := h.deny_iff.mpr ⟨d, mem_of_find?_eq_some hfind, rfl⟩
  have hmatch : d.cmpPath <+: q.cmpPath :=
    isMatch_flagDenied.mp (find?_some hfind)
  have hlisted : d.cmpPath ∈ allow ++ deny := mem_append.mpr (.inr hd)
  have hdenied : ∀ path, Longest (allow ++ deny) q.cmpPath path → path ∈ deny := by
    intro path hlongest
    by_contra hpath
    obtain ⟨g, hg, rfl⟩ := h.allow_iff.mp ((mem_append.mp hlongest.mem).resolve_right hpath)
    rw [find?_eq_some_iff_append] at hfind
    obtain ⟨_, before, after, heq, hnone⟩ := hfind
    have hother : ∀ d', .flagDenied d' ∈ v → d'.cmpPath ≠ g.cmpPath := by
      intro d' hd' hsame
      exact hpath (h.deny_iff.mpr ⟨d', hd', hsame⟩)
    have habove : d.cmpPath <+: g.cmpPath :=
      prefix_of_prefix_length_le hmatch hlongest.above (hlongest.longest _ hlisted hmatch)
    obtain ⟨g', hg', hpre⟩ := hfirst g hg hother before d after heq habove
    have hmatch' := isMatch_granted.mpr (hpre.trans hlongest.above)
    have hnot := hnone _ hg'
    rw [hmatch'] at hnot
    contradiction
  constructor
  . constructor
    . rintro (h | h) <;> contradiction
    . rintro ⟨path, hlongest, _, hpath⟩
      exact absurd (hdenied path hlongest) hpath
  . refine iff_of_true rfl ?_
    obtain ⟨path, hlongest⟩ := exists_longest hlisted hmatch
    exact ⟨path, hlongest, hdenied path hlongest⟩
  . intro hnone
    exact absurd hmatch (hnone _ hlisted)

end Lists

theorem stateOf_granted (perm : PathPermission C) (q : ReadQueryDescriptor C) (g : ReadDescriptor C)
    : perm.stateOf q .treatAsPartialGranted (.granted g) = .granted ∨
      perm.stateOf q .treatAsPartialGranted (.granted g) = .grantedPartial := by
  unfold stateOf queryAllowedDesc
  dsimp only
  split
  . exact .inr rfl
  . exact .inl rfl

theorem granted_of_stateOf {perm : PathPermission C} {x : PathDesc C}
    (h : perm.stateOf q .treatAsPartialGranted x = .granted ∨ perm.stateOf q .treatAsPartialGranted x = .grantedPartial)
    : ∃ g, x = .granted g := by
  cases x with
  | granted g => exact ⟨g, rfl⟩
  | _ d => rcases h with h | h <;> contradiction

theorem newUnary_unmatched {allow deny : List (ReadDescriptor C)} (hallow : allow ≠ []) (hdeny : deny ≠ [])
    (prompt : Bool) (q : ReadQueryDescriptor C)
    : (newUnary (some allow) (some deny) prompt : PathPermission C).unmatched q .treatAsPartialGranted
      = .prompt := by
  have hglobal {list : List (ReadDescriptor C)} (hne : list ≠ []) : globalFromOption (some list) = false := by
    cases list with
    | nil => contradiction
    | cons x list => rfl
  unfold unmatched
  rw [if_neg, if_neg, if_neg, if_neg]
  . show ¬globalFromOption (some allow) = true
    rw [hglobal hallow]
    exact Bool.false_ne_true
  . show ¬globalFromOption (some deny) = true
    rw [hglobal hdeny]
    exact Bool.false_ne_true
  . rintro ⟨h, _⟩
    contradiction
  . exact Bool.false_ne_true

theorem mostSpecificDecides_iff (allow deny : List (ReadDescriptor C)) (hallow : allow ≠ [])
    (hdeny : deny ≠ []) (prompt : Bool)
    : (∀ q : ReadQueryDescriptor C,
        MostSpecificDecides (allow.map cmpPath) (deny.map cmpPath) q.cmpPath
          ((newUnary (some allow) (some deny) prompt : PathPermission C).query (some q))) ↔
      GrantsStandFirst (newUnary (some allow) (some deny) prompt).descriptors.inner := by
  have hlists := newUnary_lists (some allow) (some deny) prompt
  have hunmatched := newUnary_unmatched hallow hdeny prompt
  generalize newUnary (some allow) (some deny) prompt = perm at hlists hunmatched
  constructor
  . intro hdecides g hg hother before d after heq habove
    have hlongest : Longest (allow.map cmpPath ++ deny.map cmpPath)
        g.cmpPath g.cmpPath := by
      refine ⟨mem_append.mpr (.inl (hlists.allow_iff.mpr ⟨g, hg, rfl⟩)), prefix_rfl, ?_⟩
      intro path' _ hpre
      exact hpre.length_le
    have hnot : g.cmpPath ∉ deny.map cmpPath := by
      intro hmem
      obtain ⟨d', hd', hsame⟩ := hlists.deny_iff.mp hmem
      exact hother d' hd' hsame
    have hstate := (hdecides g.asQueryDescriptor).granted.mpr
      ⟨g.cmpPath, hlongest, hlists.allow_iff.mpr ⟨g, hg, rfl⟩, hnot⟩
    cases hbefore : before.find? (isMatch g.asQueryDescriptor) with
    | none =>
      have hfind : perm.descriptors.inner.find? (isMatch g.asQueryDescriptor)
          = some (.flagDenied d) := by
        rw [heq, find?_append, hbefore, find?_cons_of_pos]
        . rfl
        . exact isMatch_flagDenied.mpr habove
      rw [query, queryDesc_of_find? hfind] at hstate
      obtain ⟨g', hg'⟩ := granted_of_stateOf hstate
      contradiction
    | some x =>
      have hfind : perm.descriptors.inner.find? (isMatch g.asQueryDescriptor)
          = some x := by
        rw [heq, find?_append, hbefore]
        rfl
      rw [query, queryDesc_of_find? hfind] at hstate
      obtain ⟨g', rfl⟩ := granted_of_stateOf hstate
      exact ⟨g', mem_of_find?_eq_some hbefore,
        isMatch_granted.mp (find?_some hbefore)⟩
  . intro hfirst q
    cases hfind : perm.descriptors.inner.find? (isMatch q) with
    | none =>
      rw [query, queryDesc_of_none hfind, hunmatched]
      exact hlists.decides_of_none hfind
    | some x =>
      rw [query, queryDesc_of_find? hfind]
      rcases hlists.setUp.kinds x (mem_of_find?_eq_some hfind) with ⟨g, rfl⟩ | ⟨d, rfl⟩
      . exact hlists.decides_of_granted hfind (stateOf_granted perm q g)
      . exact hlists.decides_of_denied hfirst hfind

def pathOf (path : List Char) : ReadDescriptor Char := ⟨path, path⟩

def queryOf (path : List Char) : ReadQueryDescriptor Char := ⟨path, path⟩

end Deno.Permissions
