import AppSuite.CcSwitch.CircuitBreaker.Calls

/-!
This module contains the requests that use one circuit breaker, and what holds of the half-open
permit.
-/

namespace CcSwitch.Proxy

open List Op AllowResult

inductive Outcome where
  | success
  | failure
  | neutral
  deriving DecidableEq, Repr

-- A request reports with the flag it was admitted with; the neutral report only gives the permit back.
def Outcome.report (config : CircuitBreakerConfig) (outcome : Outcome) (usedHalfOpenPermit : Bool)
    : Call Unit :=
  match outcome with
  | .success => recordSuccess config usedHalfOpenPermit
  | .failure => recordFailure config usedHalfOpenPermit
  | .neutral => releaseIf usedHalfOpenPermit

inductive Stage where
  | checking (code : Call Bool)
  | entering (code : Call AllowResult)
  | admitted (usedHalfOpenPermit : Bool)
  | reporting (code : Call Unit)
  | finished

-- What a request has of the permit: it backs out between the addition that came too late and the
-- subtraction, and it holds the permit from the addition that was in time to its release.
inductive Permit where
  | none
  | backingOut
  | held
  deriving DecidableEq, Repr

structure Thread where
  stage : Stage
  permit : Permit

def Op.permitAfter (op : Op) (p : Permit) (r : op.Res) : Permit :=
  match op with
  | .fetchAddHalfOpenRequests => if r < 1 then .held else .backingOut
  | .fetchSubHalfOpenRequests => .none
  | .releaseHalfOpenPermit => .none
  | _ => p

def Stage.check : Call Bool → Stage
  | .pure _ => .finished
  | code => .checking code

def Stage.enter : Call AllowResult → Stage
  | .pure result => if result.allowed then .admitted result.usedHalfOpenPermit else .finished
  | code => .entering code

def Stage.report : Call Unit → Stage
  | .pure _ => .finished
  | code => .reporting code

def Thread.pending? (t : Thread) : Option Op :=
  match t.stage with
  | .checking (.call op _) => some op
  | .entering (.call op _) => some op
  | .reporting (.call op _) => some op
  | _ => none

def Thread.isBlocked (t : Thread) (b : CircuitBreaker) : Bool := t.pending?.any (·.isBlocked b)

def Thread.advance (config : CircuitBreakerConfig) (now : Nat) (t : Thread) (b : CircuitBreaker)
    : Thread × CircuitBreaker :=
  match t.stage with
  | .checking (.call op k) =>
    let (r, b) := exec config now op b
    (⟨.check (k r), op.permitAfter t.permit r⟩, b)
  | .entering (.call op k) =>
    let (r, b) := exec config now op b
    (⟨.enter (k r), op.permitAfter t.permit r⟩, b)
  | .reporting (.call op k) =>
    let (r, b) := exec config now op b
    (⟨.report (k r), op.permitAfter t.permit r⟩, b)
  | _ => (t, b)

inductive Action where
  | tick (nanos : Nat)
  | isAvailable
  | allowRequest
  | report (i : Nat) (outcome : Outcome)
  | advance (i : Nat)

structure System where
  now : Nat
  breaker : CircuitBreaker
  threads : List Thread

namespace System

def init : System := ⟨0, .new, []⟩

def step (config : CircuitBreakerConfig) (s : System) (a : Action) : System :=
  match a with
  | .tick nanos => { s with now := s.now + nanos }
  | .isAvailable => { s with threads := s.threads ++ [⟨.check Proxy.isAvailable, .none⟩] }
  | .allowRequest => { s with threads := s.threads ++ [⟨.enter Proxy.allowRequest, .none⟩] }
  | .report i outcome =>
    match s.threads[i]? with
    | some ⟨.admitted usedHalfOpenPermit, permit⟩ =>
      { s with threads := s.threads.set i ⟨.report (outcome.report config usedHalfOpenPermit), permit⟩ }
    | _ => s
  | .advance i =>
    match s.threads[i]? with
    | some t =>
      if t.isBlocked s.breaker then
        s
      else
        let (t, b) := t.advance config s.now s.breaker
        { s with breaker := b, threads := s.threads.set i t }
    | none => s

def countPermits (threads : List Thread) (p : Permit) : Nat := (threads.map Thread.permit).count p

def count (s : System) (p : Permit) : Nat := countPermits s.threads p

end System

def Op.admits (op : Op) (p : Permit) : Bool :=
  match op with
  | .fetchAddHalfOpenRequests => p == .none
  | .fetchSubHalfOpenRequests => p == .backingOut
  | .releaseHalfOpenPermit => p == .held
  | _ => true

def Op.permit? (op : Op) (p : Permit) (r : op.Res) : Option Permit :=
  if op.admits p then some (op.permitAfter p r) else Option.none

def Permit.ofUsed (usedHalfOpenPermit : Bool) : Permit := if usedHalfOpenPermit then .held else .none

def AllowResult.Leaves (result : AllowResult) (p : Permit) : Prop :=
  p = .ofUsed result.usedHalfOpenPermit ∧ (result.usedHalfOpenPermit = true → result.allowed = true)

def GivesBack {α : Type} (_ : α) (p : Permit) : Prop := p = .none

def Thread.Ok (t : Thread) : Prop :=
  match t.stage with
  | .checking code => code.Follows permit? GivesBack t.permit
  | .entering code => code.Follows permit? Leaves t.permit
  | .admitted usedHalfOpenPermit => t.permit = .ofUsed usedHalfOpenPermit
  | .reporting code => code.Follows permit? GivesBack t.permit
  | .finished => t.permit = .none

variable {p : Permit}

theorem follows_atomically {α : Type} {Q : α → Permit → Prop} {f : op.Res → Call α}
    (hop : op.admits p = true) (hf : ∀ r, (f r).Follows permit? Q (op.permitAfter p r))
    : (atomically op >>= f).Follows permit? Q p := by
  apply Prog.follows_perform
  intro r
  refine ⟨op.permitAfter p r, ?_, hf r⟩
  rw [permit?, if_pos hop]

theorem transitionToOpen_follows : transitionToOpen.Follows permit? GivesBack .none := by
  apply follows_atomically rfl
  intro _
  apply follows_atomically rfl
  intro _
  apply follows_atomically rfl
  intro _ _
  exact ⟨_, rfl, rfl⟩

theorem transitionToHalfOpen_follows : transitionToHalfOpen.Follows permit? GivesBack .none := by
  apply follows_atomically rfl
  intro locked
  cases locked with
  | false => rfl
  | true =>
    apply follows_atomically rfl
    intro _
    apply follows_atomically rfl
    intro _ _
    exact ⟨_, rfl, rfl⟩

theorem transitionToClosed_follows : transitionToClosed.Follows permit? GivesBack .none := by
  apply follows_atomically rfl
  intro _
  apply follows_atomically rfl
  intro _
  apply follows_atomically rfl
  intro _
  apply follows_atomically rfl
  intro _ _
  exact ⟨_, rfl, rfl⟩

theorem isAvailable_follows : isAvailable.Follows permit? GivesBack .none := by
  apply follows_atomically rfl
  intro state
  cases state with
  | closed | halfOpen => rfl
  | opened =>
    apply follows_atomically rfl
    intro timedOut
    cases timedOut with
    | false => rfl
    | true =>
      apply Prog.follows_bind transitionToHalfOpen_follows
      rintro _ _ rfl
      rfl

theorem allowHalfOpenProbe_follows : allowHalfOpenProbe.Follows permit? Leaves .none := by
  apply follows_atomically rfl
  intro current
  split
  . next h =>
    rw [permitAfter, if_pos h]
    exact ⟨rfl, fun _ => rfl⟩
  . next h =>
    rw [permitAfter, if_neg h]
    apply follows_atomically rfl
    intro _
    exact ⟨rfl, nofun⟩

theorem allowRequest_follows : allowRequest.Follows permit? Leaves .none := by
  apply follows_atomically rfl
  intro state
  cases state with
  | closed => exact ⟨rfl, nofun⟩
  | halfOpen => exact allowHalfOpenProbe_follows
  | opened =>
    apply follows_atomically rfl
    intro timedOut
    cases timedOut with
    | false => exact ⟨rfl, nofun⟩
    | true =>
      apply Prog.follows_bind transitionToHalfOpen_follows
      rintro _ _ rfl
      apply follows_atomically rfl
      intro current
      cases current with
      | closed => exact ⟨rfl, nofun⟩
      | halfOpen => exact allowHalfOpenProbe_follows
      | opened => exact ⟨rfl, nofun⟩

theorem releaseIf_follows (used : Bool)
    : (releaseIf used).Follows permit? GivesBack (.ofUsed used) := by
  cases used with
  | false => rfl
  | true =>
    intro _
    exact ⟨_, rfl, rfl⟩

variable (config : CircuitBreakerConfig) (used : Bool)

theorem recordSuccess_follows
    : (recordSuccess config used).Follows permit? GivesBack (.ofUsed used) := by
  apply follows_atomically rfl
  intro state
  apply Prog.follows_bind (releaseIf_follows used)
  rintro _ _ rfl
  apply follows_atomically rfl
  intro _
  apply follows_atomically rfl
  intro _
  split
  . apply follows_atomically rfl
    intro successes
    split
    . exact transitionToClosed_follows
    . rfl
  . rfl

theorem recordFailure_follows
    : (recordFailure config used).Follows permit? GivesBack (.ofUsed used) := by
  apply follows_atomically rfl
  intro state
  apply Prog.follows_bind (releaseIf_follows used)
  rintro _ _ rfl
  apply follows_atomically rfl
  intro failures
  apply follows_atomically rfl
  intro _
  apply follows_atomically rfl
  intro _
  apply follows_atomically rfl
  intro _
  cases state with
  | opened => rfl
  | halfOpen => exact transitionToOpen_follows
  | closed =>
    dsimp only
    split
    . exact transitionToOpen_follows
    . apply follows_atomically rfl
      intro total
      apply follows_atomically rfl
      intro failed
      split
      . exact transitionToOpen_follows
      . rfl

theorem Outcome.report_follows (outcome : Outcome) (used : Bool)
    : (outcome.report config used).Follows permit? GivesBack (.ofUsed used) := by
  cases outcome with
  | success => exact recordSuccess_follows config used
  | failure => exact recordFailure_follows config used
  | neutral => exact releaseIf_follows used

theorem check_ok (h : code.Follows permit? GivesBack p)
    : Thread.Ok ⟨.check code, p⟩ := by
  cases code with
  | pure _ | call op k => exact h

theorem enter_ok (h : code.Follows permit? Leaves p)
    : Thread.Ok ⟨.enter code, p⟩ := by
  cases code with
  | call op k => exact h
  | pure result =>
    obtain ⟨hp, hused⟩ := h
    unfold Stage.enter
    dsimp only
    split
    . exact hp
    . next hrefused =>
      have hfalse : result.usedHalfOpenPermit = false := by
        rw [← Bool.not_eq_true]
        intro h
        exact hrefused (hused h)
      rw [hfalse] at hp
      exact hp

theorem report_ok (h : code.Follows permit? GivesBack p)
    : Thread.Ok ⟨.report code, p⟩ := by
  cases code with
  | pure _ | call op k => exact h

theorem follows_call {α : Type} {Q : α → Permit → Prop} {k : op.Res → Call α}
    (h : (Prog.call op k).Follows permit? Q p) (r : op.Res)
    : op.admits p = true ∧ (k r).Follows permit? Q (op.permitAfter p r) := by
  obtain ⟨p', hp', hk⟩ := h r
  unfold permit? at hp'
  split at hp'
  . next hop =>
    injection hp' with hp'
    rw [hp']
    exact ⟨hop, hk⟩
  . contradiction

theorem Thread.advance_eq (now : Nat) {t : Thread} (b : CircuitBreaker) (h : t.Ok)
    : (t.pending? = none ∧ t.advance config now b = (t, b)) ∨
      ∃ op t', t.pending? = some op ∧ t.advance config now b = (t', (exec config now op b).2) ∧ t'.Ok ∧
        op.admits t.permit = true ∧ t'.permit = op.permitAfter t.permit (exec config now op b).1 := by
  obtain ⟨stage, p⟩ := t
  cases stage with
  | admitted used | finished => exact .inl ⟨rfl, rfl⟩
  | checking code | entering code | reporting code =>
    cases code with
    | pure _ => exact .inl ⟨rfl, rfl⟩
    | call op k =>
      obtain ⟨hop, hk⟩ := follows_call h (exec config now op b).1
      refine .inr ⟨op, _, rfl, rfl, ?_, hop, rfl⟩
      first | exact check_ok hk | exact enter_ok hk | exact report_ok hk

namespace System

/-! The number of requests that hold the permit, and of those that back out. -/

theorem countPermits_append (threads threads' : List Thread) (p : Permit)
    : countPermits (threads ++ threads') p = countPermits threads p + countPermits threads' p := by
  unfold countPermits
  rw [map_append, count_append]

variable {threads : List Thread} {i : Nat} {t t' : Thread} {p : Permit} {s : System}

theorem countPermits_set (t' : Thread) (p : Permit) (h : threads[i]? = some t)
    : countPermits (threads.set i t') p + (if t.permit = p then 1 else 0)
      = countPermits threads p + (if t'.permit = p then 1 else 0) := by
  unfold countPermits
  induction threads generalizing i with
  | nil => contradiction
  | cons head threads ih =>
    cases i with
    | zero =>
      injection h with h
      rw [h, set_cons_zero, map_cons, map_cons, count_cons, count_cons]
      simp only [beq_iff_eq]
      omega
    | succ i =>
      have := ih h
      rw [set_cons_succ, map_cons, map_cons, count_cons, count_cons]
      omega

theorem countPermits_set_of_eq (h : threads[i]? = some t) (heq : t'.permit = t.permit) (p : Permit)
    : countPermits (threads.set i t') p = countPermits threads p := by
  have := countPermits_set t' p h
  rw [heq] at this
  omega

def Sound (s : System) : Prop :=
  s.count .held ≤ 1 ∧
    (s.breaker.state = .halfOpen → s.count .held = 0 →
      (allowRequest.run (exec config s.now) s.breaker).1.allowed = true)

def HarmlessOp (s : System) (op : Op) : Prop :=
  match op with
  | .resetHalfOpenRequests => s.count .held = 0 ∧ s.count .backingOut = 0
  | .releaseHalfOpenPermit => s.count .backingOut = 0
  | .fetchAddHalfOpenRequests => s.breaker.halfOpenRequests.toNat + 1 < UInt32.size
  | _ => True

instance (s : System) (op : Op) : Decidable (s.HarmlessOp op) := by
  cases op <;> unfold HarmlessOp <;> infer_instance

def Harmless (s : System) (a : Action) : Prop :=
  match a with
  | .advance i => ∀ op ∈ s.threads[i]?.bind Thread.pending?, s.HarmlessOp op
  | _ => True

instance (s : System) (a : Action) : Decidable (s.Harmless a) := by
  cases a <;> unfold Harmless <;> infer_instance

structure Balanced (requests held backingOut : Nat) : Prop where
  counter : requests = held + backingOut
  single : held ≤ 1
  behind : held = 0 → backingOut = 0

structure Inv (s : System) : Prop where
  ok : ∀ t ∈ s.threads, t.Ok
  balanced : Balanced s.breaker.halfOpenRequests.toNat (s.count .held) (s.count .backingOut)

theorem init_inv : init.Inv := by
  constructor
  . intro t ht
    contradiction
  . exact ⟨rfl, Nat.zero_le 1, fun _ => rfl⟩

theorem allowRequest_run_halfOpen (now : Nat) (hstate : b.state = .halfOpen)
    (hrequests : b.halfOpenRequests < 1) : (allowRequest.run (exec config now) b).1 = ⟨true, true⟩ := by
  obtain ⟨state, locked, counters, lastOpenedAt, requests⟩ := b
  cases hstate
  change (Prog.run (exec config now)
    (if requests < 1 then pure (AllowResult.mk true true)
      else atomically .fetchSubHalfOpenRequests >>= fun _ => pure (AllowResult.mk false false)) _).1 = _
  rw [if_pos hrequests]
  rfl

theorem Inv.sound (h : s.Inv) : s.Sound config := by
  refine ⟨h.balanced.single, ?_⟩
  intro hstate hnone
  have hzero : s.breaker.halfOpenRequests.toNat = 0 := by
    rw [h.balanced.counter, hnone, h.balanced.behind hnone]
  have hlt : s.breaker.halfOpenRequests < 1 := by
    rw [UInt32.lt_iff_toNat_lt, hzero]
    decide
  rw [allowRequest_run_halfOpen config s.now hstate hlt]

theorem exec_halfOpenRequests (now : Nat) (op : Op) (b : CircuitBreaker)
    : (exec config now op b).2.halfOpenRequests
      = match op with
        | .resetHalfOpenRequests => 0
        | .fetchAddHalfOpenRequests => b.halfOpenRequests + 1
        | .fetchSubHalfOpenRequests => b.halfOpenRequests - 1
        | .releaseHalfOpenPermit => if b.halfOpenRequests = 0 then 0 else b.halfOpenRequests - 1
        | _ => b.halfOpenRequests := by
  cases op with
  | hasTimedOut =>
    unfold exec
    split <;> rfl
  | lockHalfOpen =>
    unfold exec
    dsimp only
    split <;> rfl
  | releaseHalfOpenPermit =>
    unfold exec
    by_cases h : b.halfOpenRequests = 0 <;> simp [h]
  | _ => rfl

theorem toNat_sub_one {n : UInt32} (h : n.toNat ≠ 0) : (n - 1).toNat = n.toNat - 1 := by
  apply UInt32.toNat_sub_of_le
  exact Nat.one_le_iff_ne_zero.mpr h

theorem exec_balanced (h : Balanced s.breaker.halfOpenRequests.toNat (s.count .held) (s.count .backingOut))
    (hi : s.threads[i]? = some t) (hadmits : op.admits t.permit = true)
    (hpermit : t'.permit = op.permitAfter t.permit (exec config s.now op s.breaker).1)
    (hok : s.HarmlessOp op)
    : Balanced (exec config s.now op s.breaker).2.halfOpenRequests.toNat
      (countPermits (s.threads.set i t') .held) (countPermits (s.threads.set i t') .backingOut) := by
  have hheld := countPermits_set t' .held hi
  have hback := countPermits_set t' .backingOut hi
  have ⟨hcounter, hsingle, hbehind⟩ := h
  rw [exec_halfOpenRequests]
  unfold HarmlessOp at hok
  unfold count at *
  cases op with
  | fetchAddHalfOpenRequests =>
    have hnone : t.permit = .none := by simpa [admits] using hadmits
    have hadd : (s.breaker.halfOpenRequests + 1).toNat = s.breaker.halfOpenRequests.toNat + 1 := by
      exact Nat.mod_eq_of_lt hok
    replace hpermit : t'.permit = if s.breaker.halfOpenRequests < 1 then .held else .backingOut := hpermit
    simp only [UInt32.lt_iff_toNat_lt, UInt32.toNat_one] at hpermit
    dsimp only
    rw [hadd]
    split at hpermit <;> simp [hnone, hpermit] at hheld hback <;> constructor <;> omega
  | fetchSubHalfOpenRequests =>
    have hbacking : t.permit = .backingOut := by simpa [admits] using hadmits
    replace hpermit : t'.permit = .none := hpermit
    simp [hbacking, hpermit] at hheld hback
    dsimp only
    rw [toNat_sub_one (by omega)]
    constructor <;> omega
  | releaseHalfOpenPermit =>
    have hholds : t.permit = .held := by simpa [admits] using hadmits
    replace hpermit : t'.permit = .none := hpermit
    simp [hholds, hpermit] at hheld hback
    have hne : s.breaker.halfOpenRequests ≠ 0 := by
      intro hzero
      rw [hzero, UInt32.toNat_zero] at hcounter
      omega
    dsimp only at hok ⊢
    rw [if_neg hne, toNat_sub_one (by omega)]
    constructor <;> omega
  | resetHalfOpenRequests =>
    have ⟨hnone, hnoback⟩ := hok
    rw [countPermits_set_of_eq hi hpermit, countPermits_set_of_eq hi hpermit, hnone, hnoback]
    exact ⟨rfl, Nat.zero_le 1, fun _ => rfl⟩
  | _ =>
    rw [countPermits_set_of_eq hi hpermit, countPermits_set_of_eq hi hpermit]
    exact h

theorem set_ok (h : ∀ t ∈ threads, t.Ok) (i : Nat) (ht' : t'.Ok) : ∀ t ∈ threads.set i t', t.Ok := by
  intro t ht
  cases mem_or_eq_of_mem_set ht with
  | inl hmem => exact h t hmem
  | inr heq =>
    rw [heq]
    exact ht'

theorem set_inv (h : s.Inv) (hi : s.threads[i]? = some t) (ht' : t'.Ok) (hpermit : t'.permit = t.permit)
    : Inv { s with threads := s.threads.set i t' } := by
  refine ⟨set_ok h.ok i ht', ?_⟩
  unfold count
  rw [countPermits_set_of_eq hi hpermit, countPermits_set_of_eq hi hpermit]
  exact h.balanced

theorem append_inv (h : s.Inv) (ht : t.Ok) (hpermit : t.permit = .none)
    : Inv { s with threads := s.threads ++ [t] } := by
  constructor
  . rw [forall_mem_append, forall_mem_singleton]
    exact ⟨h.ok, ht⟩
  . have hzero : ∀ p ≠ .none, countPermits (s.threads ++ [t]) p = s.count p := by
      intro p hp
      have hnew : countPermits [t] p = 0 := by
        rw [countPermits, map_singleton, hpermit, count_eq_zero, mem_singleton]
        exact hp
      rw [countPermits_append, hnew]
      rfl
    unfold count
    rw [hzero .held nofun, hzero .backingOut nofun]
    exact h.balanced

theorem advance_inv (h : s.Inv) (i : Nat) (hok : s.Harmless (.advance i))
    : (s.step config (.advance i)).Inv := by
  unfold step
  dsimp only
  cases hi : s.threads[i]? with
  | none => exact h
  | some t =>
    have ht : t.Ok := h.ok t (mem_of_getElem? hi)
    unfold Harmless at hok
    dsimp only at hok
    rw [hi, Option.bind_some] at hok
    dsimp only
    split
    . exact h
    . obtain ⟨_, hsame⟩ | ⟨op, t', hop, hnew, ht', hadmits, hpermit⟩ :=
        t.advance_eq config s.now s.breaker ht
      . rw [hsame]
        exact set_inv h hi ht rfl
      . rw [hnew]
        refine ⟨set_ok h.ok i ht', ?_⟩
        exact exec_balanced config h.balanced hi hadmits hpermit (hok op hop)

theorem step_inv (s : System) (a : Action) (h : s.Inv) (hok : s.Harmless a) : (s.step config a).Inv := by
  cases a with
  | tick nanos => exact ⟨h.ok, h.balanced⟩
  | isAvailable => exact append_inv h (check_ok isAvailable_follows) rfl
  | allowRequest => exact append_inv h (enter_ok allowRequest_follows) rfl
  | advance i => exact advance_inv config h i hok
  | report i outcome =>
    unfold step
    dsimp only
    split
    . next used permit hi =>
      have hpermit : permit = .ofUsed used := h.ok _ (mem_of_getElem? hi)
      have ht' : Thread.Ok ⟨.report (outcome.report config used), permit⟩ := by
        rw [hpermit]
        exact report_ok (outcome.report_follows config used)
      exact set_inv h hi ht' rfl
    . exact h

theorem ok_step (h : ∀ t ∈ s.threads, t.Ok) (a : Action)
    : ∀ t ∈ (s.step config a).threads, t.Ok := by
  cases a with
  | tick nanos => exact h
  | isAvailable =>
    exact forall_mem_append.mpr ⟨h, forall_mem_singleton.mpr (check_ok isAvailable_follows)⟩
  | allowRequest =>
    exact forall_mem_append.mpr ⟨h, forall_mem_singleton.mpr (enter_ok allowRequest_follows)⟩
  | report i outcome =>
    unfold step
    dsimp only
    split
    . next used permit hi =>
      have hpermit : permit = .ofUsed used := h _ (mem_of_getElem? hi)
      apply set_ok h
      rw [hpermit]
      exact report_ok (outcome.report_follows config used)
    . exact h
  | advance i =>
    unfold step
    dsimp only
    split
    . next t hi =>
      have ht := h t (mem_of_getElem? hi)
      split
      . exact h
      . apply set_ok h
        obtain ⟨_, hsame⟩ | ⟨_, _, _, hnew, ht', _⟩ := t.advance_eq config s.now s.breaker ht
        . rw [hsame]
          exact ht
        . rw [hnew]
          exact ht'
    . exact h

theorem permits_given_back (config : CircuitBreakerConfig) (as : List Action)
    : Run.Always (step config) (fun s => ∀ t ∈ s.threads, t.Ok) init as := by
  apply Run.always_of_along (fun s : System => ∀ t ∈ s.threads, t.Ok) (fun _ => id) _ init_inv.ok
  . exact Run.along_of_ok (fun _ _ => trivial) init as
  . exact fun _ a h _ => ok_step config h a

theorem permits_sound (config : CircuitBreakerConfig) (as : List Action)
    (h : Run.Along (step config) Harmless init as)
    : Run.Always (step config) (Sound config) init as := by
  apply Run.always_of_along Inv (fun s hs => hs.sound config) (step_inv config) init_inv h

def advances (i n : Nat) : List Action := List.replicate n (.advance i)

def enters (i : Nat) : List Action := .allowRequest :: advances i 8

def fails (i : Nat) : List Action := .report i .failure :: advances i 10

def waits : Action := .tick (60 * nanosPerSecond)

def probe : List Action :=
  enters 0 ++ fails 0 ++ enters 1 ++ fails 1 ++ enters 2 ++ fails 2 ++ enters 3 ++ fails 3 ++
    waits :: enters 4 ++ fails 4

theorem permits_sound_probe
    : Run.Along (step .default) Harmless init probe ∧
      Run.Always (step .default) (Sound .default) init probe := by
  have h : Run.Along (step .default) Harmless init probe := by decide +kernel
  exact ⟨h, permits_sound .default probe h⟩

def lateFailure : List Action :=
  enters 0 ++ enters 1 ++ enters 2 ++ enters 3 ++ enters 4 ++ fails 0 ++ fails 1 ++ fails 2 ++ fails 3 ++
    waits :: enters 5 ++ fails 4 ++ waits :: enters 6

def lateBackOut : List Action :=
  enters 0 ++ fails 0 ++ enters 1 ++ fails 1 ++ enters 2 ++ fails 2 ++ enters 3 ++ fails 3 ++
    waits :: enters 4 ++ .allowRequest :: advances 5 2 ++ fails 4 ++ waits :: .isAvailable :: advances 6 6 ++
    advances 5 1

theorem not_sound_lateFailure
    : ¬Run.Always (step .default) (Sound .default) init lateFailure ∧
      ¬Run.Always (step .default) (Sound .default) init lateBackOut := by
  constructor
  . intro h
    have htwo : (lateFailure.foldl (step .default) init).count .held = 2 := by decide +kernel
    have hone := h.last.1
    rw [htwo] at hone
    exact absurd hone (by decide)
  . intro h
    have hhalfOpen : (lateBackOut.foldl (step .default) init).breaker.state = .halfOpen := by
      decide +kernel
    have hnone : (lateBackOut.foldl (step .default) init).count .held = 0 := by decide +kernel
    have hrefused : (allowRequest.run (exec .default (lateBackOut.foldl (step .default) init).now)
        (lateBackOut.foldl (step .default) init).breaker).1.allowed = false := by
      decide +kernel
    rw [h.last.2 hhalfOpen hnone] at hrefused
    exact Bool.noConfusion hrefused

end System

end CcSwitch.Proxy
