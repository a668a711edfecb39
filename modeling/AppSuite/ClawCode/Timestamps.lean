import AppSuite.ClawCode.Permissions
import AppSuite.System.Run

/-!
This module contains the timestamps that the threads of a process take from one clock, and the
names that are made of them.
-/

namespace ClawCode

open List

def u64Max : UInt64 := 18446744073709551615

def saturatingAddOne (n : UInt64) : UInt64 := if n = u64Max then u64Max else n + 1

-- A clock that is behind the epoch reads as zero.
def wallClock (sinceEpoch : Option Nat) : UInt64 :=
  match sinceEpoch with
  | none => 0
  | some millis => if millis ≤ u64Max.toNat then .ofNat millis else u64Max

-- What a timestamp is asked for: the id of a session, or the temporary name of a file.
inductive Naming where
  | sessionId
  | temporary (fileName : Option Str)

-- Where a thread stands in `current_time_millis`, which is called for a name or for the time alone.
inductive TimeCall where
  | returned
  | entered (naming : Option Naming) (candidate : UInt64)
  | loaded (naming : Option Naming) (previous candidate : UInt64)
  | stamped (naming : Naming) (millis : UInt64)

def TimeCall.stamp? : TimeCall → Option UInt64
  | stamped _ millis => some millis
  | _ => none

inductive TimeOp where
  | enter (naming : Option Naming) (sinceEpoch : Option Nat)
  | load
  | compareExchange
  | fetchAdd

structure Issued where
  naming : Naming
  millis : UInt64
  counter : UInt64

structure Clock (T : Type) where
  lastTimestampMs : UInt64
  sessionIdCounter : UInt64
  calls : T → TimeCall
  returned : List UInt64
  issued : List Issued

namespace Issued

def stem (x : Issued) : Str :=
  match x.naming with
  | .sessionId => "session".toList
  | .temporary fileName => fileName.getD "session".toList ++ ".tmp".toList

def name (x : Issued) : Str :=
  x.stem ++ '-' :: Nat.toDigits 10 x.millis.toNat ++ '-' :: Nat.toDigits 10 x.counter.toNat

theorem dash_digits_inj {stem stem' : Str} {n n' : UInt64}
    (h : stem ++ '-' :: Nat.toDigits 10 n.toNat = stem' ++ '-' :: Nat.toDigits 10 n'.toNat)
    : stem = stem' ∧ n = n' := by
  have hlast (stem : Str) (n : UInt64)
      : (stem ++ '-' :: Nat.toDigits 10 n.toNat).rtakeWhile (· ≠ '-') = Nat.toDigits 10 n.toNat := by
    have hdash : ∀ c ∈ (Nat.toDigits 10 n.toNat).reverse, decide (c ≠ '-') = true := by
      intro c hc
      rw [decide_eq_true_iff]
      rintro rfl
      have := Nat.isDigit_of_mem_toDigits (by decide) (by decide) (mem_reverse.mp hc)
      contradiction
    rw [rtakeWhile, reverse_append, reverse_cons, append_assoc, takeWhile_append_of_pos hdash]
    simp
  have hdigits := congrArg (rtakeWhile (· ≠ '-')) h
  rw [hlast, hlast] at hdigits
  have hvalue := congrArg (Nat.ofDigitChars 10 · 0) hdigits
  simp only [Nat.ofDigitChars_ten_toDigits] at hvalue
  rw [hdigits] at h
  exact ⟨append_cancel_right h, UInt64.toNat_inj.mp hvalue⟩

theorem name_inj {x y : Issued} (h : x.name = y.name) : x.millis = y.millis ∧ x.counter = y.counter := by
  obtain ⟨hrest, hcounter⟩ := dash_digits_inj h
  exact ⟨(dash_digits_inj hrest).2, hcounter⟩

end Issued

theorem lt_saturatingAddOne (n : UInt64) : n < saturatingAddOne n ∨ saturatingAddOne n = u64Max := by
  unfold saturatingAddOne
  split
  . exact .inr rfl
  . next h =>
    left
    rw [← UInt64.toNat_inj] at h
    have hlt := n.toNat_lt
    have hmax : u64Max.toNat = 2 ^ 64 - 1 := by decide
    rw [UInt64.lt_iff_toNat_lt, UInt64.toNat_add]
    have : (1 : UInt64).toNat = 1 := rfl
    omega

theorem le_u64Max (n : UInt64) : n ≤ u64Max :=
  UInt64.le_iff_toNat_le.mpr (Nat.le_sub_one_of_lt n.toNat_lt)

namespace Clock

variable {T : Type} [DecidableEq T]

def init : Clock T := ⟨0, 0, fun _ => .returned, [], []⟩

def setCall (s : Clock T) (thread : T) (call : TimeCall) : Clock T :=
  { s with calls := Function.update s.calls thread call }

def afterExchange (naming : Option Naming) (millis : UInt64) : TimeCall :=
  match naming with
  | none => .returned
  | some naming => .stamped naming millis

-- Nothing happens at an operation that the thread is not at.
def step (s : Clock T) (a : T × TimeOp) : Clock T :=
  match a.2, s.calls a.1 with
  | .enter naming sinceEpoch, .returned => s.setCall a.1 (.entered naming (wallClock sinceEpoch))
  | .load, .entered naming candidate =>
    let previous := s.lastTimestampMs
    s.setCall a.1
      (.loaded naming previous (if candidate ≤ previous then saturatingAddOne previous else candidate))
  | .compareExchange, .loaded naming previous candidate =>
    if s.lastTimestampMs = previous then
      { s.setCall a.1 (afterExchange naming candidate) with
        lastTimestampMs := candidate, returned := s.returned ++ [candidate] }
    else
      s.setCall a.1 (.entered naming (saturatingAddOne s.lastTimestampMs))
  | .fetchAdd, .stamped naming millis =>
    { s.setCall a.1 .returned with
      sessionIdCounter := s.sessionIdCounter + 1
      issued := s.issued ++ [⟨naming, millis, s.sessionIdCounter⟩] }
  | _, _ => s

def Advances (previous candidate : UInt64) : Prop := previous < candidate ∨ candidate = u64Max

def ExchangeAdvances (s : Clock T) (a : T × TimeOp) : Prop :=
  (s.step a).returned ≠ s.returned → Advances s.lastTimestampMs (s.step a).lastTimestampMs

theorem Advances.le (h : Advances v w) : v ≤ w := by
  rcases h with hlt | rfl
  . exact UInt64.le_of_lt hlt
  . exact le_u64Max v

-- A timestamp that was taken for a name is held by the thread, and then by the name.
def held (s : Clock T) : Nat ⊕ T → Option UInt64
  | .inl i => s.issued[i]?.map (·.millis)
  | .inr t => (s.calls t).stamp?

structure Unshared {H : Type} (held : H → Option UInt64) (last : UInt64) : Prop where
  le : ∀ {x m}, held x = some m → m ≤ last
  unshared : ∀ {x y m}, held x = some m → held y = some m → x = y ∨ m = u64Max

structure Inv (s : Clock T) : Prop where
  loaded : ∀ t naming previous candidate, s.calls t = .loaded naming previous candidate →
    Advances previous candidate
  le : ∀ v ∈ s.returned, v ≤ s.lastTimestampMs
  ordered : s.returned.Pairwise Advances
  counters : s.issued.map (·.counter) = (range s.issued.length).map UInt64.ofNat
  counter : s.sessionIdCounter = .ofNat s.issued.length
  held : Unshared s.held s.lastTimestampMs

namespace Unshared

variable {H : Type} {held held' : H → Option UInt64} {last : UInt64}

theorem comap (h : Unshared held last) (f : H → H) (hf : f.Injective)
    (hheld : ∀ x m, held' x = some m → held (f x) = some m) : Unshared held' last where
  le hx := h.le (hheld _ _ hx)
  unshared hx hy := (h.unshared (hheld _ _ hx) (hheld _ _ hy)).imp_left (@hf _ _)

variable [DecidableEq H]

theorem drop (h : Unshared held last) (x : H) : Unshared (Function.update held x none) last := by
  apply h.comap id Function.injective_id
  intro y m hy
  rw [Function.update_apply] at hy
  split at hy
  . contradiction
  . exact hy

theorem move (h : Unshared held last) (hx : held x = some m) (y : H)
    : Unshared (Function.update (Function.update held x none) y (some m)) last := by
  apply h.comap (Equiv.swap x y) (Equiv.injective _)
  intro z m' hz
  rw [Function.update_apply, Function.update_apply] at hz
  split at hz
  . next hzy =>
    rw [hzy, Equiv.swap_apply_right, hx]
    exact hz
  split at hz
  . contradiction
  . next hzy hzx =>
    rw [Equiv.swap_apply_of_ne_of_ne hzx hzy]
    exact hz

theorem take (h : Unshared held last) (hadvances : Advances last candidate) (x : H)
    : Unshared (Function.update held x (some candidate)) candidate := by
  -- a timestamp that someone holds already is taken once more at the end of time only
  have hnew : ∀ {y}, held y = some candidate → candidate = u64Max := by
    intro y hy
    apply hadvances.resolve_left
    exact UInt64.not_lt.mpr (h.le hy)
  constructor
  . intro y m hy
    rw [Function.update_apply] at hy
    split at hy
    . cases hy
      exact UInt64.le_refl _
    . exact UInt64.le_trans (h.le hy) hadvances.le
  . intro y z m hy hz
    rw [Function.update_apply] at hy hz
    split at hy <;> split at hz
    . next hyx hzx => exact .inl (hyx.trans hzx.symm)
    . cases hy
      exact .inr (hnew hz)
    . cases hz
      exact .inr (hnew hy)
    . exact h.unshared hy hz

end Unshared

variable {s : Clock T}

theorem held_setCall (s : Clock T) (thread : T) (call : TimeCall)
    : (s.setCall thread call).held = Function.update s.held (.inr thread) call.stamp? := by
  funext x
  rw [Function.update_apply]
  cases x with
  | inl i => rfl
  | inr t =>
    change (Function.update s.calls thread call t).stamp? = _
    rw [Function.update_apply]
    split <;> simp_all [held]

theorem held_issue (s : Clock T) (x : Issued) (counter : UInt64)
    : ({ s with sessionIdCounter := counter, issued := s.issued ++ [x] } : Clock T).held
      = Function.update s.held (.inl s.issued.length) (some x.millis) := by
  funext y
  rw [Function.update_apply]
  cases y with
  | inr t => rfl
  | inl i =>
    change (s.issued ++ [x])[i]?.map _ = if Sum.inl i = _ then _ else s.issued[i]?.map _
    rw [getElem?_append]
    grind

theorem loaded_setCall (h : s.Inv) (thread : T) {c : TimeCall}
    (hc : ∀ naming previous candidate, c = .loaded naming previous candidate → Advances previous candidate)
    (t : T) (naming : Option Naming) (previous candidate : UInt64)
    (ht : (s.setCall thread c).calls t = .loaded naming previous candidate) : Advances previous candidate := by
  change Function.update s.calls thread c t = _ at ht
  rw [Function.update_apply] at ht
  split at ht
  . exact hc naming previous candidate ht
  . exact h.loaded t naming previous candidate ht

omit [DecidableEq T] in
theorem Inv.init : (init : Clock T).Inv := by
  have hheld : ∀ x, (Clock.init : Clock T).held x = none := by
    rintro (i | t)
    . rfl
    . rfl
  refine ⟨nofun, nofun, .nil, rfl, rfl, ?_, ?_⟩
  . intro x m hx
    rw [hheld] at hx
    contradiction
  . intro x y m hx
    rw [hheld] at hx
    contradiction

theorem Inv.setCall (h : s.Inv) (thread : T) {c : TimeCall}
    (hc : ∀ naming previous candidate, c = .loaded naming previous candidate → Advances previous candidate)
    (hstamp : c.stamp? = none) : (s.setCall thread c).Inv := by
  refine ⟨loaded_setCall h thread hc, h.le, h.ordered, h.counters, h.counter, ?_⟩
  rw [held_setCall, hstamp]
  exact h.held.drop _

theorem Inv.exchange (h : s.Inv) (hc : Advances s.lastTimestampMs candidate) (thread : T)
    (naming : Option Naming)
    : Inv { s.setCall thread (afterExchange naming candidate) with
      lastTimestampMs := candidate, returned := s.returned ++ [candidate] } := by
  have hnew : ∀ v ∈ s.returned, Advances v candidate := by
    intro v hv
    exact hc.imp_left (UInt64.lt_of_le_of_lt (h.le v hv))
  refine ⟨loaded_setCall h thread ?_, ?_, ?_, h.counters, h.counter, ?_⟩
  . intro naming' previous candidate' heq
    cases naming <;> cases heq
  . rw [forall_mem_append, forall_mem_singleton]
    exact ⟨fun v hv => (hnew v hv).le, UInt64.le_refl _⟩
  . rw [pairwise_append]
    simpa using ⟨h.ordered, hnew⟩
  . change Unshared (s.setCall thread (afterExchange naming candidate)).held candidate
    rw [held_setCall]
    have htake := h.held.take hc (.inr thread)
    cases naming with
    | some naming => exact htake
    | none =>
      have hdrop := htake.drop (.inr thread)
      rw [Function.update_idem] at hdrop
      exact hdrop

theorem Inv.fetchAdd (h : s.Inv) (hcall : s.calls thread = .stamped naming millis)
    : Inv { s.setCall thread .returned with
      sessionIdCounter := s.sessionIdCounter + 1
      issued := s.issued ++ [⟨naming, millis, s.sessionIdCounter⟩] } := by
  refine ⟨loaded_setCall h thread nofun, h.le, h.ordered, ?_, ?_, ?_⟩
  . simp [h.counters, h.counter, range_succ]
  . simp [h.counter]
  . have hholds : s.held (.inr thread) = some millis := congrArg TimeCall.stamp? hcall
    have hmove := h.held.move hholds (.inl s.issued.length)
    rw [show none = TimeCall.returned.stamp? from rfl, ← held_setCall] at hmove
    exact (held_issue (s.setCall thread .returned) ⟨naming, millis, s.sessionIdCounter⟩ _).symm ▸ hmove

theorem Inv.step (h : s.Inv) (a : T × TimeOp) : (s.step a).Inv ∧ s.ExchangeAdvances a := by
  unfold ExchangeAdvances Clock.step
  split
  . exact ⟨h.setCall a.1 nofun rfl, fun hne => absurd rfl hne⟩
  . refine ⟨h.setCall a.1 ?_ rfl, fun hne => absurd rfl hne⟩
    rintro _ _ _ ⟨⟩
    split
    . exact lt_saturatingAddOne _
    . next hlt => exact .inl (UInt64.not_le.mp hlt)
  . next naming previous candidate _ hcall =>
    split
    . next hlast =>
      have hadvances := h.loaded a.1 naming previous candidate hcall
      rw [← hlast] at hadvances
      exact ⟨h.exchange hadvances a.1 naming, fun _ => hadvances⟩
    . exact ⟨h.setCall a.1 nofun rfl, fun hne => absurd rfl hne⟩
  . next hcall => exact ⟨h.fetchAdd hcall, fun hne => absurd rfl hne⟩
  . exact ⟨h, fun hne => absurd rfl hne⟩

theorem Inv.run (h : s.Inv) (steps : List (T × TimeOp))
    : (steps.foldl Clock.step s).Inv ∧ Run.Along Clock.step ExchangeAdvances s steps := by
  induction steps generalizing s with
  | nil => exact ⟨h, trivial⟩
  | cons a steps ih =>
    obtain ⟨hinv, halong⟩ := ih (h.step a).1
    exact ⟨hinv, (h.step a).2, halong⟩

omit [DecidableEq T] in
theorem Inv.apart (h : s.Inv) (hij : i < j) (hx : s.issued[i]? = some x) (hy : s.issued[j]? = some y)
    (hname : x.name = y.name) : 2 ^ 64 ≤ j - i ∧ s.lastTimestampMs = u64Max := by
  obtain ⟨hmillis, hcounter⟩ := Issued.name_inj hname
  constructor
  . have hcount {k : Nat} {z : Issued} (hz : s.issued[k]? = some z) : z.counter = .ofNat k := by
      have hk := congrArg (·[k]?) h.counters
      obtain ⟨hlt, rfl⟩ := List.getElem?_eq_some_iff.mp hz
      simpa [hlt] using hk
    rw [hcount hx, hcount hy] at hcounter
    have hmod := congrArg UInt64.toNat hcounter
    rw [UInt64.toNat_ofNat', UInt64.toNat_ofNat'] at hmod
    omega
  . have hi : s.held (.inl i) = some x.millis := congrArg (Option.map Issued.millis) hx
    have hj : s.held (.inl j) = some x.millis := by
      rw [hmillis]
      exact congrArg (Option.map Issued.millis) hy
    have hmax := (h.held.unshared hi hj).resolve_left (by simpa using hij.ne)
    apply UInt64.le_antisymm (le_u64Max _)
    rw [← hmax]
    exact h.held.le hi

theorem returned_distinct (steps : List (T × TimeOp))
    : ((steps.foldl step init).returned.filter (· ≠ u64Max)).Nodup ∧
      (∀ i j x y, i < j → (steps.foldl step init).issued[i]? = some x →
        (steps.foldl step init).issued[j]? = some y → x.name = y.name →
          2 ^ 64 ≤ j - i ∧ (steps.foldl step init).lastTimestampMs = u64Max) ∧
      Run.Along step ExchangeAdvances init steps := by
  obtain ⟨hinv, halong⟩ := Inv.init.run steps
  refine ⟨?_, fun i j x y => hinv.apart, halong⟩
  apply (hinv.ordered.filter _).imp_of_mem
  rintro m _ _ hm hadvances rfl
  have hmax := (mem_filter.mp hm).2
  rw [decide_eq_true_iff] at hmax
  exact absurd (hadvances.resolve_right hmax) (UInt64.lt_irrefl m)

def callAt (sinceEpoch : Nat) : List (Unit × TimeOp) :=
  [((), .enter none (some sinceEpoch)), ((), .load), ((), .compareExchange)]

theorem returned_twice
    : 18446744073709551614 < u64Max.toNat ∧
      ((replicate 3 (callAt 18446744073709551614)).flatten.foldl step init).returned
        = [u64Max - 1, u64Max, u64Max] := by
  decide

end Clock

end ClawCode
