import AppSuite.System.Run

/-!
This module contains the circuit breaker of a provider: its atomic operations, and its calls as
programs over them.
-/

namespace CcSwitch.Proxy

inductive CircuitState where
  | closed
  | opened
  | halfOpen
  deriving DecidableEq, Repr

-- The comparison of the error rate with its threshold is made in floating point.
structure CircuitBreakerConfig where
  failureThreshold : UInt32
  successThreshold : UInt32
  timeoutSeconds : Nat
  errorRateReached : (failed total : UInt32) → Bool
  minRequests : UInt32

-- Numbers of 32 bits divide precisely enough for the comparison with 0.6 to be that of the fractions.
def CircuitBreakerConfig.default : CircuitBreakerConfig where
  failureThreshold := 4
  successThreshold := 2
  timeoutSeconds := 60
  errorRateReached failed total := decide (10 * failed.toNat ≥ 6 * total.toNat)
  minRequests := 10

inductive Counter where
  | consecutiveFailures
  | consecutiveSuccesses
  | totalRequests
  | failedRequests
  deriving DecidableEq, Repr

-- Instants are in nanoseconds. Every other access to the state is over before the next operation; only
-- the transition to half open keeps the lock of the state for longer.
structure CircuitBreaker where
  state : CircuitState
  stateLocked : Bool
  counters : Counter → UInt32
  lastOpenedAt : Option Nat
  halfOpenRequests : UInt32

def CircuitBreaker.new : CircuitBreaker := ⟨.closed, false, fun _ => 0, none, 0⟩

def CircuitBreaker.setCounter (b : CircuitBreaker) (c : Counter) (v : UInt32) : CircuitBreaker :=
  { b with counters := fun c' => if c' = c then v else b.counters c' }

structure AllowResult where
  allowed : Bool
  usedHalfOpenPermit : Bool
  deriving DecidableEq, Repr

inductive Op where
  | readState
  | writeState (state : CircuitState)
  | hasTimedOut
  | stampLastOpenedAt
  | lockHalfOpen
  | unlockState
  | load (c : Counter)
  | store (c : Counter) (v : UInt32)
  | fetchAdd (c : Counter)
  | fetchAddHalfOpenRequests
  | fetchSubHalfOpenRequests
  | resetHalfOpenRequests
  | releaseHalfOpenPermit

@[reducible]
def Op.Res : Op → Type
  | readState => CircuitState
  | hasTimedOut => Bool
  | lockHalfOpen => Bool
  | load _ => UInt32
  | fetchAdd _ => UInt32
  | fetchAddHalfOpenRequests => UInt32
  | writeState _ => Unit
  | stampLastOpenedAt => Unit
  | unlockState => Unit
  | store _ _ => Unit
  | fetchSubHalfOpenRequests => Unit
  | resetHalfOpenRequests => Unit
  | releaseHalfOpenPermit => Unit

def nanosPerSecond : Nat := 1000000000

variable (config : CircuitBreakerConfig) (now : Nat) (op : Op) (b : CircuitBreaker)

def exec : op.Res × CircuitBreaker :=
  match op with
  | .readState => (b.state, b)
  | .writeState state => ((), { b with state := state })
  | .hasTimedOut =>
    match b.lastOpenedAt with
    | none => (false, b)
    | some openedAt => (decide ((now - openedAt) / nanosPerSecond ≥ config.timeoutSeconds), b)
  | .stampLastOpenedAt => ((), { b with lastOpenedAt := some now })
  -- The state is tested and written under its lock, which is kept if the state was open.
  | .lockHalfOpen =>
    if b.state ≠ .opened then
      (false, b)
    else
      (true, { b with state := .halfOpen, stateLocked := true })
  | .unlockState => ((), { b with stateLocked := false })
  | .load c => (b.counters c, b)
  | .store c v => ((), b.setCounter c v)
  | .fetchAdd c => (b.counters c, b.setCounter c (b.counters c + 1))
  | .fetchAddHalfOpenRequests =>
    (b.halfOpenRequests, { b with halfOpenRequests := b.halfOpenRequests + 1 })
  | .fetchSubHalfOpenRequests => ((), { b with halfOpenRequests := b.halfOpenRequests - 1 })
  | .resetHalfOpenRequests => ((), { b with halfOpenRequests := 0 })
  -- The loop of loads and exchanges ends at a zero or at an exchange that succeeds.
  | .releaseHalfOpenPermit =>
    if b.halfOpenRequests = 0 then
      ((), b)
    else
      ((), { b with halfOpenRequests := b.halfOpenRequests - 1 })

def Op.usesState : Bool :=
  match op with
  | .readState => true
  | .writeState _ => true
  | .lockHalfOpen => true
  | _ => false

-- Whoever asks for the state waits for its lock.
def Op.isBlocked : Bool := b.stateLocked && op.usesState

abbrev Call := Prog Op Op.Res

def atomically : Call op.Res := Prog.perform op

def transitionToOpen : Call Unit := do
  atomically (.writeState .opened)
  atomically .stampLastOpenedAt
  atomically (.store .consecutiveFailures 0)
  atomically (.store .consecutiveSuccesses 0)

def transitionToHalfOpen : Call Unit := do
  if ← atomically .lockHalfOpen then
    atomically (.store .consecutiveSuccesses 0)
    atomically .resetHalfOpenRequests
    atomically .unlockState
  else
    return ()

def transitionToClosed : Call Unit := do
  atomically (.writeState .closed)
  atomically (.store .consecutiveFailures 0)
  atomically (.store .consecutiveSuccesses 0)
  atomically (.store .totalRequests 0)
  atomically (.store .failedRequests 0)

def isAvailable : Call Bool := do
  match ← atomically .readState with
  | .closed => return true
  | .halfOpen => return true
  | .opened =>
    if ← atomically .hasTimedOut then
      transitionToHalfOpen
      return true
    else
      return false

def allowHalfOpenProbe : Call AllowResult := do
  let maxHalfOpenRequests : UInt32 := 1
  let current ← atomically .fetchAddHalfOpenRequests
  if current < maxHalfOpenRequests then
    return ⟨true, true⟩
  else
    atomically .fetchSubHalfOpenRequests
    return ⟨false, false⟩

def allowRequest : Call AllowResult := do
  match ← atomically .readState with
  | .closed => return ⟨true, false⟩
  | .opened =>
    if ← atomically .hasTimedOut then
      transitionToHalfOpen
      match ← atomically .readState with
      | .closed => return ⟨true, false⟩
      | .halfOpen => allowHalfOpenProbe
      | .opened => return ⟨false, false⟩
    else
      return ⟨false, false⟩
  | .halfOpen => allowHalfOpenProbe

variable (usedHalfOpenPermit : Bool)

def releaseIf : Call Unit :=
  if usedHalfOpenPermit then atomically .releaseHalfOpenPermit else pure ()

def recordSuccess : Call Unit := do
  let state ← atomically .readState
  releaseIf usedHalfOpenPermit
  atomically (.store .consecutiveFailures 0)
  let _ ← atomically (.fetchAdd .totalRequests)
  if state = .halfOpen then
    let successes ← atomically (.fetchAdd .consecutiveSuccesses)
    if successes + 1 ≥ config.successThreshold then
      transitionToClosed
    else
      return ()
  else
    return ()

def recordFailure : Call Unit := do
  let state ← atomically .readState
  releaseIf usedHalfOpenPermit
  let failures ← atomically (.fetchAdd .consecutiveFailures)
  let _ ← atomically (.fetchAdd .totalRequests)
  let _ ← atomically (.fetchAdd .failedRequests)
  atomically (.store .consecutiveSuccesses 0)
  match state with
  | .halfOpen => transitionToOpen
  | .closed =>
    if failures + 1 ≥ config.failureThreshold then
      transitionToOpen
    else
      let total ← atomically (.load .totalRequests)
      let failed ← atomically (.load .failedRequests)
      if total ≥ config.minRequests ∧ config.errorRateReached failed total = true then
        transitionToOpen
      else
        return ()
  | .opened => return ()

end CcSwitch.Proxy
