import Mathlib.Data.UInt

/-! The circuit breaker and the health check in front of Redis. Instants and system
times are clock readings in nanoseconds. -/
namespace ProofStell.Cache

inductive CircuitState where
  | closed | isOpen | halfOpen
  deriving DecidableEq, Repr

structure CacheCircuitBreakerConfig where
  failureThreshold : UInt32
  openDurationMs : UInt64
  halfOpenMaxCalls : UInt32
  backoffBaseMs : UInt64
  backoffMaxMs : UInt64
  deriving DecidableEq, Repr

def CacheCircuitBreakerConfig.default : CacheCircuitBreakerConfig := ⟨5,30000,1,100,30000⟩

def millis (ms : UInt64) : Nat := ms.toNat*1000000

structure CacheCircuitBreaker where
  state : CircuitState
  consecutiveFailures : UInt32
  failureThreshold : UInt32
  openDuration : UInt64
  halfOpenMaxCalls : UInt32
  halfOpenCalls : UInt32
  openedAt : Option Nat
  backoffBase : UInt64
  backoffMax : UInt64
  lastTransition : Option (CircuitState × CircuitState)
  deriving DecidableEq, Repr

namespace CacheCircuitBreaker

def new (config : CacheCircuitBreakerConfig) : CacheCircuitBreaker where
  state := .closed
  consecutiveFailures := 0
  failureThreshold := config.failureThreshold
  openDuration := config.openDurationMs
  halfOpenMaxCalls := config.halfOpenMaxCalls
  halfOpenCalls := 0
  openedAt := none
  backoffBase := config.backoffBaseMs
  backoffMax := config.backoffMaxMs
  lastTransition := none

/-- Milliseconds; the exponent is capped at 6 and `open_duration` plays no part. -/
def currentBackoff (b : CacheCircuitBreaker) : UInt64 :=
  let failureCount := max b.consecutiveFailures 1
  let exponent := min (failureCount-1) 6
  min (b.backoffBase*2^exponent.toNat) b.backoffMax

def transitionTo (now : Nat) (newState : CircuitState) (b : CacheCircuitBreaker) :
    CacheCircuitBreaker :=
  let moved := { b with state := newState, lastTransition := some (b.state,newState) }
  match newState with
  | .closed => { moved with consecutiveFailures := 0, openedAt := none, halfOpenCalls := 0 }
  | .isOpen => { moved with openedAt := some now, halfOpenCalls := 0 }
  | .halfOpen => { moved with halfOpenCalls := 0 }

def shouldAllow (now : Nat) (b : CacheCircuitBreaker) : Bool × CacheCircuitBreaker :=
  match b.state with
  | .closed => (true,b)
  | .isOpen =>
    match b.openedAt with
    | some openedAt =>
      if now-openedAt ≥ millis b.currentBackoff then (true,b.transitionTo now .halfOpen)
      else (false,b)
    | none => (false,b)
  | .halfOpen => (b.halfOpenCalls < b.halfOpenMaxCalls,b)

def recordSuccess (now : Nat) (b : CacheCircuitBreaker) : CacheCircuitBreaker :=
  match b.state with
  | .closed => { b with consecutiveFailures := 0 }
  | .halfOpen =>
    let b := { b with halfOpenCalls := b.halfOpenCalls+1 }
    if b.halfOpenCalls ≥ b.halfOpenMaxCalls then b.transitionTo now .closed else b
  | .isOpen => b

def recordFailure (now : Nat) (b : CacheCircuitBreaker) : CacheCircuitBreaker :=
  match b.state with
  | .closed =>
    let b := { b with consecutiveFailures := b.consecutiveFailures+1 }
    if b.consecutiveFailures ≥ b.failureThreshold then b.transitionTo now .isOpen else b
  | .halfOpen => b.transitionTo now .isOpen
  | .isOpen => { b with consecutiveFailures := b.consecutiveFailures+1 }

def takeLastTransition (b : CacheCircuitBreaker) :
    Option (CircuitState × CircuitState) × CacheCircuitBreaker :=
  (b.lastTransition,{ b with lastTransition := none })

end CacheCircuitBreaker

structure HealthCheckState where
  lastCheck : Option Nat
  isHealthy : Bool
  backoffUntil : Option Nat
  consecutiveFailures : UInt32
  deriving DecidableEq, Repr

namespace HealthCheckState

def new : HealthCheckState := ⟨none,true,none,0⟩

def shouldCheck (now : Nat) (h : HealthCheckState) : Bool :=
  match h.backoffUntil with
  | some backoffUntil => ¬now < backoffUntil
  | none => true

def recordSuccess (now : Nat) (_ : HealthCheckState) : HealthCheckState :=
  ⟨some now,true,none,0⟩

/-- Backs off `2^failures` seconds, at most 60. -/
def recordFailure (now : Nat) (h : HealthCheckState) : HealthCheckState :=
  let consecutiveFailures := h.consecutiveFailures+1
  let backoffSecs := min (2^(min consecutiveFailures 6).toNat) 60
  ⟨some now,false,some (now+backoffSecs*1000000000),consecutiveFailures⟩

end HealthCheckState
end ProofStell.Cache
