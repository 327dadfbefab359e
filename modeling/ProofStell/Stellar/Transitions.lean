import ProofStell.Stellar.Breaker
import ProofStell.Lib.Machine

/-! Everything `allow_call` and `record_result` can do, one case for each state of the
breaker and each kind of result. -/
namespace ProofStell.Stellar

inductive Outcome where
  | success | failure | neutral
  deriving DecidableEq, Repr

def outcome {α : Type} : StellarResult α → Outcome
  | .ok _ => .success
  | .error err => if err.affectsCircuitBreaker then .failure else .neutral

namespace CircuitBreakerConfig

def threshold (config : CircuitBreakerConfig) : Nat := (max config.failureThreshold 1).toNat

def probes (config : CircuitBreakerConfig) : Nat := (max config.halfOpenMaxCalls 1).toNat

theorem threshold_pos (config : CircuitBreakerConfig) : 0 < config.threshold := by
  rw [threshold,Saturating.max32_toNat,UInt32.toNat_one]
  omega

theorem probes_pos (config : CircuitBreakerConfig) : 0 < config.probes := by
  rw [probes,Saturating.max32_toNat,UInt32.toNat_one]
  omega

theorem threshold_lt (config : CircuitBreakerConfig) : config.threshold < 2^32 :=
  UInt32.toNat_lt _

theorem probes_lt (config : CircuitBreakerConfig) : config.probes < 2^32 := UInt32.toNat_lt _

end CircuitBreakerConfig

theorem toNat_succ {a : UInt64} {n bound : Nat} (ha : a.toNat = n) (hn : n < bound)
    (hbound : bound < 2^32) : (a+1).toNat = n+1 := by
  rw [UInt64.toNat_add,ha,UInt64.toNat_one]
  omega

namespace CircuitBreaker

def openOver (now : Nat) (b : CircuitBreaker) : Bool :=
  match b.openedAt with
  | some openedAt => now-openedAt ≥ b.config.openDuration
  | none => true

inductive Allowed (now : Nat) (b : CircuitBreaker) : StellarResult Unit → CircuitBreaker → Prop
  | passed : b.state = .closed → Allowed now b (.ok ()) b
  | entered : b.state = .isOpen → b.openOver now = true → Allowed now b (.ok ()) b.enterHalfOpen
  | waiting {openedAt : Nat} : b.state = .isOpen → b.openedAt = some openedAt →
      now-openedAt < b.config.openDuration →
      Allowed now b (.error (.circuitOpen .isOpen (b.config.openDuration-(now-openedAt))))
        b.incrementRejectedCalls
  | probe : b.state = .halfOpen → b.halfOpenSemaphore≠0 →
      Allowed now b (.ok ()) { b with halfOpenInFlight := b.halfOpenInFlight+1 }
  | crowded : b.state = .halfOpen → b.halfOpenSemaphore = 0 →
      Allowed now b (.error (.circuitOpen .halfOpen 0)) b.incrementRejectedCalls

theorem allowCall_allowed (now : Nat) (b : CircuitBreaker) :
    Allowed now b (b.allowCall now).1 (b.allowCall now).2 := by
  cases hs : b.state with
  | closed =>
    simp only [allowCall,hs]
    exact .passed hs
  | isOpen =>
    cases ho : b.openedAt with
    | none =>
      simp only [allowCall,hs,ho]
      exact .entered hs (by simp [openOver,ho])
    | some openedAt =>
      simp only [allowCall,hs,ho]
      split
      · next h => exact .entered hs (by simpa [openOver,ho] using h)
      · next h => exact .waiting hs ho (Nat.lt_of_not_le h)
  | halfOpen =>
    simp only [allowCall,hs]
    split
    · next h => exact .crowded hs h
    · next h =>
      have heta : { b with state := .halfOpen, halfOpenInFlight := b.halfOpenInFlight+1 } =
          { b with halfOpenInFlight := b.halfOpenInFlight+1 } := by rw [← hs]
      exact heta ▸ .probe hs h

theorem allowCall_over {b : CircuitBreaker} {now : Nat} (hs : b.state = .isOpen)
    (h : b.openOver now = true) : b.allowCall now = (.ok (),b.enterHalfOpen) := by
  simp only [allowCall,hs]
  cases ho : b.openedAt with
  | none => rfl
  | some openedAt =>
    have hge : now-openedAt ≥ b.config.openDuration := by simpa [openOver,ho] using h
    simp only [if_pos hge]

/-- The counters of transitions and rejections agree; the others may differ. -/
structure SameTransitions (m m' : CircuitBreakerMetrics) : Prop where
  trips : m.trips = m'.trips
  recoveries : m.recoveries = m'.recoveries
  halfOpenSuccesses : m.halfOpenSuccesses = m'.halfOpenSuccesses
  halfOpenFailures : m.halfOpenFailures = m'.halfOpenFailures
  rejectedCalls : m.rejectedCalls = m'.rejectedCalls

inductive Recorded (now : Nat) (b : CircuitBreaker) : Outcome → CircuitBreaker → Prop
  | neutral : Recorded now b .neutral b
  | isOpen {o : Outcome} : b.state = .isOpen → Recorded now b o b
  | success {m : CircuitBreakerMetrics} : b.state = .closed → SameTransitions m b.metrics →
      Recorded now b .success { b with consecutiveFailures := 0, metrics := m }
  | failure {m : CircuitBreakerMetrics} : b.state = .closed → SameTransitions m b.metrics →
      (b.consecutiveFailures+1).toNat < b.config.threshold →
      Recorded now b .failure
        { b with consecutiveFailures := b.consecutiveFailures+1, metrics := m }
  | tripped {m : CircuitBreakerMetrics} : b.state = .closed → SameTransitions m b.metrics →
      b.config.threshold ≤ (b.consecutiveFailures+1).toNat →
      Recorded now b .failure { b with
        state := .isOpen, openedAt := some now,
        consecutiveFailures := b.consecutiveFailures+1, metrics := m }.incrementTrips
  | probed {m : CircuitBreakerMetrics} : b.state = .halfOpen → SameTransitions m b.metrics →
      (b.halfOpenSuccesses+1).toNat < b.config.probes →
      Recorded now b .success { b with
        halfOpenInFlight := b.halfOpenInFlight-1,
        halfOpenSuccesses := b.halfOpenSuccesses+1, metrics := m }.incrementHalfOpenSuccesses
  | recovered {m : CircuitBreakerMetrics} : b.state = .halfOpen → SameTransitions m b.metrics →
      b.config.probes ≤ (b.halfOpenSuccesses+1).toNat →
      Recorded now b .success { b with
        state := .closed, openedAt := none, consecutiveFailures := 0,
        halfOpenInFlight := b.halfOpenInFlight-1,
        halfOpenSuccesses := b.halfOpenSuccesses+1,
        metrics := m }.incrementHalfOpenSuccesses.incrementRecoveries
  | reopened {m : CircuitBreakerMetrics} : b.state = .halfOpen → SameTransitions m b.metrics →
      Recorded now b .failure { b with
        state := .isOpen, openedAt := some now,
        halfOpenInFlight := b.halfOpenInFlight-1,
        metrics := m }.incrementTrips.incrementHalfOpenFailures

theorem recordSuccess_recorded (now : Nat) (b : CircuitBreaker) :
    Recorded now b .success b.recordSuccess := by
  obtain ⟨config,state,openedAt,failures,inFlight,successes,permits,metrics⟩ := b
  cases state with
  | closed => exact .success rfl ⟨rfl,rfl,rfl,rfl,rfl⟩
  | isOpen => exact .isOpen rfl
  | halfOpen =>
    simp only [recordSuccess]
    split
    · next h => exact .recovered rfl ⟨rfl,rfl,rfl,rfl,rfl⟩ h
    · next h => exact .probed rfl ⟨rfl,rfl,rfl,rfl,rfl⟩ (Nat.lt_of_not_le h)

theorem recordFailure_closed (now : Nat) (err : StellarError) {b : CircuitBreaker}
    (hs : b.state = .closed) :
    ∃ m, SameTransitions m b.metrics ∧ b.recordFailure now err =
      if b.config.threshold ≤ (b.consecutiveFailures+1).toNat then
        { b with
          state := .isOpen, openedAt := some now,
          consecutiveFailures := b.consecutiveFailures+1, metrics := m }.incrementTrips
      else { b with consecutiveFailures := b.consecutiveFailures+1, metrics := m } := by
  cases err with
  | timeout =>
    refine ⟨b.incrementTimeoutCalls.incrementFailedCalls.metrics,⟨rfl,rfl,rfl,rfl,rfl⟩,?_⟩
    simp only [recordFailure,hs]
    rfl
  | retryableHttpStatus =>
    refine ⟨b.incrementRetryableHttpCalls.incrementFailedCalls.metrics,⟨rfl,rfl,rfl,rfl,rfl⟩,?_⟩
    simp only [recordFailure,hs]
    rfl
  | _ =>
    refine ⟨b.incrementFailedCalls.metrics,⟨rfl,rfl,rfl,rfl,rfl⟩,?_⟩
    simp only [recordFailure,hs]
    rfl

theorem recordFailure_recorded (now : Nat) (err : StellarError) (b : CircuitBreaker) :
    Recorded now b .failure (b.recordFailure now err) := by
  cases hs : b.state with
  | closed =>
    obtain ⟨m,hm,heq⟩ := recordFailure_closed now err hs
    rw [heq]
    split
    · next h => exact .tripped hs hm h
    · next h => exact .failure hs hm (Nat.lt_of_not_le h)
  | isOpen =>
    simp only [recordFailure,hs]
    exact .isOpen hs
  | halfOpen =>
    have heq : b.recordFailure now err = { b with
        state := .isOpen, openedAt := some now, halfOpenInFlight := b.halfOpenInFlight-1,
        metrics := b.incrementFailedCalls.metrics }.incrementTrips.incrementHalfOpenFailures := by
      simp only [recordFailure,hs]
      rfl
    rw [heq]
    exact .reopened hs ⟨rfl,rfl,rfl,rfl,rfl⟩

theorem recordResult_recorded {α : Type} (now : Nat) (result : StellarResult α)
    (b : CircuitBreaker) : Recorded now b (outcome result) (b.recordResult now result) := by
  cases result with
  | ok a => exact recordSuccess_recorded now b
  | error err =>
    simp only [outcome,recordResult]
    split
    · exact recordFailure_recorded now err b
    · exact .neutral

end CircuitBreaker
end ProofStell.Stellar
