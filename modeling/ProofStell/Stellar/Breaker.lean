import ProofStell.Lib.Saturating

/-! The circuit breaker in front of Horizon. Instants are clock readings and durations
are lengths in nanoseconds; `allow_call` and `record_result` are one step each. -/
namespace ProofStell.Stellar

inductive CircuitState where
  | closed | isOpen | halfOpen
  deriving DecidableEq, Repr

structure CircuitBreakerConfig where
  failureThreshold : UInt32
  openDuration : Nat
  halfOpenMaxCalls : UInt32
  deriving DecidableEq, Repr

def CircuitBreakerConfig.default : CircuitBreakerConfig := ⟨5,30000*1000000,1⟩

inductive StellarError where
  | circuitOpen (state : CircuitState) (retryAfter : Nat)
  | request (url reason : String)
  | timeout (url : String) (timeout : Nat)
  | retryableHttpStatus (status : UInt16) (url body : String)
  | nonRetryableHttpStatus (status : UInt16) (url body : String)
  | responseParse (url body source : String)
  | verificationNotFound (hash : String)
  | retryExhausted (operation : String) (attempts retriesAttempted : UInt32)
      (finalError : StellarError)
  deriving DecidableEq, Repr

abbrev StellarResult (α : Type) := Except StellarError α

def StellarError.affectsCircuitBreaker : StellarError → Bool
  | .retryExhausted _ _ _ finalError => finalError.affectsCircuitBreaker
  | .request .. | .timeout .. | .retryableHttpStatus .. => true
  | _ => false

/-- `consecutive_failures` and `in_flight` are reported but never counted. -/
structure CircuitBreakerMetrics where
  trips : UInt64 := 0
  recoveries : UInt64 := 0
  halfOpenSuccesses : UInt64 := 0
  halfOpenFailures : UInt64 := 0
  rejectedCalls : UInt64 := 0
  successfulCalls : UInt64 := 0
  failedCalls : UInt64 := 0
  timeoutCalls : UInt64 := 0
  retryableHttpCalls : UInt64 := 0
  consecutiveFailures : UInt32 := 0
  inFlight : UInt32 := 0
  deriving DecidableEq, Repr

structure CircuitBreaker where
  config : CircuitBreakerConfig
  state : CircuitState
  openedAt : Option Nat
  consecutiveFailures : UInt64
  halfOpenInFlight : UInt64
  halfOpenSuccesses : UInt64
  /-- Free permits of `half_open_semaphore` between two steps. -/
  halfOpenSemaphore : Nat
  metrics : CircuitBreakerMetrics
  deriving DecidableEq, Repr

namespace CircuitBreaker

def new (config : CircuitBreakerConfig) : CircuitBreaker :=
  ⟨config,.closed,none,0,0,0,(max config.halfOpenMaxCalls 1).toNat,{}⟩

def count (update : CircuitBreakerMetrics → CircuitBreakerMetrics) (b : CircuitBreaker) :
    CircuitBreaker :=
  { b with metrics := update b.metrics }

def incrementTrips := count fun m => { m with trips := Saturating.add64 m.trips 1 }
def incrementRecoveries := count fun m => { m with recoveries := Saturating.add64 m.recoveries 1 }
def incrementRejectedCalls :=
  count fun m => { m with rejectedCalls := Saturating.add64 m.rejectedCalls 1 }
def incrementSuccessfulCalls :=
  count fun m => { m with successfulCalls := Saturating.add64 m.successfulCalls 1 }
def incrementFailedCalls :=
  count fun m => { m with failedCalls := Saturating.add64 m.failedCalls 1 }
def incrementTimeoutCalls :=
  count fun m => { m with timeoutCalls := Saturating.add64 m.timeoutCalls 1 }
def incrementRetryableHttpCalls :=
  count fun m => { m with retryableHttpCalls := Saturating.add64 m.retryableHttpCalls 1 }
def incrementHalfOpenSuccesses :=
  count fun m => { m with halfOpenSuccesses := Saturating.add64 m.halfOpenSuccesses 1 }
def incrementHalfOpenFailures :=
  count fun m => { m with halfOpenFailures := Saturating.add64 m.halfOpenFailures 1 }

def enterHalfOpen (b : CircuitBreaker) : CircuitBreaker :=
  { b with state := .halfOpen, halfOpenInFlight := 0, halfOpenSuccesses := 0 }

def allowCall (now : Nat) (b : CircuitBreaker) : StellarResult Unit × CircuitBreaker :=
  match b.state with
  | .closed => (.ok (),b)
  | .isOpen =>
    match b.openedAt with
    | some openedAt =>
      let elapsed := now-openedAt
      if elapsed ≥ b.config.openDuration then (.ok (),b.enterHalfOpen)
      else
        (.error (.circuitOpen .isOpen (b.config.openDuration-elapsed)),b.incrementRejectedCalls)
    | none => (.ok (),b.enterHalfOpen)
  | .halfOpen =>
    -- the permit is a local variable: it is back in the semaphore when the call returns
    if b.halfOpenSemaphore = 0 then (.error (.circuitOpen .halfOpen 0),b.incrementRejectedCalls)
    else (.ok (),{ b with halfOpenInFlight := b.halfOpenInFlight+1 })

def recordSuccess (b : CircuitBreaker) : CircuitBreaker :=
  match b.state with
  | .closed => { b with consecutiveFailures := 0 }.incrementSuccessfulCalls
  | .halfOpen =>
    let successes := b.halfOpenSuccesses+1
    let b := { b with halfOpenInFlight := b.halfOpenInFlight-1, halfOpenSuccesses := successes }
    let b := b.incrementSuccessfulCalls.incrementHalfOpenSuccesses
    if successes.toNat ≥ (max b.config.halfOpenMaxCalls 1).toNat then
      { b with state := .closed, openedAt := none, consecutiveFailures := 0 }.incrementRecoveries
    else b
  | .isOpen => b

def recordFailure (now : Nat) (err : StellarError) (b : CircuitBreaker) : CircuitBreaker :=
  match b.state with
  | .closed =>
    let failures := b.consecutiveFailures+1
    let b := { b with consecutiveFailures := failures }
    let b := match err with
      | .timeout .. => b.incrementTimeoutCalls
      | .retryableHttpStatus .. => b.incrementRetryableHttpCalls
      | _ => b
    let b := b.incrementFailedCalls
    if failures.toNat ≥ (max b.config.failureThreshold 1).toNat then
      { b with state := .isOpen, openedAt := some now }.incrementTrips
    else b
  | .halfOpen =>
    let b := { b with
      halfOpenInFlight := b.halfOpenInFlight-1, state := .isOpen, openedAt := some now }
    b.incrementTrips.incrementFailedCalls.incrementHalfOpenFailures
  | .isOpen => b

def recordResult {α : Type} (now : Nat) (result : StellarResult α) (b : CircuitBreaker) :
    CircuitBreaker :=
  match result with
  | .ok _ => b.recordSuccess
  | .error err => if err.affectsCircuitBreaker then b.recordFailure now err else b

end CircuitBreaker
end ProofStell.Stellar
