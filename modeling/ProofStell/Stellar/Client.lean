import ProofStell.Hash.Canonical
import ProofStell.Lib.Machine
import ProofStell.Stellar.Breaker

/-! Verification against Horizon: the attempts of one call, what the breaker is told
about them, and calls that overlap. -/
namespace ProofStell.Stellar
open Hash

inductive VerificationStatus where
  | confirmedMatch | noMatch | networkError | malformedResponse
  deriving DecidableEq, Repr

def VerificationStatus.debug : VerificationStatus → String
  | .confirmedMatch => "ConfirmedMatch"
  | .noMatch => "NoMatch"
  | .networkError => "NetworkError"
  | .malformedResponse => "MalformedResponse"

structure VerificationResult where
  status : VerificationStatus
  transactionId : Option String
  timestamp : Option Int64
  lastHttpStatus : Option UInt16
  deriving DecidableEq, Repr

def VerificationResult.verified (result : VerificationResult) : Bool :=
  result.status = .confirmedMatch

structure TransactionRecord where
  transactionId : String
  timestamp : Int64
  verified : Bool
  deriving DecidableEq, Repr

/-- How one attempt goes; `noPermit` carries what the cache would answer, `answered` what
`parse_horizon_transaction` makes of the body. -/
inductive Attempt where
  | noPermit (cached : Option VerificationResult)
  | sendError
  | answered (status : UInt16) (parsed : Except Unit (Option TransactionRecord))

def isSuccess (status : UInt16) : Bool := 200 ≤ status && status≤299

def isRetryableStatus (status : UInt16) : Bool :=
  status = 408 || status = 429 || (500 ≤ status && status≤599)

structure StellarClient where
  horizonUrl : String
  maxRetries : UInt32
  circuitBreaker : CircuitBreakerConfig
  staleCacheOk : Bool

namespace StellarClient
variable (c : StellarClient)

def tryStaleCacheFallback (cached : Option VerificationResult) : Option VerificationResult :=
  cached.filter fun result => result.verified || c.staleCacheOk

/-- The loop over the attempts, with the number of those left, the next one, and the
last status and HTTP status seen. -/
def attemptLoop (script : Nat → Attempt) :
    Nat → Nat → VerificationStatus → Option UInt16 → VerificationResult
  | 0, _, lastStatus, lastHttpStatus => ⟨lastStatus,none,none,lastHttpStatus⟩
  | remaining+1, attempt, _, lastHttpStatus =>
    match script attempt with
    | .noPermit cached =>
      match c.tryStaleCacheFallback cached with
      | some fallback => fallback
      | none => attemptLoop script remaining (attempt+1) .networkError lastHttpStatus
    | .sendError => attemptLoop script remaining (attempt+1) .networkError none
    | .answered status parsed =>
      if isSuccess status then
        match parsed with
        | .ok (some record) =>
          ⟨.confirmedMatch,some record.transactionId,some record.timestamp,none⟩
        | .ok none => ⟨.noMatch,none,none,lastHttpStatus⟩
        | .error () => attemptLoop script remaining (attempt+1) .malformedResponse lastHttpStatus
      else if isRetryableStatus status then
        attemptLoop script remaining (attempt+1) .networkError (some status)
      else ⟨.noMatch,none,none,some status⟩

def verifyHash (hash : String) (script : Nat → Attempt) : VerificationResult :=
  match CanonicalHash.new hash with
  | .error _ => ⟨.malformedResponse,none,none,none⟩
  | .ok _ => c.attemptLoop script (c.maxRetries.toNat+1) 0 .noMatch none

def executeVerifyHashWithRetry (hash : String) (script : Nat → Attempt) :
    StellarResult VerificationResult :=
  let result := c.verifyHash hash script
  match result.status with
  | .confirmedMatch | .noMatch => .ok result
  | .networkError | .malformedResponse =>
    let reason := match result.lastHttpStatus with
      | some status => "HTTP "++toString status
      | none => "verification returned "++result.status.debug
    .error (.retryExhausted "verify_hash" (c.maxRetries+1) c.maxRetries
      (.request c.horizonUrl reason))

end StellarClient

structure Call where
  caller : Nat
  hash : String
  deriving DecidableEq, Repr

/-- The two steps a call takes on the breaker: `allow_call`, and `record_result` once
its attempts are over. -/
inductive Step where
  | arrive (call : Call) (now : Nat)
  | finish (call : Call) (script : Nat → Attempt) (now : Nat)

def Step.call : Step → Call
  | .arrive call _ => call
  | .finish call _ _ => call

structure Service where
  breaker : CircuitBreaker
  pending : List Call

def Service.new (config : CircuitBreakerConfig) : Service := ⟨.new config,[]⟩

def verifyHashWithRetry (c : StellarClient) :
    Step → Service → Option (StellarResult VerificationResult) × Service
  | .arrive call now, s =>
    match s.breaker.allowCall now with
    | (.ok (),b) => (none,⟨b,call::s.pending⟩)
    | (.error e,b) => (some (.error e),⟨b,s.pending⟩)
  | .finish call script now, s =>
    if call∈s.pending then
      let result := c.executeVerifyHashWithRetry call.hash script
      (some result,⟨s.breaker.recordResult now result,s.pending.erase call⟩)
    else (none,s)

end ProofStell.Stellar
