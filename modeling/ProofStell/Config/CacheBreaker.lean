import ProofStell.Config.RateLimits
import ProofStell.Cache.Breaker

/-! The cache circuit breaker part of `AppConfig::from_env`. The start-up code hands the five
accepted values on to `CacheCircuitBreakerConfig` as they are. -/
namespace ProofStell.Config
open Cache

def MAX_TIMEOUT_MS : UInt64 := 300000

def duration (field raw : String) (fallback : UInt64) (tooLong : UInt64 → String) :
    Checked UInt64 :=
  match u64.parse raw with
  | some v =>
    if v > 0 ∧ v ≤ MAX_TIMEOUT_MS then (v,[])
    else if v > 0 then (fallback,[tooLong v])
    else (fallback,[field++" must be greater than 0"])
  | none => (fallback,[field++" must be a valid u64, got '"++raw++"'"])

def exceedsMaximum (field : String) (v : UInt64) : String :=
  field++" ("++toString v.toNat++") exceeds maximum "++toString MAX_TIMEOUT_MS.toNat

/-- A backoff that is too long is reported with the text for zero. -/
def backoff (field raw : String) (fallback : UInt64) : Checked UInt64 :=
  duration field raw fallback fun _ => field++" must be greater than 0"

def cacheCircuitBreaker (env : Env) : Checked CacheCircuitBreakerConfig :=
  let failureThresholdRaw := getEnvOrDefault env "CACHE_CIRCUIT_BREAKER_FAILURE_THRESHOLD" "5"
  let openDurationMsRaw := getEnvOrDefault env "CACHE_CIRCUIT_BREAKER_OPEN_DURATION_MS" "30000"
  let halfOpenMaxCallsRaw := getEnvOrDefault env "CACHE_CIRCUIT_BREAKER_HALF_OPEN_MAX_CALLS" "1"
  let backoffBaseMsRaw := getEnvOrDefault env "CACHE_CIRCUIT_BREAKER_BACKOFF_BASE_MS" "100"
  let backoffMaxMsRaw := getEnvOrDefault env "CACHE_CIRCUIT_BREAKER_BACKOFF_MAX_MS" "30000"
  let (failureThreshold,e1) :=
    positive u32 "CACHE_CIRCUIT_BREAKER_FAILURE_THRESHOLD" failureThresholdRaw 5
  let (openDurationMs,e2) := duration "CACHE_CIRCUIT_BREAKER_OPEN_DURATION_MS" openDurationMsRaw
    30000 (exceedsMaximum "CACHE_CIRCUIT_BREAKER_OPEN_DURATION_MS")
  let (halfOpenMaxCalls,e3) :=
    positive u32 "CACHE_CIRCUIT_BREAKER_HALF_OPEN_MAX_CALLS" halfOpenMaxCallsRaw 1
  let (backoffBaseMs,e4) := backoff "CACHE_CIRCUIT_BREAKER_BACKOFF_BASE_MS" backoffBaseMsRaw 100
  let (backoffMaxMs,e5) := backoff "CACHE_CIRCUIT_BREAKER_BACKOFF_MAX_MS" backoffMaxMsRaw 30000
  (⟨failureThreshold,openDurationMs,halfOpenMaxCalls,backoffBaseMs,backoffMaxMs⟩,
    e1++e2++e3++e4++e5)

theorem duration_bounds {field raw : String} {fallback : UInt64} {tooLong : UInt64 → String}
    (h : (duration field raw fallback tooLong).2 = []) :
    0 < (duration field raw fallback tooLong).1.toNat ∧
      (duration field raw fallback tooLong).1.toNat ≤ 300000 := by
  simp only [duration] at h ⊢
  split at h
  · next v _ =>
    split at h
    · next hv =>
      rw [if_pos hv]
      exact ⟨UInt64.lt_iff_toNat_lt.mp hv.1,UInt64.le_iff_toNat_le.mp hv.2⟩
    · split at h <;> cases h
  · cases h

/-- What an accepted configuration promises the breaker. -/
structure Accepted (config : CacheCircuitBreakerConfig) : Prop where
  threshold : 0 < config.failureThreshold.toNat
  probes : 0 < config.halfOpenMaxCalls.toNat
  openDuration : 0 < config.openDurationMs.toNat ∧ config.openDurationMs.toNat ≤ 300000
  base : 0 < config.backoffBaseMs.toNat ∧ config.backoffBaseMs.toNat ≤ 300000
  max : 0 < config.backoffMaxMs.toNat ∧ config.backoffMaxMs.toNat ≤ 300000

theorem cacheCircuitBreaker_accepted {env : Env} {config : CacheCircuitBreakerConfig}
    (h : cacheCircuitBreaker env = (config,[])) : Accepted config := by
  have herrors := congrArg Prod.snd h
  have hconfig := congrArg Prod.fst h
  simp only [cacheCircuitBreaker,List.append_eq_nil_iff] at herrors
  simp only [cacheCircuitBreaker] at hconfig
  obtain ⟨⟨⟨⟨hthreshold,hopen⟩,hprobes⟩,hbase⟩,hmax⟩ := herrors
  rw [← hconfig]
  exact ⟨UInt32.lt_iff_toNat_lt.mp (positive_pos hthreshold),
    UInt32.lt_iff_toNat_lt.mp (positive_pos hprobes),duration_bounds hopen,
    duration_bounds hbase,duration_bounds hmax⟩

example : cacheCircuitBreaker (fun _ => none) = (.default,[]) := by decide +kernel

end ProofStell.Config
