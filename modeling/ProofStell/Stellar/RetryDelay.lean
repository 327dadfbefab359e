import ProofStell.Config.Documented
import ProofStell.Stellar.Client
import ProofStell.Lib.Duration

/-! The pause before the next attempt at Horizon, and the settings of a client that are taken
from the configuration. -/
namespace ProofStell.Stellar
open Config Saturating

inductive RetryJitter where
  | none
  | full
  | equal
  | decorrelated
  deriving DecidableEq, Repr

structure RetryPolicy where
  maxRetries : UInt32
  baseDelay : Duration
  maxDelay : Duration
  jitter : RetryJitter

structure BulkheadConfig where
  maxConcurrent : UInt32
  maxQueue : UInt32

structure GracefulDegradationConfig where
  fallbackCacheTtl : Duration
  staleCacheOk : Bool

def GracefulDegradationConfig.default : GracefulDegradationConfig :=
  ⟨⟨300*10^9,by norm_num⟩,true⟩

structure StellarClientConfig where
  retry : RetryPolicy
  circuitBreaker : CircuitBreakerConfig
  requestTimeout : Duration
  rateLimitPerSecond : UInt32
  rateLimitBurst : UInt32
  bulkhead : BulkheadConfig
  gracefulDegradation : GracefulDegradationConfig

def RetryJitter.ofString : String → RetryJitter
  | "none" => .none
  | "full" => .full
  | "equal" => .equal
  | "decorrelated" => .decorrelated
  | _ => .full

/-- The switch `stellar_retry_jitter_enabled` is not read. -/
def StellarClientConfig.fromAppConfig (parsers : Parsers) (config : AppConfig) :
    StellarClientConfig where
  retry :=
    { maxRetries := config.stellarMaxRetries
      baseDelay := .ofMillis config.stellarRetryBaseDelayMs
      maxDelay := .ofMillis config.stellarRetryMaxDelayMs
      jitter := .ofString (lower parsers config.stellarRetryJitterType) }
  circuitBreaker :=
    { failureThreshold := config.stellarCircuitBreakerFailureThreshold
      openDuration := (Duration.ofMillis config.stellarCircuitBreakerOpenDurationMs).nanos
      halfOpenMaxCalls := config.stellarCircuitBreakerHalfOpenMaxCalls }
  requestTimeout := .ofMillis config.stellarRequestTimeoutMs
  rateLimitPerSecond := config.rateLimitPerSecond
  rateLimitBurst := config.rateLimitBurst
  bulkhead := ⟨config.stellarBulkheadMaxConcurrent,config.stellarBulkheadMaxQueue⟩
  gracefulDegradation := .default

def trimTrailingSlash (value : String) : String :=
  String.ofList (value.toList.reverse.dropWhile (· = '/')).reverse

def StellarClient.withConfig (horizonUrl : String) (config : StellarClientConfig) :
    StellarClient where
  horizonUrl := trimTrailingSlash horizonUrl
  maxRetries := config.retry.maxRetries
  circuitBreaker := config.circuitBreaker
  staleCacheOk := config.gracefulDegradation.staleCacheOk

def StellarClient.fromAppConfig (parsers : Parsers) (config : AppConfig) : StellarClient :=
  .withConfig config.stellarHorizonUrl (.fromAppConfig parsers config)

/-- What a delay depends on besides its arguments: the nanoseconds of the clock within the
second, and the number that `gen_range(0..n)` draws. -/
structure Readings where
  subsecNanos : Nat
  subsecNanos_lt : subsecNanos < 10^9
  genRange : UInt64 → UInt64
  genRange_lt : ∀ n, 0 < n → genRange n < n

def jitteredDelayFull (maxDelay : Duration) (r : Readings) : Duration :=
  let fraction := Float64.div (Float64.fl r.subsecNanos) (10^9)
  let millis := Float64.toU64
    (Float64.roundAway (Float64.mul (Float64.mul maxDelay.asSecsF64 1000) fraction))
  .ofMillis millis

def jitteredDelayEqual (maxDelay : Duration) : Duration :=
  let millis := Float64.toU64
    (Float64.roundAway (Float64.div (Float64.mul maxDelay.asSecsF64 1000) 2))
  .ofMillis millis

def jitteredDelayDecorrelated (base : Duration) (r : Readings) : Duration :=
  let millis := UInt64.ofNat base.asMillis
  let decorrelated := mul64 millis 3/4
  let jitter := r.genRange (max decorrelated 1)
  .ofMillis (min jitter millis)

namespace RetryPolicy
variable (policy : RetryPolicy)

def multiplier (attempt : UInt32) : UInt32 := pow32 2 (min attempt 31)

def capped (attempt : UInt32) : Duration :=
  ((policy.baseDelay.checkedMul (multiplier attempt)).getD policy.maxDelay).min policy.maxDelay

def retryDelay (attempt : UInt32) (r : Readings) : Duration :=
  match policy.jitter with
  | .none => policy.capped attempt
  | .full => jitteredDelayFull (policy.capped attempt) r
  | .equal => jitteredDelayEqual (policy.capped attempt)
  | .decorrelated => jitteredDelayDecorrelated (policy.capped attempt) r

end RetryPolicy

theorem multiplier_toNat (attempt : UInt32) :
    (RetryPolicy.multiplier attempt).toNat = 2^min attempt.toNat 31 := by
  have hpow : 2^min attempt.toNat 31 ≤ 2^31 :=
    Nat.pow_le_pow_right (by omega) (Nat.min_le_right _ _)
  rw [RetryPolicy.multiplier,pow32_toNat,min32_toNat]
  exact Nat.min_eq_left (hpow.trans (by norm_num))

section
variable {policy : RetryPolicy} {base cap : UInt64} (hpolicy : policy.baseDelay = .ofMillis base)
  (hcap : policy.maxDelay = .ofMillis cap) (hbase_millis : Millis base) (hcap_millis : Millis cap)
include hpolicy hbase_millis

theorem checkedMul_multiplier (attempt : UInt32) :
    ∃ d, policy.baseDelay.checkedMul (RetryPolicy.multiplier attempt) = some d ∧
      d.nanos = base.toNat*2^min attempt.toNat 31*10^6 := by
  have hpow : 2^min attempt.toNat 31 ≤ 2^31 :=
    Nat.pow_le_pow_right (by omega) (Nat.min_le_right _ _)
  have hbound : base.toNat*2^min attempt.toNat 31 ≤ 300000*2^31 :=
    Nat.mul_le_mul hbase_millis.2 hpow
  have hnanos : policy.baseDelay.nanos*(RetryPolicy.multiplier attempt).toNat =
      base.toNat*2^min attempt.toNat 31*10^6 := by
    rw [hpolicy,multiplier_toNat,Duration.ofMillis_nanos]
    ring
  have hlt : policy.baseDelay.nanos*(RetryPolicy.multiplier attempt).toNat < 2^64*10^9 := by
    rw [hnanos]
    omega
  exact ⟨_,Duration.checkedMul_of_lt hlt,hnanos⟩

include hcap hcap_millis

theorem capped_eq (attempt : UInt32) :
    (policy.capped attempt).nanos = min (base.toNat*2^attempt.toNat) cap.toNat*10^6 := by
  obtain ⟨d,hmul,hd⟩ := checkedMul_multiplier hpolicy hbase_millis attempt
  have hclamp := min_clamped_pow attempt.toNat hbase_millis.1
    (hcap_millis.2.trans (show 300000 ≤ 2^31 by norm_num))
  rw [RetryPolicy.capped,hmul,Option.getD_some,Duration.min_nanos,hd,hcap,Duration.ofMillis_nanos,
    ← hclamp]
  exact Nat.mul_min_mul_right _ _ _

theorem capped_millis (attempt : UInt32) : ∃ c, policy.capped attempt = .ofMillis c ∧ Millis c ∧
    c.toNat = min (base.toNat*2^attempt.toNat) cap.toNat := by
  have hpos : 1 ≤ base.toNat*2^attempt.toNat :=
    Nat.mul_pos hbase_millis.1 (Nat.pow_pos (by omega))
  have hmillis : 1 ≤ min (base.toNat*2^attempt.toNat) cap.toNat ∧
      min (base.toNat*2^attempt.toNat) cap.toNat ≤ 300000 :=
    ⟨le_min hpos hcap_millis.1,(Nat.min_le_right _ _).trans hcap_millis.2⟩
  have hc : (UInt64.ofNat (min (base.toNat*2^attempt.toNat) cap.toNat)).toNat =
      min (base.toNat*2^attempt.toNat) cap.toNat :=
    UInt64.toNat_ofNat_of_lt' (by simp only [UInt64.size]; omega)
  refine ⟨_,Duration.ext ?_,by rw [Millis,hc]; exact hmillis,hc⟩
  rw [capped_eq hpolicy hcap hbase_millis hcap_millis,Duration.ofMillis_nanos,hc]

end

def Readings.least : Readings := ⟨0,by norm_num,fun _ => 0,fun _ h => h⟩

theorem jitteredDelayFull_least (d : Duration) : jitteredDelayFull d .least = .ofMillis 0 := by
  simp [jitteredDelayFull,Readings.least,Float64.div,Float64.mul,Float64.toU64]

theorem jitteredDelayDecorrelated_least (d : Duration) :
    jitteredDelayDecorrelated d .least = .ofMillis 0 := by
  have hmin : min 0 (UInt64.ofNat d.asMillis) = 0 := by
    rw [← UInt64.toNat_inj,min64_toNat]
    exact Nat.zero_min _
  rw [jitteredDelayDecorrelated,Readings.least,hmin]

/-- Half of `m` milliseconds, up to the rounding of the five operations. -/
theorem halved_error {m : UInt64} (h : m.toNat ≤ 300000) :
    |Float64.div (Float64.mul (Duration.ofMillis m).asSecsF64 1000) 2-(m.toNat:ℚ)/2| ≤ 1/100 := by
  have hm : (m.toNat:ℚ) ≤ 300000 := by exact_mod_cast h
  have hm' : (0:ℚ) ≤ m.toNat := Nat.cast_nonneg _
  have hsecs : (((Duration.ofMillis m).nanos : Nat):ℚ)/10^9 = m.toNat/1000 := by
    rw [Duration.ofMillis_nanos]
    push_cast
    ring
  have hx := Duration.asSecsF64_nonneg (Duration.ofMillis m)
  have herror := Duration.asSecsF64_error (Duration.ofMillis m)
  rw [hsecs] at herror
  have ⟨hxl,hxr⟩ := abs_le.mp herror
  have hmul : 0 ≤ (Duration.ofMillis m).asSecsF64*1000 := mul_nonneg hx (by norm_num)
  have hhalf := div_nonneg (Float64.fl_nonneg hmul) (show (0:ℚ) ≤ 2 by norm_num)
  have ⟨hyl,hyr⟩ := abs_le.mp (Float64.fl_error hmul)
  have ⟨hzl,hzr⟩ := abs_le.mp (Float64.fl_error hhalf)
  rw [Float64.div,Float64.mul,abs_le]
  constructor <;> linarith

theorem jitteredDelayEqual_one : jitteredDelayEqual (.ofMillis 1) = .ofMillis 1 := by
  decide +kernel

theorem jitteredDelayEqual_ne {m : UInt64} (htwo : 2 ≤ m.toNat) (h : m.toNat ≤ 300000) :
    jitteredDelayEqual (.ofMillis m)≠.ofMillis m := by
  have ⟨_,hright⟩ := abs_le.mp (halved_error h)
  have hnonneg : 0 ≤ Float64.div (Float64.mul (Duration.ofMillis m).asSecsF64 1000) 2 :=
    Float64.fl_nonneg (div_nonneg (Float64.fl_nonneg (mul_nonneg (Duration.asSecsF64_nonneg _)
      (by norm_num))) (by norm_num))
  have hround := Float64.roundAway_le hnonneg
  have htwo' : (2:ℚ) ≤ m.toNat := by exact_mod_cast htwo
  have hlt : Float64.roundAway (Float64.div (Float64.mul (Duration.ofMillis m).asSecsF64 1000) 2) <
      m.toNat := by
    have : ((Float64.roundAway (Float64.div (Float64.mul (Duration.ofMillis m).asSecsF64 1000) 2)
      : ℤ):ℚ) < ((m.toNat : ℤ):ℚ) := by
      push_cast
      linarith
    exact_mod_cast this
  rw [jitteredDelayEqual,Ne,Duration.ofMillis_inj,← UInt64.toNat_inj,Float64.toU64_toNat]
  omega

theorem jitterType_accepted {parsers : Parsers} {env : Env} {cfg : AppConfig}
    (h : fromEnv parsers env = .ok cfg) :
    lower parsers cfg.stellarRetryJitterType = "none" ∨
    lower parsers cfg.stellarRetryJitterType = "full" ∨
    lower parsers cfg.stellarRetryJitterType = "equal" ∨
    lower parsers cfg.stellarRetryJitterType = "decorrelated" := by
  have hnamed {s : String} (hs : isJitterType s = true) :
      s = "none" ∨ s = "full" ∨ s = "equal" ∨ s = "decorrelated" := by
    unfold isJitterType at hs
    split at hs <;> simp_all
  have hfull : readJitterType parsers "full" = some "full" := rfl
  have hread := (reads_iff hfull).mpr (documented_of_ok h).stellar.jitterType
  rw [readJitterType] at hread
  split at hread
  · next htype => exact hnamed (Option.some.inj hread ▸ htype)
  · simp at hread

section
variable {parsers : Parsers} {cfg : AppConfig}

/-- The delays of the client are the same whatever the clock and the random generator say,
namely those of the exponential formula. -/
def DelaysDeterministic (parsers : Parsers) (cfg : AppConfig) : Prop :=
  ∀ (attempt : UInt32) (r r' : Readings),
    let policy := (StellarClientConfig.fromAppConfig parsers cfg).retry
    policy.retryDelay attempt r = policy.retryDelay attempt r' ∧
    (policy.retryDelay attempt r).nanos =
      min (cfg.stellarRetryBaseDelayMs.toNat*2^attempt.toNat) cfg.stellarRetryMaxDelayMs.toNat*10^6

variable (hbase : Millis cfg.stellarRetryBaseDelayMs) (hmax : Millis cfg.stellarRetryMaxDelayMs)
include hbase hmax

theorem not_deterministic_of_zero
    (hzero : ∀ attempt, (StellarClientConfig.fromAppConfig parsers cfg).retry.retryDelay attempt
      .least = .ofMillis 0) : ¬DelaysDeterministic parsers cfg := by
  intro h
  have hformula := (h 0 .least .least).2
  have := hbase.1
  have := hmax.1
  rw [hzero,Duration.ofMillis_nanos] at hformula
  simp at hformula
  omega

theorem deterministic_of_none (htype : lower parsers cfg.stellarRetryJitterType = "none") :
    DelaysDeterministic parsers cfg := by
  intro attempt r r' policy
  have hjitter : policy.jitter = .none := congrArg RetryJitter.ofString htype
  rw [RetryPolicy.retryDelay,RetryPolicy.retryDelay,hjitter]
  exact ⟨rfl,capped_eq rfl rfl hbase hmax attempt⟩

/-- Half of a delay, rounded up, is the delay only of a single millisecond. -/
theorem deterministic_equal_iff (htype : lower parsers cfg.stellarRetryJitterType = "equal") :
    DelaysDeterministic parsers cfg ↔ cfg.stellarRetryMaxDelayMs = 1 := by
  have hdelay (attempt : UInt32) (r : Readings) :
      (StellarClientConfig.fromAppConfig parsers cfg).retry.retryDelay attempt r =
        jitteredDelayEqual
          ((StellarClientConfig.fromAppConfig parsers cfg).retry.capped attempt) := by
    have hjitter : (StellarClientConfig.fromAppConfig parsers cfg).retry.jitter = .equal :=
      congrArg RetryJitter.ofString htype
    rw [RetryPolicy.retryDelay,hjitter]
  have hcapped (attempt : UInt32) := capped_millis
    (show (StellarClientConfig.fromAppConfig parsers cfg).retry.baseDelay = _ from rfl)
    rfl hbase hmax attempt
  constructor
  · intro h
    -- from attempt 19 on, any base is past the longest delay
    obtain ⟨c,hc,hc_millis,hc_eq⟩ := hcapped 19
    have hlarge : c.toNat = cfg.stellarRetryMaxDelayMs.toNat := by
      have := hbase.1
      have := hmax.2
      rw [hc_eq,show (19:UInt32).toNat = 19 from rfl]
      omega
    have hformula := (h 19 .least .least).2
    rw [← hc_eq,← Duration.ofMillis_nanos] at hformula
    have hfixed : jitteredDelayEqual (.ofMillis c) = .ofMillis c := by
      rw [← hc,← hdelay 19 .least,hc]
      exact Duration.ext hformula
    by_contra hne
    have htwo : 2 ≤ c.toNat := by
      have := hc_millis.1
      have : c.toNat≠1 := fun h1 => hne (UInt64.toNat_inj.mp (hlarge.symm.trans h1))
      omega
    exact jitteredDelayEqual_ne htwo hc_millis.2 hfixed
  · intro hone attempt r r' policy
    obtain ⟨c,hc,hc_millis,hc_eq⟩ := hcapped attempt
    have hc_one : c = 1 := by
      have hle : c.toNat ≤ cfg.stellarRetryMaxDelayMs.toNat := hc_eq ▸ Nat.min_le_right _ _
      rw [hone] at hle
      exact UInt64.toNat_inj.mp (Nat.le_antisymm hle hc_millis.1)
    rw [hdelay,hdelay,← hc_eq,hc,hc_one,jitteredDelayEqual_one]
    exact ⟨rfl,rfl⟩

end

/-- With jitter disabled, the delays of a client are the exponential ones and independent of the
clock and the random generator exactly if the jitter type says so too. -/
theorem retry_delay_deterministic_iff {parsers : Parsers} {env : Env} {cfg : AppConfig}
    (h : fromEnv parsers env = .ok cfg ∧ cfg.stellarRetryJitterEnabled = false) :
    DelaysDeterministic parsers cfg ↔ lower parsers cfg.stellarRetryJitterType = "none" ∨
      lower parsers cfg.stellarRetryJitterType = "equal" ∧ cfg.stellarRetryMaxDelayMs = 1 := by
  have hdoc := documented_of_ok h.1
  have hbase := hdoc.stellar.baseDelay_millis
  have hmax := hdoc.stellar.maxDelay_millis
  have hjitter {jitter : RetryJitter} {s : String}
      (htype : lower parsers cfg.stellarRetryJitterType = s) (hs : .ofString s = jitter) :
      (StellarClientConfig.fromAppConfig parsers cfg).retry.jitter = jitter := by
    rw [← hs,← htype]
    rfl
  obtain htype | htype | htype | htype := jitterType_accepted h.1
  · simp only [htype,true_or,iff_true]
    exact deterministic_of_none hbase hmax htype
  · simp only [htype,String.reduceEq,false_and,or_self,iff_false]
    apply not_deterministic_of_zero hbase hmax
    intro attempt
    rw [RetryPolicy.retryDelay,hjitter htype rfl]
    exact jitteredDelayFull_least _
  · simp only [htype,String.reduceEq,true_and,false_or]
    exact deterministic_equal_iff hbase hmax htype
  · simp only [htype,String.reduceEq,false_and,or_self,iff_false]
    apply not_deterministic_of_zero hbase hmax
    intro attempt
    rw [RetryPolicy.retryDelay,hjitter htype rfl]
    exact jitteredDelayDecorrelated_least _

def jitterOff (vars : List (String × String)) : Env :=
  sampleEnv (("STELLAR_RETRY_JITTER","false")::vars)

theorem retry_delay_deterministic_without_type :
    ∃ cfg, fromEnv .sample (jitterOff [("STELLAR_RETRY_JITTER_TYPE","None")]) = .ok cfg ∧
      cfg.stellarRetryJitterEnabled = false ∧ DelaysDeterministic .sample cfg := by
  have hok : fromEnv .sample (jitterOff [("STELLAR_RETRY_JITTER_TYPE","None")]) = .ok _ :=
    fromEnv_of_load (by decide +kernel)
  exact ⟨_,hok,by decide +kernel,(retry_delay_deterministic_iff ⟨hok,by decide +kernel⟩).mpr
    (Or.inl (by decide +kernel))⟩

/-- `STELLAR_RETRY_JITTER=false` alone: the type is still `full`, and at a full second the first
pause is zero instead of 100 ms. -/
theorem disabled_jitter_still_jitters :
    ∃ cfg, fromEnv .sample (jitterOff []) = .ok cfg ∧ cfg.stellarRetryJitterEnabled = false ∧
      cfg.stellarRetryBaseDelayMs = 100 ∧ cfg.stellarRetryMaxDelayMs = 10000 ∧
      ((StellarClientConfig.fromAppConfig .sample cfg).retry.retryDelay 0 .least).nanos = 0 ∧
      ¬DelaysDeterministic .sample cfg := by
  have hok : fromEnv .sample (jitterOff []) = .ok _ := fromEnv_of_load (by decide +kernel)
  have hdelay : ((StellarClientConfig.fromAppConfig .sample
      (load .sample (jitterOff [])).1).retry.retryDelay 0 .least).nanos = 0 := by decide +kernel
  refine ⟨_,hok,by decide +kernel,by decide +kernel,by decide +kernel,hdelay,?_⟩
  intro h
  have hformula := (h 0 .least .least).2
  rw [hdelay] at hformula
  exact absurd hformula (by decide +kernel)

end ProofStell.Stellar
