import ProofStell.Config.AppConfig

/-! What the documentation asks of the environment, and that `from_env` accepts exactly that. -/
namespace ProofStell.Config
open Cache

/-- `v` is what the variable says, or the default of a variable that is not set. -/
def Reads {α : Type} (env : Env) (key : String) (parse : String → Option α) (default v : α) :
    Prop :=
  match env key with
  | some raw => parse raw = some v
  | none => v = default

theorem reads_iff {α : Type} {env : Env} {key text : String} {parse : String → Option α}
    {default v : α} (hdefault : parse text = some default) :
    parse (getEnvOrDefault env key text) = some v ↔ Reads env key parse default v := by
  rw [getEnvOrDefault,Reads]
  cases env key with
  | some raw => exact Iff.rfl
  | none => rw [Option.getD_none,hdefault,Option.some.injEq,eq_comm]

theorem parseUnsigned_unsigned {limit : Nat} {s : String} (h : ∀ cs, s.toList ≠ '+'::cs) :
    parseUnsigned limit s = if s.toList = [] ∨ ¬s.toList.all (·.isDigit) then none
      else if s.toList.foldl (fun n c => 10*n+(c.toNat-48)) 0 < limit then
        some (s.toList.foldl (fun n c => 10*n+(c.toNat-48)) 0) else none := by
  rw [parseUnsigned]
  split
  · next cs heq => exact absurd heq (h cs)
  · rfl

theorem parseUnsigned_toString {limit n : Nat} (h : n < limit) :
    parseUnsigned limit (toString n) = some n := by
  have hlist : (toString n).toList = Nat.toDigits 10 n := Nat.toList_repr
  have hdigit : ∀ c∈Nat.toDigits 10 n, c.isDigit = true := fun c hc =>
    Nat.isDigit_of_mem_toDigits (by decide) (by decide) hc
  have hfold : (Nat.toDigits 10 n).foldl (fun m c => 10*m+(c.toNat-48)) 0 = n :=
    Nat.ofDigitChars_ten_toDigits
  rw [parseUnsigned_unsigned,hlist,hfold,if_pos h,if_neg]
  · simpa [Nat.toDigits_ne_nil] using hdigit
  · intro cs heq
    rw [hlist] at heq
    have hplus := hdigit '+'
    rw [heq] at hplus
    exact absurd (hplus List.mem_cons_self) (by decide)

theorem u32_parse_toString {n : Nat} (h : n < 2^32) :
    u32.parse (toString n) = some (UInt32.ofNat n) := by
  rw [u32]
  simp only
  rw [parseUnsigned_toString h,Option.map_some]

structure RateLimitsDocumented (env : Env) (cfg : RateLimits) : Prop where
  perSecond : Reads env "RATE_LIMIT_PER_SECOND" u32.parse 100 cfg.rateLimitPerSecond
  perSecond_pos : 1 ≤ cfg.rateLimitPerSecond.toNat
  burst : Reads env "RATE_LIMIT_BURST" u32.parse cfg.rateLimitPerSecond cfg.rateLimitBurst
  burst_ge : cfg.rateLimitPerSecond.toNat ≤ cfg.rateLimitBurst.toNat
  issuerPerSecond : Reads env "PER_ISSUER_RATE_LIMIT_PER_SECOND" u32.parse 10
    cfg.perIssuerRateLimitPerSecond
  issuerPerSecond_pos : 1 ≤ cfg.perIssuerRateLimitPerSecond.toNat
  issuerPerSecond_le : cfg.perIssuerRateLimitPerSecond.toNat ≤ cfg.rateLimitPerSecond.toNat
  /-- Twice the rate, at most `u32::MAX`. -/
  issuerBurst : Reads env "PER_ISSUER_RATE_LIMIT_BURST" u32.parse
    (UInt32.ofNat (min (cfg.perIssuerRateLimitPerSecond.toNat*2) (2^32-1)))
    cfg.perIssuerRateLimitBurst
  issuerBurst_ge : cfg.perIssuerRateLimitPerSecond.toNat ≤ cfg.perIssuerRateLimitBurst.toNat
  ttl : Reads env "ISSUER_RATE_LIMIT_TTL_SECONDS" u64.parse 3600 cfg.issuerRateLimitTtlSeconds
  ttl_pos : 1 ≤ cfg.issuerRateLimitTtlSeconds.toNat
  jitter : Reads env "PER_ISSUER_RATE_LIMIT_JITTER_SECONDS" u64.parse 0
    cfg.perIssuerRateLimitJitterSeconds
  jitter_lt : cfg.perIssuerRateLimitJitterSeconds.toNat < cfg.issuerRateLimitTtlSeconds.toNat

theorem rateLimits_eq (env : Env) : rateLimits env = (do
    let perSecondRaw := getEnvOrDefault env "RATE_LIMIT_PER_SECOND" "100"
    let issuerRaw := getEnvOrDefault env "PER_ISSUER_RATE_LIMIT_PER_SECOND" "10"
    let perSecond ← positive u32 "RATE_LIMIT_PER_SECOND" perSecondRaw 100
    let burst ← number u32 "RATE_LIMIT_BURST"
      (getEnvOrDefault env "RATE_LIMIT_BURST" perSecondRaw) perSecond
    check (burst == 0) "RATE_LIMIT_BURST must be greater than 0"
    check (burst < perSecond) (between "RATE_LIMIT_BURST" burst.toNat "be >="
      "RATE_LIMIT_PER_SECOND" perSecond.toNat)
    let issuer ← positive u32 "PER_ISSUER_RATE_LIMIT_PER_SECOND" issuerRaw 10
    let issuerBurst ← positive u32 "PER_ISSUER_RATE_LIMIT_BURST"
      (getEnvOrDefault env "PER_ISSUER_RATE_LIMIT_BURST"
        (toString (min (((u32.parse issuerRaw).getD 10).toNat*2) (2^32-1)))) (issuer*2)
    check (issuerBurst < issuer) (between "PER_ISSUER_RATE_LIMIT_BURST" issuerBurst.toNat "be >="
      "PER_ISSUER_RATE_LIMIT_PER_SECOND" issuer.toNat)
    check (issuer > perSecond) (between "PER_ISSUER_RATE_LIMIT_PER_SECOND" issuer.toNat
      "not exceed" "RATE_LIMIT_PER_SECOND" perSecond.toNat)
    let ttl ← positive u64 "ISSUER_RATE_LIMIT_TTL_SECONDS"
      (getEnvOrDefault env "ISSUER_RATE_LIMIT_TTL_SECONDS" "3600") 3600
    let jitter ← number u64 "PER_ISSUER_RATE_LIMIT_JITTER_SECONDS"
      (getEnvOrDefault env "PER_ISSUER_RATE_LIMIT_JITTER_SECONDS" "0") 0
    check (jitter ≥ ttl) (between "PER_ISSUER_RATE_LIMIT_JITTER_SECONDS" jitter.toNat "be <"
      "ISSUER_RATE_LIMIT_TTL_SECONDS" ttl.toNat)
    return ⟨perSecond,burst,issuer,issuerBurst,ttl,jitter⟩) := by
  simp only [rateLimits,bind,pure,check,List.append_nil,List.append_assoc]

/-- The text that stands in for an unset per-issuer burst. -/
theorem issuerBurst_default {raw : String} {issuer : UInt32} (h : u32.parse raw = some issuer) :
    u32.parse (toString (min (((u32.parse raw).getD 10).toNat*2) (2^32-1))) =
      some (UInt32.ofNat (min (issuer.toNat*2) (2^32-1))) := by
  rw [h,Option.getD_some]
  exact u32_parse_toString (by omega)

theorem rateLimits_ok_iff {env : Env} {cfg : RateLimits} :
    rateLimits env = (cfg,[]) ↔ RateLimitsDocumented env cfg := by
  rw [rateLimits_eq]
  simp only [Checked.bind_ok,Checked.pure_ok,positive_ok,number_ok,check_ok]
  constructor
  · intro h
    obtain ⟨perSecond,⟨hps,hpos⟩,burst,hburst,_,_,_,hge,issuer,⟨hissuer,hipos⟩,issuerBurst,
      ⟨hib,_⟩,_,hige,_,hle,ttl,⟨httl,htpos⟩,jitter,hjitter,_,hlt,rfl⟩ := h
    simp only [decide_eq_false_iff_not,gt_iff_lt,ge_iff_le,UInt64.not_le,Nat.not_lt,
      UInt64.lt_iff_toNat_lt,UInt32.lt_iff_toNat_lt] at *
    exact
      { perSecond := (reads_iff (by decide +kernel)).mp hps
        perSecond_pos := hpos
        burst := (reads_iff hps).mp hburst
        burst_ge := hge
        issuerPerSecond := (reads_iff (by decide +kernel)).mp hissuer
        issuerPerSecond_pos := hipos
        issuerPerSecond_le := hle
        issuerBurst := (reads_iff (issuerBurst_default hissuer)).mp hib
        issuerBurst_ge := hige
        ttl := (reads_iff (by decide +kernel)).mp httl
        ttl_pos := htpos
        jitter := (reads_iff (by decide +kernel)).mp hjitter
        jitter_lt := hlt }
  · intro h
    have hps : u32.parse (getEnvOrDefault env "RATE_LIMIT_PER_SECOND" "100") =
        some cfg.rateLimitPerSecond := (reads_iff (by decide +kernel)).mpr h.perSecond
    have hissuer : u32.parse (getEnvOrDefault env "PER_ISSUER_RATE_LIMIT_PER_SECOND" "10") =
        some cfg.perIssuerRateLimitPerSecond :=
      (reads_iff (by decide +kernel)).mpr h.issuerPerSecond
    have hpos := h.perSecond_pos
    have hge := h.burst_ge
    have hipos := h.issuerPerSecond_pos
    have hige := h.issuerBurst_ge
    refine ⟨_,⟨hps,?_⟩,_,(reads_iff hps).mpr h.burst,(),?_,(),?_,_,⟨hissuer,?_⟩,_,
      ⟨(reads_iff (issuerBurst_default hissuer)).mpr h.issuerBurst,?_⟩,(),?_,(),?_,_,
      ⟨(reads_iff (by decide +kernel)).mpr h.ttl,?_⟩,_,
      (reads_iff (by decide +kernel)).mpr h.jitter,(),?_,rfl⟩
    · exact UInt32.lt_iff_toNat_lt.mpr hpos
    · simp only [beq_eq_false_iff_ne,ne_eq,← UInt32.toNat_inj,UInt32.toNat_zero]
      omega
    · simpa [UInt32.le_iff_toNat_le] using hge
    · exact UInt32.lt_iff_toNat_lt.mpr hipos
    · exact UInt32.lt_iff_toNat_lt.mpr (Nat.lt_of_lt_of_le hipos hige)
    · simpa [UInt32.le_iff_toNat_le] using hige
    · simpa [UInt32.le_iff_toNat_le] using h.issuerPerSecond_le
    · exact UInt64.lt_iff_toNat_lt.mpr h.ttl_pos
    · simpa [UInt64.lt_iff_toNat_lt] using h.jitter_lt

section
variable {parsers : Parsers} {env : Env}

theorem delay_ok {field raw : String} {fallback v : UInt64} :
    delay field raw fallback = (v,[]) ↔ u64.parse raw = some v ∧ Millis v := duration_ok

def readBool (parsers : Parsers) (raw : String) : Option Bool := parseBool (lower parsers raw)

theorem boolean_ok {field raw : String} {b : Bool} :
    boolean parsers field raw = (b,[]) ↔ readBool parsers raw = some b := by
  rw [boolean,readBool]
  cases parseBool (lower parsers raw) <;> simp

def readJitterType (parsers : Parsers) (raw : String) : Option String :=
  if isJitterType (lower parsers raw) then some raw else none

theorem jitterType_ok {raw v : String} :
    jitterType parsers raw = (v,[]) ↔ readJitterType parsers raw = some v := by
  rw [jitterType,readJitterType]
  cases isJitterType (lower parsers raw) <;> simp

/-- A backend in any case and by either of its names. -/
def readBackend (parsers : Parsers) (raw : String) : Option String :=
  parseBackend (lower parsers raw)

theorem cacheBackend_ok {raw v : String} :
    cacheBackend parsers raw = (v,[]) ↔ readBackend parsers raw = some v := by
  rw [cacheBackend,readBackend]
  cases parseBackend (lower parsers raw) <;> simp

theorem webhookUrls_ok {raw : String} {urls : List String} :
    webhookUrls parsers raw = (urls,[]) ↔
      splitUrls raw = urls ∧ ∀ url∈urls, isHttpUrl parsers url = true := by
  have hrule (url text : String) : rule (!isHttpUrl parsers url) text = [] ↔
      isHttpUrl parsers url = true := by
    cases isHttpUrl parsers url <;> simp [rule]
  simp only [webhookUrls,Prod.mk.injEq,List.flatMap_eq_nil_iff,hrule]
  exact and_congr_right fun heq => by rw [heq]

end

structure StellarDocumented (parsers : Parsers) (env : Env) (s : StellarSettings) : Prop where
  maxRetries : Reads env "STELLAR_MAX_RETRIES" u32.parse 3 s.stellarMaxRetries
  baseDelay : Reads env "STELLAR_RETRY_BASE_DELAY_MS" u64.parse 100 s.stellarRetryBaseDelayMs
  baseDelay_millis : Millis s.stellarRetryBaseDelayMs
  maxDelay : Reads env "STELLAR_RETRY_MAX_DELAY_MS" u64.parse 10000 s.stellarRetryMaxDelayMs
  maxDelay_millis : Millis s.stellarRetryMaxDelayMs
  jitter : Reads env "STELLAR_RETRY_JITTER" (readBool parsers) true s.stellarRetryJitterEnabled
  timeout : Reads env "STELLAR_REQUEST_TIMEOUT_MS" u64.parse 10000 s.stellarRequestTimeoutMs
  timeout_millis : Millis s.stellarRequestTimeoutMs
  threshold : Reads env "STELLAR_CIRCUIT_BREAKER_FAILURE_THRESHOLD" u32.parse 5
    s.stellarCircuitBreakerFailureThreshold
  threshold_pos : 1 ≤ s.stellarCircuitBreakerFailureThreshold.toNat
  openDuration : Reads env "STELLAR_CIRCUIT_BREAKER_OPEN_DURATION_MS" u64.parse 30000
    s.stellarCircuitBreakerOpenDurationMs
  openDuration_millis : Millis s.stellarCircuitBreakerOpenDurationMs
  halfOpen : Reads env "STELLAR_CIRCUIT_BREAKER_HALF_OPEN_MAX_CALLS" u32.parse 1
    s.stellarCircuitBreakerHalfOpenMaxCalls
  halfOpen_pos : 1 ≤ s.stellarCircuitBreakerHalfOpenMaxCalls.toNat
  jitterType : Reads env "STELLAR_RETRY_JITTER_TYPE" (readJitterType parsers) "full"
    s.stellarRetryJitterType
  maxConcurrent : Reads env "STELLAR_BULKHEAD_MAX_CONCURRENT" u32.parse 10
    s.stellarBulkheadMaxConcurrent
  maxConcurrent_pos : 1 ≤ s.stellarBulkheadMaxConcurrent.toNat
  maxQueue : Reads env "STELLAR_BULKHEAD_MAX_QUEUE" u32.parse 100 s.stellarBulkheadMaxQueue
  maxQueue_pos : 1 ≤ s.stellarBulkheadMaxQueue.toNat

theorem stellarSettings_ok_iff {parsers : Parsers} {env : Env} {s : StellarSettings} :
    stellarSettings parsers env = (s,[]) ↔ StellarDocumented parsers env s := by
  have htrue : readBool parsers "true" = some true := rfl
  have hfull : readJitterType parsers "full" = some "full" := rfl
  simp only [stellarSettings,Checked.bind_ok,Checked.pure_ok,number_ok,delay_ok,boolean_ok,
    positive_ok,jitterType_ok,gt_iff_lt,UInt32.lt_iff_toNat_lt]
  constructor
  · intro h
    obtain ⟨_,hretries,_,⟨hbase,hbase'⟩,_,⟨hmax,hmax'⟩,_,hjitter,_,⟨htimeout,htimeout'⟩,_,
      ⟨hthreshold,hthreshold'⟩,_,⟨hopen,hopen'⟩,_,⟨hhalf,hhalf'⟩,_,htype,_,⟨hconc,hconc'⟩,_,
      ⟨hqueue,hqueue'⟩,rfl⟩ := h
    exact
      { maxRetries := (reads_iff (by decide +kernel)).mp hretries
        baseDelay := (reads_iff (by decide +kernel)).mp hbase
        baseDelay_millis := hbase'
        maxDelay := (reads_iff (by decide +kernel)).mp hmax
        maxDelay_millis := hmax'
        jitter := (reads_iff htrue).mp hjitter
        timeout := (reads_iff (by decide +kernel)).mp htimeout
        timeout_millis := htimeout'
        threshold := (reads_iff (by decide +kernel)).mp hthreshold
        threshold_pos := hthreshold'
        openDuration := (reads_iff (by decide +kernel)).mp hopen
        openDuration_millis := hopen'
        halfOpen := (reads_iff (by decide +kernel)).mp hhalf
        halfOpen_pos := hhalf'
        jitterType := (reads_iff hfull).mp htype
        maxConcurrent := (reads_iff (by decide +kernel)).mp hconc
        maxConcurrent_pos := hconc'
        maxQueue := (reads_iff (by decide +kernel)).mp hqueue
        maxQueue_pos := hqueue' }
  · intro h
    exact ⟨_,(reads_iff (by decide +kernel)).mpr h.maxRetries,_,
      ⟨(reads_iff (by decide +kernel)).mpr h.baseDelay,h.baseDelay_millis⟩,_,
      ⟨(reads_iff (by decide +kernel)).mpr h.maxDelay,h.maxDelay_millis⟩,_,
      (reads_iff htrue).mpr h.jitter,_,
      ⟨(reads_iff (by decide +kernel)).mpr h.timeout,h.timeout_millis⟩,_,
      ⟨(reads_iff (by decide +kernel)).mpr h.threshold,h.threshold_pos⟩,_,
      ⟨(reads_iff (by decide +kernel)).mpr h.openDuration,h.openDuration_millis⟩,_,
      ⟨(reads_iff (by decide +kernel)).mpr h.halfOpen,h.halfOpen_pos⟩,_,
      (reads_iff hfull).mpr h.jitterType,_,
      ⟨(reads_iff (by decide +kernel)).mpr h.maxConcurrent,h.maxConcurrent_pos⟩,_,
      ⟨(reads_iff (by decide +kernel)).mpr h.maxQueue,h.maxQueue_pos⟩,rfl⟩

structure WebhookDocumented (parsers : Parsers) (env : Env) (w : WebhookSettings) : Prop where
  maxRetries : Reads env "WEBHOOK_MAX_RETRIES" u32.parse 5 w.webhookMaxRetries
  baseDelay : Reads env "WEBHOOK_RETRY_BASE_DELAY_MS" u64.parse 200 w.webhookRetryBaseDelayMs
  baseDelay_millis : Millis w.webhookRetryBaseDelayMs
  maxDelay : Reads env "WEBHOOK_RETRY_MAX_DELAY_MS" u64.parse 30000 w.webhookRetryMaxDelayMs
  maxDelay_millis : Millis w.webhookRetryMaxDelayMs
  delays : w.webhookRetryBaseDelayMs.toNat ≤ w.webhookRetryMaxDelayMs.toNat
  timeout : Reads env "WEBHOOK_REQUEST_TIMEOUT_MS" u64.parse 10000 w.webhookRequestTimeoutMs
  timeout_millis : Millis w.webhookRequestTimeoutMs
  jitter : Reads env "WEBHOOK_JITTER_ENABLED" (readBool parsers) true w.webhookJitterEnabled
  urls : w.webhookUrls = splitUrls (getEnvOrDefault env "WEBHOOK_URLS" "")
  urls_valid : ∀ url∈w.webhookUrls, isHttpUrl parsers url = true

theorem webhookSettings_ok_iff {parsers : Parsers} {env : Env} {w : WebhookSettings} :
    webhookSettings parsers env = (w,[]) ↔ WebhookDocumented parsers env w := by
  have htrue : readBool parsers "true" = some true := rfl
  simp only [webhookSettings,Checked.bind_ok,Checked.pure_ok,number_ok,delay_ok,boolean_ok,
    check_ok,webhookUrls_ok,decide_eq_false_iff_not,UInt64.not_lt,UInt64.le_iff_toNat_le]
  constructor
  · intro h
    obtain ⟨_,hretries,_,⟨hbase,hbase'⟩,_,⟨hmax,hmax'⟩,_,⟨htimeout,htimeout'⟩,_,hjitter,_,hdelays,
      _,⟨hurls,hurls'⟩,rfl⟩ := h
    exact
      { maxRetries := (reads_iff (by decide +kernel)).mp hretries
        baseDelay := (reads_iff (by decide +kernel)).mp hbase
        baseDelay_millis := hbase'
        maxDelay := (reads_iff (by decide +kernel)).mp hmax
        maxDelay_millis := hmax'
        delays := hdelays
        timeout := (reads_iff (by decide +kernel)).mp htimeout
        timeout_millis := htimeout'
        jitter := (reads_iff htrue).mp hjitter
        urls := hurls.symm
        urls_valid := hurls' }
  · intro h
    exact ⟨_,(reads_iff (by decide +kernel)).mpr h.maxRetries,_,
      ⟨(reads_iff (by decide +kernel)).mpr h.baseDelay,h.baseDelay_millis⟩,_,
      ⟨(reads_iff (by decide +kernel)).mpr h.maxDelay,h.maxDelay_millis⟩,_,
      ⟨(reads_iff (by decide +kernel)).mpr h.timeout,h.timeout_millis⟩,_,
      (reads_iff htrue).mpr h.jitter,(),h.delays,_,⟨h.urls.symm,h.urls_valid⟩,rfl⟩

structure BreakerDocumented (env : Env) (b : CacheCircuitBreakerConfig) : Prop where
  threshold : Reads env "CACHE_CIRCUIT_BREAKER_FAILURE_THRESHOLD" u32.parse 5 b.failureThreshold
  threshold_pos : 1 ≤ b.failureThreshold.toNat
  openDuration : Reads env "CACHE_CIRCUIT_BREAKER_OPEN_DURATION_MS" u64.parse 30000
    b.openDurationMs
  openDuration_millis : Millis b.openDurationMs
  halfOpen : Reads env "CACHE_CIRCUIT_BREAKER_HALF_OPEN_MAX_CALLS" u32.parse 1 b.halfOpenMaxCalls
  halfOpen_pos : 1 ≤ b.halfOpenMaxCalls.toNat
  base : Reads env "CACHE_CIRCUIT_BREAKER_BACKOFF_BASE_MS" u64.parse 100 b.backoffBaseMs
  base_millis : Millis b.backoffBaseMs
  max : Reads env "CACHE_CIRCUIT_BREAKER_BACKOFF_MAX_MS" u64.parse 30000 b.backoffMaxMs
  max_millis : Millis b.backoffMaxMs

theorem cacheCircuitBreaker_eq (env : Env) : cacheCircuitBreaker env = (do
    let failureThreshold ← positive u32 "CACHE_CIRCUIT_BREAKER_FAILURE_THRESHOLD"
      (getEnvOrDefault env "CACHE_CIRCUIT_BREAKER_FAILURE_THRESHOLD" "5") 5
    let openDurationMs ← delay "CACHE_CIRCUIT_BREAKER_OPEN_DURATION_MS"
      (getEnvOrDefault env "CACHE_CIRCUIT_BREAKER_OPEN_DURATION_MS" "30000") 30000
    let halfOpenMaxCalls ← positive u32 "CACHE_CIRCUIT_BREAKER_HALF_OPEN_MAX_CALLS"
      (getEnvOrDefault env "CACHE_CIRCUIT_BREAKER_HALF_OPEN_MAX_CALLS" "1") 1
    let backoffBaseMs ← backoff "CACHE_CIRCUIT_BREAKER_BACKOFF_BASE_MS"
      (getEnvOrDefault env "CACHE_CIRCUIT_BREAKER_BACKOFF_BASE_MS" "100") 100
    let backoffMaxMs ← backoff "CACHE_CIRCUIT_BREAKER_BACKOFF_MAX_MS"
      (getEnvOrDefault env "CACHE_CIRCUIT_BREAKER_BACKOFF_MAX_MS" "30000") 30000
    return ⟨failureThreshold,openDurationMs,halfOpenMaxCalls,backoffBaseMs,backoffMaxMs⟩) := by
  simp only [cacheCircuitBreaker,delay,bind,pure,List.append_nil,List.append_assoc]

theorem cacheCircuitBreaker_ok_iff {env : Env} {b : CacheCircuitBreakerConfig} :
    cacheCircuitBreaker env = (b,[]) ↔ BreakerDocumented env b := by
  rw [cacheCircuitBreaker_eq]
  simp only [Checked.bind_ok,Checked.pure_ok,positive_ok,delay_ok,backoff,duration_ok,gt_iff_lt,
    UInt32.lt_iff_toNat_lt]
  constructor
  · intro h
    obtain ⟨_,⟨hthreshold,hthreshold'⟩,_,⟨hopen,hopen'⟩,_,⟨hhalf,hhalf'⟩,_,⟨hbase,hbase'⟩,_,
      ⟨hmax,hmax'⟩,rfl⟩ := h
    exact
      { threshold := (reads_iff (by decide +kernel)).mp hthreshold
        threshold_pos := hthreshold'
        openDuration := (reads_iff (by decide +kernel)).mp hopen
        openDuration_millis := hopen'
        halfOpen := (reads_iff (by decide +kernel)).mp hhalf
        halfOpen_pos := hhalf'
        base := (reads_iff (by decide +kernel)).mp hbase
        base_millis := hbase'
        max := (reads_iff (by decide +kernel)).mp hmax
        max_millis := hmax' }
  · intro h
    exact ⟨_,⟨(reads_iff (by decide +kernel)).mpr h.threshold,h.threshold_pos⟩,_,
      ⟨(reads_iff (by decide +kernel)).mpr h.openDuration,h.openDuration_millis⟩,_,
      ⟨(reads_iff (by decide +kernel)).mpr h.halfOpen,h.halfOpen_pos⟩,_,
      ⟨(reads_iff (by decide +kernel)).mpr h.base,h.base_millis⟩,_,
      ⟨(reads_iff (by decide +kernel)).mpr h.max,h.max_millis⟩,rfl⟩

structure CacheDocumented (parsers : Parsers) (env : Env) (c : CacheSettings) : Prop where
  verificationTtl : Reads env "CACHE_VERIFICATION_TTL" u64.parse 3600 c.cacheVerificationTtl
  backend : Reads env "CACHE_BACKEND" (readBackend parsers) "inmemory" c.cacheBackend
  maxSize : Reads env "CACHE_MAX_SIZE" usize.parse 10000 c.cacheMaxSize
  configTtl : Reads env "CACHE_CONFIG_TTL" u64.parse 3600 c.cacheConfigTtl
  eventsTtl : Reads env "CACHE_EVENTS_TTL" u64.parse 1800 c.cacheEventsTtl
  breaker : BreakerDocumented env c.cacheCircuitBreaker
  maxConcurrent : Reads env "CACHE_BULKHEAD_MAX_CONCURRENT" u32.parse 20
    c.cacheBulkheadMaxConcurrent
  maxConcurrent_pos : 1 ≤ c.cacheBulkheadMaxConcurrent.toNat
  maxQueue : Reads env "CACHE_BULKHEAD_MAX_QUEUE" u32.parse 200 c.cacheBulkheadMaxQueue
  maxQueue_pos : 1 ≤ c.cacheBulkheadMaxQueue.toNat

theorem cacheSettings_ok_iff {parsers : Parsers} {env : Env} {c : CacheSettings} :
    cacheSettings parsers env = (c,[]) ↔ CacheDocumented parsers env c := by
  have hmemory : readBackend parsers "inmemory" = some "inmemory" := rfl
  simp only [cacheSettings,Checked.bind_ok,Checked.pure_ok,number_ok,cacheBackend_ok,positive_ok,
    cacheCircuitBreaker_ok_iff,gt_iff_lt,UInt32.lt_iff_toNat_lt]
  constructor
  · intro h
    obtain ⟨_,httl,_,hbackend,_,hsize,_,hconfig,_,hevents,_,hbreaker,_,⟨hconc,hconc'⟩,_,
      ⟨hqueue,hqueue'⟩,rfl⟩ := h
    exact
      { verificationTtl := (reads_iff (by decide +kernel)).mp httl
        backend := (reads_iff hmemory).mp hbackend
        maxSize := (reads_iff (by decide +kernel)).mp hsize
        configTtl := (reads_iff (by decide +kernel)).mp hconfig
        eventsTtl := (reads_iff (by decide +kernel)).mp hevents
        breaker := hbreaker
        maxConcurrent := (reads_iff (by decide +kernel)).mp hconc
        maxConcurrent_pos := hconc'
        maxQueue := (reads_iff (by decide +kernel)).mp hqueue
        maxQueue_pos := hqueue' }
  · intro h
    exact ⟨_,(reads_iff (by decide +kernel)).mpr h.verificationTtl,_,
      (reads_iff hmemory).mpr h.backend,_,(reads_iff (by decide +kernel)).mpr h.maxSize,_,
      (reads_iff (by decide +kernel)).mpr h.configTtl,_,
      (reads_iff (by decide +kernel)).mpr h.eventsTtl,_,h.breaker,_,
      ⟨(reads_iff (by decide +kernel)).mpr h.maxConcurrent,h.maxConcurrent_pos⟩,_,
      ⟨(reads_iff (by decide +kernel)).mpr h.maxQueue,h.maxQueue_pos⟩,rfl⟩

/-- The documented constraints on the raw values, with the field that each variable fills. -/
structure Documented (parsers : Parsers) (env : Env) (cfg : AppConfig) : Prop where
  secretKey : ∃ key, env "STELLAR_SECRET_KEY" = some key ∧ parsers.isSecretKey key = true ∧
    cfg.stellarSecretKey = some key
  port : Reads env "PORT" u16.parse 8080 cfg.port
  port_pos : 1 ≤ cfg.port.toNat
  horizonUrl : cfg.stellarHorizonUrl =
    getEnvOrDefault env "STELLAR_HORIZON_URL" "https://horizon-testnet.stellar.org"
  horizonUrl_valid : isHttpUrl parsers cfg.stellarHorizonUrl = true
  redisUrl : cfg.redisUrl = getEnvOrDefault env "REDIS_URL" "redis://127.0.0.1:6379"
  redisUrl_valid : isRedisUrl parsers cfg.redisUrl = true
  limits : RateLimitsDocumented env cfg.toRateLimits
  stellar : StellarDocumented parsers env cfg.toStellarSettings
  stellarDelays : cfg.stellarRetryBaseDelayMs.toNat ≤ cfg.stellarRetryMaxDelayMs.toNat
  cache : CacheDocumented parsers env cfg.toCacheSettings
  logLevel : cfg.logLevel = getEnvOrDefault env "LOG_LEVEL" "info"
  logLevel_valid : isLogLevel (lower parsers cfg.logLevel) = true
  webhook : WebhookDocumented parsers env cfg.toWebhookSettings
  webhookSecret : cfg.webhookSecret = env "WEBHOOK_SECRET"

theorem stellarSecretKey_ok {parsers : Parsers} {env : Env} {k : Option String} :
    stellarSecretKey parsers env = (k,[]) ↔
      ∃ key, env "STELLAR_SECRET_KEY" = some key ∧ parsers.isSecretKey key = true ∧
        k = some key := by
  rw [stellarSecretKey]
  cases env "STELLAR_SECRET_KEY" with
  | none => simp
  | some key =>
    cases hkey : parsers.isSecretKey key with
    | false => simp [rule,hkey]
    | true => simpa [rule,hkey] using eq_comm

theorem port_ok {env : Env} {p : UInt16} :
    port env = (p,[]) ↔ u16.parse (getEnvOrDefault env "PORT" "8080") = some p ∧ 1 ≤ p.toNat := by
  have hvalid (q : UInt16) : validatedPort q = .ok q ∧ 1 ≤ q.toNat ∨
      (∃ e, validatedPort q = .error e) ∧ ¬1 ≤ q.toNat := by
    have hmax : ¬q > PORT_MAX := UInt16.not_lt.mpr (UInt16.le_iff_toNat_le.mpr
      (Nat.le_of_lt_succ q.toNat_lt))
    rw [validatedPort]
    by_cases hmin : q < PORT_MIN
    · rw [if_pos hmin]
      have hlt : q.toNat < 1 := UInt16.lt_iff_toNat_lt.mp hmin
      exact Or.inr ⟨⟨_,rfl⟩,by omega⟩
    · rw [if_neg hmin,if_neg hmax]
      exact Or.inl ⟨rfl,UInt16.le_iff_toNat_le.mp (UInt16.not_lt.mp hmin)⟩
  simp only [port]
  cases u16.parse (getEnvOrDefault env "PORT" "8080") with
  | none => simp
  | some q =>
    obtain ⟨hok,hpos⟩ | ⟨⟨e,herror⟩,hneg⟩ := hvalid q
    · simp only [hok,Prod.mk.injEq,and_true,Option.some.injEq]
      exact ⟨fun h => ⟨h,h ▸ hpos⟩,fun h => h.1⟩
    · simp only [herror,Prod.mk.injEq,List.cons_ne_nil,and_false,Option.some.injEq,false_iff]
      exact fun h => hneg (h.1 ▸ h.2)

theorem fromEnv_eq_ok {parsers : Parsers} {env : Env} {cfg : AppConfig} :
    fromEnv parsers env = .ok cfg ↔ load parsers env = (cfg,[]) := by
  rw [fromEnv]
  obtain ⟨config,errors⟩ := load parsers env
  cases errors <;> simp

theorem load_ok_iff {parsers : Parsers} {env : Env} {cfg : AppConfig} :
    load parsers env = (cfg,[]) ↔ Documented parsers env cfg := by
  simp only [load,Checked.bind_ok,Checked.pure_ok,stellarSecretKey_ok,port_ok,check_ok,
    rateLimits_ok_iff,stellarSettings_ok_iff,cacheSettings_ok_iff,webhookSettings_ok_iff,
    Bool.not_eq_false',decide_eq_false_iff_not,UInt64.not_lt,UInt64.le_iff_toNat_le]
  constructor
  · intro h
    obtain ⟨_,hkey,_,⟨hport,hport'⟩,_,hhorizon,_,hredis,_,hlimits,_,hstellar,_,hcache,_,hlevel,_,
      hdelays,_,hwebhook,rfl⟩ := h
    exact
      { secretKey := hkey
        port := (reads_iff (by decide +kernel)).mp hport
        port_pos := hport'
        horizonUrl := rfl
        horizonUrl_valid := hhorizon
        redisUrl := rfl
        redisUrl_valid := hredis
        limits := hlimits
        stellar := hstellar
        stellarDelays := hdelays
        cache := hcache
        logLevel := rfl
        logLevel_valid := hlevel
        webhook := hwebhook
        webhookSecret := rfl }
  · intro h
    refine ⟨_,h.secretKey,_,⟨(reads_iff (by decide +kernel)).mpr h.port,h.port_pos⟩,(),
      h.horizonUrl ▸ h.horizonUrl_valid,(),h.redisUrl ▸ h.redisUrl_valid,_,h.limits,_,h.stellar,_,
      h.cache,(),h.logLevel ▸ h.logLevel_valid,(),h.stellarDelays,_,h.webhook,?_⟩
    rw [← h.horizonUrl,← h.redisUrl,← h.logLevel,← h.webhookSecret]

theorem documented_of_ok {parsers : Parsers} {env : Env} {cfg : AppConfig}
    (h : fromEnv parsers env = .ok cfg) : Documented parsers env cfg :=
  load_ok_iff.mp (fromEnv_eq_ok.mp h)

/-- A configuration comes out of the environment exactly if the documented constraints hold of
the raw values, and then every field is what its variable says or the documented default. -/
theorem from_env_ok_iff (parsers : Parsers) (env : Env) (cfg : AppConfig) :
    fromEnv parsers env = .ok cfg ↔ Documented parsers env cfg := by
  rw [fromEnv_eq_ok,load_ok_iff]

def VALID_KEY : String := "SBU2RRGLXH3E5CQHTD3ODLDF2BWDCYUSSBLLZ5GNW7JXHDIYKXZWHOKR"

/-- The crates as they answer on this key, on URLs with a scheme and a host, and on ASCII. -/
def Parsers.sample : Parsers where
  urlScheme s :=
    match s.toList.dropWhile (· ≠ ':') with
    | ':' :: '/' :: '/' :: _ => some (String.ofList (s.toList.takeWhile (· ≠ ':')))
    | _ => none
  isSecretKey s := s = VALID_KEY
  lowercase := ⟨fun _ c _ => [c],by simp⟩

def sampleEnv (vars : List (String × String)) : Env :=
  fun name => (("STELLAR_SECRET_KEY",VALID_KEY)::vars).lookup name

theorem fromEnv_of_load {parsers : Parsers} {env : Env} (h : (load parsers env).2 = []) :
    fromEnv parsers env = .ok (load parsers env).1 :=
  fromEnv_eq_ok.mpr (Prod.ext rfl h)

/-- A per-issuer rate beyond half of `u32::MAX` with no burst of its own: the documented default of
twice the rate would be 4294967296. -/
theorem issuer_burst_default_capped :
    let env := sampleEnv [("RATE_LIMIT_PER_SECOND","2147483648"),
      ("PER_ISSUER_RATE_LIMIT_PER_SECOND","2147483648")]
    ∃ cfg, fromEnv .sample env = .ok cfg ∧ env "PER_ISSUER_RATE_LIMIT_BURST" = none ∧
      cfg.perIssuerRateLimitPerSecond.toNat = 2147483648 ∧
      cfg.perIssuerRateLimitBurst.toNat = 4294967295 ∧
      cfg.perIssuerRateLimitBurst.toNat≠2*cfg.perIssuerRateLimitPerSecond.toNat := by
  intro env
  exact ⟨(load .sample env).1,fromEnv_of_load (by decide +kernel),by decide +kernel,
    by decide +kernel,by decide +kernel,by decide +kernel⟩

end ProofStell.Config
