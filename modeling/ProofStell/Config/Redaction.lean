import ProofStell.Config.AppConfig

/-! The two secrets of the configuration: `Debug` prints neither, and nothing that `from_env` says
depends on more of them than whether the Stellar key is well formed. -/
namespace ProofStell.Config

section
variable (quote : String → String)

/-- `Debug` of an optional text that is replaced; `quote` is `Debug` of a text. -/
def redacted : Option String → String
  | some _ => "Some("++quote "<redacted>"++")"
  | none => "None"

def debugFields (c : AppConfig) : List (String × String) :=
  [("port",toString c.port.toNat),("stellar_horizon_url",quote c.stellarHorizonUrl),
    ("stellar_secret_key",redacted quote c.stellarSecretKey),("redis_url",quote c.redisUrl),
    ("rate_limit_per_second",toString c.rateLimitPerSecond.toNat),
    ("rate_limit_burst",toString c.rateLimitBurst.toNat),
    ("per_issuer_rate_limit_per_second",toString c.perIssuerRateLimitPerSecond.toNat),
    ("per_issuer_rate_limit_burst",toString c.perIssuerRateLimitBurst.toNat),
    ("issuer_rate_limit_ttl_seconds",toString c.issuerRateLimitTtlSeconds.toNat),
    ("per_issuer_rate_limit_jitter_seconds",toString c.perIssuerRateLimitJitterSeconds.toNat),
    ("stellar_max_retries",toString c.stellarMaxRetries.toNat),
    ("stellar_retry_base_delay_ms",toString c.stellarRetryBaseDelayMs.toNat),
    ("stellar_retry_max_delay_ms",toString c.stellarRetryMaxDelayMs.toNat),
    ("stellar_retry_jitter_enabled",toString c.stellarRetryJitterEnabled),
    ("stellar_request_timeout_ms",toString c.stellarRequestTimeoutMs.toNat),
    ("stellar_circuit_breaker_failure_threshold",
      toString c.stellarCircuitBreakerFailureThreshold.toNat),
    ("stellar_circuit_breaker_open_duration_ms",
      toString c.stellarCircuitBreakerOpenDurationMs.toNat),
    ("stellar_circuit_breaker_half_open_max_calls",
      toString c.stellarCircuitBreakerHalfOpenMaxCalls.toNat),
    ("stellar_retry_jitter_type",quote c.stellarRetryJitterType),
    ("stellar_bulkhead_max_concurrent",toString c.stellarBulkheadMaxConcurrent.toNat),
    ("stellar_bulkhead_max_queue",toString c.stellarBulkheadMaxQueue.toNat),
    ("log_level",quote c.logLevel),
    ("webhook_urls","["++", ".intercalate (c.webhookUrls.map quote)++"]"),
    ("webhook_secret",redacted quote c.webhookSecret),
    ("webhook_max_retries",toString c.webhookMaxRetries.toNat),
    ("webhook_retry_base_delay_ms",toString c.webhookRetryBaseDelayMs.toNat),
    ("webhook_retry_max_delay_ms",toString c.webhookRetryMaxDelayMs.toNat),
    ("webhook_request_timeout_ms",toString c.webhookRequestTimeoutMs.toNat),
    ("webhook_jitter_enabled",toString c.webhookJitterEnabled),
    ("cache_verification_ttl",toString c.cacheVerificationTtl.toNat),
    ("cache_backend",quote c.cacheBackend),("cache_max_size",toString c.cacheMaxSize.toNat),
    ("cache_config_ttl",toString c.cacheConfigTtl.toNat),
    ("cache_events_ttl",toString c.cacheEventsTtl.toNat),
    ("cache_circuit_breaker_failure_threshold",
      toString c.cacheCircuitBreaker.failureThreshold.toNat),
    ("cache_circuit_breaker_open_duration_ms",
      toString c.cacheCircuitBreaker.openDurationMs.toNat),
    ("cache_circuit_breaker_half_open_max_calls",
      toString c.cacheCircuitBreaker.halfOpenMaxCalls.toNat),
    ("cache_circuit_breaker_backoff_base_ms",
      toString c.cacheCircuitBreaker.backoffBaseMs.toNat),
    ("cache_circuit_breaker_backoff_max_ms",toString c.cacheCircuitBreaker.backoffMaxMs.toNat),
    ("cache_bulkhead_max_concurrent",toString c.cacheBulkheadMaxConcurrent.toNat),
    ("cache_bulkhead_max_queue",toString c.cacheBulkheadMaxQueue.toNat)]

def debug (c : AppConfig) : String :=
  "AppConfig \x7b "++", ".intercalate ((debugFields quote c).map fun f => f.1++": "++f.2)++" \x7d"

end

def AppConfig.withoutSecrets (c : AppConfig) : AppConfig :=
  { c with stellarSecretKey := none, webhookSecret := none }

/-- `Debug` tells no more of a secret than whether it is set. -/
theorem debug_eq (quote : String → String) {c c' : AppConfig}
    (h : c.withoutSecrets = c'.withoutSecrets)
    (hkey : c.stellarSecretKey.isSome = c'.stellarSecretKey.isSome)
    (hsecret : c.webhookSecret.isSome = c'.webhookSecret.isSome) : debug quote c = debug quote c' := by
  have redacted_eq {o o' : Option String} (ho : o.isSome = o'.isSome) :
      redacted quote o = redacted quote o' := by
    cases o with
    | none =>
      cases o' with
      | none => rfl
      | some _ => cases ho
    | some _ =>
      cases o' with
      | none => cases ho
      | some _ => rfl
  have hfields (c : AppConfig) : debugFields quote c =
      (debugFields quote c.withoutSecrets).map fun f =>
        if f.1 = "stellar_secret_key" then (f.1,redacted quote c.stellarSecretKey)
        else if f.1 = "webhook_secret" then (f.1,redacted quote c.webhookSecret) else f := by
    simp [debugFields,AppConfig.withoutSecrets]
  rw [debug,debug,hfields c,hfields c',h,redacted_eq hkey,redacted_eq hsecret]

structure SameButSecrets (parsers : Parsers) (env env' : Env) : Prop where
  others : ∀ name, name≠"STELLAR_SECRET_KEY" → name≠"WEBHOOK_SECRET" → env name = env' name
  key : (env "STELLAR_SECRET_KEY").map parsers.isSecretKey =
    ( env' "STELLAR_SECRET_KEY").map parsers.isSecretKey

section
variable {parsers : Parsers} {env env' : Env} (h : SameButSecrets parsers env env')
include h

theorem SameButSecrets.get {name : String} (hkey : name≠"STELLAR_SECRET_KEY")
    (hsecret : name≠"WEBHOOK_SECRET") (default : String) :
    getEnvOrDefault env name default = getEnvOrDefault env' name default := by
  rw [getEnvOrDefault,getEnvOrDefault,h.others name hkey hsecret]

theorem SameButSecrets.keyErrors :
    (stellarSecretKey parsers env).2 = (stellarSecretKey parsers env').2 := by
  have hkey := h.key
  rw [stellarSecretKey,stellarSecretKey]
  cases henv : env "STELLAR_SECRET_KEY" with
  | none =>
    cases henv' : env' "STELLAR_SECRET_KEY" with
    | none => rfl
    | some _ => simp [henv,henv'] at hkey
  | some key =>
    cases henv' : env' "STELLAR_SECRET_KEY" with
    | none => simp [henv,henv'] at hkey
    | some key' =>
      rw [henv,henv',Option.map_some,Option.map_some] at hkey
      simp only [Option.some.inj hkey]

theorem SameButSecrets.load : (load parsers env).1.withoutSecrets =
      (load parsers env').1.withoutSecrets ∧
    (load parsers env).2 = (load parsers env').2 := by
  have hport : port env = port env' := by simp (disch := decide) only [port,h.get]
  have hlimits : rateLimits env = rateLimits env' := by
    simp (disch := decide) only [rateLimits,h.get]
  have hstellar : stellarSettings parsers env = stellarSettings parsers env' := by
    simp (disch := decide) only [stellarSettings,h.get]
  have hbreaker : cacheCircuitBreaker env = cacheCircuitBreaker env' := by
    simp (disch := decide) only [cacheCircuitBreaker,h.get]
  have hcache : cacheSettings parsers env = cacheSettings parsers env' := by
    simp (disch := decide) only [cacheSettings,h.get,hbreaker]
  have hwebhook : webhookSettings parsers env = webhookSettings parsers env' := by
    simp (disch := decide) only [webhookSettings,h.get]
  simp (disch := decide) only [Config.load,h.get,hport,hlimits,hstellar,hcache,hwebhook]
  exact ⟨rfl,congrArg (·++_) h.keyErrors⟩

/-- `from_env` accepts both or neither, and then with the same message. -/
theorem SameButSecrets.fromEnv :
    (∃ c c', Config.fromEnv parsers env = .ok c ∧ Config.fromEnv parsers env' = .ok c' ∧
        c.withoutSecrets = c'.withoutSecrets) ∨
      ∃ e, Config.fromEnv parsers env = .error e ∧ Config.fromEnv parsers env' = .error e := by
  obtain ⟨hconfig,herrors⟩ := h.load
  simp only [Config.fromEnv]
  generalize Config.load parsers env = x at hconfig herrors ⊢
  generalize Config.load parsers env' = y at hconfig herrors ⊢
  obtain ⟨c,errors⟩ := x
  obtain ⟨c',errors'⟩ := y
  obtain rfl : errors = errors' := herrors
  cases errors with
  | nil => exact Or.inl ⟨c,c',rfl,rfl,hconfig⟩
  | cons e errors => exact Or.inr ⟨_,rfl,rfl⟩

end

end ProofStell.Config
