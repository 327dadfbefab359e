import ProofStell.Config.CacheBreaker
import ProofStell.Hash.Bytes

/-! `AppConfig::from_env`: every variable is read, every violated rule adds a line to the errors,
and a configuration comes out only if there are none. -/
namespace ProofStell.Config
open Cache

section
variable {α β : Type}

instance : Monad Checked where
  pure a := (a,[])
  bind x f := ((f x.1).1,x.2++(f x.1).2)

theorem Checked.bind_ok {x : Checked α} {f : α → Checked β} {b : β} :
    (x >>= f) = (b,[]) ↔ ∃ a, x = (a,[]) ∧ f a = (b,[]) := by
  obtain ⟨a,e⟩ := x
  change ((f a).1,e++(f a).2) = (b,[]) ↔ _
  simp only [Prod.mk.injEq,List.append_eq_nil_iff]
  constructor
  · intro h
    obtain ⟨hb,he,herrors⟩ := h
    exact ⟨a,⟨rfl,he⟩,Prod.ext hb herrors⟩
  · intro h
    obtain ⟨_,⟨rfl,he⟩,hf⟩ := h
    rw [hf]
    exact ⟨rfl,he,rfl⟩

theorem Checked.pure_ok {a b : α} : (pure a : Checked α) = (b,[]) ↔ a = b := by
  change (a,[]) = (b,[]) ↔ _
  simp

end

def check (violated : Bool) (text : String) : Checked Unit := ((),rule violated text)

theorem check_ok {violated : Bool} {text : String} {u : Unit} :
    check violated text = (u,[]) ↔ violated = false := by
  cases violated <;> simp [check,rule]

theorem number_ok {n : Type} {ty : Unsigned n} {field raw : String} {fallback v : n} :
    number ty field raw fallback = (v,[]) ↔ ty.parse raw = some v := by
  rw [number]
  cases ty.parse raw <;> simp

theorem positive_ok {n : Type} [OfNat n 0] [LT n] [DecidableLT n] {ty : Unsigned n}
    {field raw : String} {fallback v : n} :
    positive ty field raw fallback = (v,[]) ↔ ty.parse raw = some v ∧ v > 0 := by
  rw [positive]
  cases ty.parse raw with
  | none => simp
  | some w =>
    by_cases hw : w > 0
    · simp only [hw,if_true,Prod.mk.injEq,and_true,Option.some.injEq]
      exact ⟨fun h => ⟨h,h ▸ hw⟩,fun h => h.1⟩
    · simp only [hw,if_false,Prod.mk.injEq,List.cons_ne_nil,and_false,Option.some.injEq,false_iff]
      exact fun h => hw (h.1 ▸ h.2)

def Millis (v : UInt64) : Prop := 1 ≤ v.toNat ∧ v.toNat ≤ 300000

theorem duration_ok {field raw : String} {fallback v : UInt64} {tooLong : UInt64 → String} :
    duration field raw fallback tooLong = (v,[]) ↔ u64.parse raw = some v ∧ Millis v := by
  have hmillis (w : UInt64) : (w > 0 ∧ w ≤ MAX_TIMEOUT_MS) ↔ Millis w := by
    rw [Millis,gt_iff_lt,UInt64.lt_iff_toNat_lt,UInt64.le_iff_toNat_le]
    exact Iff.rfl
  rw [duration]
  cases u64.parse raw with
  | none => simp
  | some w =>
    by_cases hw : w > 0 ∧ w ≤ MAX_TIMEOUT_MS
    · simp only [hw,if_true,Prod.mk.injEq,and_true,Option.some.injEq]
      exact ⟨fun h => ⟨h,h ▸ (hmillis w).mp hw⟩,fun h => h.1⟩
    · have hno : ¬(some w = some v ∧ Millis v) := fun h =>
        hw ((hmillis w).mpr (Option.some.inj h.1 ▸ h.2))
      simp only [hw,if_false,hno,iff_false]
      split <;> simp

/-- The crates that `from_env` calls: the scheme of a text that `Url::parse` takes, whether
`PrivateKey::from_string` takes it, and Unicode lowercase. -/
structure Parsers where
  urlScheme : String → Option String
  isSecretKey : String → Bool
  lowercase : Hash.CaseMapping

inductive ConfigError where
  | validation (message : String)
  deriving DecidableEq, Repr

def ConfigError.toString : ConfigError → String
  | .validation message => "configuration validation failed:\n"++message

def PORT_MIN : UInt16 := 1
def PORT_MAX : UInt16 := 65535

def validatedPort (port : UInt16) : Except ConfigError UInt16 :=
  if port < PORT_MIN then .error (.validation ("port "++toString port.toNat++
    " is below minimum "++toString PORT_MIN.toNat))
  else if port > PORT_MAX then .error (.validation ("port "++toString port.toNat++
    " exceeds maximum "++toString PORT_MAX.toNat))
  else .ok port

def u16 : Unsigned UInt16 := ⟨"u16",fun s => (parseUnsigned (2^16) s).map UInt16.ofNat⟩

/-- On a 64-bit target. -/
def usize : Unsigned UInt64 := ⟨"usize",u64.parse⟩

structure StellarSettings where
  stellarMaxRetries : UInt32
  stellarRetryBaseDelayMs : UInt64
  stellarRetryMaxDelayMs : UInt64
  stellarRetryJitterEnabled : Bool
  stellarRequestTimeoutMs : UInt64
  stellarCircuitBreakerFailureThreshold : UInt32
  stellarCircuitBreakerOpenDurationMs : UInt64
  stellarCircuitBreakerHalfOpenMaxCalls : UInt32
  stellarRetryJitterType : String
  stellarBulkheadMaxConcurrent : UInt32
  stellarBulkheadMaxQueue : UInt32
  deriving DecidableEq, Repr

structure WebhookSettings where
  webhookMaxRetries : UInt32
  webhookRetryBaseDelayMs : UInt64
  webhookRetryMaxDelayMs : UInt64
  webhookRequestTimeoutMs : UInt64
  webhookJitterEnabled : Bool
  webhookUrls : List String
  deriving DecidableEq, Repr

/-- The settings of the cache; its five `cache_circuit_breaker_*` fields stand together. -/
structure CacheSettings where
  cacheVerificationTtl : UInt64
  cacheBackend : String
  cacheMaxSize : UInt64
  cacheConfigTtl : UInt64
  cacheEventsTtl : UInt64
  cacheCircuitBreaker : CacheCircuitBreakerConfig
  cacheBulkheadMaxConcurrent : UInt32
  cacheBulkheadMaxQueue : UInt32
  deriving DecidableEq, Repr

structure AppConfig extends RateLimits,StellarSettings,WebhookSettings,CacheSettings where
  port : UInt16
  stellarHorizonUrl : String
  stellarSecretKey : Option String
  redisUrl : String
  logLevel : String
  webhookSecret : Option String
  deriving DecidableEq, Repr

section
variable (parsers : Parsers) (env : Env)

def lower (s : String) : String := String.ofList (Hash.toLowercase parsers.lowercase [] s.toList)

def isHttpUrl (s : String) : Bool :=
  (parsers.urlScheme s).any fun scheme => scheme == "http" || scheme == "https"

def isRedisUrl (s : String) : Bool :=
  (parsers.urlScheme s).any fun scheme => scheme == "redis" || scheme == "rediss"

def parseBool : String → Option Bool
  | "1" | "true" | "yes" | "y" => some true
  | "0" | "false" | "no" | "n" => some false
  | _ => none

def boolean (field raw : String) : Checked Bool :=
  match parseBool (lower parsers raw) with
  | some b => (b,[])
  | none => (true,[field++" must be a boolean, got '"++lower parsers raw++"'"])

/-- `DURATION ({}) exceeds maximum {}` beyond five minutes. -/
def delay (field raw : String) (fallback : UInt64) : Checked UInt64 :=
  duration field raw fallback (exceedsMaximum field)

def stellarSecretKey : Checked (Option String) :=
  match env "STELLAR_SECRET_KEY" with
  | some key =>
    (some key,rule (!parsers.isSecretKey key)
      "STELLAR_SECRET_KEY must be a valid Stellar ed25519 secret key")
  | none => (none,["STELLAR_SECRET_KEY is required but not set. "++
      "Please set the environment variable."])

def port : Checked UInt16 :=
  let portRaw := getEnvOrDefault env "PORT" "8080"
  match u16.parse portRaw with
  | some p =>
    match validatedPort p with
    | .ok _ => (p,[])
    | .error e => (8080,[e.toString])
  | none => (8080,["PORT must be a valid u16 (1-65535), got '"++portRaw++"'"])

def isJitterType : String → Bool
  | "none" | "full" | "equal" | "decorrelated" => true
  | _ => false

def jitterType (raw : String) : Checked String :=
  if isJitterType (lower parsers raw) then (raw,[])
  else ("full",["STELLAR_RETRY_JITTER_TYPE must be one of: none, full, equal, decorrelated; got '"++
    lower parsers raw++"'"])

def stellarSettings : Checked StellarSettings := do
  let maxRetries ← number u32 "STELLAR_MAX_RETRIES"
    (getEnvOrDefault env "STELLAR_MAX_RETRIES" "3") 3
  let baseDelayMs ← delay "STELLAR_RETRY_BASE_DELAY_MS"
    (getEnvOrDefault env "STELLAR_RETRY_BASE_DELAY_MS" "100") 100
  let maxDelayMs ← delay "STELLAR_RETRY_MAX_DELAY_MS"
    (getEnvOrDefault env "STELLAR_RETRY_MAX_DELAY_MS" "10000") 10000
  let jitterEnabled ← boolean parsers "STELLAR_RETRY_JITTER"
    (getEnvOrDefault env "STELLAR_RETRY_JITTER" "true")
  let requestTimeoutMs ← delay "STELLAR_REQUEST_TIMEOUT_MS"
    (getEnvOrDefault env "STELLAR_REQUEST_TIMEOUT_MS" "10000") 10000
  let failureThreshold ← positive u32 "STELLAR_CIRCUIT_BREAKER_FAILURE_THRESHOLD"
    (getEnvOrDefault env "STELLAR_CIRCUIT_BREAKER_FAILURE_THRESHOLD" "5") 5
  let openDurationMs ← delay "STELLAR_CIRCUIT_BREAKER_OPEN_DURATION_MS"
    (getEnvOrDefault env "STELLAR_CIRCUIT_BREAKER_OPEN_DURATION_MS" "30000") 30000
  let halfOpenMaxCalls ← positive u32 "STELLAR_CIRCUIT_BREAKER_HALF_OPEN_MAX_CALLS"
    (getEnvOrDefault env "STELLAR_CIRCUIT_BREAKER_HALF_OPEN_MAX_CALLS" "1") 1
  let retryJitterType ← jitterType parsers (getEnvOrDefault env "STELLAR_RETRY_JITTER_TYPE" "full")
  let maxConcurrent ← positive u32 "STELLAR_BULKHEAD_MAX_CONCURRENT"
    (getEnvOrDefault env "STELLAR_BULKHEAD_MAX_CONCURRENT" "10") 10
  let maxQueue ← positive u32 "STELLAR_BULKHEAD_MAX_QUEUE"
    (getEnvOrDefault env "STELLAR_BULKHEAD_MAX_QUEUE" "100") 100
  return ⟨maxRetries,baseDelayMs,maxDelayMs,jitterEnabled,requestTimeoutMs,failureThreshold,
    openDurationMs,halfOpenMaxCalls,retryJitterType,maxConcurrent,maxQueue⟩

def parseBackend : String → Option String
  | "redis" | "rediss" => some "redis"
  | "inmemory" | "memory" => some "inmemory"
  | _ => none

def cacheBackend (raw : String) : Checked String :=
  match parseBackend (lower parsers raw) with
  | some backend => (backend,[])
  | none => ("inmemory",["CACHE_BACKEND must be 'redis' or 'inmemory', got '"++
      lower parsers raw++"'"])

def cacheSettings : Checked CacheSettings := do
  let verificationTtl ← number u64 "CACHE_VERIFICATION_TTL"
    (getEnvOrDefault env "CACHE_VERIFICATION_TTL" "3600") 3600
  let backend ← cacheBackend parsers (getEnvOrDefault env "CACHE_BACKEND" "inmemory")
  let maxSize ← number usize "CACHE_MAX_SIZE" (getEnvOrDefault env "CACHE_MAX_SIZE" "10000") 10000
  let configTtl ← number u64 "CACHE_CONFIG_TTL"
    (getEnvOrDefault env "CACHE_CONFIG_TTL" "3600") 3600
  let eventsTtl ← number u64 "CACHE_EVENTS_TTL"
    (getEnvOrDefault env "CACHE_EVENTS_TTL" "1800") 1800
  let breaker ← cacheCircuitBreaker env
  let maxConcurrent ← positive u32 "CACHE_BULKHEAD_MAX_CONCURRENT"
    (getEnvOrDefault env "CACHE_BULKHEAD_MAX_CONCURRENT" "20") 20
  let maxQueue ← positive u32 "CACHE_BULKHEAD_MAX_QUEUE"
    (getEnvOrDefault env "CACHE_BULKHEAD_MAX_QUEUE" "200") 200
  return ⟨verificationTtl,backend,maxSize,configTtl,eventsTtl,breaker,maxConcurrent,maxQueue⟩

def isLogLevel : String → Bool
  | "trace" | "debug" | "info" | "warn" | "error" => true
  | _ => false

/-- The parts between the commas, trimmed, without the empty ones. -/
def splitUrls (raw : String) : List String :=
  (((raw.toList.splitOn ',').map Hash.trim).filter fun cs => !cs.isEmpty).map String.ofList

def webhookUrls (raw : String) : Checked (List String) :=
  (splitUrls raw,(splitUrls raw).flatMap fun url =>
    rule (!isHttpUrl parsers url) ("WEBHOOK_URLS must contain valid URLs, got '"++url++"'"))

def webhookSettings : Checked WebhookSettings := do
  let maxRetries ← number u32 "WEBHOOK_MAX_RETRIES"
    (getEnvOrDefault env "WEBHOOK_MAX_RETRIES" "5") 5
  let baseDelayMs ← delay "WEBHOOK_RETRY_BASE_DELAY_MS"
    (getEnvOrDefault env "WEBHOOK_RETRY_BASE_DELAY_MS" "200") 200
  let maxDelayMs ← delay "WEBHOOK_RETRY_MAX_DELAY_MS"
    (getEnvOrDefault env "WEBHOOK_RETRY_MAX_DELAY_MS" "30000") 30000
  let requestTimeoutMs ← delay "WEBHOOK_REQUEST_TIMEOUT_MS"
    (getEnvOrDefault env "WEBHOOK_REQUEST_TIMEOUT_MS" "10000") 10000
  let jitterEnabled ← boolean parsers "WEBHOOK_JITTER_ENABLED"
    (getEnvOrDefault env "WEBHOOK_JITTER_ENABLED" "true")
  check (maxDelayMs < baseDelayMs) ("WEBHOOK_RETRY_MAX_DELAY_MS must be greater than or equal to "++
    "WEBHOOK_RETRY_BASE_DELAY_MS")
  let urls ← webhookUrls parsers (getEnvOrDefault env "WEBHOOK_URLS" "")
  return ⟨maxRetries,baseDelayMs,maxDelayMs,requestTimeoutMs,jitterEnabled,urls⟩

/-- The configuration and all errors, in the order in which they are found. -/
def load : Checked AppConfig := do
  let stellarSecretKey ← stellarSecretKey parsers env
  let port ← port env
  let stellarHorizonUrl :=
    getEnvOrDefault env "STELLAR_HORIZON_URL" "https://horizon-testnet.stellar.org"
  check (!isHttpUrl parsers stellarHorizonUrl)
    ("STELLAR_HORIZON_URL must be a valid http/https URL, got '"++stellarHorizonUrl++"'")
  let redisUrl := getEnvOrDefault env "REDIS_URL" "redis://127.0.0.1:6379"
  check (!isRedisUrl parsers redisUrl)
    ("REDIS_URL must be a valid redis:// or rediss:// URL, got '"++redisUrl++"'")
  let limits ← rateLimits env
  let stellar ← stellarSettings parsers env
  let cache ← cacheSettings parsers env
  let logLevel := getEnvOrDefault env "LOG_LEVEL" "info"
  check (!isLogLevel (lower parsers logLevel))
    ("LOG_LEVEL must be one of: trace, debug, info, warn, error; got '"++
      lower parsers logLevel++"'")
  check (stellar.stellarRetryMaxDelayMs < stellar.stellarRetryBaseDelayMs)
    ("STELLAR_RETRY_MAX_DELAY_MS must be greater than or equal to "++
      "STELLAR_RETRY_BASE_DELAY_MS")
  let webhook ← webhookSettings parsers env
  return { toRateLimits := limits
           toStellarSettings := stellar
           toWebhookSettings := webhook
           toCacheSettings := cache
           port := port
           stellarHorizonUrl := stellarHorizonUrl
           stellarSecretKey := stellarSecretKey
           redisUrl := redisUrl
           logLevel := logLevel
           webhookSecret := env "WEBHOOK_SECRET" }

def fromEnv : Except ConfigError AppConfig :=
  match load parsers env with
  | (config,[]) => .ok config
  | (_,errors) => .error (.validation ("- "++"\n- ".intercalate errors))

end

end ProofStell.Config
