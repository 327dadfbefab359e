import ProofStell.Cache.Statistics
import ProofStell.Config.HotReload
import ProofStell.Webhook.Backoff
import ProofStell.Webhook.Metrics

/-! The service binary: what `run` builds from the environment, what the handlers answer, and the
background task that is told of reloaded configurations. -/
namespace ProofStell.Service
open Config Cache Webhook
variable {DateTime : Type}

structure MetricsRegistry where
  config : ConfigMetrics
  webhook : WebhookMetrics
  cache : CacheMetrics

def MetricsRegistry.new : MetricsRegistry := ⟨.new,.new,.new⟩

/-- What surrounds the process: the crates, and how Redis answers when the service starts. -/
structure Host (DateTime : Type) where
  parsers : Parsers
  serde : Serde DateTime
  connect : String → Except String Unit

structure AppState (DateTime : Type) where
  metrics : MetricsRegistry
  webhook : WebhookDispatcherConfig
  dlq : DispatcherState DateTime Unit
  cache : CacheBackend
  configWatcher : ConfigWatcher
  configVersion : UInt32
  shutdownFlag : Bool
  /-- The background task is past `changed` and has not read the update yet. -/
  woken : Bool
  /-- The listener is closed and the process about to end. -/
  stopped : Bool
  log : List String

inductive Datum (DateTime : Type) where
  | text (s : String)
  | count (n : Nat)
  | ratio (q : ℚ)
  | letters (l : List (DeadLetterEntry DateTime))

/-- A flat JSON object, or the registry as the Prometheus crate renders it. -/
inductive Body (DateTime : Type) where
  | json (fields : List (String × Datum DateTime))
  | prometheus (m : MetricsRegistry)

structure Response (DateTime : Type) where
  status : UInt16
  body : Body DateTime

def ok (fields : List (String × Datum DateTime)) : Response DateTime := ⟨200,.json fields⟩

inductive Request where
  | health | metrics | configStatus | dlqStatus | dlqDrain | webhookHealth | cacheStats
  | configReload (env : Env)

section
variable (host : Host DateTime)

def dispatcher (settings : WebhookDispatcherConfig) : WebhookDispatcher DateTime Unit :=
  .new settings.urls settings.maxRetries host.serde

def log (line : String) (s : AppState DateTime) : AppState DateTime :=
  { s with log := s.log++["[proofstell] "++line] }

def healthHandler (s : AppState DateTime) : Response DateTime :=
  if s.shutdownFlag then ⟨503,.json [("status",.text "shutting_down")]⟩
  else ok [("status",.text "ok")]

def configStatusHandler (s : AppState DateTime) : Response DateTime :=
  ok [("config_version",.count s.configVersion.toNat),
    ("schema_version",.count CONFIG_VERSION.toNat)]

/-- The background task holds the receiver as long as there is a sender, so `send` succeeds. -/
def configReloadHandler (env : Env) (s : AppState DateTime) :
    Response DateTime × AppState DateTime :=
  let (loaded,counters) := fromEnvWithMetrics host.parsers env s.metrics.config
  let s := { s with metrics := { s.metrics with config := counters } }
  match loaded with
  | .error e => (ok [("status",.text "error"),("message",.text e.toString)],s)
  | .ok newConfig =>
    match ConfigUpdate.new newConfig with
    | .error e => (ok [("status",.text "error"),("message",.text e.toString)],s)
    | .ok update =>
      (ok [("status",.text "ok"),("message",.text "config reload triggered successfully")],
        { s with configWatcher := s.configWatcher.send update })

def dlqStatusHandler (s : AppState DateTime) : Response DateTime × AppState DateTime :=
  let (depth,dlq) := (dispatcher host s.webhook).dlqDepth s.dlq
  (ok [("dlq_depth",.count depth)],{ s with dlq := dlq })

def drainDlq (s : AppState DateTime) : List (DeadLetterEntry DateTime) × AppState DateTime :=
  let (entries,dlq) := (dispatcher host s.webhook).drainDlq s.dlq
  (entries,{ s with
    dlq := dlq
    metrics := { s.metrics with webhook := s.metrics.webhook.setWebhookDlqDepth 0 } })

def dlqDrainHandler (s : AppState DateTime) : Response DateTime × AppState DateTime :=
  let (entries,s) := drainDlq host s
  (ok [("drained",.count entries.length),("entries",.letters entries)],s)

def webhookHealthHandler (s : AppState DateTime) : Response DateTime × AppState DateTime :=
  let (dlqDepth,dlq) := (dispatcher host s.webhook).dlqDepth s.dlq
  let urlCount := s.webhook.urls.length
  let isHealthy := dlqDepth = 0 ∧ urlCount > 0
  (ok [("status",.text (if isHealthy then "healthy" else if urlCount = 0 then "disabled"
      else "degraded")),("url_count",.count urlCount),("dlq_depth",.count dlqDepth)],
    { s with dlq := dlq })

def cacheStatsHandler (s : AppState DateTime) : Response DateTime × AppState DateTime :=
  match s.cache with
  | .inMemory cache =>
    let (stats,metered) := MeteredCache.stats ⟨cache,some s.metrics.cache⟩
    (ok [("backend",.text "inmemory"),("hits",.count stats.hits),("misses",.count stats.misses),
        ("evictions",.count stats.evictions),("expired",.count stats.expired),
        ("hit_rate",.ratio stats.hitRate),("current_size",.count stats.currentSize),
        ("max_size",.count stats.maxSize)],
      { s with metrics := { s.metrics with cache := metered.metrics.getD s.metrics.cache } })
  | .redis _ =>
    (ok [("backend",.text "redis"),
      ("message",.text "Redis cache statistics not yet implemented")],s)

def handle (request : Request) (s : AppState DateTime) : Response DateTime × AppState DateTime :=
  match request with
  | .health => (healthHandler s,s)
  | .metrics => (⟨200,.prometheus s.metrics⟩,s)
  | .configStatus => (configStatusHandler s,s)
  | .configReload env => configReloadHandler host env s
  | .dlqStatus => dlqStatusHandler host s
  | .dlqDrain => dlqDrainHandler host s
  | .webhookHealth => webhookHealthHandler host s
  | .cacheStats => cacheStatsHandler s

/-- What can happen to the running service: a request, a turn of the background task up to one of
its two awaits, a signal, and the end of the last connection after it. -/
inductive Event where
  | request (r : Request)
  | changed | borrowAndUpdate | shutdownSignal | drained

def step (e : Event) (s : AppState DateTime) : Option (Response DateTime) × AppState DateTime :=
  if s.stopped then (none,s)
  else
    match e with
    | .request r =>
      let (response,s) := handle host r s
      (some response,s)
    | .changed =>
      if !s.woken && s.configWatcher.hasChanged then
        (none,{ s with woken := true, configWatcher := s.configWatcher.markSeen })
      else (none,s)
    | .borrowAndUpdate =>
      if s.woken then
        let (update,watcher) := s.configWatcher.borrowAndUpdate
        let s := log ("Config hot-reload: version="++toString update.version.value.toNat++
          " applied") { s with configWatcher := watcher, woken := false }
        (none,{ s with
          metrics := { s.metrics with config := s.metrics.config.incrementConfigReload } })
      else (none,s)
    | .shutdownSignal =>
      if s.shutdownFlag then (none,s)
      else
        (none,log "Shutdown signal received, starting graceful shutdown..."
          { s with shutdownFlag := true })
    | .drained =>
      if s.shutdownFlag then
        let (_,s) := drainDlq host (log "Draining webhook DLQ..." s)
        (none,{ log "Shutdown complete" (log "Flushing cache..." s) with stopped := true })
      else (none,s)

def startCache (config : AppConfig) : CacheBackend × List String :=
  let inMemory := CacheBackend.inMemory (.withMaxSize config.cacheMaxSize.toNat)
  match config.cacheBackend with
  | "redis" =>
    match host.connect config.redisUrl with
    | .ok () =>
      (.redis (.withConfig config.cacheCircuitBreaker),["Initializing Redis cache backend..."])
    | .error e =>
      (inMemory,["Initializing Redis cache backend...",
        "Failed to initialize Redis cache: "++e++", falling back to InMemory"])
  | _ =>
    (inMemory,["Initializing InMemory cache backend (max_size="++
      toString config.cacheMaxSize.toNat++")"])

/-- The lines about the configuration, each with the label padded as in the source. -/
def banner (config : AppConfig) : List String :=
  ["Configuration v"++toString CONFIG_VERSION.toNat++" loaded successfully",
    "  port:               "++toString config.port.toNat,
    "  stellar_horizon_url: "++config.stellarHorizonUrl,
    "  redis_url:           "++config.redisUrl,
    "  rate_limit:          "++toString config.rateLimitPerSecond.toNat++"/s (burst "++
      toString config.rateLimitBurst.toNat++")",
    "  webhooks:            "++toString config.webhookUrls.length++
      " url(s) configured (max_retries="++toString config.webhookMaxRetries.toNat++")",
    "  cache:              backend="++config.cacheBackend++", max_size="++
      toString config.cacheMaxSize.toNat]

def wire (config : AppConfig) (watcher : ConfigWatcher) (counters : ConfigMetrics) :
    AppState DateTime where
  metrics := { MetricsRegistry.new with config := counters }
  webhook := .fromAppConfig config
  dlq := ⟨[],()⟩
  cache := (startCache host config).1
  configWatcher := watcher
  configVersion := CONFIG_VERSION
  shutdownFlag := false
  woken := false
  stopped := false
  log := (banner config++(startCache host config).2++["Cache initialized successfully",
    "Starting HTTP server on 0.0.0.0:"++toString config.port.toNat,
    "Config endpoints: GET /config/status, POST /config/reload"]).map ("[proofstell] "++·)

/-- `run` up to the listener, which is taken to be free; an error is the line that `main` prints. -/
def run (env : Env) : Except String (AppState DateTime) :=
  match fromEnvWithMetrics host.parsers env .new with
  | (.error e,_) => .error ("[proofstell] Fatal error: "++e.toString)
  | (.ok config,counters) =>
    match configChannel config with
    | .error e =>
      .error ("[proofstell] Fatal error: failed to create config channel: "++e.toString)
    | .ok watcher => .ok (wire host config watcher counters)

end

end ProofStell.Service
