import ProofStell.Service.Reload

/-! What the endpoints answer for the life of the process: the start fixes it, a signal changes the
health check, and a reload changes nothing. -/
namespace ProofStell.Service
open Config Cache Webhook

section
variable {DateTime : Type} (host : Host DateTime)

/-- What `/cache/stats` says of a cache that nobody uses. -/
def idleStats : CacheBackend → Response DateTime
  | .inMemory cache =>
    ok [("backend",.text "inmemory"),("hits",.count 0),("misses",.count 0),
      ("evictions",.count 0),("expired",.count 0),("hit_rate",.ratio 0),("current_size",.count 0),
      ("max_size",.count cache.maxSize)]
  | .redis _ =>
    ok [("backend",.text "redis"),
      ("message",.text "Redis cache statistics not yet implemented")]

/-- The answers of a service started with `config`, before and after a signal. The metrics are the
only thing that depends on more. -/
def answer (config : AppConfig) (down : Bool) : Request → Option (Response DateTime)
  | .health =>
    some (if down then ⟨503,.json [("status",.text "shutting_down")]⟩
      else ok [("status",.text "ok")])
  | .metrics => none
  | .configStatus => some (ok [("config_version",.count 1),("schema_version",.count 1)])
  | .dlqStatus => some (ok [("dlq_depth",.count 0)])
  | .dlqDrain => some (ok [("drained",.count 0),("entries",.letters [])])
  | .webhookHealth =>
    some (ok [("status",.text (if config.webhookUrls = [] then "disabled" else "healthy")),
      ("url_count",.count config.webhookUrls.length),("dlq_depth",.count 0)])
  | .cacheStats => some (idleStats (startCache host config).1)
  | .configReload env =>
    match fromEnv host.parsers env with
    | .ok _ =>
      some (ok [("status",.text "ok"),("message",.text "config reload triggered successfully")])
    | .error e => some (ok [("status",.text "error"),("message",.text e.toString)])

def isSignal : Event → Bool
  | .shutdownSignal => true
  | .request _ | .changed | .borrowAndUpdate | .drained => false

/-- The parts of the state that the answers read are as the start has left them. -/
structure Wired (config : AppConfig) (down : Bool) (s : AppState DateTime) : Prop where
  webhook : s.webhook = .fromAppConfig config
  dlq : s.dlq = ⟨[],()⟩
  cache : s.cache = (startCache host config).1
  version : s.configVersion = CONFIG_VERSION
  flag : s.shutdownFlag = down
  stopped : s.stopped = true → down = true

variable {host} {config : AppConfig} {down : Bool} {s : AppState DateTime}

theorem drainDlq_wired (h : Wired host config down s) :
    (drainDlq host s).1 = [] ∧ Wired host config down (drainDlq host s).2 := by
  have hdrain : (dispatcher host s.webhook).drainDlq s.dlq = ([],⟨[],()⟩) := by
    rw [h.dlq]
    rfl
  simp only [drainDlq,hdrain]
  exact ⟨trivial,h.webhook,rfl,h.cache,h.version,h.flag,h.stopped⟩

theorem handle_wired (h : Wired host config down s) (r : Request) :
    (∀ response, answer host config down r = some response → (handle host r s).1 = response) ∧
      Wired host config down (handle host r s).2 := by
  have hdepth : (dispatcher host s.webhook).dlqDepth s.dlq = (0,⟨[],()⟩) := by
    rw [h.dlq]
    rfl
  have hsame : Wired host config down { s with dlq := ⟨[],()⟩ } :=
    ⟨h.webhook,rfl,h.cache,h.version,h.flag,h.stopped⟩
  cases r with
  | health =>
    refine ⟨fun response hr => ?_,h⟩
    obtain rfl := Option.some.inj hr
    simp only [handle,healthHandler,h.flag]
  | metrics =>
    refine ⟨fun response hr => ?_,h⟩
    cases hr
  | configStatus =>
    refine ⟨fun response hr => ?_,h⟩
    obtain rfl := Option.some.inj hr
    simp only [handle,configStatusHandler,h.version]
    rfl
  | dlqStatus =>
    simp only [handle,dlqStatusHandler,hdepth]
    exact ⟨fun response hr => Option.some.inj hr,hsame⟩
  | dlqDrain =>
    obtain ⟨hnone,hwired⟩ := drainDlq_wired h
    simp only [handle,dlqDrainHandler,hnone]
    exact ⟨fun response hr => Option.some.inj hr,hwired⟩
  | webhookHealth =>
    simp only [handle,webhookHealthHandler,hdepth]
    refine ⟨fun response hr => ?_,hsame⟩
    obtain rfl := Option.some.inj hr
    simp only [h.webhook,WebhookDispatcherConfig.fromAppConfig]
    cases config.webhookUrls with
    | nil => rfl
    | cons url urls => simp
  | cacheStats =>
    have hcache := h.cache
    simp only [handle,cacheStatsHandler,answer,← hcache]
    cases hs : s.cache with
    | redis cache => exact ⟨fun response hr => Option.some.inj hr,h⟩
    | inMemory cache =>
      refine ⟨fun response hr => ?_,⟨h.webhook,h.dlq,hs.symm.trans hcache,h.version,h.flag,h.stopped⟩⟩
      obtain rfl := Option.some.inj hr
      have hidle : ∃ maxSize, cache = .withMaxSize maxSize := by
        rw [hs] at hcache
        simp only [startCache] at hcache
        split at hcache
        · split at hcache
          · cases hcache
          · exact ⟨_,CacheBackend.inMemory.inj hcache⟩
        · exact ⟨_,CacheBackend.inMemory.inj hcache⟩
      obtain ⟨maxSize,rfl⟩ := hidle
      rfl
  | configReload env =>
    simp only [handle,configReloadHandler,fromEnvWithMetrics,answer]
    cases fromEnv host.parsers env with
    | error e =>
      exact ⟨fun response hr => Option.some.inj hr,
        ⟨h.webhook,h.dlq,h.cache,h.version,h.flag,h.stopped⟩⟩
    | ok newConfig =>
      exact ⟨fun response hr => Option.some.inj hr,
        ⟨h.webhook,h.dlq,h.cache,h.version,h.flag,h.stopped⟩⟩

theorem step_wired (h : Wired host config down s) (e : Event) :
    Wired host config (down || isSignal e) (step host e s).2 := by
  cases hs : s.stopped with
  | true =>
    have hdown := h.stopped hs
    simp only [step,hs,if_true]
    rw [hdown,Bool.true_or]
    exact hdown ▸ h
  | false =>
    unfold step
    rw [if_neg (by simp [hs])]
    cases e with
    | request r =>
      rw [isSignal,Bool.or_false]
      exact (handle_wired h r).2
    | changed =>
      rw [isSignal,Bool.or_false]
      dsimp only
      split
      · exact ⟨h.webhook,h.dlq,h.cache,h.version,h.flag,h.stopped⟩
      · exact h
    | borrowAndUpdate =>
      rw [isSignal,Bool.or_false]
      dsimp only
      split
      · exact ⟨h.webhook,h.dlq,h.cache,h.version,h.flag,h.stopped⟩
      · exact h
    | shutdownSignal =>
      rw [isSignal,Bool.or_true]
      dsimp only
      split
      · next hflag =>
        have hdown : down = true := h.flag ▸ hflag
        exact hdown ▸ h
      · exact ⟨h.webhook,h.dlq,h.cache,h.version,rfl,fun _ => rfl⟩
    | drained =>
      rw [isSignal,Bool.or_false]
      dsimp only
      split
      · next hflag =>
        have hlog : Wired host config down (log "Draining webhook DLQ..." s) :=
          ⟨h.webhook,h.dlq,h.cache,h.version,h.flag,h.stopped⟩
        obtain ⟨-,hdrained⟩ := drainDlq_wired hlog
        exact ⟨hdrained.webhook,hdrained.dlq,hdrained.cache,hdrained.version,hdrained.flag,
          fun _ => h.flag ▸ hflag⟩
      · exact h

theorem run_wired (h : Wired host config down s) (l : List Event) :
    Wired host config (down || l.any isSignal) (Machine.final (step host) l s) := by
  induction l generalizing down s with
  | nil =>
    rw [List.any_nil,Bool.or_false]
    exact h
  | cons e l ih =>
    rw [List.any_cons,← Bool.or_assoc]
    exact ih (step_wired h e)

variable (host) in
/-- The configuration of the start and the signals so far decide what the endpoints answer, and
nothing is ever dead-lettered or cached. -/
theorem responses_fixed {env : Env} {s₀ : AppState DateTime} (hrun : run host env = .ok s₀) :
    ∃ config, fromEnv host.parsers env = .ok config ∧
      ∀ l : List Event, let s := Machine.final (step host) l s₀
        s.dlq = ⟨[],()⟩ ∧ s.cache = (startCache host config).1 ∧
          ∀ (r : Request) (response : Response DateTime), s.stopped = false →
            answer host config (l.any isSignal) r = some response →
            (step host (.request r) s).1 = some response := by
  obtain ⟨config,hload,rfl⟩ := (run_ok_iff host).mp hrun
  refine ⟨config,hload,fun l => ?_⟩
  have hstart : Wired host config false (wire host config (Watch.channel ⟨config,.current⟩)
      ConfigMetrics.new.incrementConfigReload) := ⟨rfl,rfl,rfl,rfl,rfl,fun h => by cases h⟩
  have hs := run_wired hstart l
  rw [Bool.false_or] at hs
  refine ⟨hs.dlq,hs.cache,fun r response hstopped hr => ?_⟩
  simp only [step,hstopped,Bool.false_eq_true,if_false]
  rw [(handle_wired hs r).1 response hr]

end

/-- A reload that takes the only URL away, and a signal: the URL stays and the service goes. -/
theorem responses_fixed_across_a_reload :
    let env := sampleEnv [("WEBHOOK_URLS","https://a")]
    let l : List Event := [.request (.configReload (sampleEnv [])),.changed,.borrowAndUpdate,
      .shutdownSignal]
    ∃ s₀ config, run Host.sample env = .ok s₀ ∧ config.webhookUrls = ["https://a"] ∧
      let s := Machine.final (step Host.sample) l s₀
      (step Host.sample (.request .webhookHealth) s).1 =
          answer Host.sample config true .webhookHealth ∧
        (step Host.sample (.request .health) s).1 =
          some ⟨503,.json [("status",.text "shutting_down")]⟩ := by
  intro env l
  have hload : fromEnv Host.sample.parsers env = .ok (load .sample env).1 :=
    fromEnv_of_load (by decide +kernel)
  have hrun := (run_ok_iff Host.sample).mpr ⟨_,hload,rfl⟩
  obtain ⟨config,hconfig,h⟩ := responses_fixed Host.sample hrun
  obtain rfl := Except.ok.inj (hload.symm.trans hconfig)
  have hstopped : (Machine.final (step Host.sample) l (wire Host.sample (load .sample env).1
      (Watch.channel ⟨(load .sample env).1,.current⟩)
      ConfigMetrics.new.incrementConfigReload)).stopped = false := by
    decide +kernel
  exact ⟨_,(load .sample env).1,hrun,by decide +kernel,
    (h l).2.2 .webhookHealth _ hstopped rfl,(h l).2.2 .health _ hstopped rfl⟩

end ProofStell.Service
