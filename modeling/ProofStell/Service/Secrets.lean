import ProofStell.Config.Redaction
import ProofStell.Service.Reload

/-! The Stellar key and the webhook secret stay inside: two services that differ in nothing else
cannot be told apart by what they answer and print. -/
namespace ProofStell.Service
open Config Cache Webhook

section
variable {DateTime : Type} (host : Host DateTime)

inductive SameEvent : Event → Event → Prop
  | reload {env env' : Env} : SameButSecrets host.parsers env env' →
      SameEvent (.request (.configReload env)) (.request (.configReload env'))
  | same (e : Event) : SameEvent e e

/-- The states agree in all that answers and log lines are made of. The webhook secret and the
published configuration are not among it. -/
structure LooksSame (s t : AppState DateTime) : Prop where
  metrics : s.metrics = t.metrics
  urls : s.webhook.urls = t.webhook.urls
  maxRetries : s.webhook.maxRetries = t.webhook.maxRetries
  dlq : s.dlq = t.dlq
  cache : s.cache = t.cache
  version : s.configWatcher.version = t.configWatcher.version
  seen : s.configWatcher.seen = t.configWatcher.seen
  configVersion : s.configVersion = t.configVersion
  shutdownFlag : s.shutdownFlag = t.shutdownFlag
  woken : s.woken = t.woken
  stopped : s.stopped = t.stopped
  log : s.log = t.log

variable {host} {s t : AppState DateTime}

theorem LooksSame.dispatcher (h : LooksSame s t) :
    dispatcher host s.webhook = dispatcher host t.webhook := by
  rw [Service.dispatcher,Service.dispatcher,h.urls,h.maxRetries]

theorem LooksSame.hasChanged (h : LooksSame s t) :
    s.configWatcher.hasChanged = t.configWatcher.hasChanged := by
  rw [Watch.Channel.hasChanged,Watch.Channel.hasChanged,h.version,h.seen]

theorem LooksSame.addLog (h : LooksSame s t) (line : String) :
    LooksSame (Service.log line s) (Service.log line t) :=
  ⟨h.metrics,h.urls,h.maxRetries,h.dlq,h.cache,h.version,h.seen,h.configVersion,h.shutdownFlag,
    h.woken,h.stopped,congrArg (·++_) h.log⟩

variable (host) in
theorem LooksSame.drainDlq (h : LooksSame s t) :
    (drainDlq host s).1 = (drainDlq host t).1 ∧
      LooksSame (drainDlq host s).2 (drainDlq host t).2 := by
  simp only [Service.drainDlq,h.dispatcher,h.dlq]
  exact ⟨trivial,by rw [h.metrics],h.urls,h.maxRetries,rfl,h.cache,h.version,h.seen,
    h.configVersion,h.shutdownFlag,h.woken,h.stopped,h.log⟩

theorem LooksSame.reload (h : LooksSame s t) {env env' : Env}
    (henv : SameButSecrets host.parsers env env') :
    (configReloadHandler host env s).1 = (configReloadHandler host env' t).1 ∧
      LooksSame (configReloadHandler host env s).2 (configReloadHandler host env' t).2 := by
  simp only [configReloadHandler,fromEnvWithMetrics]
  obtain ⟨c,c',hc,hc',_⟩ | ⟨e,he,he'⟩ := henv.fromEnv
  · simp only [hc,hc',ConfigUpdate.new]
    exact ⟨trivial,by rw [h.metrics],h.urls,h.maxRetries,h.dlq,h.cache,congrArg (·+1) h.version,h.seen,
      h.configVersion,h.shutdownFlag,h.woken,h.stopped,h.log⟩
  · simp only [he,he']
    exact ⟨trivial,by rw [h.metrics],h.urls,h.maxRetries,h.dlq,h.cache,h.version,h.seen,
      h.configVersion,h.shutdownFlag,h.woken,h.stopped,h.log⟩

variable (host) in
theorem LooksSame.handle (h : LooksSame s t) (r : Request) :
    (handle host r s).1 = (handle host r t).1 ∧
      LooksSame (handle host r s).2 (handle host r t).2 := by
  cases r with
  | health => exact ⟨by simp only [Service.handle,healthHandler,h.shutdownFlag],h⟩
  | metrics => exact ⟨by simp only [Service.handle,h.metrics],h⟩
  | configStatus => exact ⟨by simp only [Service.handle,configStatusHandler,h.configVersion],h⟩
  | dlqStatus =>
    simp only [Service.handle,dlqStatusHandler,h.dispatcher,h.dlq]
    exact ⟨trivial,h.metrics,h.urls,h.maxRetries,rfl,h.cache,h.version,h.seen,h.configVersion,
      h.shutdownFlag,h.woken,h.stopped,h.log⟩
  | dlqDrain =>
    obtain ⟨hentries,hstate⟩ := h.drainDlq host
    simp only [Service.handle,dlqDrainHandler,hentries]
    exact ⟨trivial,hstate⟩
  | webhookHealth =>
    simp only [Service.handle,webhookHealthHandler,h.dispatcher,h.dlq]
    exact ⟨by simp only [h.urls],h.metrics,h.urls,h.maxRetries,rfl,h.cache,h.version,h.seen,
      h.configVersion,h.shutdownFlag,h.woken,h.stopped,h.log⟩
  | cacheStats =>
    simp only [Service.handle,cacheStatsHandler,h.cache,h.metrics]
    cases t.cache with
    | redis cache => exact ⟨rfl,h⟩
    | inMemory cache =>
      exact ⟨rfl,rfl,h.urls,h.maxRetries,h.dlq,rfl,h.version,h.seen,h.configVersion,
        h.shutdownFlag,h.woken,h.stopped,h.log⟩
  | configReload env => exact h.reload ⟨fun _ _ _ => rfl,rfl⟩

theorem LooksSame.step (h : LooksSame s t) {e e' : Event} (he : SameEvent host e e') :
    (step host e s).1 = (step host e' t).1 ∧
      LooksSame (step host e s).2 (step host e' t).2 := by
  unfold Service.step
  by_cases hs : t.stopped = true
  · rw [if_pos (h.stopped.trans hs),if_pos hs]
    exact ⟨rfl,h⟩
  · rw [if_neg (h.stopped ▸ hs),if_neg hs]
    cases he with
    | reload henv =>
      obtain ⟨hresponse,hstate⟩ := h.reload henv
      exact ⟨congrArg some hresponse,hstate⟩
    | same e =>
      cases e with
      | request r =>
        obtain ⟨hresponse,hstate⟩ := h.handle host r
        exact ⟨congrArg some hresponse,hstate⟩
      | changed =>
        simp only [h.woken,h.hasChanged]
        split
        · exact ⟨rfl,h.metrics,h.urls,h.maxRetries,h.dlq,h.cache,h.version,h.version,
            h.configVersion,h.shutdownFlag,rfl,h.stopped,h.log⟩
        · exact ⟨rfl,h⟩
      | borrowAndUpdate =>
        simp only [h.woken,ConfigVersion.eq_current]
        split
        · exact ⟨rfl,by simp only [Service.log,h.metrics],h.urls,h.maxRetries,h.dlq,h.cache,
            h.version,h.version,h.configVersion,h.shutdownFlag,rfl,h.stopped,
            congrArg (·++_) h.log⟩
        · exact ⟨rfl,h⟩
      | shutdownSignal =>
        simp only [h.shutdownFlag]
        split
        · exact ⟨rfl,h⟩
        · exact ⟨rfl,h.metrics,h.urls,h.maxRetries,h.dlq,h.cache,h.version,h.seen,
            h.configVersion,rfl,h.woken,h.stopped,congrArg (·++_) h.log⟩
      | drained =>
        simp only [h.shutdownFlag]
        split
        · obtain ⟨_,hdrained⟩ := (h.addLog "Draining webhook DLQ...").drainDlq host
          have hlog := (hdrained.addLog "Flushing cache...").addLog "Shutdown complete"
          exact ⟨rfl,hlog.metrics,hlog.urls,hlog.maxRetries,hlog.dlq,hlog.cache,hlog.version,
            hlog.seen,hlog.configVersion,hlog.shutdownFlag,hlog.woken,rfl,hlog.log⟩
        · exact ⟨rfl,h⟩

theorem wire_same {c c' : AppConfig} (hc : c.withoutSecrets = c'.withoutSecrets)
    (counters : ConfigMetrics) :
    LooksSame (wire host c (Watch.channel ⟨c,.current⟩) counters)
      (wire host c' (Watch.channel ⟨c',.current⟩) counters) := by
  obtain ⟨limits,stellar,webhook,cache,port,horizonUrl,key,redisUrl,logLevel,secret⟩ := c
  obtain ⟨limits',stellar',webhook',cache',port',horizonUrl',key',redisUrl',logLevel',secret'⟩ := c'
  simp only [AppConfig.withoutSecrets,AppConfig.mk.injEq,true_and,and_true] at hc
  obtain ⟨rfl,rfl,rfl,rfl,rfl,rfl,rfl,rfl⟩ := hc
  exact ⟨rfl,rfl,rfl,rfl,rfl,rfl,rfl,rfl,rfl,rfl,rfl,rfl⟩

variable (host) in
/-- Environments that differ in secrets only start the service with the same line, and then every
endpoint answers and every line reads the same. -/
theorem secrets_stay_inside {env env' : Env} (henv : SameButSecrets host.parsers env env')
    {l l' : List Event} (hl : List.Forall₂ (SameEvent host) l l') :
    ((∃ s s', run host env = .ok s ∧ run host env' = .ok s' ∧
        (Machine.outputs (step host) l s).map Prod.snd =
          (Machine.outputs (step host) l' s').map Prod.snd ∧
        (Machine.final (step host) l s).log = (Machine.final (step host) l' s').log) ∨
      ∃ line, run host env = .error line ∧ run host env' = .error line) ∧
    ∀ quote c c', fromEnv host.parsers env = .ok c → fromEnv host.parsers env' = .ok c' →
      (env "WEBHOOK_SECRET").isSome = ( env' "WEBHOOK_SECRET").isSome →
      debug quote c = debug quote c' := by
  constructor
  · obtain ⟨c,c',hc,hc',hsame⟩ | ⟨e,he,he'⟩ := henv.fromEnv
    · have hrun := (run_ok_iff host).mpr ⟨c,hc,rfl⟩
      have hrun' := (run_ok_iff host).mpr ⟨c',hc',rfl⟩
      obtain ⟨houtputs,hfinal⟩ := Machine.related LooksSame (SameEvent host)
        (fun _ _ _ _ he h => h.step he) hl (wire_same hsame _)
      exact Or.inl ⟨_,_,hrun,hrun',houtputs,hfinal.log⟩
    · exact Or.inr ⟨_,by rw [run,fromEnvWithMetrics,he],by rw [run,fromEnvWithMetrics,he']⟩
  · intro quote c c' hc hc' hsecret
    obtain ⟨d,d',hd,hd',hsame⟩ | ⟨e,he,_⟩ := henv.fromEnv
    · obtain rfl := Except.ok.inj (hc.symm.trans hd)
      obtain rfl := Except.ok.inj (hc'.symm.trans hd')
      obtain ⟨_,_,_,hkey⟩ := (documented_of_ok hc).secretKey
      obtain ⟨_,_,_,hkey'⟩ := (documented_of_ok hc').secretKey
      refine debug_eq quote hsame (by rw [hkey,hkey']; rfl) ?_
      rw [(documented_of_ok hc).webhookSecret,(documented_of_ok hc').webhookSecret,hsecret]
    · rw [he] at hc
      cases hc

end

/-- Two webhook secrets, one before and one after a reload. -/
theorem secrets_stay_inside_over_a_reload :
    let env := sampleEnv [("WEBHOOK_SECRET","first")]
    let env' := sampleEnv [("WEBHOOK_SECRET","second")]
    ∃ s s', run Host.sample env = .ok s ∧ run Host.sample env' = .ok s' ∧
      s.webhook.secret = some "first" ∧ s'.webhook.secret = some "second" ∧
      (Machine.outputs (step Host.sample) [.request (.configReload env'),.request .metrics]
          s).map Prod.snd =
        (Machine.outputs (step Host.sample) [.request (.configReload env),.request .metrics]
          s').map Prod.snd := by
  intro env env'
  have hothers (name : String) (hkey : name≠"STELLAR_SECRET_KEY") (hname : name≠"WEBHOOK_SECRET") :
      env name = env' name := by
    simp [env,env',sampleEnv,List.lookup_cons,beq_eq_false_iff_ne.mpr hkey,
      beq_eq_false_iff_ne.mpr hname]
  have henv : SameButSecrets Host.sample.parsers env env' := ⟨hothers,rfl⟩
  have henv' : SameButSecrets Host.sample.parsers env' env :=
    ⟨fun name hkey hname => (hothers name hkey hname).symm,rfl⟩
  have hload : fromEnv Host.sample.parsers env = .ok (load .sample env).1 :=
    fromEnv_of_load (by decide +kernel)
  have hload' : fromEnv Host.sample.parsers env' = .ok (load .sample env').1 :=
    fromEnv_of_load (by decide +kernel)
  obtain ⟨⟨s,s',hs,hs',houtputs,_⟩ | ⟨line,hline,_⟩,_⟩ := secrets_stay_inside Host.sample henv
    (.cons (.reload henv') (.cons (.same (.request .metrics)) .nil))
  · obtain ⟨c,hc,rfl⟩ := (run_ok_iff Host.sample).mp hs
    obtain ⟨c',hc',rfl⟩ := (run_ok_iff Host.sample).mp hs'
    obtain rfl := Except.ok.inj (hload.symm.trans hc)
    obtain rfl := Except.ok.inj (hload'.symm.trans hc')
    exact ⟨_,_,hs,hs',by decide +kernel,by decide +kernel,houtputs⟩
  · rw [(run_ok_iff Host.sample).mpr ⟨_,hload,rfl⟩] at hline
    cases hline

end ProofStell.Service
