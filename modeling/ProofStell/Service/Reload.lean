import ProofStell.Config.Documented
import ProofStell.Service.Server

/-! What a reload of the configuration does to the running service, and what it does not. -/
namespace ProofStell.Service
open Config Cache Webhook

def Host.sample : Host String := ⟨.sample,⟨fun _ => "",fun _ => none,.string,Json.asString⟩,
  fun _ => .error "refused"⟩

section
variable {DateTime : Type} (host : Host DateTime)

def published (e : Event) (s : AppState DateTime) : List ConfigUpdate :=
  match e with
  | .request (.configReload env) =>
    if s.stopped then []
    else
      match fromEnv host.parsers env with
      | .ok config => [⟨config,.current⟩]
      | .error _ => []
  | _ => []

def applied (e : Event) (s : AppState DateTime) : List ConfigUpdate :=
  match e with
  | .borrowAndUpdate => if !s.stopped && s.woken then [s.configWatcher.value] else []
  | _ => []

def rejected (e : Event) (s : AppState DateTime) : Nat :=
  match e with
  | .request (.configReload env) =>
    if s.stopped then 0 else if (fromEnv host.parsers env).toOption.isSome then 0 else 1
  | _ => 0

structure Tracked (first : ConfigUpdate) (failures : Nat) (sent got : List ConfigUpdate)
    (s : AppState DateTime) : Prop where
  follows : Watch.Follows first s.configWatcher s.woken sent got
  reloads : s.metrics.config.configReloadTotal = 1+sent.length+got.length
  failures : s.metrics.config.configValidationFailures = failures

section
variable {host} {first : ConfigUpdate} {failures : Nat} {sent got : List ConfigUpdate}
  {s : AppState DateTime}

theorem Tracked.same (h : Tracked first failures sent got s) {t : AppState DateTime}
    (hwatcher : t.configWatcher = s.configWatcher) (hwoken : t.woken = s.woken)
    (hcounters : t.metrics.config = s.metrics.config) : Tracked first failures sent got t where
  follows := by
    rw [hwatcher,hwoken]
    exact h.follows
  reloads := by
    rw [hcounters]
    exact h.reloads
  failures := by
    rw [hcounters]
    exact h.failures

theorem Tracked.reload (h : Tracked first failures sent got s) (hs : s.stopped = false) (env : Env) :
    Tracked first (failures+rejected host (.request (.configReload env)) s)
      (sent++published host (.request (.configReload env)) s) got
      (configReloadHandler host env s).2 := by
  simp only [published,rejected,configReloadHandler,fromEnvWithMetrics,hs,Bool.false_eq_true,
    if_false]
  cases hload : fromEnv host.parsers env with
  | error e =>
    refine ⟨by simpa using h.follows,?_,?_⟩
    · simpa [ConfigMetrics.incrementConfigValidationFailure] using h.reloads
    · simpa [ConfigMetrics.incrementConfigValidationFailure,Except.toOption] using h.failures
  | ok config =>
    have hreloads := h.reloads
    refine ⟨h.follows.send _,?_,?_⟩
    · simp only [ConfigUpdate.new,ConfigMetrics.incrementConfigReload,List.length_append,
        List.length_singleton]
      omega
    · simpa [ConfigUpdate.new,ConfigMetrics.incrementConfigReload,Except.toOption] using h.failures

variable (host) in
theorem Tracked.step (h : Tracked first failures sent got s) (e : Event) :
    Tracked first (failures+rejected host e s) (sent++published host e s) (got++applied e s)
      (step host e s).2 := by
  cases hs : s.stopped with
  | true =>
    have hstay : (Service.step host e s).2 = s := by simp [Service.step,hs]
    have hnone : rejected host e s = 0 ∧ published host e s = [] ∧ applied e s = [] := by
      cases e with
      | request r => cases r <;> simp [rejected,published,applied,hs]
      | changed | borrowAndUpdate | shutdownSignal | drained =>
        simp [rejected,published,applied,hs]
    rw [hstay,hnone.1,hnone.2.1,hnone.2.2,List.append_nil,List.append_nil]
    exact h
  | false =>
    simp only [Service.step,hs,Bool.false_eq_true,if_false]
    cases e with
    | request r =>
      have hgot : applied (.request r) s = [] := rfl
      rw [hgot,List.append_nil]
      cases r with
      | configReload env => exact h.reload hs env
      | health | metrics | configStatus | dlqStatus | dlqDrain | webhookHealth =>
        simp only [rejected,published,List.append_nil]
        exact h.same rfl rfl rfl
      | cacheStats =>
        simp only [rejected,published,List.append_nil,handle,cacheStatsHandler]
        cases s.cache with
        | inMemory cache => exact h.same rfl rfl rfl
        | redis cache => exact h
    | changed =>
      simp only [rejected,published,applied,List.append_nil]
      split
      · next hready =>
        obtain ⟨-,hchanged⟩ := Bool.and_eq_true_iff.mp hready
        exact ⟨h.follows.wake hchanged,h.reloads,h.failures⟩
      · exact h
    | borrowAndUpdate =>
      simp only [rejected,published,applied,hs,Bool.not_false,Bool.true_and,List.append_nil]
      split
      · next hwoken =>
        have hfollows := h.follows
        rw [hwoken] at hfollows
        have hreloads := h.reloads
        refine ⟨hfollows.read,?_,h.failures⟩
        simp only [ConfigMetrics.incrementConfigReload,log,List.length_append,
          List.length_singleton]
        omega
      · rw [List.append_nil]
        exact h
    | shutdownSignal =>
      simp only [rejected,published,applied,List.append_nil]
      split
      · exact h
      · exact h.same rfl rfl rfl
    | drained =>
      simp only [rejected,published,applied,List.append_nil]
      split
      · exact h.same rfl rfl rfl
      · exact h

variable (host) in
theorem Tracked.run (h : Tracked first failures sent got s) (l : List Event) :
    Tracked first (failures+Machine.total (Service.step host) (rejected host) l s)
      (sent++Machine.trace (Service.step host) (published host) l s)
      (got++Machine.trace (Service.step host) applied l s)
      (Machine.final (Service.step host) l s) := by
  induction l generalizing failures sent got s with
  | nil => simpa [Machine.total,Machine.trace,Machine.final] using h
  | cons e l ih =>
    have hnext := ih (h.step host e)
    rw [Nat.add_assoc,List.append_assoc,List.append_assoc] at hnext
    exact hnext

end

theorem run_ok_iff {env : Env} {s : AppState DateTime} :
    run host env = .ok s ↔ ∃ config, fromEnv host.parsers env = .ok config ∧
      s = wire host config (Watch.channel ⟨config,.current⟩)
        ConfigMetrics.new.incrementConfigReload := by
  rw [run,fromEnvWithMetrics]
  cases fromEnv host.parsers env with
  | error e => simp
  | ok config =>
    simp only [configChannel,ConfigUpdate.new,Except.ok.injEq,exists_eq_left']
    exact ⟨fun h => (Except.ok.inj h).symm,fun h => congrArg _ h.symm⟩

/-- Every update that a run publishes is what some reload has loaded. -/
theorem published_loaded (l : List Event) (s : AppState DateTime) :
    ∀ u∈Machine.trace (step host) (published host) l s, ∃ env,
      .request (.configReload env)∈l ∧ fromEnv host.parsers env = .ok u.config := by
  induction l generalizing s with
  | nil => simp [Machine.trace]
  | cons e l ih =>
    intro u hu
    obtain hu | hu := List.mem_append.mp hu
    · cases e with
      | request r =>
        cases r with
        | configReload env =>
          simp only [published] at hu
          split at hu
          · cases hu
          · split at hu
            · next config hload =>
              obtain rfl := List.mem_singleton.mp hu
              exact ⟨env,List.mem_cons_self,hload⟩
            · cases hu
        | health | metrics | configStatus | dlqStatus | dlqDrain | webhookHealth | cacheStats =>
          cases hu
      | changed | borrowAndUpdate | shutdownSignal | drained => cases hu
    · obtain ⟨env,hmem,hload⟩ := ih _ u hu
      exact ⟨env,List.mem_cons_of_mem _ hmem,hload⟩

/-- Only accepted configurations are published, the task that has caught up has applied the last of
them, and the counters account for start, reloads and rejections. -/
theorem reload_ledger {env : Env} {s₀ : AppState DateTime} (hrun : run host env = .ok s₀)
    (l : List Event) :
    let s := Machine.final (step host) l s₀
    let sent := Machine.trace (step host) (published host) l s₀
    let got := Machine.trace (step host) applied l s₀
    (∀ u∈sent, ∃ env', .request (.configReload env')∈l ∧
        fromEnv host.parsers env' = .ok u.config) ∧
      s.configWatcher.value = sent.getLast?.getD s₀.configWatcher.value ∧ got.Sublist sent ∧
      (s.woken = false → s.configWatcher.hasChanged = false → got.getLast? = sent.getLast?) ∧
      s.metrics.config.configReloadTotal = 1+sent.length+got.length ∧
      s.metrics.config.configValidationFailures =
        Machine.total (step host) (rejected host) l s₀ := by
  intro s sent got
  obtain ⟨config,_,rfl⟩ := (run_ok_iff host).mp hrun
  have hstart : Tracked ⟨config,.current⟩ 0 [] [] (wire host config (Watch.channel ⟨config,.current⟩)
      ConfigMetrics.new.incrementConfigReload) := ⟨Watch.follows_channel _,rfl,rfl⟩
  have h := hstart.run host l
  rw [List.nil_append,List.nil_append,Nat.zero_add] at h
  refine ⟨published_loaded host l _,h.follows.latest,h.follows.sublist,fun hwoken hseen => ?_,
    h.reloads,h.failures⟩
  have hfollows := h.follows
  rw [hwoken] at hfollows
  exact hfollows.caught_up hseen

end

/-- Two reloads before the task wakes, and one that is turned down. -/
theorem reload_ledger_of_a_missed_update :
    let l : List Event := [.request (.configReload (sampleEnv [("PORT","81")])),
      .request (.configReload (sampleEnv [("PORT","82")])),.changed,
      .request (.configReload fun _ => none),.borrowAndUpdate]
    ∃ s₀, run Host.sample (sampleEnv []) = .ok s₀ ∧
      let s := Machine.final (step Host.sample) l s₀
      s.configWatcher.value.config.port = 82 ∧ s.metrics.config.configReloadTotal = 4 ∧
        s.metrics.config.configValidationFailures = 1 := by
  intro l
  have hload : fromEnv Host.sample.parsers (sampleEnv []) = .ok (load .sample (sampleEnv [])).1 :=
    fromEnv_of_load (by decide +kernel)
  have hrun := (run_ok_iff Host.sample).mpr ⟨_,hload,rfl⟩
  obtain ⟨-,hvalue,-,-,hreloads,hfailures⟩ := reload_ledger Host.sample hrun l
  refine ⟨_,hrun,?_,hreloads.trans (by decide +kernel),hfailures.trans (by decide +kernel)⟩
  rw [hvalue]
  decide +kernel

end ProofStell.Service
