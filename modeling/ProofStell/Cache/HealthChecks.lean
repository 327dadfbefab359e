import ProofStell.Cache.Failover
import ProofStell.Lib.Backoff

/-! Outages of Redis: how often an unreachable server is asked, and when a recovered one is
found. -/
namespace ProofStell.Cache
open Transact

def second : Nat := 1000000000

/-- The operation gets past the breaker and the bulkhead and sends a `PING`. -/
def RedisCache.contacts (env : Surroundings) (c : RedisCache) : Bool :=
  (c.breaker.shouldAllow env.allowAt).1 && env.permit && c.health.shouldCheck env.checkAt

def pings (r : Request) : CacheBackend → List Nat
  | .redis c => if c.contacts r.env then [r.env.checkAt] else []
  | .inMemory _ => []

namespace RedisCache
variable (env : Surroundings) (c : RedisCache)

/-- The guards pass what the breaker and the bulkhead admit while the server is healthy, and only
a `PING` changes what is known of its health. -/
theorem passGuards_spec :
    (c.passGuards env).1.isOk = ((c.breaker.shouldAllow env.allowAt).1 && env.permit &&
        (if c.health.shouldCheck env.checkAt then env.ping else c.health.isHealthy)) ∧
      (c.passGuards env).2.health =
        if c.contacts env then
          if env.ping then c.health.recordSuccess env.checkAt
          else c.health.recordFailure env.checkAt
        else c.health := by
  have hallow : circuitBreakerAllows env c = (.ok (c.breaker.shouldAllow env.allowAt).1,
      { c with breaker := (c.breaker.shouldAllow env.allowAt).2 }) := rfl
  rw [contacts,passGuards,Exec.bind_of_ok hallow]
  generalize (c.breaker.shouldAllow env.allowAt).2 = b
  cases (c.breaker.shouldAllow env.allowAt).1 with
  | false => simp [Except.isOk,Except.toBool]
  | true =>
    cases env.permit with
    | false => simp [Except.isOk,Except.toBool]
    | true =>
      simp only [Exec.require_true,Exec.pure_bind,Bool.and_true,Bool.true_and,Exec.bind_apply,
        checkConnection]
      by_cases hcheck : c.health.shouldCheck env.checkAt = true
      · cases env.ping <;> simp [hcheck,Except.isOk,Except.toBool,recordFailure,report]
      · cases hhealthy : c.health.isHealthy <;> simp [hcheck,hhealthy,Except.isOk,Except.toBool,
          recordFailure,report]

theorem guarded_health {α : Type} (f : RedisServer → α × RedisServer) :
    (guarded env f c).2.health = (c.passGuards env).2.health := by
  rw [guarded,Exec.bind_apply]
  cases c.passGuards env with
  | mk o d =>
    cases o with
    | error e => rfl
    | ok u => cases env.command <;> rfl

theorem orFallback_health {α : Type} (f : RedisServer → α × RedisServer)
    (x : Exec InMemoryCache CacheError α) :
    (orFallback (guarded env f) x c).2.health = (c.passGuards env).2.health := by
  rw [← guarded_health env c f,orFallback]
  cases guarded env f c with
  | mk o d => cases o <;> rfl

end RedisCache

theorem step_redis (r : Request) (c : RedisCache) :
    ∃ c', (step r (.redis c)).2 = .redis c' ∧ c'.health = (c.passGuards r.env).2.health ∧
      (c.serves r.env = false → c'.connection = c.connection) := by
  have command {α : Type} (f : RedisServer → α × RedisServer)
      (x : Exec InMemoryCache CacheError α) (hserve : c.serves r.env = false) :
      (RedisCache.orFallback (RedisCache.guarded r.env f) x c).2.connection = c.connection := by
    have hspec := orFallback_spec r.env f x c
    rw [if_neg (by simp [hserve])] at hspec
    exact hspec.2.1
  have unit (x : Exec RedisCache CacheError Unit) (y : Exec InMemoryCache CacheError Unit) :
      (do CacheBackend.either x y; return none : Exec CacheBackend CacheError (Option String))
        (.redis c) = ((x c).1.map fun _ => none,.redis (x c).2) := by
    rw [Exec.bind_apply,CacheBackend.either]
    cases x c with
    | mk o d => cases o <;> rfl
  obtain ⟨env,op⟩ := r
  cases op with
  | get key => exact ⟨_,rfl,RedisCache.orFallback_health _ _ _ _,command _ _⟩
  | set key value ttl =>
    exact ⟨_,congrArg Prod.snd (unit _ _),RedisCache.orFallback_health _ _ _ _,command _ _⟩
  | delete key =>
    exact ⟨_,congrArg Prod.snd (unit _ _),RedisCache.orFallback_health _ _ _ _,command _ _⟩

theorem backoff_secs {n : Nat} {failures : UInt32} (h : failures.toNat = n) (hn : n+1 < 2^32) :
    (failures+1).toNat = n+1 ∧
      min (2^(min (failures+1) 6).toNat) 60 = Backoff.delay 2 60 n := by
  have hnext : (failures+1).toNat = n+1 := by
    rw [UInt32.toNat_add,UInt32.toNat_one,h]
    exact Nat.mod_eq_of_lt hn
  refine ⟨hnext,?_⟩
  have hclamp : min (1*2^min (n+1) 6) 60 = min (1*2^(n+1)) 60 :=
    Saturating.min_clamped_pow (n+1) (by omega) (by omega)
  rw [Nat.one_mul,Nat.one_mul] at hclamp
  rw [Saturating.min32_toNat,hnext,show (6:UInt32).toNat = 6 from rfl,hclamp,Backoff.delay,
    Nat.pow_succ,Nat.mul_comm]

/-- Nothing is known against the server: its last `PING`, if there was one, went through. -/
def HealthCheckState.Clear (h : HealthCheckState) : Prop :=
  h.backoffUntil = none ∧ h.consecutiveFailures = 0

/-- The cache after failed `PING`s at the instants `h`. -/
structure RedisCache.Outage (server : RedisServer) (h : List Nat) (c : RedisCache) : Prop where
  connection : c.connection = server
  failures : c.health.consecutiveFailures.toNat = h.length
  spaced : Backoff.Spaced second 2 60 0 h
  waits : match h.getLast? with
    | none => c.health.backoffUntil = none
    | some t => c.health.isHealthy = false ∧
        c.health.backoffUntil = some (t+Backoff.delay 2 60 (h.length-1)*second)

namespace RedisCache.Outage
variable {server : RedisServer} {h : List Nat} {c : RedisCache}

theorem unhealthy (hc : c.Outage server h) {now : Nat}
    (hwait : ¬c.health.shouldCheck now = true) : c.health.isHealthy = false := by
  have hwaits := hc.waits
  cases hlast : h.getLast? with
  | none =>
    rw [hlast] at hwaits
    simp [HealthCheckState.shouldCheck,hwaits] at hwait
  | some t =>
    rw [hlast] at hwaits
    exact hwaits.1

theorem not_serves (hc : c.Outage server h) {env : Surroundings} (hping : env.ping = false) :
    c.serves env = false := by
  rw [serves,(passGuards_spec env c).1]
  by_cases hcheck : c.health.shouldCheck env.checkAt = true
  · simp [hcheck,hping]
  · simp [hcheck,hc.unhealthy hcheck]

/-- A further failed `PING` comes after the pause that the earlier ones ask for. -/
theorem spaced_snoc (hc : c.Outage server h) {now : Nat}
    (hcheck : c.health.shouldCheck now = true) :
    Backoff.Spaced second 2 60 0 (h++[now]) := by
  have hwaits := hc.waits
  have hspaced := hc.spaced
  obtain rfl | ⟨l,t,rfl⟩ := List.eq_nil_or_concat h
  · trivial
  · rw [List.concat_eq_append] at hspaced hwaits ⊢
    rw [List.getLast?_concat,List.length_append,List.length_singleton,Nat.add_sub_cancel] at hwaits
    rw [List.append_assoc]
    apply hspaced.snoc
    rw [HealthCheckState.shouldCheck,hwaits.2] at hcheck
    rw [Nat.zero_add]
    exact Nat.le_of_not_lt (of_decide_eq_true hcheck)

theorem step (hc : c.Outage server h) {r : Request}
    (hlen : h.length+(pings r (.redis c)).length < 2^32) (hping : r.env.ping = false) :
    ∃ c', (step r (.redis c)).2 = .redis c' ∧ c'.Outage server (h++pings r (.redis c)) := by
  obtain ⟨c',hstep,hhealth,hconn⟩ := step_redis r c
  have hserver := (hconn (hc.not_serves hping)).trans hc.connection
  refine ⟨c',hstep,?_⟩
  rw [(passGuards_spec r.env c).2] at hhealth
  by_cases hcontact : c.contacts r.env = true
  · rw [pings,if_pos hcontact,List.length_singleton] at hlen
    obtain ⟨hfailures,hsecs⟩ := backoff_secs hc.failures hlen
    have hcheck : c.health.shouldCheck r.env.checkAt = true :=
      (Bool.and_eq_true_iff.mp hcontact).2
    rw [if_pos hcontact,if_neg (by simp [hping]),HealthCheckState.recordFailure,hsecs] at hhealth
    rw [pings,if_pos hcontact]
    refine ⟨hserver,?_,hc.spaced_snoc hcheck,?_⟩
    · rw [hhealth,List.length_append]
      exact hfailures
    · rw [List.getLast?_concat,List.length_append,List.length_singleton,Nat.add_sub_cancel,hhealth]
      exact ⟨rfl,rfl⟩
  · rw [if_neg hcontact] at hhealth
    rw [pings,if_neg hcontact,List.append_nil]
    exact ⟨hserver,by rw [hhealth]; exact hc.failures,hc.spaced,by rw [hhealth]; exact hc.waits⟩

theorem run (hc : c.Outage server h) {l : List Request}
    (hlen : h.length+(Machine.trace Cache.step pings l (.redis c)).length < 2^32)
    (hdown : ∀ r∈l, r.env.ping = false) :
    (∃ c', Machine.final Cache.step l (.redis c) = .redis c' ∧
      c'.Outage server (h++Machine.trace Cache.step pings l (.redis c))) ∧
    ∀ o∈Machine.outputs Cache.step l (.redis c), o.2.2 = .fallback := by
  induction l generalizing h c with
  | nil => exact ⟨⟨c,rfl,by simpa [Machine.trace] using hc⟩,fun o ho => by cases ho⟩
  | cons r l ih =>
    rw [Machine.trace,List.length_append] at hlen
    have hfirst : r.env.ping = false := hdown r List.mem_cons_self
    obtain ⟨c',hstep,hc'⟩ := hc.step (by omega) hfirst
    rw [hstep] at hlen
    obtain ⟨hfinal,houts⟩ := ih hc' (by rw [List.length_append]; omega)
      fun r hr => hdown r (List.mem_cons_of_mem _ hr)
    rw [Machine.final,Machine.trace,Machine.outputs,hstep,← List.append_assoc]
    refine ⟨hfinal,fun o ho => ?_⟩
    obtain rfl | ho := List.mem_cons.mp ho
    · simp [Cache.step,place,hc.not_serves hfirst]
    · exact houts o ho

end RedisCache.Outage

/-- An unreachable server is left in peace: its failed `PING`s lie 2, 4, 8, 16, 32 and then always
60 seconds apart. A recovered one is found a minute after the last. -/
theorem outage_and_recovery {c : RedisCache} (hclear : c.health.Clear) {l : List Request}
    (hlen : (Machine.trace step pings l (.redis c)).length < 2^32)
    (hdown : ∀ r∈l, r.env.ping = false) :
    let asked := Machine.trace step pings l (.redis c)
    ∃ c', Machine.final step l (.redis c) = .redis c' ∧ c'.connection = c.connection ∧
      (∀ o∈Machine.outputs step l (.redis c), o.2.2 = .fallback) ∧
      Backoff.Spaced second 2 60 0 asked ∧
      (∀ first∈asked.head?, ∀ last∈asked.getLast?,
        first+asked.length*60*second ≤ last+298*second) ∧
      ∀ r : Request, (c'.breaker.shouldAllow r.env.allowAt).1 = true → r.env.permit = true →
        (∀ last∈asked.getLast?, last+60*second ≤ r.env.checkAt) →
        pings r (.redis c') = [r.env.checkAt] ∧
        (r.env.ping = true → r.env.command = true → place r.env (.redis c') = .redis) := by
  intro asked
  obtain ⟨hnone,hzero⟩ := hclear
  have hstart : c.Outage c.connection [] := ⟨rfl,by simp [hzero],trivial,hnone⟩
  obtain ⟨⟨c',hfinal,hc'⟩,houts⟩ := hstart.run (by simpa using hlen) hdown
  change c'.Outage c.connection asked at hc'
  clear_value asked
  refine ⟨c',hfinal,hc'.connection,houts,hc'.spaced,?_,?_⟩
  · intro first hfirst last hlast
    cases asked with
    | nil => cases hfirst
    | cons t rest =>
      obtain rfl : t = first := by simpa using hfirst
      have hspan := hc'.spaced.span hlast
      rw [Nat.zero_add,Backoff.total_zero,Nat.zero_mul,Nat.add_zero] at hspan
      have hcap : rest.length*60+Backoff.total 2 60 5 ≤ Backoff.total 2 60 rest.length+5*60 :=
        Backoff.cap_mul_le (by omega) rest.length
      have hsaved : Backoff.total 2 60 5 = 62 := by decide
      rw [hsaved] at hcap
      have hpauses := Nat.mul_le_mul_right second hcap
      rw [Nat.add_mul,Nat.add_mul] at hpauses
      rw [List.length_cons,Nat.succ_mul,Nat.add_mul]
      omega
  · intro r hallow hpermit hlate
    have hcheck : c'.health.shouldCheck r.env.checkAt = true := by
      have hwaits := hc'.waits
      cases hlast : asked.getLast? with
      | none =>
        rw [hlast] at hwaits
        simp [HealthCheckState.shouldCheck,hwaits]
      | some t =>
        rw [hlast] at hwaits
        have hcap : Backoff.delay 2 60 (asked.length-1)*second ≤ 60*second :=
          Nat.mul_le_mul_right second (Backoff.delay_le_cap _)
        have hle := hlate t hlast
        simp only [HealthCheckState.shouldCheck,hwaits.2,decide_eq_true_eq]
        omega
    have hcontact : c'.contacts r.env = true := by
      rw [RedisCache.contacts,hallow,hpermit,hcheck]
      rfl
    refine ⟨by rw [pings,if_pos hcontact],fun hping hcommand => ?_⟩
    have hserve : c'.serves r.env = true := by
      rw [RedisCache.serves,(RedisCache.passGuards_spec r.env c').1,hallow,hpermit,hcheck,hping,
        hcommand]
      rfl
    rw [place,if_pos hserve]

/-- One failed `PING`, and a request 60 seconds later. -/
theorem outage_and_recovery_after_one_check :
    let down : Request := ⟨⟨0,0,0,true,false,false,0,0⟩,.get (.config "k")⟩
    let back : Request := ⟨⟨0,0,60*second,true,true,true,60,60⟩,.get (.config "k")⟩
    ∃ c', Machine.final step [down] (.redis (.withConfig .default)) = .redis c' ∧
      place back.env (.redis c') = .redis := by
  intro down back
  obtain ⟨c',hfinal,_,_,_,_,hback⟩ := outage_and_recovery
    (c := .withConfig .default) ⟨rfl,rfl⟩ (l := [down]) (by decide +kernel) (by simp [down])
  have hclosed : c'.breaker.state = .closed := by
    have hstate := congrArg (fun b : CacheBackend => match b with
      | .redis c => c.breaker.state
      | .inMemory _ => .isOpen) hfinal
    exact hstate.symm
  refine ⟨c',hfinal,(hback back ?_ rfl ?_).2 rfl rfl⟩
  · rw [CacheCircuitBreaker.shouldAllow,hclosed]
  · intro last hlast
    obtain rfl : 0 = last := Option.some.inj hlast
    exact Nat.le_of_eq (Nat.zero_add _)

end ProofStell.Cache
