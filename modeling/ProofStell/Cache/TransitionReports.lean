import ProofStell.Cache.BreakerProbes
import ProofStell.Cache.Redis

/-! What the metrics hear of the cache breaker. The last transition waits in one place until
the next result is recorded, and a transition made by that result takes its place. -/
namespace ProofStell.Cache
open CacheCircuitBreaker
variable {κ : Type} [DecidableEq κ]

/-- The cache, the operations that were let through and have not recorded their result, and
every change of the breaker's state so far. -/
structure Reporting (κ : Type) where
  cache : RedisCache
  pending : List κ
  changes : List (CircuitState × CircuitState)

namespace Reporting

inductive Step (κ : Type) where
  | arrive (k : κ) (env : Surroundings)
  | finish (k : κ) (env : Surroundings) (success : Bool)

def new (config : CacheCircuitBreakerConfig) : Reporting κ := ⟨.withConfig config,[],[]⟩

def changed (c c' : RedisCache) : List (CircuitState × CircuitState) :=
  if c.breaker.state = c'.breaker.state then [] else [(c.breaker.state,c'.breaker.state)]

def record (env : Surroundings) (success : Bool) (c : RedisCache) : RedisCache :=
  if success then (RedisCache.recordSuccess env c).2 else (RedisCache.recordFailure env c).2

/-- `circuit_breaker_allows`, or `record_success` or `record_failure`. A step of an operation
that is not at that step is ignored. -/
def step (x : Step κ) (s : Reporting κ) : Unit × Reporting κ :=
  match x with
  | .arrive k env =>
    if k∈s.pending then ((),s)
    else
      let (allowed,c) := RedisCache.circuitBreakerAllows env s.cache
      let pending := match allowed with
        | .ok true => k::s.pending
        | _ => s.pending
      ((),⟨c,pending,s.changes++changed s.cache c⟩)
  | .finish k env success =>
    if k∈s.pending then
      let c := record env success s.cache
      ((),⟨c,s.pending.erase k,s.changes++changed s.cache c⟩)
    else ((),s)

/-- The transitions that were reported, and the one that waits to be. -/
def known (s : Reporting κ) : List (CircuitState × CircuitState) :=
  s.cache.reported++s.cache.breaker.lastTransition.toList

/-- A result that finds a transition waiting is a success, and one of several that are needed. -/
def keepsReport (config : CacheCircuitBreakerConfig) (s : Reporting κ) : Step κ → Bool
  | .arrive _ _ => true
  | .finish k _ success =>
    !(s.pending.contains k && s.cache.breaker.lastTransition.isSome) ||
      (success && 1 < config.halfOpenMaxCalls)

/-- All that waits is the way into `HalfOpen`, with the operation that took it under way. -/
structure Waiting (config : CacheCircuitBreakerConfig) (s : Reporting κ) : Prop where
  keeps : s.cache.breaker.Keeps config
  waits : s.cache.breaker.lastTransition = none ∨
    s.cache.breaker.lastTransition = some (.isOpen,.halfOpen) ∧
      s.cache.breaker.state = .halfOpen ∧ s.cache.breaker.halfOpenCalls = 0 ∧ s.pending≠[]
  fewer : s.known.length ≤ s.changes.length

omit [DecidableEq κ] in
theorem called_result {b b' : CacheCircuitBreaker} {now : Nat} {success : Bool}
    {reply : Option Bool} (h : Called b (Operations.result now success) reply b') :
    (b'.state = b.state ∧ b'.lastTransition = b.lastTransition) ∨
      (b'.state≠b.state ∧ b'.lastTransition = some (b.state,b'.state)) := by
  cases success with
  | true =>
    cases h with
    | cleared hs => exact Or.inl ⟨rfl,rfl⟩
    | probed hs hcalls => exact Or.inl ⟨rfl,rfl⟩
    | recovered hs hcalls => exact Or.inr ⟨by simp [transitionTo,hs],rfl⟩
    | lateSuccess hs => exact Or.inl ⟨rfl,rfl⟩
  | false =>
    cases h with
    | counted hs hcount => exact Or.inl ⟨rfl,rfl⟩
    | tripped hs hcount => exact Or.inr ⟨by simp [transitionTo,hs],rfl⟩
    | reopened hs => exact Or.inr ⟨by simp [transitionTo,hs],rfl⟩
    | lateFailure hs => exact Or.inl ⟨rfl,rfl⟩

/-- The first result after the way into `HalfOpen` leaves it unless it is a success and more
than one is needed. -/
theorem first_result_stays_iff {b : CacheCircuitBreaker} (hs : b.state = .halfOpen)
    (hcalls : b.halfOpenCalls = 0) (now : Nat) (success : Bool) :
    (b.call (Operations.result now success)).2.state = b.state ↔
      success = true ∧ 1 < b.halfOpenMaxCalls := by
  cases success with
  | true =>
    simp only [Operations.result,if_true,call,recordSuccess,hs,hcalls,UInt32.zero_add,true_and]
    by_cases hmax : b.halfOpenMaxCalls ≤ 1
    · rw [if_pos hmax]
      simp [transitionTo,UInt32.not_lt.mpr hmax]
    · rw [if_neg hmax]
      simp [UInt32.not_le.mp hmax]
  | false => simp [Operations.result,call,recordFailure,hs,transitionTo]

omit [DecidableEq κ] in
theorem record_eq (env : Surroundings) (success : Bool) (c : RedisCache) :
    let b := (c.breaker.call (Operations.result env.recordAt success)).2
    record env success c = { c with
      breaker := { b with lastTransition := none }
      reported := c.reported++b.lastTransition.toList } := by
  cases success <;> rfl

def Told (s s' : Reporting κ) : Prop :=
  ∃ new, s'.changes = s.changes++new ∧ s'.known = s.known++new

omit [DecidableEq κ] in
theorem Told.refl (s : Reporting κ) : Told s s := ⟨[],by simp,by simp⟩

theorem step_arrive (k : κ) (env : Surroundings) (s : Reporting κ) :
    ((step (.arrive k env) s).2.cache = s.cache ∧ (step (.arrive k env) s).2.changes = s.changes ∧
      (s.pending≠[] → (step (.arrive k env) s).2.pending≠[])) ∨
    (s.cache.breaker.state = .isOpen ∧
      (step (.arrive k env) s).2 = ⟨{ s.cache with
        breaker := s.cache.breaker.transitionTo env.allowAt .halfOpen },k::s.pending,
        s.changes++[(.isOpen,.halfOpen)]⟩) := by
  by_cases hk : k∈s.pending
  · simp [step,hk]
  · obtain ⟨allowed,b,hallows,hcall⟩ : ∃ allowed b,
        RedisCache.circuitBreakerAllows env s.cache = (.ok allowed,{ s.cache with breaker := b }) ∧
          Called s.cache.breaker (.shouldAllow env.allowAt) (some allowed) b :=
      ⟨_,_,rfl,call_called (.shouldAllow env.allowAt) s.cache.breaker⟩
    simp only [step,if_neg hk,hallows]
    cases hcall with
    | entered hs hdue => exact Or.inr ⟨hs,by simp [changed,transitionTo,hs]⟩
    | passed hs => exact Or.inl ⟨rfl,by simp [changed],fun _ => List.cons_ne_nil _ _⟩
    | waiting hs hdue => exact Or.inl ⟨rfl,by simp [changed],id⟩
    | probe hs =>
      refine Or.inl ⟨rfl,by simp [changed],fun hne => ?_⟩
      split
      · exact List.cons_ne_nil _ _
      · exact hne

theorem arrive_told {config : CacheCircuitBreakerConfig} {s : Reporting κ}
    (h : s.Waiting config) (k : κ) (env : Surroundings) :
    Told s (step (.arrive k env) s).2 := by
  obtain ⟨hcache,hchanges,_⟩ | ⟨hopen,hstep⟩ := step_arrive k env s
  · exact ⟨[],by simp [hchanges],by simp [known,hcache]⟩
  · have hnone : s.cache.breaker.lastTransition = none := by
      obtain hnone | ⟨_,hhalf,_⟩ := h.waits
      · exact hnone
      · rw [hopen] at hhalf
        cases hhalf
    rw [hstep]
    exact ⟨[(.isOpen,.halfOpen)],rfl,by simp [known,hnone,transitionTo,hopen]⟩

theorem step_finish {k : κ} {s : Reporting κ} (hk : k∈s.pending) (env : Surroundings)
    (success : Bool) :
    let b := (s.cache.breaker.call (Operations.result env.recordAt success)).2
    (step (.finish k env success) s).2.cache.breaker = { b with lastTransition := none } ∧
      (b.state = s.cache.breaker.state →
        Told s (step (.finish k env success) s).2) ∧
      (b.state≠s.cache.breaker.state →
        (step (.finish k env success) s).2.changes = s.changes++[(s.cache.breaker.state,b.state)] ∧
        (step (.finish k env success) s).2.known =
          s.cache.reported++[(s.cache.breaker.state,b.state)]) := by
  intro b
  have hresult := called_result (call_called (Operations.result env.recordAt success)
    s.cache.breaker)
  simp only [step,if_pos hk,record_eq,known,Told,changed]
  refine ⟨rfl,fun hsame => ⟨[],?_,?_⟩,fun hmoved => ⟨?_,?_⟩⟩
  · simp [b] at hsame
    simp [hsame]
  · obtain ⟨_,hlast⟩ | ⟨hne,_⟩ := hresult
    · simp [hlast]
    · exact absurd hsame hne
  · rw [if_neg (Ne.symm hmoved)]
  · obtain ⟨heq,_⟩ | ⟨_,hlast⟩ := hresult
    · exact absurd heq hmoved
    · simp [hlast,b]

theorem finish_told {config : CacheCircuitBreakerConfig} {s : Reporting κ}
    (h : s.Waiting config) {k : κ} {env : Surroundings} {success : Bool}
    (hkeep : s.keepsReport config (.finish k env success) = true) :
    Told s (step (.finish k env success) s).2 := by
  by_cases hk : k∈s.pending
  · obtain ⟨_,hsame,hmoved⟩ := step_finish hk env success
    by_cases hstate : (s.cache.breaker.call (Operations.result env.recordAt success)).2.state =
        s.cache.breaker.state
    · exact hsame hstate
    · obtain ⟨hchanges,hknown⟩ := hmoved hstate
      obtain hnone | ⟨hsome,hhalf,hcalls,_⟩ := h.waits
      · exact ⟨_,hchanges,by rw [hknown]; simp [known,hnone]⟩
      · refine absurd ((first_result_stays_iff hhalf hcalls env.recordAt success).mpr ?_) hstate
        simpa [keepsReport,hk,hsome,h.keeps.probes] using hkeep
  · rw [step,if_neg hk]
    exact Told.refl s

theorem finish_loses {config : CacheCircuitBreakerConfig} {s : Reporting κ}
    (h : s.Waiting config) {k : κ} {env : Surroundings} {success : Bool}
    (hlose : ¬s.keepsReport config (.finish k env success) = true) :
    (step (.finish k env success) s).2.changes.length = s.changes.length+1 ∧
      (step (.finish k env success) s).2.known.length = s.known.length := by
  obtain ⟨hk,hsome,hresult⟩ : k∈s.pending ∧ s.cache.breaker.lastTransition.isSome = true ∧
      ¬(success = true ∧ 1 < config.halfOpenMaxCalls) := by
    simp [keepsReport] at hlose
    obtain ⟨⟨hk,hne⟩,hmax⟩ := hlose
    refine ⟨hk,Option.isSome_iff_ne_none.mpr hne,fun hboth => ?_⟩
    exact UInt32.not_lt.mpr (hmax hboth.1) hboth.2
  obtain hnone | ⟨hwaits,hhalf,hcalls,_⟩ := h.waits
  · rw [hnone] at hsome
    cases hsome
  · obtain ⟨_,_,hmoved⟩ := step_finish hk env success
    have hleaves : ¬(s.cache.breaker.call (Operations.result env.recordAt success)).2.state =
        s.cache.breaker.state := by
      rw [first_result_stays_iff hhalf hcalls,h.keeps.probes]
      exact hresult
    obtain ⟨hchanges,hknown⟩ := hmoved hleaves
    rw [hchanges,hknown]
    simp [known,hwaits]

omit [DecidableEq κ] in
theorem Told.fewer {s s' : Reporting κ} (h : Told s s') :
    s'.changes.length-s'.known.length = s.changes.length-s.known.length ∧
      (s.known.length ≤ s.changes.length → s'.known.length ≤ s'.changes.length) ∧
      (s.known = s.changes → s'.known = s'.changes) := by
  obtain ⟨new,hchanges,hknown⟩ := h
  rw [hchanges,hknown,List.length_append,List.length_append]
  exact ⟨by omega,by omega,fun heq => by rw [heq]⟩

theorem Waiting.step {config : CacheCircuitBreakerConfig} (x : Step κ) {s : Reporting κ}
    (h : s.Waiting config) : (step x s).2.Waiting config := by
  cases x with
  | arrive k env =>
    have hfewer := (arrive_told h k env).fewer.2.1 h.fewer
    obtain ⟨hcache,hchanges,hpending⟩ | ⟨hopen,hstep⟩ := step_arrive k env s
    · refine ⟨hcache ▸ h.keeps,?_,hfewer⟩
      rw [hcache]
      exact h.waits.imp_right fun hw => ⟨hw.1,hw.2.1,hw.2.2.1,hpending hw.2.2.2⟩
    · rw [hstep] at hfewer ⊢
      refine ⟨?_,Or.inr ⟨?_,rfl,rfl,List.cons_ne_nil _ _⟩,hfewer⟩
      · obtain ⟨hthreshold,hduration,hprobes,hbase,hmax⟩ := h.keeps
        exact ⟨hthreshold,hduration,hprobes,hbase,hmax⟩
      · simp [transitionTo,hopen]
  | finish k env success =>
    by_cases hk : k∈s.pending
    · have hfewer : (Reporting.step (.finish k env success) s).2.known.length ≤
          (Reporting.step (.finish k env success) s).2.changes.length := by
        by_cases hkeep : s.keepsReport config (.finish k env success) = true
        · exact (finish_told h hkeep).fewer.2.1 h.fewer
        · obtain ⟨hchanges,hknown⟩ := finish_loses h hkeep
          have := h.fewer
          omega
      obtain ⟨hbreaker,_⟩ := step_finish hk env success
      have hkeeps := h.keeps.call
        (call_called (Operations.result env.recordAt success) s.cache.breaker)
      refine ⟨?_,Or.inl (by rw [hbreaker]),hfewer⟩
      rw [hbreaker]
      obtain ⟨hthreshold,hduration,hprobes,hbase,hmax⟩ := hkeeps
      exact ⟨hthreshold,hduration,hprobes,hbase,hmax⟩
    · rw [Reporting.step,if_neg hk]
      exact h

omit [DecidableEq κ] in
theorem waiting_new (config : CacheCircuitBreakerConfig) :
    (new config : Reporting κ).Waiting config :=
  ⟨keeps_new config,Or.inl rfl,Nat.le_refl _⟩

omit [DecidableEq κ] in
/-- When no operation is under way, nothing waits to be reported. -/
theorem Waiting.quiet {config : CacheCircuitBreakerConfig} {s : Reporting κ}
    (h : s.Waiting config) (hquiet : s.pending = []) : s.known = s.cache.reported := by
  obtain hnone | ⟨_,_,_,hne⟩ := h.waits
  · simp [known,hnone]
  · exact absurd hquiet hne

/-- Along a run in which no waiting transition is overwritten, everything that changed is known. -/
theorem known_of_along {config : CacheCircuitBreakerConfig} {l : List (Step κ)}
    (h : Machine.Along step (fun s x => s.keepsReport config x = true) l (new config)) :
    (Machine.final step l (new config)).known = (Machine.final step l (new config)).changes := by
  have hboth := Machine.along_invariant
    (I := fun s : Reporting κ => s.Waiting config ∧ s.known = s.changes) ?_ h
    ⟨waiting_new config,rfl⟩
  · exact hboth.2
  · intro s x hs hkeep
    refine ⟨hs.1.step x,?_⟩
    cases x with
    | arrive k env => exact (arrive_told hs.1 k env).fewer.2.2 hs.2
    | finish k env success => exact (finish_told hs.1 hkeep).fewer.2.2 hs.2

/-- Whenever no operation is under way, the transitions sent to the metrics are the changes of the
state, as long as no result overwrites a transition that waits. -/
theorem transitions_reported_iff (config : CacheCircuitBreakerConfig) (l : List (Step κ)) :
    let s := Machine.final step l (new config)
    (Machine.Along step (fun s x => s.keepsReport config x = true) l (new config) →
      ∀ n, (Machine.final step (l.take n) (new config)).pending = [] →
        (Machine.final step (l.take n) (new config)).cache.reported =
          (Machine.final step (l.take n) (new config)).changes) ∧
    (s.pending = [] → (s.cache.reported = s.changes ↔
      Machine.Along step (fun s x => s.keepsReport config x = true) l (new config))) := by
  intro s
  have hwaiting (u : List (Step κ)) : (Machine.final step u (new config)).Waiting config :=
    Machine.final_invariant (fun x _ h => h.step x) u _ (waiting_new config)
  have htold {u : List (Step κ)} (hquiet : (Machine.final step u (new config)).pending = [])
      (h : Machine.Along step (fun s x => s.keepsReport config x = true) u (new config)) :
      (Machine.final step u (new config)).cache.reported =
        (Machine.final step u (new config)).changes :=
    ((hwaiting u).quiet hquiet).symm.trans (known_of_along h)
  refine ⟨fun h n hquiet => ?_,fun hquiet => ⟨fun heq => ?_,htold hquiet⟩⟩
  · rw [← List.take_append_drop n l,Machine.along_append] at h
    exact htold hquiet h.1
  · refine (Machine.measure_iff_along (I := fun s : Reporting κ => s.Waiting config)
      (fun s => s.changes.length-s.known.length) (fun x _ h => h.step x) ?_ ?_ l
      (waiting_new config)).2.mp ?_
    · intro x t ht hkeep
      cases x with
      | arrive k env => exact (arrive_told ht k env).fewer.1
      | finish k env success => exact (finish_told ht hkeep).fewer.1
    · intro x t ht hlose
      cases x with
      | arrive k env => exact absurd rfl hlose
      | finish k env success =>
        obtain ⟨hchanges,hknown⟩ := finish_loses ht hlose
        have := ht.fewer
        omega
    · have hknown := (hwaiting l).quiet hquiet
      change s.changes.length-s.known.length = _
      rw [show s.known = s.cache.reported from hknown,heq]
      simp [new,known]

/-- Two successes are needed, so the way into `HalfOpen` is reported before the way out. -/
theorem transitions_reported_with_two_probes :
    let env (now : Nat) : Surroundings := ⟨now,now,now,true,true,true,0,0⟩
    let l : List (Step Nat) := [.arrive 1 (env 0),.finish 1 (env 0) false,
      .arrive 2 (env 100000000),.finish 2 (env 100000001) true,.arrive 3 (env 100000002),
      .finish 3 (env 100000003) true]
    (Machine.final step l (new ⟨1,30000,2,100,30000⟩)).cache.reported =
        (Machine.final step l (new ⟨1,30000,2,100,30000⟩)).changes ∧
      (Machine.final step l (new ⟨1,30000,2,100,30000⟩)).changes =
        [(.closed,.isOpen),(.isOpen,.halfOpen),(.halfOpen,.closed)] := by
  intro env l
  exact ⟨((transitions_reported_iff _ l).2 (by decide +kernel)).mpr (by decide +kernel),
    by decide +kernel⟩

/-- The default configuration: five failures, a pause, and one probe that succeeds. The metrics
never hear of `Open -> HalfOpen`. -/
theorem half_open_goes_unreported :
    let env (now : Nat) : Surroundings := ⟨now,now,now,true,true,true,0,0⟩
    let l : List (Step Nat) := (List.range 5).flatMap (fun k =>
      [.arrive k (env 0),.finish k (env 0) false])++[.arrive 5 (env 1600000000),
        .finish 5 (env 1600000001) true]
    let s := Machine.final step l (new CacheCircuitBreakerConfig.default)
    s.pending = [] ∧ s.cache.reported = [(.closed,.isOpen),(.halfOpen,.closed)] ∧
      s.changes = [(.closed,.isOpen),(.isOpen,.halfOpen),(.halfOpen,.closed)] ∧
      s.cache.reported≠s.changes := by
  intro env l s
  exact ⟨by decide +kernel,by decide +kernel,by decide +kernel,by decide +kernel⟩

end Reporting
end ProofStell.Cache
