import ProofStell.Cache.Failover
import ProofStell.Lib.Semaphore

/-! Overlapping operations of the Redis backend: each waits, asks Redis and falls back by itself,
and all share the breaker, the bulkhead, the health check and the two stores. -/
namespace ProofStell.Cache
open Transact

structure RedisMetrics where
  cacheHits : Nat
  cacheMisses : Nat
  circuitRejections : Nat
  bulkheadRejections : Nat
  fallbackUses : Nat
  bulkheadActive : Nat
  deriving DecidableEq, Repr

def RedisMetrics.new : RedisMetrics := ⟨0,0,0,0,0,0⟩

def Op.onServer (secs : Nat) : Op → RedisServer → Option String × RedisServer
  | .get key => RedisServer.get secs key.asString
  | .set key value ttl => fun r => (none,(RedisServer.setEx secs key.asString value ttl r).2)
  | .delete key => fun r => (none,(RedisServer.del key.asString r).2)

def Op.onFallback (now : UInt64) : Op → Exec InMemoryCache CacheError (Option String)
  | .get key => CacheBackend.lookup now key
  | .set key value ttl => do InMemoryCache.setRaw now key value ttl; return none
  | .delete key => do InMemoryCache.delete key; return none

def RedisMetrics.looked (value : Option String) (op : Op) (m : RedisMetrics) : RedisMetrics :=
  match op with
  | .get _ =>
    if value.isSome then { m with cacheHits := m.cacheHits+1 }
    else { m with cacheMisses := m.cacheMisses+1 }
  | .set .. | .delete _ => m

namespace Overlapping

/-- Where an operation is. From `permitted` to `leaving` it has a permit of the bulkhead, at
`pinging` the lock of the health check. `returned` tells why it was not Redis that took it. -/
inductive Phase where
  | idle
  | admitted
  | permitted
  | entered
  | pinging
  | passed
  | failing (e : CacheError)
  | succeeding (value : Option String)
  | leaving (result : Except CacheError (Option String))
  | falling (e : CacheError)
  | returned (fell : Option CacheError) (result : Except CacheError (Option String))

def Phase.holdsPermit : Phase → Bool
  | .permitted | .entered | .pinging | .passed | .failing _ | .succeeding _ | .leaving _ => true
  | .idle | .admitted | .falling _ | .returned .. => false

def Phase.isPinging : Phase → Bool
  | .pinging => true
  | _ => false

structure Shared where
  cache : RedisCache
  available : Nat
  checking : Bool
  metrics : RedisMetrics

def advance (maxConcurrent : Nat) (op : Op) (env : Surroundings) : Phase → Shared → Phase × Shared
  | .idle, s =>
    let (allowed,breaker) := s.cache.breaker.shouldAllow env.allowAt
    let s := { s with cache := { s.cache with breaker := breaker } }
    if allowed then (.admitted,s)
    else (.falling .breakerOpen,{ s with
      metrics := { s.metrics with circuitRejections := s.metrics.circuitRejections+1 } })
  | .admitted, s =>
    if s.available = 0 then (.falling .bulkheadFull,{ s with
      metrics := { s.metrics with bulkheadRejections := s.metrics.bulkheadRejections+1 } })
    else (.permitted,{ s with available := s.available-1 })
  | .permitted, s => (.entered,{ s with
      metrics := { s.metrics with bulkheadActive := maxConcurrent-s.available } })
  | .entered, s =>
    -- the guard of the lock is kept while the `PING` is under way
    if s.checking then (.entered,s)
    else if s.cache.health.shouldCheck env.checkAt then (.pinging,{ s with checking := true })
    else if s.cache.health.isHealthy then (.passed,s)
    else (.failing .unhealthy,s)
  | .pinging, s =>
    if env.ping then (.passed,{ s with
      checking := false
      cache := { s.cache with health := s.cache.health.recordSuccess env.checkAt } })
    else (.failing .unhealthy,{ s with
      checking := false
      cache := { s.cache with health := s.cache.health.recordFailure env.checkAt } })
  | .passed, s =>
    if env.command then
      let (value,server) := op.onServer env.serverSecs s.cache.connection
      (.succeeding value,{ s with cache := { s.cache with connection := server } })
    else (.failing .command,s)
  | .failing e, s =>
    (.leaving (.error e),{ s with cache := (RedisCache.recordFailure env s.cache).2 })
  | .succeeding value, s =>
    (.leaving (.ok value),{ s with cache := (RedisCache.recordSuccess env s.cache).2 })
  | .leaving (.ok value), s => (.returned none (.ok value),{ s with
      available := s.available+1
      metrics := s.metrics.looked value op })
  | .leaving (.error e), s => (.falling e,{ s with available := s.available+1 })
  | .falling e, s =>
    let (result,fallback) := op.onFallback env.nowSecs s.cache.fallback
    (.returned (some e) result,{ s with
      cache := { s.cache with fallback := fallback }
      metrics := { s.metrics with fallbackUses := s.metrics.fallbackUses+1 } })
  | .returned fell result, s => (.returned fell result,s)

end Overlapping

/-- `unsettled` tells whose command has failed although the server may still execute it. -/
structure Overlapping (κ : Type) where
  shared : Overlapping.Shared
  phase : κ → Overlapping.Phase
  unsettled : κ → Bool

namespace Overlapping
variable {κ : Type} [DecidableEq κ] (maxConcurrent : Nat) (op : κ → Op)

/-- A turn of an operation, or the server executes a command that the operation has given up. -/
inductive Step (κ : Type) where
  | turn (k : κ) (env : Surroundings)
  | late (k : κ) (secs : Nat)
  deriving DecidableEq, Repr

def Phase.gaveUp (env : Surroundings) : Phase → Bool
  | .passed => !env.command
  | _ => false

def Shared.execute (o : Op) (secs : Nat) (s : Shared) : Shared :=
  { s with cache := { s.cache with connection := (o.onServer secs s.cache.connection).2 } }

def step (x : Step κ) (s : Overlapping κ) : Unit × Overlapping κ :=
  match x with
  | .turn k env =>
    let (phase,shared) := advance maxConcurrent (op k) env (s.phase k) s.shared
    ((),⟨shared,Function.update s.phase k phase,
      if (s.phase k).gaveUp env then Function.update s.unsettled k true else s.unsettled⟩)
  | .late k secs =>
    if s.unsettled k then ((),⟨s.shared.execute (op k) secs,s.phase,
      Function.update s.unsettled k false⟩)
    else ((),s)

def new (config : CacheCircuitBreakerConfig) : Overlapping κ :=
  ⟨⟨.withConfig config,maxConcurrent,false,.new⟩,fun _ => .idle,fun _ => false⟩

section
variable (o : Op) (env : Surroundings) (p : Phase) (s : Shared)

theorem advance_permit : Semaphore.Move s.available p.holdsPermit
    (advance maxConcurrent o env p s).2.available
    (advance maxConcurrent o env p s).1.holdsPermit := by
  cases p with
  | idle =>
    simp only [advance]
    split <;> exact .stay
  | admitted =>
    simp only [advance]
    split
    · exact .stay
    · next hfree => exact .take hfree rfl
  | permitted => exact .stay
  | entered =>
    simp only [advance]
    split
    · exact .stay
    · split
      · exact .stay
      · split <;> exact .stay
  | pinging =>
    simp only [advance]
    split <;> exact .stay
  | passed =>
    simp only [advance]
    split <;> exact .stay
  | failing e => exact .stay
  | succeeding value => exact .stay
  | leaving result =>
    cases result with
    | ok value => exact .give rfl
    | error e => exact .give rfl
  | falling e => exact .stay
  | returned fell result => exact .stay

/-- The lock of the health check as a semaphore of one permit. -/
def Shared.lock (s : Shared) : Nat := if s.checking then 0 else 1

theorem advance_lock (h : p.isPinging = true → s.checking = true) :
    Semaphore.Move s.lock p.isPinging (advance maxConcurrent o env p s).2.lock
      (advance maxConcurrent o env p s).1.isPinging := by
  cases p with
  | idle =>
    simp only [advance]
    split <;> exact .stay
  | admitted =>
    simp only [advance]
    split <;> exact .stay
  | permitted => exact .stay
  | entered =>
    simp only [advance]
    split
    · exact .stay
    · next hfree =>
      have hone : s.lock = 1 := by rw [Shared.lock,if_neg hfree]
      split
      · rw [hone]
        exact .take Nat.one_ne_zero rfl
      · split <;> exact .stay
  | pinging =>
    have hzero : s.lock = 0 := by rw [Shared.lock,if_pos (h rfl)]
    simp only [advance]
    rw [hzero]
    split <;> exact .give rfl
  | passed =>
    simp only [advance]
    split <;> exact .stay
  | failing e => exact .stay
  | succeeding value => exact .stay
  | leaving result => cases result <;> exact .stay
  | falling e => exact .stay
  | returned fell result => exact .stay

def Phase.counted : Phase → Bool
  | .entered | .pinging | .passed | .failing _ | .succeeding _ => true
  | .leaving _ | .returned none _ => true
  | .idle | .admitted | .permitted | .falling _ | .returned (some _) _ => false

theorem advance_gauge :
    (p = .permitted ∧ (advance maxConcurrent o env p s).2.metrics.bulkheadActive =
        maxConcurrent-s.available) ∨
      ((advance maxConcurrent o env p s).2.metrics.bulkheadActive = s.metrics.bulkheadActive ∧
        ((advance maxConcurrent o env p s).1.counted = true → p.counted = true)) := by
  cases p with
  | idle =>
    simp only [advance]
    split <;> exact Or.inr ⟨rfl,nofun⟩
  | admitted =>
    simp only [advance]
    split <;> exact Or.inr ⟨rfl,nofun⟩
  | permitted => exact Or.inl ⟨rfl,rfl⟩
  | entered =>
    simp only [advance]
    split
    · exact Or.inr ⟨rfl,id⟩
    · split
      · exact Or.inr ⟨rfl,fun _ => rfl⟩
      · split <;> exact Or.inr ⟨rfl,fun _ => rfl⟩
  | pinging =>
    simp only [advance]
    split <;> exact Or.inr ⟨rfl,fun _ => rfl⟩
  | passed =>
    simp only [advance]
    split <;> exact Or.inr ⟨rfl,fun _ => rfl⟩
  | failing e => exact Or.inr ⟨rfl,fun _ => rfl⟩
  | succeeding value => exact Or.inr ⟨rfl,fun _ => rfl⟩
  | leaving result =>
    cases result with
    | error e => exact Or.inr ⟨rfl,fun _ => rfl⟩
    | ok value =>
      refine Or.inr ⟨?_,fun _ => rfl⟩
      simp only [advance,RedisMetrics.looked]
      split
      · split <;> rfl
      · rfl
      · rfl
  | falling e => exact Or.inr ⟨rfl,nofun⟩
  | returned fell result => exact Or.inr ⟨rfl,id⟩

end

structure Sound (s : Overlapping κ) : Prop where
  permits : Semaphore.Balanced maxConcurrent s.shared.available fun k => (s.phase k).holdsPermit
  lock : Semaphore.Balanced 1 s.shared.lock fun k => (s.phase k).isPinging
  gauge : s.shared.metrics.bulkheadActive ≤ maxConcurrent
  shown : ∀ k, (s.phase k).counted = true → 1 ≤ s.shared.metrics.bulkheadActive

variable {maxConcurrent} {s : Overlapping κ}

omit [DecidableEq κ] in
theorem new_sound (config : CacheCircuitBreakerConfig) :
    Sound maxConcurrent (new maxConcurrent config : Overlapping κ) :=
  ⟨Semaphore.balanced_start _,Semaphore.balanced_start 1,Nat.zero_le _,nofun⟩

theorem Sound.late (h : Sound maxConcurrent s) (k : κ) (secs : Nat) :
    Sound maxConcurrent (step maxConcurrent op (.late k secs) s).2 := by
  simp only [Overlapping.step]
  split
  · exact ⟨h.permits,h.lock,h.gauge,h.shown⟩
  · exact h

theorem Sound.turn (h : Sound maxConcurrent s) (k : κ) (env : Surroundings) :
    Sound maxConcurrent (step maxConcurrent op (.turn k env) s).2 := by
  have hlocked : (s.phase k).isPinging = true → s.shared.checking = true := by
    intro hk
    have hlt := h.lock.held_of_held hk
    by_contra hfree
    rw [Shared.lock,if_neg hfree] at hlt
    exact Nat.lt_irrefl 1 hlt
  have hpermit := advance_permit maxConcurrent (op k) env (s.phase k) s.shared
  have hlock := advance_lock maxConcurrent (op k) env (s.phase k) s.shared hlocked
  have hgauge := advance_gauge maxConcurrent (op k) env (s.phase k) s.shared
  simp only [Overlapping.step]
  generalize advance maxConcurrent (op k) env (s.phase k) s.shared = r at hpermit hlock hgauge ⊢
  have hphase (f : Phase → Bool) : (fun j => f (Function.update s.phase k r.1 j)) =
      Function.update (fun j => f (s.phase j)) k (f r.1) := Function.comp_update f s.phase k r.1
  refine ⟨?_,?_,?_,fun j hj => ?_⟩
  · rw [hphase]
    exact h.permits.move hpermit
  · rw [hphase]
    exact h.lock.move hlock
  · obtain ⟨-,hset⟩ | ⟨hsame,-⟩ := hgauge
    · rw [hset]
      exact Nat.sub_le _ _
    · rw [hsame]
      exact h.gauge
  · obtain ⟨hpermitted,hset⟩ | ⟨hsame,hcounted⟩ := hgauge
    · have hheld := h.permits.held_of_held (k := k) (by rw [hpermitted]; rfl)
      rw [hset]
      omega
    · have hcount : (Function.update s.phase k r.1 j).counted = true := hj
      rw [hsame]
      by_cases hjk : j = k
      · subst hjk
        rw [Function.update_self] at hcount
        exact h.shown j (hcounted hcount)
      · rw [Function.update_of_ne hjk] at hcount
        exact h.shown j hcount

theorem Sound.step (h : Sound maxConcurrent s) (x : Step κ) :
    Sound maxConcurrent (step maxConcurrent op x s).2 := by
  cases x with
  | turn k env => exact h.turn op k env
  | late k secs => exact h.late op k secs

theorem run_sound (config : CacheCircuitBreakerConfig) (l : List (Step κ)) :
    Sound maxConcurrent (Machine.final (step maxConcurrent op) l (new maxConcurrent config)) :=
  Machine.final_invariant (P := Sound maxConcurrent) (fun x _ h => h.step op x) l _
    (new_sound config)

/-- In any interleaving of any number of operations the free permits and the operations inside
make up `max_concurrent`, while the gauge never shows 0 again once Redis has served anyone. -/
theorem bulkhead_bounds (config : CacheCircuitBreakerConfig) (l : List (Step κ)) :
    let s := Machine.final (step maxConcurrent op) l (new maxConcurrent config)
    (∃ inside : Finset κ, (∀ k, k∈inside ↔ (s.phase k).holdsPermit = true) ∧
      s.shared.available+inside.card = maxConcurrent) ∧
      (∀ j k, s.phase j = .pinging → s.phase k = .pinging → j = k) ∧
      (∀ k env, s.phase k = .admitted →
        ((step maxConcurrent op (.turn k env) s).2.phase k = .falling .bulkheadFull ↔
          ∃ S : Finset κ, S.card = maxConcurrent ∧ ∀ j∈S, (s.phase j).holdsPermit = true)) ∧
      (s.shared.available = maxConcurrent ↔ ∀ k, (s.phase k).holdsPermit = false) ∧
      s.shared.metrics.bulkheadActive ≤ maxConcurrent ∧
      ∀ k result, s.phase k = .returned none result → 1 ≤ s.shared.metrics.bulkheadActive := by
  intro s
  have hs : Sound maxConcurrent s := run_sound op config l
  refine ⟨hs.permits,fun j k hj hk => ?_,fun k env hk => ?_,
    hs.permits.all_free_iff,hs.gauge,fun k result hk => hs.shown k (by rw [hk]; rfl)⟩
  · by_contra hne
    have hpair : ∀ i∈({j,k} : Finset κ), (s.phase i).isPinging = true := by
      intro i hi
      obtain rfl | hi := Finset.mem_insert.mp hi
      · rw [hj]
        rfl
      · rw [Finset.mem_singleton.mp hi,hk]
        rfl
    have hle := hs.lock.card_le hpair
    rw [Finset.card_pair hne] at hle
    omega
  · rw [← hs.permits.none_free_iff]
    simp only [step,hk,advance,Function.update_self]
    by_cases hfree : s.shared.available = 0
    · simp [hfree]
    · simp [hfree]

def Phase.outcome : Phase → Option (Place × Except CacheError (Option String))
  | .succeeding value | .leaving (.ok value) => some (.redis,.ok value)
  | .returned none result => some (.redis,result)
  | .returned (some _) result => some (.fallback,result)
  | .idle | .admitted | .permitted | .entered | .pinging | .passed | .failing _
  | .leaving (.error _) | .falling _ => none

/-- How an operation is done: at Redis with an answer, at Redis when it has been given up, or on
the fallback; with the reading of the clock there. -/
inductive Deed where
  | redis (secs : Nat)
  | unheard (secs : Nat)
  | fallback (now : UInt64)
  deriving DecidableEq, Repr

def Deed.heard : Deed → Bool
  | .redis _ | .fallback _ => true
  | .unheard _ => false

def Deed.place : Deed → Place
  | .redis _ | .unheard _ => .redis
  | .fallback _ => .fallback

def apply (t : κ × Deed) (s : RedisServer × InMemoryCache) :
    Except CacheError (Option String) × (RedisServer × InMemoryCache) :=
  match t.2 with
  | .redis secs =>
    let (value,server) := (op t.1).onServer secs s.1
    (.ok value,server,s.2)
  | .unheard secs => (.error .command,((op t.1).onServer secs s.1).2,s.2)
  | .fallback now =>
    let (result,fallback) := (op t.1).onFallback now s.2
    (result,s.1,fallback)

def Phase.takes (k : κ) (env : Surroundings) : Phase → List (κ × Deed)
  | .passed => if env.command then [(k,.redis env.serverSecs)] else []
  | .falling _ => [(k,.fallback env.nowSecs)]
  | _ => []

def takes (x : Step κ) (s : Overlapping κ) : List (κ × Deed) :=
  match x with
  | .turn k env => (s.phase k).takes k env
  | .late k secs => if s.unsettled k then [(k,.unheard secs)] else []

def Shared.stores (s : Shared) : RedisServer × InMemoryCache :=
  (s.cache.connection,s.cache.fallback)

/-- The command of the operation has failed. -/
def Phase.lost : Phase → Bool
  | .failing .command | .leaving (.error .command) | .falling .command
  | .returned (some .command) _ => true
  | _ => false

variable (maxConcurrent) in
omit [DecidableEq κ] in
/-- A turn leaves the stores and what is decided as they are, or it decides the operation by
doing it on one of them. -/
theorem advance_effect (k : κ) (env : Surroundings) (p : Phase) (s : Shared) :
    let r := advance maxConcurrent (op k) env p s
    (p.takes k env = [] ∧ r.1.outcome = p.outcome ∧ r.2.stores = s.stores ∧
      r.2.metrics.fallbackUses = s.metrics.fallbackUses) ∨
    ∃ d, p.takes k env = [(k,d)] ∧ d.heard = true ∧ p.outcome = none ∧
      r.1.outcome = some (d.place,(apply op (k,d) s.stores).1) ∧
      r.2.stores = (apply op (k,d) s.stores).2 ∧
      r.2.metrics.fallbackUses =
        s.metrics.fallbackUses+if d.place = .fallback then 1 else 0 := by
  intro r
  cases p with
  | idle =>
    simp only [r,advance]
    split <;> exact Or.inl ⟨rfl,rfl,rfl,rfl⟩
  | admitted =>
    simp only [r,advance]
    split <;> exact Or.inl ⟨rfl,rfl,rfl,rfl⟩
  | permitted => exact Or.inl ⟨rfl,rfl,rfl,rfl⟩
  | entered =>
    simp only [r,advance]
    split
    · exact Or.inl ⟨rfl,rfl,rfl,rfl⟩
    · split
      · exact Or.inl ⟨rfl,rfl,rfl,rfl⟩
      · split <;> exact Or.inl ⟨rfl,rfl,rfl,rfl⟩
  | pinging =>
    simp only [r,advance]
    split <;> exact Or.inl ⟨rfl,rfl,rfl,rfl⟩
  | passed =>
    simp only [r,advance]
    split
    · next hcommand =>
      exact Or.inr ⟨.redis env.serverSecs,by rw [Phase.takes,if_pos hcommand],rfl,rfl,rfl,rfl,rfl⟩
    · next hcommand => exact Or.inl ⟨by rw [Phase.takes,if_neg hcommand],rfl,rfl,rfl⟩
  | failing e => exact Or.inl ⟨rfl,rfl,rfl,rfl⟩
  | succeeding value => exact Or.inl ⟨rfl,rfl,rfl,rfl⟩
  | leaving result =>
    cases result with
    | error e => exact Or.inl ⟨rfl,rfl,rfl,rfl⟩
    | ok value =>
      refine Or.inl ⟨rfl,rfl,rfl,?_⟩
      simp only [r,advance,RedisMetrics.looked]
      split
      · split <;> rfl
      · rfl
      · rfl
  | falling e => exact Or.inr ⟨.fallback env.nowSecs,rfl,rfl,rfl,rfl,rfl,rfl⟩
  | returned fell result => exact Or.inl ⟨rfl,rfl,rfl,rfl⟩

variable (maxConcurrent) in
theorem advance_lost (o : Op) (env : Surroundings) (p : Phase) (s : Shared)
    (h : p.lost = true ∨ p.gaveUp env = true) :
    (advance maxConcurrent o env p s).1.lost = true := by
  cases p with
  | idle | admitted | permitted | entered | pinging | succeeding _ =>
    exact h.elim (fun h => by cases h) fun h => by cases h
  | passed =>
    have hcommand : env.command = false := by simpa [Phase.lost,Phase.gaveUp] using h
    simp [advance,hcommand,Phase.lost]
  | failing e | falling e => cases e <;> simp_all [Phase.lost,Phase.gaveUp,advance]
  | leaving result =>
    cases result with
    | ok value => exact h.elim (fun h => by cases h) fun h => by cases h
    | error e => cases e <;> simp_all [Phase.lost,Phase.gaveUp,advance]
  | returned fell result => exact h.elim id fun h => by cases h

/-- Each operation that is decided has been done once, on one store, with the answer it has; and
the server has executed only commands that failed, each once. -/
structure Once (init : RedisServer × InMemoryCache) (log : List (κ × Deed)) (s : Overlapping κ) :
    Prop where
  stores : s.shared.stores = Machine.final (apply op) log init
  outcome : ∀ k place result, (s.phase k).outcome = some (place,result) ↔
    ∃ d : Deed, d.heard = true ∧ d.place = place ∧
      ((k,d),result)∈Machine.outputs (apply op) log init
  nodup : (log.map fun t => (t.1,t.2.heard)).Nodup
  unheard : ∀ t∈log, t.2.heard = false →
    (s.phase t.1).lost = true ∧ s.unsettled t.1 = false
  unsettled : ∀ k, s.unsettled k = true → (s.phase k).lost = true
  fallbacks : s.shared.metrics.fallbackUses = log.countP fun t => t.2.place = .fallback

omit [DecidableEq κ] in
theorem Once.undone {init : RedisServer × InMemoryCache} {log : List (κ × Deed)}
    (h : Once op init log s) {k : κ} (hk : (s.phase k).outcome = none) :
    ∀ t∈log, t.1 = k → t.2.heard = false := by
  intro t ht heq
  subst heq
  by_contra hheard
  rw [Bool.not_eq_false] at hheard
  rw [← Machine.outputs_map_fst (apply op) log init] at ht
  obtain ⟨⟨_,result⟩,hout,rfl⟩ := List.mem_map.mp ht
  have hsome := (h.outcome _ _ result).mpr ⟨_,hheard,rfl,hout⟩
  rw [hsome] at hk
  cases hk

theorem lost_eq_false {p : Phase} {env : Surroundings} (h : p.gaveUp env = true) :
    p.lost = false := by
  cases p with
  | passed => rfl
  | idle | admitted | permitted | entered | pinging | failing _ | succeeding _ | leaving _
  | falling _ | returned _ _ => cases h

variable (maxConcurrent) in
theorem Once.owed {init : RedisServer × InMemoryCache} {log : List (κ × Deed)}
    (h : Once op init log s) (k : κ) (env : Surroundings) :
    let s' := (Overlapping.step maxConcurrent op (.turn k env) s).2
    (∀ t∈log, t.2.heard = false → (s'.phase t.1).lost = true ∧ s'.unsettled t.1 = false) ∧
      ∀ j, s'.unsettled j = true → (s'.phase j).lost = true := by
  have hlost := advance_lost maxConcurrent (op k) env (s.phase k) s.shared
  simp only [Overlapping.step]
  generalize advance maxConcurrent (op k) env (s.phase k) s.shared = r at hlost ⊢
  constructor
  · intro t ht hheard
    obtain ⟨hwas,hsettled⟩ := h.unheard t ht hheard
    by_cases hk : t.1 = k
    · have hgave : (s.phase k).gaveUp env = false := by
        by_contra hgave
        rw [Bool.not_eq_false] at hgave
        rw [hk,lost_eq_false hgave] at hwas
        cases hwas
      rw [hk] at hwas hsettled
      simp [hk,hgave,hlost (Or.inl hwas),hsettled]
    · simp only [Function.update_of_ne hk]
      refine ⟨hwas,?_⟩
      split
      · rw [Function.update_of_ne hk]
        exact hsettled
      · exact hsettled
  · intro j hj
    by_cases hk : j = k
    · subst hk
      rw [Function.update_self]
      split at hj
      · next hgave => exact hlost (Or.inr hgave)
      · exact hlost (Or.inl (h.unsettled j hj))
    · rw [Function.update_of_ne hk]
      split at hj
      · rw [Function.update_of_ne hk] at hj
        exact h.unsettled j hj
      · exact h.unsettled j hj

omit [DecidableEq κ] in
theorem nodup_snoc {log : List (κ × Deed)} (h : (log.map fun t => (t.1,t.2.heard)).Nodup) {k : κ}
    {d : Deed} (hnew : ∀ t∈log, t.1 = k → t.2.heard≠d.heard) :
    ((log++[(k,d)]).map fun t => (t.1,t.2.heard)).Nodup := by
  rw [List.map_append,List.map_singleton]
  refine h.append (List.nodup_singleton _) ?_
  rw [List.disjoint_singleton]
  intro hmem
  obtain ⟨t,ht,heq⟩ := List.mem_map.mp hmem
  obtain ⟨hk,hheard⟩ := Prod.mk.inj heq
  exact hnew t ht hk hheard

theorem Once.turn {init : RedisServer × InMemoryCache} {log : List (κ × Deed)}
    (h : Once op init log s) (k : κ) (env : Surroundings) :
    Once op init (log++takes (.turn k env) s) (step maxConcurrent op (.turn k env) s).2 := by
  have heffect := advance_effect maxConcurrent op k env (s.phase k) s.shared
  obtain ⟨hunheard,hunsettled⟩ := h.owed maxConcurrent op k env
  simp only [takes,Overlapping.step] at hunheard hunsettled ⊢
  generalize advance maxConcurrent (op k) env (s.phase k) s.shared = r
    at heffect hunheard hunsettled ⊢
  obtain ⟨htakes,hout,hstores,hcount⟩ | ⟨d,htakes,hheard,hnone,hout,hstores,hcount⟩ := heffect
  · have hsame (j : κ) : (Function.update s.phase k r.1 j).outcome = (s.phase j).outcome := by
      by_cases hj : j = k
      · subst hj
        rw [Function.update_self,hout]
      · rw [Function.update_of_ne hj]
    rw [htakes,List.append_nil]
    refine ⟨hstores.trans h.stores,fun j place result => ?_,h.nodup,hunheard,hunsettled,
      hcount.trans h.fallbacks⟩
    rw [hsame]
    exact h.outcome j place result
  · have hnew := h.undone op hnone
    rw [htakes]
    refine ⟨?_,fun j place result => ?_,?_,fun t ht hno => ?_,hunsettled,?_⟩
    · rw [Machine.final_snoc,← h.stores]
      exact hstores
    · have hlast : Machine.outputs (apply op) [(k,d)] (Machine.final (apply op) log init) =
          [((k,d),(apply op (k,d) s.shared.stores).1)] := by rw [h.stores]; rfl
      rw [Machine.outputs_append,hlast]
      change (Function.update s.phase k r.1 j).outcome = some (place,result) ↔ _
      by_cases hj : j = k
      · subst hj
        rw [Function.update_self,hout]
        constructor
        · intro heq
          cases heq
          exact ⟨d,hheard,rfl,List.mem_append_right _ List.mem_cons_self⟩
        · rintro ⟨d',hheard',rfl,hmem⟩
          obtain hold | hlast := List.mem_append.mp hmem
          · have hno := hnew _ (Machine.mem_of_mem_outputs hold) rfl
            rw [hheard'] at hno
            cases hno
          · cases List.mem_singleton.mp hlast
            rfl
      · rw [Function.update_of_ne hj,h.outcome]
        simp [hj]
    · refine nodup_snoc h.nodup fun t ht hk => ?_
      rw [hnew t ht hk,hheard]
      decide
    · obtain ht | ht := List.mem_append.mp ht
      · exact hunheard t ht hno
      · rw [List.mem_singleton.mp ht,hheard] at hno
        cases hno
    · rw [hcount,h.fallbacks,List.countP_append]
      simp [List.countP_singleton]

theorem Once.late {init : RedisServer × InMemoryCache} {log : List (κ × Deed)}
    (h : Once op init log s) (k : κ) (secs : Nat) :
    Once op init (log++takes (.late k secs) s) (step maxConcurrent op (.late k secs) s).2 := by
  simp only [takes,Overlapping.step]
  split
  · next hk =>
    refine ⟨?_,fun j place result => ?_,?_,fun t ht hno => ?_,fun j hj => ?_,?_⟩
    · rw [Machine.final_snoc,← h.stores]
      rfl
    · rw [Machine.outputs_append]
      refine (h.outcome j place result).trans (exists_congr fun d => ?_)
      refine and_congr_right fun hheard => and_congr_right fun _ => ?_
      rw [List.mem_append]
      refine ⟨Or.inl,fun hmem => hmem.resolve_right fun hlast => ?_⟩
      obtain ⟨⟨rfl,rfl⟩,-⟩ := by simpa [Machine.outputs] using hlast
      cases hheard
    · refine nodup_snoc h.nodup fun t ht heq hno => ?_
      have hsettled := (h.unheard t ht hno).2
      rw [heq,hk] at hsettled
      cases hsettled
    · obtain ht | ht := List.mem_append.mp ht
      · obtain ⟨hlost,hsettled⟩ := h.unheard t ht hno
        refine ⟨hlost,?_⟩
        change Function.update s.unsettled k false t.1 = false
        by_cases heq : t.1 = k
        · rw [heq,Function.update_self]
        · rwa [Function.update_of_ne heq]
      · rw [List.mem_singleton.mp ht]
        exact ⟨h.unsettled k hk,Function.update_self ..⟩
    · have hj : Function.update s.unsettled k false j = true := hj
      by_cases heq : j = k
      · rw [heq,Function.update_self] at hj
        cases hj
      · rw [Function.update_of_ne heq] at hj
        exact h.unsettled j hj
    · rw [List.countP_append]
      exact h.fallbacks
  · rwa [List.append_nil]

theorem Once.step {init : RedisServer × InMemoryCache} {log : List (κ × Deed)}
    (h : Once op init log s) (x : Step κ) :
    Once op init (log++takes x s) (step maxConcurrent op x s).2 := by
  cases x with
  | turn k env => exact h.turn op k env
  | late k secs => exact h.late op k secs

/-- Every operation is answered once, by Redis or by the fallback. A command that failed may still
be executed, once and at any later time. -/
theorem each_answered_once (config : CacheCircuitBreakerConfig) (l : List (Step κ)) :
    let s := Machine.final (step maxConcurrent op) l (new maxConcurrent config)
    let log := Machine.trace (step maxConcurrent op) takes l (new maxConcurrent config)
    let init : RedisServer × InMemoryCache := (fun _ => none,.new)
    (s.shared.cache.connection,s.shared.cache.fallback) = Machine.final (apply op) log init ∧
      (log.map fun t => (t.1,t.2.heard)).Nodup ∧
      (∀ k fell result, s.phase k = .returned fell result → ∃ d : Deed, d.heard = true ∧
        d.place = (if fell = none then .redis else .fallback) ∧
        ((k,d),result)∈Machine.outputs (apply op) log init) ∧
      (∀ t∈log, t.2.heard = true → s.phase t.1≠.idle ∧ ∀ e, s.phase t.1≠.falling e) ∧
      (∀ t∈log, t.2.heard = false → (s.phase t.1).lost = true) ∧
      s.shared.metrics.fallbackUses = log.countP fun t => t.2.place = .fallback := by
  intro s log init
  have hstart : Once op init [] (new maxConcurrent config : Overlapping κ) :=
    ⟨rfl,fun k place result => by simp [new,Phase.outcome,Machine.outputs],List.nodup_nil,
      fun t ht => (by cases ht),fun k hk => (by cases hk),rfl⟩
  have h : Once op init log s :=
    Machine.trace_invariant (P := Once op init) (fun x _ _ h => h.step op x) l [] _ hstart
  refine ⟨h.stores,h.nodup,fun k fell result hk => ?_,fun t ht hheard => ?_,
    fun t ht hno => (h.unheard t ht hno).1,h.fallbacks⟩
  · rw [← h.outcome,hk]
    cases fell <;> rfl
  · have hdone : (s.phase t.1).outcome≠none := fun hnone => by
      have hno := h.undone op hnone t ht rfl
      rw [hheard] at hno
      cases hno
    exact ⟨fun hk => hdone (by rw [hk]; rfl),fun e hk => hdone (by rw [hk]; rfl)⟩

/-- A request on Redis is its command behind the guards, or else its fallback. -/
theorem request_redis (env : Surroundings) (o : Op) (c : RedisCache) :
    request ⟨env,o⟩ (.redis c) =
      ((RedisCache.orFallback (RedisCache.guarded env (o.onServer env.serverSecs))
          (o.onFallback env.nowSecs) c).1,
        .redis (RedisCache.orFallback (RedisCache.guarded env (o.onServer env.serverSecs))
          (o.onFallback env.nowSecs) c).2) := by
  cases o with
  | get key => rfl
  | set key value ttl =>
    simp only [request,CacheBackend.setRaw,RedisCache.setRaw,RedisCache.guarded,
      RedisCache.orFallback,Exec.bind_apply,CacheBackend.either]
    cases c.passGuards env with
    | mk o d =>
      cases o with
      | error e => rfl
      | ok u => cases env.command <;> rfl
  | delete key =>
    simp only [request,CacheBackend.delete,RedisCache.delete,RedisCache.guarded,
      RedisCache.orFallback,Exec.bind_apply,CacheBackend.either]
    cases c.passGuards env with
    | mk o d =>
      cases o with
      | error e => rfl
      | ok u => cases env.command <;> rfl

def turns (maxConcurrent : Nat) (o : Op) (env : Surroundings) :
    Nat → Phase → Shared → Phase × Shared
  | 0, p, s => (p,s)
  | n+1, p, s =>
    let (p,s) := advance maxConcurrent o env p s
    turns maxConcurrent o env n p s

variable (maxConcurrent) in
theorem final_replicate (k : κ) (env : Surroundings) (n : Nat) :
    let s' := Machine.final (step maxConcurrent op) (List.replicate n (.turn k env)) s
    s'.shared = (turns maxConcurrent (op k) env n (s.phase k) s.shared).2 ∧
      s'.phase k = (turns maxConcurrent (op k) env n (s.phase k) s.shared).1 := by
  induction n generalizing s with
  | zero => exact ⟨rfl,rfl⟩
  | succ n ih =>
    obtain ⟨hshared,hphase⟩ := ih (s := (step maxConcurrent op (.turn k env) s).2)
    simp only [List.replicate_succ,Machine.final,hshared,hphase]
    simp [step,turns]

variable (maxConcurrent) in
theorem turns_alone (o : Op) (env : Surroundings) (s : Shared) (hlock : s.checking = false)
    (hpermit : env.permit = decide (0 < s.available)) :
    let r := turns maxConcurrent o env 9 .idle s
    let x := request ⟨env,o⟩ (.redis s.cache)
    ∃ fell, r.1 = .returned fell x.1 ∧ x.2 = .redis r.2.cache ∧ r.2.available = s.available ∧
      r.2.checking = false ∧ (fell = none ↔ s.cache.serves env = true) := by
  intro r x
  simp only [x,request_redis,r,RedisCache.serves]
  rcases hb : s.cache.breaker.shouldAllow env.allowAt with ⟨allowed,b⟩
  cases allowed with
  | false =>
    simp [turns,advance,hb,RedisCache.orFallback,RedisCache.guarded,RedisCache.passGuards,
      RedisCache.circuitBreakerAllows,Exec.bind_apply,RedisCache.onFallback,Except.isOk,
      Except.toBool,hlock]
  | true =>
    by_cases hfree : s.available = 0
    · have hnone : env.permit = false := by simp [hpermit,hfree]
      simp [turns,advance,hb,RedisCache.orFallback,RedisCache.guarded,RedisCache.passGuards,
        RedisCache.circuitBreakerAllows,Exec.bind_apply,RedisCache.onFallback,Except.isOk,
        Except.toBool,hlock,hfree,hnone]
    · have hsome : env.permit = true := by simp [hpermit,Nat.pos_of_ne_zero hfree]
      have hback : s.available-1+1 = s.available := Nat.sub_add_cancel (Nat.pos_of_ne_zero hfree)
      by_cases hcheck : s.cache.health.shouldCheck env.checkAt = true
      · cases hping : env.ping <;> cases hcommand : env.command <;>
          simp [turns,advance,hb,RedisCache.orFallback,RedisCache.guarded,RedisCache.passGuards,
            RedisCache.circuitBreakerAllows,RedisCache.checkConnection,RedisCache.onServer,
            Exec.bind_apply,RedisCache.onFallback,Except.isOk,Except.toBool,hlock,hfree,hsome,
            hback,hcheck,hping,hcommand,RedisCache.recordFailure,RedisCache.recordSuccess,
            RedisCache.report]
      · cases hhealthy : s.cache.health.isHealthy <;> cases hcommand : env.command <;>
          simp [turns,advance,hb,RedisCache.orFallback,RedisCache.guarded,RedisCache.passGuards,
            RedisCache.circuitBreakerAllows,RedisCache.checkConnection,RedisCache.onServer,
            Exec.bind_apply,RedisCache.onFallback,Except.isOk,Except.toBool,hlock,hfree,hsome,
            hback,hcheck,hhealthy,hcommand,RedisCache.recordFailure,RedisCache.recordSuccess,
            RedisCache.report]

/-- By itself, with nobody at the health check, an operation is the request of the backend that
runs it in one go. -/
theorem alone_is_request (k : κ) (env : Surroundings) (hidle : s.phase k = .idle)
    (hlock : s.shared.checking = false) (hpermit : env.permit = decide (0 < s.shared.available)) :
    let s' := Machine.final (step maxConcurrent op) (List.replicate 9 (.turn k env)) s
    let x := Cache.step ⟨env,op k⟩ (.redis s.shared.cache)
    x.2 = .redis s'.shared.cache ∧ s'.shared.available = s.shared.available ∧
      ∃ fell, s'.phase k = .returned fell x.1.1 ∧ (fell = none ↔ x.1.2 = .redis) := by
  intro s' x
  obtain ⟨fell,hphase,hcache,havailable,_,hfell⟩ :=
    turns_alone maxConcurrent (op k) env s.shared hlock hpermit
  obtain ⟨hshared,hphase'⟩ := final_replicate maxConcurrent op k env 9 (s := s)
  rw [hidle] at hshared hphase'
  rw [hshared,hphase']
  refine ⟨hcache,havailable,fell,hphase,?_⟩
  rw [hfell]
  simp [x,Cache.step,place]

end Overlapping
end ProofStell.Cache
