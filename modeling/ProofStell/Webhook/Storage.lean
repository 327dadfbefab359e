import ProofStell.Webhook.Dispatcher
import ProofStell.Cache.Failover

/-! The cache under the dispatcher. While nothing fails, nothing is evicted and no
TTL runs out, both backends are plain maps. -/
namespace ProofStell.Webhook
open Transact Cache
variable {σ : Type}

/-- A cache without failures, evictions and expiries, for the TTLs in `ttls`: in the
states of `inv` it is a map. -/
structure CacheHandle.Healthy (cache : CacheHandle σ) (inv : σ → Prop)
    (contents : σ → CacheKey → Option String) (ttls : UInt64 → Prop) : Prop where
  get : ∀ s key, inv s → (cache.getRaw key s).1 = .ok (contents s key) ∧
    inv (cache.getRaw key s).2 ∧ contents (cache.getRaw key s).2 = contents s
  set : ∀ s key value ttl, inv s → ttls ttl → (cache.setRaw key value ttl s).1 = .ok () ∧
    inv (cache.setRaw key value ttl s).2 ∧ contents (cache.setRaw key value ttl s).2 =
      Function.update (contents s) key (some value)
  delete : ∀ s key, inv s → (cache.delete key s).1 = .ok () ∧ inv (cache.delete key s).2 ∧
    contents (cache.delete key s).2 = Function.update (contents s) key none

def atTurn {α : Type} (env : Nat → Surroundings)
    (x : Surroundings → Exec CacheBackend CacheError α) :
    Exec (CacheBackend × Nat) CacheError α := fun s =>
  ((x (env s.2) s.1).1,((x (env s.2) s.1).2,s.2+1))

def backendHandle (env : Nat → Surroundings) : CacheHandle (CacheBackend × Nat) where
  getRaw key := atTurn env fun e => CacheBackend.getRaw e key
  setRaw key value ttl := atTurn env fun e => CacheBackend.setRaw e key value ttl
  delete key := atTurn env fun e => CacheBackend.delete e key

def home : CacheBackend → Place
  | .redis _ => .redis
  | .inMemory _ => .fallback

def timed : CacheBackend → CacheKey → Option TimedValue
  | .redis c => RedisServer.contents c.connection
  | .inMemory c => c.contents

def AtEase : CacheBackend → Prop
  | .redis c => c.breaker.state = .closed ∧ c.health.backoffUntil = none ∧ c.fallback.maxSize = 0
  | .inMemory c => c.maxSize = 0

def Calm (env : Surroundings) : Prop :=
  env.permit = true ∧ env.ping = true ∧ env.command = true

theorem guards_at_ease {env : Surroundings} (he : Calm env) {c : RedisCache}
    (hc : c.breaker.state = .closed ∧ c.health.backoffUntil = none) :
    c.passGuards env =
      (.ok (),{ c with health := c.health.recordSuccess env.checkAt }) := by
  obtain ⟨hp,hping,_⟩ := he
  have hallow : c.circuitBreakerAllows env = (.ok true,c) := by
    simp [RedisCache.circuitBreakerAllows,CacheCircuitBreaker.shouldAllow,hc.1]
  have hcheck : c.checkConnection env =
      (.ok true,{ c with health := c.health.recordSuccess env.checkAt }) := by
    simp [RedisCache.checkConnection,HealthCheckState.shouldCheck,hc.2,hping]
  rw [RedisCache.passGuards,Exec.bind_of_ok hallow]
  simp only [hp,Exec.require_true,Exec.pure_bind]
  rw [Exec.bind_of_ok hcheck]
  rfl

theorem redis_at_ease {α : Type} {env : Surroundings} (he : Calm env) {c : RedisCache}
    (hc : c.breaker.state = .closed ∧ c.health.backoffUntil = none)
    (f : RedisServer → α × RedisServer) (x : Exec InMemoryCache CacheError α) :
    place env (.redis c) = .redis ∧
      (RedisCache.orFallback (RedisCache.guarded env f) x c).2.breaker.state = .closed ∧
      (RedisCache.orFallback (RedisCache.guarded env f) x c).2.health.backoffUntil = none := by
  have hg := guards_at_ease he hc
  have hserve : c.serves env = true := by
    simp [RedisCache.serves,hg,he.2.2,Except.isOk,Except.toBool]
  have hrun : (RedisCache.guarded env f c) = (.ok (f c.connection).1,
      { c with
        connection := (f c.connection).2
        health := c.health.recordSuccess env.checkAt
        breaker := ((c.breaker.recordSuccess env.recordAt).takeLastTransition).2
        reported := c.reported++
          ((c.breaker.recordSuccess env.recordAt).takeLastTransition).1.toList }) := by
    rw [RedisCache.guarded,Exec.bind_of_ok hg,if_pos he.2.2]
    rfl
  refine ⟨by simp [place,hserve],?_,?_⟩
  · simp [RedisCache.orFallback,hrun,CacheCircuitBreaker.takeLastTransition,
      CacheCircuitBreaker.recordSuccess,hc.1]
  · simp [RedisCache.orFallback,hrun,HealthCheckState.recordSuccess]

theorem either_at_ease {α : Type} {r : Request} (he : Calm r.env) {b : CacheBackend}
    (hb : AtEase b) {f : RedisServer → α × RedisServer} {x : Exec InMemoryCache CacheError α}
    (a : Place → (CacheKey → Option TimedValue) → α)
    (hf : ∀ s, (f s).1 = a .redis (RedisServer.contents s) ∧
      RedisServer.contents (f s).2 = keep .redis (RedisServer.contents s) r)
    (hx : ∀ c, c.maxSize = 0 → (x c).1 = .ok (a .fallback c.contents) ∧
      (x c).2.contents = keep .fallback c.contents r ∧ (x c).2.maxSize = c.maxSize) :
    let y := CacheBackend.either (RedisCache.orFallback (RedisCache.guarded r.env f) x) x b
    y.1 = .ok (a (home b) (timed b)) ∧ AtEase y.2 ∧ home y.2 = home b ∧
      timed y.2 = keep (home b) (timed b) r := by
  intro y
  cases b with
  | redis c =>
    obtain ⟨hbreaker,hhealth,hmax⟩ := hb
    obtain ⟨hplace,hclosed,hback⟩ := redis_at_ease he ⟨hbreaker,hhealth⟩ f x
    obtain ⟨h1,h2,h3⟩ := orFallback_contents (fun p => a p (contents p c))
      (hf c.connection) (hx c.fallback hmax)
    rw [hplace] at h1 h2
    have hserver := h2 .redis
    rw [if_pos rfl] at hserver
    exact ⟨h1,⟨hclosed,hback,h3.trans hmax⟩,rfl,hserver⟩
  | inMemory c =>
    obtain ⟨h1,h2,h3⟩ := hx c hb
    exact ⟨h1,h3.trans hb,rfl,h2⟩

def Lasting (env : Nat → Surroundings) (s : CacheBackend × Nat) : Prop :=
  ∀ k v, timed s.1 k = some v → ∀ m, s.2 ≤ m → reading (home s.1) (env m) < v.expiresAt

def LongTtl (env : Nat → Surroundings) (p : Place) (ttl : UInt64) : Prop :=
  ∀ m n, m ≤ n → reading p (env n) < deadline p (env m) ttl

structure Steady (env : Nat → Surroundings) (p : Place) (s : CacheBackend × Nat) : Prop where
  kind : home s.1 = p
  atEase : AtEase s.1
  lasting : Lasting env s

def backendContents (s : CacheBackend × Nat) (key : CacheKey) : Option String :=
  (timed s.1 key).map TimedValue.value

theorem alive_of_lasting {env : Nat → Surroundings} {s : CacheBackend × Nat} (h : Lasting env s)
    (key : CacheKey) :
    alive (reading (home s.1) (env s.2)) (timed s.1 key) = timed s.1 key := by
  cases hv : timed s.1 key with
  | none => rfl
  | some v => simp [alive,Option.filter_some,h key v hv s.2 (Nat.le_refl _)]

theorem lasting_update {env : Nat → Surroundings} {s : CacheBackend × Nat} (h : Lasting env s)
    {b : CacheBackend} (hb : home b = home s.1) {key : CacheKey} {o : Option TimedValue}
    (ht : timed b = Function.update (timed s.1) key o)
    (ho : ∀ v, o = some v → ∀ m, s.2 ≤ m → reading (home s.1) (env m) < v.expiresAt) :
    Lasting env (b,s.2+1) := by
  intro k v hv m hm
  simp only at hv hm ⊢
  rw [hb]
  rw [ht] at hv
  have hle : s.2 ≤ m := Nat.le_of_succ_le hm
  by_cases hk : k = key
  · subst hk
    rw [Function.update_self] at hv
    exact ho v hv m hle
  · rw [Function.update_of_ne hk] at hv
    exact h k v hv m hle

theorem contents_update {s : CacheBackend × Nat} {b : CacheBackend} {n : Nat} {key : CacheKey}
    {o : Option TimedValue} (ht : timed b = Function.update (timed s.1) key o) :
    backendContents (b,n) =
      Function.update (backendContents s) key (o.map TimedValue.value) := by
  refine Function.eq_update_iff.mpr ⟨?_,fun k hk => ?_⟩
  · simp [backendContents,ht]
  · simp [backendContents,ht,hk]

/-- Both backends are healthy in calm surroundings, for TTLs that outlast the run. -/
theorem backend_healthy (env : Nat → Surroundings) (hcalm : ∀ n, Calm (env n)) (p : Place) :
    (backendHandle env).Healthy (Steady env p) backendContents (LongTtl env p) where
  get := by
    intro s key hs
    obtain ⟨h1,h2,h3,h4⟩ := either_at_ease (r := ⟨env s.2,.get key⟩) (hcalm s.2) hs.atEase
      (fun p m => (alive (reading p (env s.2)) (m key)).map TimedValue.value)
      (fun t => redis_get_spec (env s.2) key t) fun c _ => lookup_spec (env s.2) key c
    have hsame := alive_of_lasting hs.lasting key
    rw [hsame] at h1
    have hkeep : timed ((backendHandle env).getRaw key s).2.1 =
        Function.update (timed s.1) key (timed s.1 key) :=
      h4.trans (congrArg (Function.update (timed s.1) key) hsame)
    refine ⟨h1,⟨h3.trans hs.kind,h2,?_⟩,?_⟩
    · exact lasting_update hs.lasting h3 hkeep fun v hv m hm => hs.lasting key v hv m hm
    · refine (contents_update hkeep).trans ?_
      exact Function.update_eq_self key _
  set := by
    intro s key value ttl hs httl
    obtain ⟨h1,h2,h3,h4⟩ := either_at_ease (r := ⟨env s.2,.set key value ttl⟩) (hcalm s.2) hs.atEase
      (f := RedisServer.setEx (env s.2).serverSecs key.asString value ttl) (fun _ _ => ())
      (fun t => ⟨rfl,redis_update _ _ _⟩) fun c hc => by
        rw [hc]
        exact inMemory_set_spec (env s.2) key value ttl hc
    refine ⟨h1,⟨h3.trans hs.kind,h2,?_⟩,contents_update h4⟩
    refine lasting_update hs.lasting h3 h4 fun v hv m hm => ?_
    cases hv
    rw [hs.kind]
    exact httl s.2 m hm
  delete := by
    intro s key hs
    obtain ⟨h1,h2,h3,h4⟩ := either_at_ease (r := ⟨env s.2,.delete key⟩) (hcalm s.2) hs.atEase
      (f := RedisServer.del key.asString) (fun _ _ => ())
      (fun t => ⟨rfl,redis_update _ _ _⟩) fun c _ => inMemory_delete_spec (env s.2) key c
    refine ⟨h1,⟨h3.trans hs.kind,h2,?_⟩,contents_update h4⟩
    exact lasting_update hs.lasting h3 h4 fun v hv => by cases hv

theorem steady_new (env : Nat → Surroundings) (n : Nat) :
    Steady env .fallback (.inMemory InMemoryCache.new,n) := by
  refine ⟨rfl,rfl,fun k v hv => ?_⟩
  simp [timed,InMemoryCache.contents,InMemoryCache.new,InMemoryCache.withMaxSize] at hv

theorem longTtl_still {e : Surroundings} {ttl : UInt64} (httl : 0 < ttl.toNat)
    (hnow : e.nowSecs.toNat < 2^64-1) : LongTtl (fun _ => e) .fallback ttl := by
  intro m n _
  simp only [reading,deadline,Saturating.add64_toNat]
  omega

end ProofStell.Webhook
