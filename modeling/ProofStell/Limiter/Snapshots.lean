import ProofStell.Cache.Bulk
import ProofStell.Cache.Redis
import ProofStell.Lib.Json
import ProofStell.Limiter.Tiers

/-! The snapshot of a bucket that a successful check is to leave in the shared cache. The write
is asynchronous and the check is not. -/
namespace ProofStell.Limiter
open Cache Transact

structure IssuerBucketSnapshot where
  remaining : UInt32
  resetAt : UInt64
  deriving DecidableEq, Repr

namespace IssuerBucketSnapshot

def toJson (s : IssuerBucketSnapshot) : Json.Value :=
  .object [("remaining",Json.ofU32 s.remaining),("reset_at",Json.ofU64 s.resetAt)]

def ofJson (v : Json.Value) : Option IssuerBucketSnapshot := do
  let fields ← Json.asRecord ["remaining","reset_at"] 0 v
  let remaining ← Json.required "remaining" Json.asU32 fields
  let resetAt ← Json.required "reset_at" Json.asU64 fields
  return ⟨remaining,resetAt⟩

theorem ofJson_toJson (s : IssuerBucketSnapshot) : ofJson s.toJson = some s := by
  have hremaining : Json.required "remaining" Json.asU32
      [("remaining",Json.ofU32 s.remaining),("reset_at",Json.ofU64 s.resetAt)] =
        some s.remaining := Json.asU32_ofU32 s.remaining
  have hreset : Json.required "reset_at" Json.asU64
      [("remaining",Json.ofU32 s.remaining),("reset_at",Json.ofU64 s.resetAt)] =
        some s.resetAt := Json.asU64_ofU64 s.resetAt
  rw [ofJson,toJson,Json.asRecord_object]
  simp only [Option.bind_eq_bind,Option.bind_some,hremaining,hreset,Option.pure_def]

end IssuerBucketSnapshot

/-- A future that is dropped before anything has polled it. The body of an `async fn` starts
with the first poll, so nothing of it runs. -/
def dropFuture {σ ε : Type} {α : Type} (_future : Exec σ ε α) : Exec σ ε Unit := pure ()

structure CachedLimiter (γ : Type) where
  limiter : PerIssuerRateLimiter γ
  cache : Option CacheBackend

structure Check where
  issuer : String
  instant : Nat
  later : Nat
  now : UInt64
  env : Surroundings
  deriving DecidableEq, Repr

def snapshotKey (issuer : String) : CacheKey := .config ("rate_limit:"++issuer)

namespace CachedLimiter
variable {γ : Type} (G : Governor γ)

def withCache (limiter : PerIssuerRateLimiter γ) (cache : CacheBackend) : CachedLimiter γ :=
  ⟨limiter,some cache⟩

def snapshotWrite (env : Surroundings) (issuer : String) (ttl now : UInt64)
    (bucket : AtomicTokenBucket) : Exec CacheBackend CacheError Unit :=
  let (remaining,resetAt) := bucket.snapshot now
  let snapshot : IssuerBucketSnapshot := ⟨remaining,resetAt⟩
  let serialized := Json.render snapshot.toJson
  CacheBackend.setRaw env (snapshotKey issuer) serialized ttl

/-- `let _ = cache.set_raw(..)`. -/
def recordSuccess (env : Surroundings) (issuer : String) (now : UInt64) (s : CachedLimiter γ) :
    CachedLimiter γ :=
  match s.cache with
  | none => s
  | some cache =>
    match s.limiter.buckets issuer with
    | none => s
    | some bucket =>
      let future := snapshotWrite env issuer s.limiter.config.issuerTtlSeconds now bucket
      { s with cache := some (dropFuture future cache).2 }

def check (c : Check) (s : CachedLimiter γ) : Except RateLimitError Unit × CachedLimiter γ :=
  match s.limiter.check G c.issuer c.instant c.later c.now with
  | (.error e,limiter) => (.error e,{ s with limiter := limiter })
  | (.ok (),limiter) => (.ok (),{ s with limiter := limiter }.recordSuccess c.env c.issuer c.now)

end CachedLimiter

/-- From `now` until the time to live is over, a read of the issuer's key gives a text that
decodes to the snapshot; `parse` is `serde_json::from_str`. -/
def Serves (parse : String → Option Json.Value) (issuer : String) (now ttl : UInt64)
    (snapshot : UInt32 × UInt64) (cache : CacheBackend) : Prop :=
  ∀ env : Surroundings, now ≤ env.nowSecs → env.nowSecs < Saturating.add64 now ttl →
    ∃ text value, (CacheBackend.getRaw env (snapshotKey issuer) cache).1 = .ok (some text) ∧
      parse text = some value ∧
      IssuerBucketSnapshot.ofJson value = some ⟨snapshot.1,snapshot.2⟩

def CachedLimiter.SnapshotCached {γ : Type} (parse : String → Option Json.Value)
    (issuer : String) (now : UInt64) (s : CachedLimiter γ) : Prop :=
  ∃ bucket cache, s.limiter.buckets issuer = some bucket ∧ s.cache = some cache ∧
    Serves parse issuer now s.limiter.config.issuerTtlSeconds (bucket.snapshot now) cache

theorem getRaw_inMemory (env : Surroundings) (key : CacheKey) (c : InMemoryCache) :
    (CacheBackend.getRaw env key (.inMemory c)).1 =
      .ok (InMemoryCache.look env.nowSecs key c).1 := by
  have hlookup : (CacheBackend.lookup env.nowSecs key c).1 =
      .ok (InMemoryCache.look env.nowSecs key c).1 := by
    rw [CacheBackend.lookup,Exec.bind_apply,InMemoryCache.getRawWithExpiry_eq]
    rfl
  exact hlookup

/-- A cache without the key serves only for a time to live that is over at once. -/
theorem serves_absent_iff {parse : String → Option Json.Value} {issuer : String}
    {now ttl : UInt64} {snapshot : UInt32 × UInt64} {c : InMemoryCache}
    (habsent : c.store.lookup (snapshotKey issuer) = none) :
    Serves parse issuer now ttl snapshot (.inMemory c) ↔ ¬now < Saturating.add64 now ttl := by
  constructor
  · intro hserves hlater
    obtain ⟨text,_,hread,_⟩ := hserves ⟨0,0,0,true,true,true,0,now⟩ (UInt64.le_refl now) hlater
    rw [getRaw_inMemory,InMemoryCache.look,habsent] at hread
    cases hread
  · intro hover env hfrom huntil
    exact absurd (UInt64.lt_of_le_of_lt hfrom huntil) hover

/-- The write itself would do: run to its end, it leaves the snapshot in an unbounded cache. -/
theorem snapshotWrite_serves {parse : String → Option Json.Value}
    (hparse : ∀ s : IssuerBucketSnapshot, parse (Json.render s.toJson) = some s.toJson)
    (env : Surroundings) (issuer : String) (ttl : UInt64) (bucket : AtomicTokenBucket)
    {c : InMemoryCache} (hmax : c.maxSize = 0) :
    Serves parse issuer env.nowSecs ttl (bucket.snapshot env.nowSecs)
      (CachedLimiter.snapshotWrite env issuer ttl env.nowSecs bucket (.inMemory c)).2 := by
  intro env' hfrom huntil
  let snapshot : IssuerBucketSnapshot :=
    ⟨(bucket.snapshot env.nowSecs).1,(bucket.snapshot env.nowSecs).2⟩
  let w : InMemoryCache.Write := ⟨env.nowSecs,snapshotKey issuer,Json.render snapshot.toJson,ttl⟩
  have hwritten : (CachedLimiter.snapshotWrite env issuer ttl env.nowSecs bucket
      (.inMemory c)).2 = .inMemory (InMemoryCache.announce w c) := by
    change CacheBackend.inMemory (InMemoryCache.setRaw w.now w.key w.value w.ttl c).2 = _
    rw [InMemoryCache.setRaw_eq,if_neg (by rw [hmax]; exact Nat.lt_irrefl 0)]
  have hlookup : (InMemoryCache.announce w c).store.lookup (snapshotKey issuer) =
      some w.entry := by
    rw [InMemoryCache.announce,InMemoryCache.lookup_put,if_pos rfl]
  refine ⟨_,_,?_,hparse snapshot,IssuerBucketSnapshot.ofJson_toJson snapshot⟩
  rw [hwritten,getRaw_inMemory,InMemoryCache.look,hlookup]
  exact congrArg (fun p : Option String × InMemoryCache => Except.ok p.1) (if_pos huntil)

namespace CachedLimiter
variable {γ : Type} (G : Governor γ)

/-- The dropped write leaves everything as it was. -/
theorem recordSuccess_eq (env : Surroundings) (issuer : String) (now : UInt64)
    (s : CachedLimiter γ) : s.recordSuccess env issuer now = s := by
  obtain ⟨limiter,cache⟩ := s
  rw [recordSuccess]
  cases cache with
  | none => rfl
  | some cache =>
    cases limiter.buckets issuer with
    | none => rfl
    | some bucket => rfl

theorem check_eq (c : Check) (s : CachedLimiter γ) : s.check G c =
    ((s.limiter.check G c.issuer c.instant c.later c.now).1,
      { s with limiter := (s.limiter.check G c.issuer c.instant c.later c.now).2 }) := by
  rw [check]
  split
  · next e limiter heq => rw [heq]
  · next limiter heq => rw [heq,recordSuccess_eq]

theorem check_frame (c : Check) (s : CachedLimiter γ) :
    (s.check G c).2.cache = s.cache ∧ (s.check G c).2.limiter.config = s.limiter.config := by
  rw [check_eq]
  refine ⟨rfl,?_⟩
  obtain ⟨_,_,heq⟩ | ⟨_,heq,_⟩ :=
    PerIssuerRateLimiter.check_spec G c.issuer c.instant c.later c.now s.limiter
  · rw [heq]
  · rw [heq]
    rfl

theorem run_frame (calls : List Check) (s : CachedLimiter γ) :
    (Machine.final (check G) calls s).cache = s.cache ∧
      (Machine.final (check G) calls s).limiter.config = s.limiter.config :=
  Machine.final_invariant
    (P := fun d : CachedLimiter γ => d.cache = s.cache ∧ d.limiter.config = s.limiter.config)
    (fun c d hd => ⟨(check_frame G c d).1.trans hd.1,(check_frame G c d).2.trans hd.2⟩)
    calls s ⟨rfl,rfl⟩

theorem bucket_of_ok {c : Check} {s : CachedLimiter γ} (hok : (s.check G c).1 = .ok ()) :
    ∃ bucket, (s.check G c).2.limiter.buckets c.issuer = some bucket := by
  rw [check_eq] at hok ⊢
  obtain ⟨_,_,heq⟩ | ⟨_,heq,_⟩ :=
    PerIssuerRateLimiter.check_spec G c.issuer c.instant c.later c.now s.limiter
  · rw [heq] at hok
    cases hok
  · rw [heq]
    exact ⟨_,Function.update_self _ _ _⟩

/-- At the end of any run of checks the cache serves a snapshot only if it did so before the
limiter was built. -/
theorem snapshot_cached_iff (parse : String → Option Json.Value) (config : RateLimitConfig)
    (cache : InMemoryCache) (calls : List Check) (c : Check)
    (hok : ((Machine.final (check G) calls
      (withCache (.new G config) (.inMemory cache))).check G c).1 = .ok ()) :
    let s := ((Machine.final (check G) calls
      (withCache (.new G config) (.inMemory cache))).check G c).2
    (∃ bucket, s.limiter.buckets c.issuer = some bucket ∧
      (s.SnapshotCached parse c.issuer c.now ↔ Serves parse c.issuer c.now
        config.issuerTtlSeconds (bucket.snapshot c.now) (.inMemory cache))) ∧
    (cache.store.lookup (snapshotKey c.issuer) = none →
      (s.SnapshotCached parse c.issuer c.now ↔
        ¬c.now < Saturating.add64 c.now config.issuerTtlSeconds)) := by
  intro s
  obtain ⟨bucket,hbucket⟩ := bucket_of_ok G hok
  obtain ⟨hrun,hrun'⟩ := run_frame G calls (withCache (.new G config) (.inMemory cache))
  obtain ⟨hlast,hlast'⟩ := check_frame G c (Machine.final (check G) calls
    (withCache (.new G config) (.inMemory cache)))
  have hcache : s.cache = some (.inMemory cache) := hlast.trans hrun
  have hconfig : s.limiter.config = config := hlast'.trans hrun'
  have hiff : s.SnapshotCached parse c.issuer c.now ↔ Serves parse c.issuer c.now
      config.issuerTtlSeconds (bucket.snapshot c.now) (.inMemory cache) := by
    rw [SnapshotCached,hcache,hconfig]
    constructor
    · rintro ⟨bucket',cache',hbucket',hcache',hserves⟩
      rw [Option.some.inj (hbucket.symm.trans hbucket'),Option.some.inj hcache']
      exact hserves
    · exact fun hserves => ⟨bucket,_,hbucket,rfl,hserves⟩
  exact ⟨⟨bucket,hbucket,hiff⟩,fun habsent => hiff.trans (serves_absent_iff habsent)⟩

/-- Two issuers check in the same second, and the snapshot of the second is not served. -/
theorem snapshot_cached_second_issuer :
    let snapshot : IssuerBucketSnapshot := ⟨19,1700000001⟩
    let parse : String → Option Json.Value := fun text =>
      if text = Json.render snapshot.toJson then some snapshot.toJson else none
    let checkOf : String → Check := fun issuer =>
      ⟨issuer,0,0,1700000000,⟨0,0,0,true,true,true,0,1700000000⟩⟩
    let s := Machine.final (check gcra) [checkOf "first"]
      (withCache (.new gcra .default) (.inMemory .new))
    (s.check gcra (checkOf "second")).1 = .ok () ∧
      ¬(s.check gcra (checkOf "second")).2.SnapshotCached parse "second" 1700000000 := by
  intro snapshot parse checkOf s
  have hok : (s.check gcra (checkOf "second")).1 = .ok () := by decide +kernel
  refine ⟨hok,fun hcached => ?_⟩
  exact ((snapshot_cached_iff gcra parse .default .new [checkOf "first"] (checkOf "second")
    hok).2 rfl).mp hcached (by decide +kernel)

/-- The first check of an issuer passes, and an hour of time to live finds nothing cached. -/
theorem snapshot_not_cached :
    let snapshot : IssuerBucketSnapshot := ⟨19,1700000001⟩
    let parse : String → Option Json.Value := fun text =>
      if text = Json.render snapshot.toJson then some snapshot.toJson else none
    let s := withCache (.new gcra .default) (.inMemory .new)
    let c : Check := ⟨"issuer",0,0,1700000000,⟨0,0,0,true,true,true,0,1700000000⟩⟩
    (s.check gcra c).1 = .ok () ∧
      ((s.check gcra c).2.limiter.buckets "issuer").map (·.snapshot 1700000000) =
        some (19,1700000001) ∧
      ¬(s.check gcra c).2.SnapshotCached parse "issuer" 1700000000 := by
  intro snapshot parse s c
  have hok : (s.check gcra c).1 = .ok () := by decide +kernel
  refine ⟨hok,by decide +kernel,fun hcached => ?_⟩
  obtain ⟨bucket,cache,_,hcache,hserves⟩ := hcached
  rw [check_eq] at hcache
  obtain rfl : CacheBackend.inMemory .new = cache := Option.some.inj hcache
  exact (serves_absent_iff rfl).mp hserves (by decide +kernel)

end CachedLimiter
end ProofStell.Limiter
