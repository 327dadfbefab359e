import ProofStell.Cache.InMemory
import ProofStell.Cache.Breaker

/-! The Redis backend with its guards, and `CacheBackend`, which falls back to an
in-memory cache whenever the Redis path fails. -/
namespace ProofStell.Cache
open Transact

/-- What surrounds one cache operation: clock readings, a free bulkhead permit, and
whether the `PING` and the command itself go through. -/
structure Surroundings where
  allowAt : Nat
  recordAt : Nat
  checkAt : Nat
  permit : Bool
  ping : Bool
  command : Bool
  serverSecs : Nat
  nowSecs : UInt64
  deriving DecidableEq, Repr

structure TimedValue where
  value : String
  expiresAt : Nat
  deriving DecidableEq, Repr

/-- The Redis server as `GET`, `SETEX` and `DEL` see it. It drops a key that it
finds expired. -/
abbrev RedisServer := String → Option TimedValue

namespace RedisServer

def get (secs : Nat) (key : String) (r : RedisServer) : Option String × RedisServer :=
  match r key with
  | some entry =>
    if entry.expiresAt > secs then (some entry.value,r)
    else (none,Function.update r key none)
  | none => (none,r)

def setEx (secs : Nat) (key value : String) (ttl : UInt64) (r : RedisServer) :
    Unit × RedisServer :=
  ((),Function.update r key (some ⟨value,secs+ttl.toNat⟩))

def del (key : String) (r : RedisServer) : Unit × RedisServer :=
  ((),Function.update r key none)

end RedisServer

/-- `reported` lists the transitions that were sent to the metrics. -/
structure RedisCache where
  connection : RedisServer
  health : HealthCheckState
  breaker : CacheCircuitBreaker
  fallback : InMemoryCache
  reported : List (CircuitState × CircuitState)

namespace RedisCache

def withConfig (config : CacheCircuitBreakerConfig) : RedisCache where
  connection := fun _ => none
  health := HealthCheckState.new
  breaker := CacheCircuitBreaker.new config
  fallback := InMemoryCache.new
  reported := []

/-- Move the breaker and report the transition it remembers, if there is one. -/
def report (f : CacheCircuitBreaker → CacheCircuitBreaker) : Exec RedisCache CacheError Unit :=
  Exec.write fun c =>
    let (transition,breaker) := (f c.breaker).takeLastTransition
    { c with breaker := breaker, reported := c.reported++transition.toList }

def recordSuccess (env : Surroundings) : Exec RedisCache CacheError Unit :=
  report (CacheCircuitBreaker.recordSuccess env.recordAt)

def recordFailure (env : Surroundings) : Exec RedisCache CacheError Unit :=
  report (CacheCircuitBreaker.recordFailure env.recordAt)

def checkConnection (env : Surroundings) : Exec RedisCache CacheError Bool := fun c =>
  if c.health.shouldCheck env.checkAt then
    if env.ping then (.ok true,{ c with health := c.health.recordSuccess env.checkAt })
    else (.ok false,{ c with health := c.health.recordFailure env.checkAt })
  else (.ok c.health.isHealthy,c)

def circuitBreakerAllows (env : Surroundings) : Exec RedisCache CacheError Bool := fun c =>
  let (allowed,breaker) := c.breaker.shouldAllow env.allowAt
  (.ok allowed,{ c with breaker := breaker })

/-- The guards that `get_raw`, `set_raw` and `delete` share: breaker, bulkhead, health. -/
def passGuards (env : Surroundings) : Exec RedisCache CacheError Unit := do
  let allowed ← circuitBreakerAllows env
  Exec.require allowed .breakerOpen
  Exec.require env.permit .bulkheadFull
  let healthy ← checkConnection env
  if healthy then return ()
  else
    recordFailure env
    Exec.fail .unhealthy

def onServer {α : Type} (run : RedisServer → α × RedisServer) : Exec RedisCache CacheError α :=
  fun c => (.ok (run c.connection).1,{ c with connection := (run c.connection).2 })

/-- A guarded command; a failed one has no effect on the server. -/
def guarded {α : Type} (env : Surroundings) (run : RedisServer → α × RedisServer) :
    Exec RedisCache CacheError α := do
  passGuards env
  if env.command then
    let a ← onServer run
    recordSuccess env
    return a
  else
    recordFailure env
    Exec.fail .command

def getRaw (env : Surroundings) (key : String) : Exec RedisCache CacheError (Option String) :=
  guarded env (RedisServer.get env.serverSecs key)

def setRaw (env : Surroundings) (key value : String) (ttl : UInt64) :
    Exec RedisCache CacheError Unit :=
  guarded env (RedisServer.setEx env.serverSecs key value ttl)

def delete (env : Surroundings) (key : String) : Exec RedisCache CacheError Unit :=
  guarded env (RedisServer.del key)

def onFallback {α : Type} (x : Exec InMemoryCache CacheError α) : Exec RedisCache CacheError α :=
  fun c => ((x c.fallback).1,{ c with fallback := (x c.fallback).2 })

/-- `match redis { Ok(x) => Ok(x), Err(_) => fallback }`. -/
def orFallback {α : Type} (redis : Exec RedisCache CacheError α)
    (fallback : Exec InMemoryCache CacheError α) : Exec RedisCache CacheError α := fun c =>
  match redis c with
  | (.ok a,c) => (.ok a,c)
  | (.error _,c) => onFallback fallback c

end RedisCache

inductive CacheBackend where
  | redis (c : RedisCache)
  | inMemory (c : InMemoryCache)

namespace CacheBackend

def either {α : Type} (redis : Exec RedisCache CacheError α)
    (inMemory : Exec InMemoryCache CacheError α) : Exec CacheBackend CacheError α
  | .redis c => ((redis c).1,.redis (redis c).2)
  | .inMemory c => ((inMemory c).1,.inMemory (inMemory c).2)

/-- The in-memory lookup without the expiry flag, which only feeds the metrics. -/
def lookup (now : UInt64) (key : CacheKey) : Exec InMemoryCache CacheError (Option String) := do
  let (value,_) ← InMemoryCache.getRawWithExpiry now key
  return value

def getRaw (env : Surroundings) (key : CacheKey) : Exec CacheBackend CacheError (Option String) :=
  either (RedisCache.orFallback (RedisCache.getRaw env key.asString) (lookup env.nowSecs key))
    (lookup env.nowSecs key)

def setRaw (env : Surroundings) (key : CacheKey) (value : String) (ttl : UInt64) :
    Exec CacheBackend CacheError Unit :=
  either (RedisCache.orFallback (RedisCache.setRaw env key.asString value ttl)
      (InMemoryCache.setRaw env.nowSecs key value ttl))
    (InMemoryCache.setRaw env.nowSecs key value ttl)

def delete (env : Surroundings) (key : CacheKey) : Exec CacheBackend CacheError Unit :=
  either (RedisCache.orFallback (RedisCache.delete env key.asString) (InMemoryCache.delete key))
    (InMemoryCache.delete key)

end CacheBackend
end ProofStell.Cache
