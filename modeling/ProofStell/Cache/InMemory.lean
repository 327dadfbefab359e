import ProofStell.Lib.Transact
import ProofStell.Lib.Saturating
import Mathlib.Data.Finmap

/-! The in-memory cache of `cache.rs`: a TTL map with an LRU queue, and the keys
that both backends share. -/
namespace ProofStell.Cache
open Transact

inductive CacheKey where
  | verification (hash : String)
  | config (key : String)
  | events (hash : String)
  deriving DecidableEq, Repr

def CacheKey.asString : CacheKey → String
  | .verification hash => "verification:"++hash
  | .config key => "config:"++key
  | .events hash => "events:"++hash

/-- The namespaces keep keys of different kinds apart in Redis too. -/
theorem asString_injective : Function.Injective CacheKey.asString := by
  have first (s t u v : String) (h : s++u = t++v) (hs : s.toList≠[]) (ht : t.toList≠[]) :
      s.toList.head? = t.toList.head? := by
    have hl := congrArg String.toList h
    simp only [String.toList_append] at hl
    have hh := congrArg List.head? hl
    rwa [List.head?_append_of_ne_nil _ hs,List.head?_append_of_ne_nil _ ht] at hh
  intro j k h
  cases j <;> cases k <;> simp only [CacheKey.asString] at h
  case verification.verification => rw [(String.append_right_inj _).mp h]
  case config.config => rw [(String.append_right_inj _).mp h]
  case events.events => rw [(String.append_right_inj _).mp h]
  all_goals exact absurd (first _ _ _ _ h (by decide) (by decide)) (by decide)

structure Entry where
  value : String
  expiresAt : UInt64
  deriving DecidableEq, Repr

/-- `anyhow` errors of the cache layer, one for each place that builds one. -/
inductive CacheError where
  | breakerOpen
  | bulkheadFull
  | unhealthy
  | command
  deriving DecidableEq, Repr

inductive CacheEvent where
  | evicted (key : CacheKey)
  | expired (key : CacheKey)
  | updated (key : CacheKey)
  | deleted (key : CacheKey)
  deriving DecidableEq, Repr

structure CacheStats where
  hits : Nat
  misses : Nat
  evictions : Nat
  expired : Nat
  deriving DecidableEq, Repr

/-- `lruQueue` has the most recently used key in front; `sent` is what was broadcast. -/
structure InMemoryCache where
  store : Finmap fun _ : CacheKey => Entry
  lruQueue : List CacheKey
  maxSize : Nat
  stats : CacheStats
  sent : List CacheEvent

namespace InMemoryCache

def withMaxSize (maxSize : Nat) : InMemoryCache := ⟨∅,[],maxSize,⟨0,0,0,0⟩,[]⟩

/-- `InMemoryCache::new`: size 0 is unlimited. -/
def new : InMemoryCache := withMaxSize 0

def forget (key : CacheKey) (queue : List CacheKey) : List CacheKey :=
  queue.filter (· ≠ key)

def touch (key : CacheKey) (queue : List CacheKey) : List CacheKey := key::forget key queue

/-- Returns the value and whether an entry was found expired, which also drops it. -/
def getRawWithExpiry (now : UInt64) (key : CacheKey) :
    Exec InMemoryCache CacheError (Option String × Bool) := fun c =>
  match c.store.lookup key with
  | some entry =>
    if entry.expiresAt > now then
      (.ok (some entry.value,false),{ c with
        lruQueue := touch key c.lruQueue
        stats := { c.stats with hits := c.stats.hits+1 } })
    else
      (.ok (none,true),{ c with
        store := c.store.erase key
        lruQueue := forget key c.lruQueue
        stats := { c.stats with expired := c.stats.expired+1 }
        sent := c.sent++[.expired key] })
  | none => (.ok (none,false),{ c with stats := { c.stats with misses := c.stats.misses+1 } })

/-- The eviction loop of `set_raw`; `oldest` is the queue from its back. -/
def evictOldest (oldest : List CacheKey) (c : InMemoryCache) : InMemoryCache :=
  match oldest with
  | [] => { c with lruQueue := [] }
  | key::older =>
    if c.store.keys.card > c.maxSize then
      evictOldest older { c with
        store := c.store.erase key
        stats := { c.stats with evictions := c.stats.evictions+1 }
        sent := c.sent++[.evicted key] }
    else { c with lruQueue := (key::older).reverse }

def setRaw (now : UInt64) (key : CacheKey) (value : String) (ttl : UInt64) :
    Exec InMemoryCache CacheError Unit :=
  Exec.write fun c =>
    let c := { c with
      store := c.store.insert key ⟨value,Saturating.add64 now ttl⟩
      lruQueue := touch key c.lruQueue
      sent := c.sent++[.updated key] }
    if c.maxSize > 0 then evictOldest c.lruQueue.reverse c else c

def delete (key : CacheKey) : Exec InMemoryCache CacheError Unit :=
  Exec.write fun c => { c with
    store := c.store.erase key
    lruQueue := forget key c.lruQueue
    sent := if (c.store.lookup key).isSome then c.sent++[.deleted key] else c.sent }

end InMemoryCache
end ProofStell.Cache
