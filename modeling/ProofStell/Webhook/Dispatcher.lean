import ProofStell.Webhook.Payload
import ProofStell.Cache.Redis
import ProofStell.Lib.Machine

/-! The webhook dispatcher: retries, deduplication, and a dead-letter queue that
lives in memory or, when a cache is configured, in the cache. -/
namespace ProofStell.Webhook
open Transact Cache
variable {DateTime σ : Type}

def MAX_DLQ_DEPTH : Nat := 10000
def DLQ_REDIS_KEY_PREFIX : String := "webhook:dlq:"
def DEDUP_KEY_PREFIX : String := "webhook:dedup:"
def DLQ_TTL : UInt64 := 604800

def dlqKey (url : String) : CacheKey := .events (DLQ_REDIS_KEY_PREFIX++url)
def dedupKey (idempotencyKey : String) : CacheKey := .events (DEDUP_KEY_PREFIX++idempotencyKey)

/-- The cache operations the dispatcher calls, over whatever state the cache has. -/
structure CacheHandle (σ : Type) where
  getRaw : CacheKey → Exec σ CacheError (Option String)
  setRaw : CacheKey → String → UInt64 → Exec σ CacheError Unit
  delete : CacheKey → Exec σ CacheError Unit

structure WebhookDispatcher (DateTime σ : Type) where
  urls : List String
  maxRetries : UInt32
  cache : Option (CacheHandle σ)
  deduplicationTtl : UInt64
  serde : Serde DateTime

structure DispatcherState (DateTime σ : Type) where
  dlq : List (DeadLetterEntry DateTime)
  store : σ

/-- How the sends of one dispatch end, by position of the URL and number of the
attempt, and when each position gives up. -/
structure Script (DateTime : Type) where
  send : Nat → Nat → Except String Unit
  failedAt : Nat → DateTime

/-- The retry loop: `none` once a send succeeds, else the error of the last one. -/
def sendLoop (send : Nat → Except String Unit) : Nat → Nat → String → Option String
  | 0, _, lastError => some lastError
  | remaining+1, attempt, _ =>
    match send attempt with
    | .ok () => none
    | .error e => sendLoop send remaining (attempt+1) e

namespace WebhookDispatcher

/-- `WebhookDispatcher::new`: no cache, and one hour of deduplication. -/
def new (urls : List String) (maxRetries : UInt32) (serde : Serde DateTime) :
    WebhookDispatcher DateTime σ :=
  ⟨urls,maxRetries,none,3600,serde⟩

variable (d : WebhookDispatcher DateTime σ)

def withCache (cache : CacheHandle σ) : WebhookDispatcher DateTime σ :=
  { d with cache := some cache }

def attemptAll (send : Nat → Except String Unit) : Option String :=
  sendLoop send (d.maxRetries.toNat+1) 0 "no attempts made"

def deadLetter (url : String) (payload : WebhookPayload DateTime) (lastError : String)
    (failedAt : DateTime) : DeadLetterEntry DateTime :=
  ⟨url,payload,d.maxRetries+1,lastError,failedAt⟩

def countPersisted (cache : CacheHandle σ) : List String → Nat → σ → Nat × σ
  | [], count, s => (count,s)
  | url::urls, count, s =>
    match cache.getRaw (dlqKey url) s with
    | (.ok (some _),s) => countPersisted cache urls (count+1) s
    | (_,s) => countPersisted cache urls count s

/-- A full queue loses its oldest entry. -/
def pushBounded (dlq : List (DeadLetterEntry DateTime)) (entry : DeadLetterEntry DateTime) :
    List (DeadLetterEntry DateTime) :=
  (if dlq.length ≥ MAX_DLQ_DEPTH then dlq.tail else dlq)++[entry]

def deliverWithRetry (url : String) (payload : WebhookPayload DateTime)
    (send : Nat → Except String Unit) (failedAt : DateTime) (st : DispatcherState DateTime σ) :
    DispatcherState DateTime σ :=
  match d.attemptAll send with
  | none => st
  | some lastError =>
    let entry := d.deadLetter url payload lastError failedAt
    match d.cache with
    | some cache =>
      let (_,s) := cache.setRaw (dlqKey url) (entry.serialize d.serde) DLQ_TTL st.store
      -- the new depth only feeds a gauge, but reading it touches the cache
      { st with store := (countPersisted cache d.urls 0 s).2 }
    | none => { st with dlq := pushBounded st.dlq entry }

/-- Every URL in registration order, whatever happened to the ones before. -/
def deliverAll (payload : WebhookPayload DateTime) (script : Script DateTime)
    (st : DispatcherState DateTime σ) : DispatcherState DateTime σ :=
  d.urls.zipIdx.foldl (fun st u =>
    d.deliverWithRetry u.1 payload (script.send u.2) (script.failedAt u.2) st) st

def dispatch (event : Audit.Event DateTime) (script : Script DateTime)
    (st : DispatcherState DateTime σ) : DispatcherState DateTime σ :=
  if d.urls.isEmpty then st
  else
    match d.cache with
    | some cache =>
      match cache.getRaw (dedupKey event.idempotencyKey) st.store with
      | (.ok (some _),s) => { st with store := s }
      | (_,s) =>
        let (_,s) := cache.setRaw (dedupKey event.idempotencyKey) "delivered" d.deduplicationTtl s
        d.deliverAll (WebhookPayload.ofEvent event) script { st with store := s }
    | none => d.deliverAll (WebhookPayload.ofEvent event) script st

/-- What a slot yields: nothing when it is empty, unreachable or unreadable. -/
def recovered (serde : Serde DateTime) :
    Except CacheError (Option String) → List (DeadLetterEntry DateTime)
  | .ok (some raw) => (DeadLetterEntry.deserialize serde raw).toList
  | _ => []

def drainUrls (serde : Serde DateTime) (cache : CacheHandle σ) :
    List String → List (DeadLetterEntry DateTime) → σ → List (DeadLetterEntry DateTime) × σ
  | [], drained, s => (drained,s)
  | url::urls, drained, s =>
    let found := cache.getRaw (dlqKey url) s
    drainUrls serde cache urls (drained++recovered serde found.1)
      (cache.delete (dlqKey url) found.2).2

def drainDlq (st : DispatcherState DateTime σ) :
    List (DeadLetterEntry DateTime) × DispatcherState DateTime σ :=
  match d.cache with
  | some cache =>
    let (entries,s) := drainUrls d.serde cache d.urls [] st.store
    (entries,{ st with store := s })
  | none => (st.dlq,{ st with dlq := [] })

def dlqDepth (st : DispatcherState DateTime σ) : Nat × DispatcherState DateTime σ :=
  match d.cache with
  | some cache =>
    let (count,s) := countPersisted cache d.urls 0 st.store
    (count,{ st with store := s })
  | none => (st.dlq.length,st)

end WebhookDispatcher

inductive Action (DateTime : Type) where
  | dispatch (event : Audit.Event DateTime) (script : Script DateTime)
  | drainDlq
  | dlqDepth

inductive Reply (DateTime : Type) where
  | dispatched
  | drained (entries : List (DeadLetterEntry DateTime))
  | depth (n : Nat)

def call (d : WebhookDispatcher DateTime σ) (a : Action DateTime)
    (st : DispatcherState DateTime σ) : Reply DateTime × DispatcherState DateTime σ :=
  match a with
  | .dispatch event script => (.dispatched,d.dispatch event script st)
  | .drainDlq => (.drained (d.drainDlq st).1,(d.drainDlq st).2)
  | .dlqDepth => (.depth (d.dlqDepth st).1,(d.dlqDepth st).2)

end ProofStell.Webhook
