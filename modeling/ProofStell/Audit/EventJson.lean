import ProofStell.Audit.ContractEvents
import ProofStell.Webhook.DeadLetters

/-! The JSON form of audit events, and what comes back of an event or of a dead letter
that was written as JSON. -/
namespace ProofStell.Audit
open Json (Value Fields)
open Webhook (Serde)
variable {DateTime : Type}

def EventSource.encode : EventSource → Value
  | .contract => .string "Contract"
  | .service => .string "Service"

def EventSource.ofName : String → Option EventSource
  | "Contract" => some .contract
  | "Service" => some .service
  | _ => none

/-- The derived `Deserialize` takes the name alone or as the key of a `null`. -/
def EventSource.decode : Value → Option EventSource
  | .string s => EventSource.ofName s
  | .object [(s,.null)] => EventSource.ofName s
  | _ => none

namespace Event

def withMetadata (event : Event DateTime) (metadata : Value) : Event DateTime :=
  { event with metadata := some metadata }

/-- The derived `Serialize`; an absent `metadata` is written as `null`. -/
def encode (serde : Serde DateTime) (e : Event DateTime) : Value :=
  .object [("id",.string e.id),("aggregate_id",.string e.aggregateId),
    ("event_type",.string e.eventType),("data",e.data),
    ("timestamp",serde.encodeTime e.timestamp),("sequence",Json.ofU64 e.sequence),
    ("actor",.string e.actor),("idempotency_key",.string e.idempotencyKey),
    ("source",e.source.encode),("metadata",e.metadata.getD .null)]

def decode (serde : Serde DateTime) (v : Value) : Option (Event DateTime) := do
  let fields ← Json.asRecord ["id","aggregate_id","event_type","data","timestamp","sequence",
    "actor","idempotency_key","source","metadata"] 0 v
  let id ← Json.required "id" Json.asString fields
  let aggregateId ← Json.required "aggregate_id" Json.asString fields
  let eventType ← Json.required "event_type" Json.asString fields
  let data ← Json.required "data" some fields
  let timestamp ← Json.required "timestamp" serde.decodeTime fields
  let sequence ← Json.required "sequence" Json.asU64 fields
  let actor ← Json.required "actor" Json.asString fields
  let idempotencyKey ← Json.required "idempotency_key" Json.asString fields
  let source ← Json.required "source" EventSource.decode fields
  let metadata ← Json.optional "metadata" some fields
  return ⟨id,aggregateId,eventType,data,timestamp,sequence,actor,idempotencyKey,source,metadata⟩

def toJson (serde : Serde DateTime) (e : Event DateTime) : Except AuditError String :=
  .ok (serde.toString (e.encode serde))

def fromJson (serde : Serde DateTime) (message : String → String) (json : String) :
    Except AuditError (Event DateTime) :=
  match (serde.fromStr json).bind (decode serde) with
  | some e => .ok e
  | none => .error (.serializationError (message json))

/-- The text of the event denotes the written tree, and its time stamp reads back. -/
structure Exact (serde : Serde DateTime) (e : Event DateTime) : Prop where
  text : serde.fromStr (serde.toString (e.encode serde)) = some (e.encode serde)
  timestamp : serde.decodeTime (serde.encodeTime e.timestamp) = some e.timestamp

theorem decode_encode (serde : Serde DateTime) (e : Event DateTime)
    (ht : serde.decodeTime (serde.encodeTime e.timestamp) = some e.timestamp) :
    decode serde (e.encode serde) =
      some { e with metadata := e.metadata.bind Json.nonNull } := by
  obtain ⟨id,aggregateId,eventType,data,timestamp,sequence,actor,key,source,metadata⟩ := e
  have hsource : EventSource.decode source.encode = some source := by cases source <;> rfl
  rw [decode,encode]
  cases metadata with
  | none => simp [Json.required,Json.optional,Json.named,ht,hsource]
  | some m => simp [Json.required,Json.optional_of_named,Json.named,ht,hsource]

theorem fromJson_toJson {serde : Serde DateTime} {e : Event DateTime} (h : Exact serde e)
    (message : String → String) :
    (e.toJson serde).bind (fromJson serde message) =
      .ok { e with metadata := e.metadata.bind Json.nonNull } := by
  change fromJson serde message (serde.toString (e.encode serde)) = _
  rw [fromJson,h.text,Option.bind_some,decode_encode serde e h.timestamp]

theorem fromJson_toJson_iff {serde : Serde DateTime} {e : Event DateTime} (h : Exact serde e)
    (message : String → String) :
    (e.toJson serde).bind (fromJson serde message) = .ok e ↔ e.metadata≠some .null := by
  rw [fromJson_toJson h,Except.ok.injEq]
  obtain ⟨id,aggregateId,eventType,data,timestamp,sequence,actor,key,source,metadata⟩ := e
  cases metadata with
  | none => simp
  | some m => simp [Json.nonNull_eq_some]

end Event

end ProofStell.Audit

namespace ProofStell.Webhook
open Cache
variable {DateTime σ : Type}

theorem optional_ne_null {name : String} {fields : Json.Fields} {m : Option Json.Value}
    (h : Json.optional name some fields = some m) : m≠some .null := by
  rw [Json.optional] at h
  split at h
  · cases h
    simp
  · cases h
    simp
  · next v hnull _ =>
    simp only [Option.map_some,Option.some.injEq] at h
    subst h
    intro hv
    cases hv
    exact hnull rfl
  · cases h

theorem ofJson_metadata {serde : Serde DateTime} {v : Json.Value} {p : WebhookPayload DateTime}
    (h : WebhookPayload.ofJson serde v = some p) : p.metadata≠some .null := by
  simp only [WebhookPayload.ofJson,Option.bind_eq_bind,Option.bind_eq_some_iff] at h
  obtain ⟨_,_,_,_,_,_,_,_,_,_,_,_,_,_,_,_,_,_,m,hm,hp⟩ := h
  cases hp
  exact optional_ne_null hm

theorem deserialize_metadata {serde : Serde DateTime} {raw : String}
    {e : DeadLetterEntry DateTime} (h : DeadLetterEntry.deserialize serde raw = some e) :
    e.payload.metadata≠some .null := by
  simp only [DeadLetterEntry.deserialize,DeadLetterEntry.ofJson,Option.bind_eq_bind,
    Option.bind_eq_some_iff] at h
  obtain ⟨_,_,_,_,_,_,p,hp,_,_,_,_,_,_,he⟩ := h
  cases he
  rw [Json.required] at hp
  split at hp
  · exact ofJson_metadata hp
  · cases hp

theorem recovered_metadata {serde : Serde DateTime} {found : Except CacheError (Option String)}
    {e : DeadLetterEntry DateTime} (h : e∈WebhookDispatcher.recovered serde found) :
    e.payload.metadata≠some .null := by
  rw [WebhookDispatcher.recovered.eq_def] at h
  split at h
  · exact deserialize_metadata (Option.mem_toList.mp h)
  · cases h

theorem drainUrls_metadata {serde : Serde DateTime} {cache : CacheHandle σ} {urls : List String}
    {drained : List (DeadLetterEntry DateTime)} {s : σ} {e : DeadLetterEntry DateTime}
    (h : e∈(WebhookDispatcher.drainUrls serde cache urls drained s).1) :
    e∈drained ∨ e.payload.metadata≠some .null := by
  induction urls generalizing drained s with
  | nil => exact Or.inl h
  | cons u urls ih =>
    obtain h | h := ih h
    · obtain h | h := List.mem_append.mp h
      · exact Or.inl h
      · exact Or.inr (recovered_metadata h)
    · exact Or.inr h

theorem mem_drainUrls_of_drained {serde : Serde DateTime} {cache : CacheHandle σ}
    (urls : List String) {drained : List (DeadLetterEntry DateTime)} (s : σ)
    {e : DeadLetterEntry DateTime} (h : e∈drained) :
    e∈(WebhookDispatcher.drainUrls serde cache urls drained s).1 := by
  induction urls generalizing drained s with
  | nil => exact h
  | cons u urls ih => exact ih _ (List.mem_append_left _ h)

theorem mem_drainUrls {serde : Serde DateTime} {cache : CacheHandle σ} {inv : σ → Prop}
    {contents : σ → CacheKey → Option String} {ttls : UInt64 → Prop}
    (hc : cache.Healthy inv contents ttls) {urls : List String} {url : String} (hu : url∈urls)
    (drained : List (DeadLetterEntry DateTime)) {s : σ} (hs : inv s) {raw : String}
    (hraw : contents s (dlqKey url) = some raw) {e : DeadLetterEntry DateTime}
    (he : DeadLetterEntry.deserialize serde raw = some e) :
    e∈(WebhookDispatcher.drainUrls serde cache urls drained s).1 := by
  induction urls generalizing drained s with
  | nil => cases hu
  | cons u urls ih =>
    obtain ⟨hget,hinv,hsame⟩ := hc.get s (dlqKey u) hs
    by_cases hne : url = u
    · subst hne
      refine mem_drainUrls_of_drained urls _ (List.mem_append_right _ ?_)
      rw [hget,hraw]
      simp [WebhookDispatcher.recovered,he]
    · obtain ⟨_,hinv',hdel⟩ := hc.delete _ (dlqKey u) hinv
      have htail : url∈urls := by simpa [hne] using hu
      refine ih htail _ hinv' ?_
      rw [hdel,Function.update_of_ne (dlqKey_injective.ne hne),hsame,hraw]

/-- A dead letter comes back from the drain as it was written, unless it went through the
cache with an explicit `null` as its metadata. -/
theorem mem_drainDlq_iff {d : WebhookDispatcher DateTime σ} {inv : σ → Prop}
    {contents : σ → CacheKey → Option String} {ttls : UInt64 → Prop}
    (hc : ∀ cache, d.cache = some cache → cache.Healthy inv contents ttls) (ht : ttls DLQ_TTL)
    {url : String} (hu : url∈d.urls) (payload : WebhookPayload DateTime)
    {send : Nat → Except String Unit} (failedAt : DateTime) {st : DispatcherState DateTime σ}
    (hs : inv st.store) {lastError : String} (hfail : d.attemptAll send = some lastError)
    (hexact : d.serde.Exact (d.deadLetter url payload lastError failedAt)) :
    d.deadLetter url payload lastError failedAt∈
        (d.drainDlq (d.deliverWithRetry url payload send failedAt st)).1 ↔
      d.cache = none ∨ payload.metadata≠some .null := by
  cases hd : d.cache with
  | none =>
    simp [WebhookDispatcher.drainDlq,WebhookDispatcher.deliverWithRetry,hd,hfail,
      WebhookDispatcher.pushBounded]
  | some cache =>
    have hdrain : (d.drainDlq (d.deliverWithRetry url payload send failedAt st)).1 =
        (WebhookDispatcher.drainUrls d.serde cache d.urls []
          (d.deliverWithRetry url payload send failedAt st).store).1 := by
      simp [WebhookDispatcher.drainDlq,hd]
    rw [hdrain]
    constructor
    · intro hmem
      obtain hmem | hmem := drainUrls_metadata hmem
      · cases hmem
      · exact Or.inr hmem
    · intro hmeta
      have hmeta : payload.metadata≠some .null := by simpa using hmeta
      obtain ⟨hinv,hcontents⟩ := cached_deliver hd (hc cache hd) ht url payload send failedAt st hs
      have hslot : contents (d.deliverWithRetry url payload send failedAt st).store (dlqKey url) =
          some ((d.deadLetter url payload lastError failedAt).serialize d.serde) := by
        rw [hcontents,hfail]
        simp [persist,WebhookDispatcher.deadLetter]
      refine mem_drainUrls (hc cache hd) hu [] hinv hslot ?_
      rw [deserialize_serialize hexact]
      rw [show (d.deadLetter url payload lastError failedAt).payload = payload from rfl,
        reread_eq_self.mpr hmeta]
      rfl

end ProofStell.Webhook

namespace ProofStell.Audit
open Cache Webhook
variable {DateTime σ : Type}

/-- An audit event read from its own text is the event, and a dead letter drained after
its delivery failed is the letter, exactly as long as no metadata is an explicit `null`. -/
theorem audit_records_survive_iff (event : Event DateTime) (message : String → String)
    (d : WebhookDispatcher DateTime σ) (hevent : event.Exact d.serde) {inv : σ → Prop}
    {contents : σ → CacheKey → Option String} {ttls : UInt64 → Prop}
    (hc : ∀ cache, d.cache = some cache → cache.Healthy inv contents ttls) (ht : ttls DLQ_TTL)
    (url : String) (hu : url∈d.urls) (payload : WebhookPayload DateTime)
    (send : Nat → Except String Unit) (failedAt : DateTime) (st : DispatcherState DateTime σ)
    (hs : inv st.store) (lastError : String) (hfail : d.attemptAll send = some lastError)
    (hletter : d.serde.Exact (d.deadLetter url payload lastError failedAt)) :
    ((event.toJson d.serde).bind (Event.fromJson d.serde message) = .ok event ↔
      event.metadata≠some .null) ∧
    (d.deadLetter url payload lastError failedAt∈
        (d.drainDlq (d.deliverWithRetry url payload send failedAt st)).1 ↔
      d.cache = none ∨ payload.metadata≠some .null) :=
  ⟨Event.fromJson_toJson_iff hevent message,
    mem_drainDlq_iff hc ht hu payload failedAt hs hfail hletter⟩

/-- An event with metadata, and a dead letter that carries the same metadata through an
in-memory cache. -/
theorem audit_records_survive_labelled :
    let label : Json.Value := .object [("label",.string "reviewed")]
    let event : Event String := ⟨"e1","doc-1","DocumentRegistered",.null,
      "2024-01-01T00:00:00Z",1,"issuer","k1",.service,some label⟩
    let eventTree : Json.Value := .object [("id",.string "e1"),("aggregate_id",.string "doc-1"),
      ("event_type",.string "DocumentRegistered"),("data",.null),
      ("timestamp",.string "2024-01-01T00:00:00Z"),("sequence",Json.ofU64 1),
      ("actor",.string "issuer"),("idempotency_key",.string "k1"),("source",.string "Service"),
      ("metadata",label)]
    let letterTree : Json.Value := .object [("url",.string "https://a"),
      ("payload",.object [("event_id",.string "e1"),("event_type",.string "DocumentRegistered"),
        ("idempotency_key",.string "k1"),("sequence",Json.ofU64 1),
        ("timestamp",.string "2024-01-01T00:00:00Z"),("aggregate_id",.string "doc-1"),
        ("actor",.string "issuer"),("data",.null),("metadata",label)]),
      ("attempts",Json.ofU32 1),("last_error",.string "timeout"),
      ("failed_at",.string "2024-01-01T00:00:01Z")]
    let serde := knowing [eventTree,letterTree]
    let env : Nat → Surroundings := fun _ => ⟨0,0,0,true,true,true,0,0⟩
    let d : WebhookDispatcher String (CacheBackend × Nat) :=
      (WebhookDispatcher.new ["https://a"] 0 serde).withCache (backendHandle env)
    let payload := WebhookPayload.ofEvent event
    (event.toJson serde).bind (Event.fromJson serde id) = .ok event ∧
      d.deadLetter "https://a" payload "timeout" "2024-01-01T00:00:01Z"∈
        (d.drainDlq (d.deliverWithRetry "https://a" payload (fun _ => .error "timeout")
          "2024-01-01T00:00:01Z" ⟨[],(.inMemory InMemoryCache.new,0)⟩)).1 := by
  intro label event eventTree letterTree serde env d payload
  have hne : Json.render eventTree≠Json.render letterTree := by decide +kernel
  have hevent : event.Exact serde := by
    refine ⟨?_,rfl⟩
    rw [show event.encode serde = eventTree from rfl]
    simp [serde,knowing]
  have hletter : serde.Exact (d.deadLetter "https://a" payload "timeout"
      "2024-01-01T00:00:01Z") := by
    refine ⟨?_,rfl,rfl⟩
    rw [show (d.deadLetter "https://a" payload "timeout" "2024-01-01T00:00:01Z").toJson serde =
      letterTree from rfl]
    simp [serde,knowing,hne]
  have hlabel : payload.metadata≠some .null := by
    rw [show payload.metadata = some (.object [("label",.string "reviewed")]) from rfl]
    simp
  have hall := audit_records_survive_iff event id d hevent
    (fun _ hd => Option.some.inj hd ▸ backend_healthy env (fun _ => ⟨rfl,rfl,rfl⟩) .fallback)
    (longTtl_still (by decide) (by decide)) "https://a" (by simp [d,WebhookDispatcher.withCache,
      WebhookDispatcher.new]) payload (fun _ => .error "timeout") "2024-01-01T00:00:01Z"
    ⟨[],(.inMemory InMemoryCache.new,0)⟩ (steady_new env 0) "timeout" rfl hletter
  exact ⟨hall.1.mpr hlabel,hall.2.mpr (Or.inr hlabel)⟩

/-- `with_metadata(Value::Null)`: the event comes back without metadata, and so does the
dead letter that carried it. -/
theorem null_metadata_lost :
    let event : Event String := Event.withMetadata ⟨"e1","doc-1","DocumentRegistered",.null,
      "2024-01-01T00:00:00Z",1,"issuer","k1",.service,none⟩ .null
    let eventTree : Json.Value := .object [("id",.string "e1"),("aggregate_id",.string "doc-1"),
      ("event_type",.string "DocumentRegistered"),("data",.null),
      ("timestamp",.string "2024-01-01T00:00:00Z"),("sequence",Json.ofU64 1),
      ("actor",.string "issuer"),("idempotency_key",.string "k1"),("source",.string "Service"),
      ("metadata",.null)]
    let letterTree : Json.Value := .object [("url",.string "https://a"),
      ("payload",.object [("event_id",.string "e1"),("event_type",.string "DocumentRegistered"),
        ("idempotency_key",.string "k1"),("sequence",Json.ofU64 1),
        ("timestamp",.string "2024-01-01T00:00:00Z"),("aggregate_id",.string "doc-1"),
        ("actor",.string "issuer"),("data",.null),("metadata",.null)]),
      ("attempts",Json.ofU32 1),("last_error",.string "timeout"),
      ("failed_at",.string "2024-01-01T00:00:01Z")]
    let serde := knowing [eventTree,letterTree]
    let env : Nat → Surroundings := fun _ => ⟨0,0,0,true,true,true,0,0⟩
    let d : WebhookDispatcher String (CacheBackend × Nat) :=
      (WebhookDispatcher.new ["https://a"] 0 serde).withCache (backendHandle env)
    let payload := WebhookPayload.ofEvent event
    let drained := (d.drainDlq (d.deliverWithRetry "https://a" payload
      (fun _ => .error "timeout") "2024-01-01T00:00:01Z" ⟨[],(.inMemory InMemoryCache.new,0)⟩)).1
    (event.toJson serde).bind (Event.fromJson serde id)≠.ok event ∧ drained.length = 1 ∧
      d.deadLetter "https://a" payload "timeout" "2024-01-01T00:00:01Z"∉drained := by
  intro event eventTree letterTree serde env d payload drained
  have hevent : event.Exact serde := by
    refine ⟨?_,rfl⟩
    rw [show event.encode serde = eventTree from rfl]
    simp [serde,knowing]
  have hmeta : drained.all (fun e => e.payload.metadata.isNone) = true := by decide +kernel
  refine ⟨fun h => ?_,by decide +kernel,fun h => ?_⟩
  · exact (Event.fromJson_toJson_iff hevent id).mp h rfl
  · have hnone := List.all_eq_true.mp hmeta _ h
    cases hnone

end ProofStell.Audit
