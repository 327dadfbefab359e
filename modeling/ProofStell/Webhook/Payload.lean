import ProofStell.Audit.Event

/-! What a webhook delivery carries, what is kept of a failed one, and the JSON
form in which a dead letter is stored. -/
namespace ProofStell.Webhook
open Json (Value Fields)
variable {DateTime : Type}

structure WebhookPayload (DateTime : Type) where
  eventId : String
  eventType : String
  idempotencyKey : String
  sequence : UInt64
  timestamp : DateTime
  aggregateId : String
  actor : String
  data : Value
  metadata : Option Value

def WebhookPayload.ofEvent (event : Audit.Event DateTime) : WebhookPayload DateTime where
  eventId := event.id
  eventType := event.eventType
  idempotencyKey := event.idempotencyKey
  sequence := event.sequence
  timestamp := event.timestamp
  aggregateId := event.aggregateId
  actor := event.actor
  data := event.data
  metadata := event.metadata

structure DeadLetterEntry (DateTime : Type) where
  url : String
  payload : WebhookPayload DateTime
  attempts : UInt32
  lastError : String
  failedAt : DateTime

/-- The text layer of `serde_json` and the time format of `chrono`. -/
structure Serde (DateTime : Type) where
  toString : Value → String
  fromStr : String → Option Value
  encodeTime : DateTime → Value
  decodeTime : Value → Option DateTime

/-- The derived `Serialize`; an absent `metadata` is skipped. -/
def WebhookPayload.toJson (serde : Serde DateTime) (p : WebhookPayload DateTime) : Value :=
  .object ([("event_id",.string p.eventId),("event_type",.string p.eventType),
    ("idempotency_key",.string p.idempotencyKey),("sequence",Json.ofU64 p.sequence),
    ("timestamp",serde.encodeTime p.timestamp),("aggregate_id",.string p.aggregateId),
    ("actor",.string p.actor),("data",p.data)]++p.metadata.toList.map fun v => ("metadata",v))

def WebhookPayload.ofJson (serde : Serde DateTime) (v : Value) :
    Option (WebhookPayload DateTime) := do
  let fields ← Json.asRecord ["event_id","event_type","idempotency_key","sequence","timestamp",
    "aggregate_id","actor","data","metadata"] 0 v
  let eventId ← Json.required "event_id" Json.asString fields
  let eventType ← Json.required "event_type" Json.asString fields
  let idempotencyKey ← Json.required "idempotency_key" Json.asString fields
  let sequence ← Json.required "sequence" Json.asU64 fields
  let timestamp ← Json.required "timestamp" serde.decodeTime fields
  let aggregateId ← Json.required "aggregate_id" Json.asString fields
  let actor ← Json.required "actor" Json.asString fields
  let data ← Json.required "data" some fields
  let metadata ← Json.optional "metadata" some fields
  return ⟨eventId,eventType,idempotencyKey,sequence,timestamp,aggregateId,actor,data,metadata⟩

def DeadLetterEntry.toJson (serde : Serde DateTime) (e : DeadLetterEntry DateTime) : Value :=
  .object [("url",.string e.url),("payload",e.payload.toJson serde),
    ("attempts",Json.ofU32 e.attempts),("last_error",.string e.lastError),
    ("failed_at",serde.encodeTime e.failedAt)]

def DeadLetterEntry.ofJson (serde : Serde DateTime) (v : Value) :
    Option (DeadLetterEntry DateTime) := do
  let fields ← Json.asRecord ["url","payload","attempts","last_error","failed_at"] 0 v
  let url ← Json.required "url" Json.asString fields
  let payload ← Json.required "payload" (WebhookPayload.ofJson serde) fields
  let attempts ← Json.required "attempts" Json.asU32 fields
  let lastError ← Json.required "last_error" Json.asString fields
  let failedAt ← Json.required "failed_at" serde.decodeTime fields
  return ⟨url,payload,attempts,lastError,failedAt⟩

def DeadLetterEntry.serialize (serde : Serde DateTime) (e : DeadLetterEntry DateTime) : String :=
  serde.toString (e.toJson serde)

def DeadLetterEntry.deserialize (serde : Serde DateTime) (s : String) :
    Option (DeadLetterEntry DateTime) :=
  (serde.fromStr s).bind (DeadLetterEntry.ofJson serde)

/-- What the text and time layers owe an entry: its text denotes the written tree and
its time stamps read back. -/
structure Serde.Exact (serde : Serde DateTime) (e : DeadLetterEntry DateTime) : Prop where
  text : serde.fromStr (serde.toString (e.toJson serde)) = some (e.toJson serde)
  timestamp : serde.decodeTime (serde.encodeTime e.payload.timestamp) = some e.payload.timestamp
  failedAt : serde.decodeTime (serde.encodeTime e.failedAt) = some e.failedAt

/-- `Some(Value::Null)` is written as `null`, which reads as an absent field. -/
def WebhookPayload.reread (p : WebhookPayload DateTime) : WebhookPayload DateTime :=
  { p with metadata := p.metadata.bind Json.nonNull }

theorem payload_ofJson_toJson (serde : Serde DateTime) (p : WebhookPayload DateTime)
    (ht : serde.decodeTime (serde.encodeTime p.timestamp) = some p.timestamp) :
    WebhookPayload.ofJson serde (p.toJson serde) = some p.reread := by
  obtain ⟨eventId,eventType,key,sequence,timestamp,aggregateId,actor,data,metadata⟩ := p
  rw [WebhookPayload.ofJson,WebhookPayload.toJson,WebhookPayload.reread]
  cases metadata with
  | none => simp [Json.required,Json.optional,Json.named,ht]
  | some m => simp [Json.required,Json.optional_of_named,Json.named,ht]

/-- An entry comes back whole, but for a `null` in its metadata. -/
theorem deserialize_serialize {serde : Serde DateTime} {e : DeadLetterEntry DateTime}
    (h : serde.Exact e) : DeadLetterEntry.deserialize serde (e.serialize serde) =
      some { e with payload := e.payload.reread } := by
  have hp := payload_ofJson_toJson serde e.payload h.timestamp
  rw [DeadLetterEntry.deserialize,DeadLetterEntry.serialize,h.text,Option.bind_some]
  rw [DeadLetterEntry.ofJson,DeadLetterEntry.toJson]
  simp [Json.required,Json.named,hp,h.failedAt]

theorem reread_eq_self {p : WebhookPayload DateTime} :
    p.reread = p ↔ p.metadata≠some .null := by
  obtain ⟨_,_,_,_,_,_,_,_,metadata⟩ := p
  cases metadata with
  | none => simp [WebhookPayload.reread]
  | some m => simp [WebhookPayload.reread,Json.nonNull_eq_some]

end ProofStell.Webhook
