import ProofStell.Webhook.Delivery
import ProofStell.Stellar.Client
import ProofStell.Lib.Idempotent

/-! One HTTP request of the dispatcher, and the receiver that the documentation of the payload
recommends. -/
namespace ProofStell.Webhook
variable {DateTime ρ : Type}

structure Request where
  url : String
  headers : List (String × String)
  body : String

def Request.header (name : String) (r : Request) : Option String := r.headers.lookup name

/-- The parts of a send that come from other packages: HMAC-SHA256, `hex::encode`, which header
values `reqwest` takes and the error of the others, and the text of a status. -/
structure Http where
  hmac : (key message : List UInt8) → List UInt8
  hexEncode : List UInt8 → String
  headerValue : String → Bool
  builderError : String
  statusText : UInt16 → String

structure Channel where
  http : Http
  secret : Option String
  ttl : Nat

def computeWebhookSignature (http : Http) (secret : String) (body : List UInt8) : String :=
  http.hexEncode (http.hmac (Hash.asBytes secret) body)

namespace Channel
variable (c : Channel) (serde : Serde DateTime)

/-- The secret itself travels along with the signature. -/
def signature (body : String) : List (String × String) :=
  match c.secret with
  | some secret => [("X-Signature-256",computeWebhookSignature c.http secret (Hash.asBytes body)),
      ("X-Webhook-Secret",secret)]
  | none => []

def headers (payload : WebhookPayload DateTime) (body : String) : List (String × String) :=
  [("Content-Type","application/json"),("X-Idempotency-Key",payload.idempotencyKey),
    ("X-Event-Id",payload.eventId),("X-Event-Type",payload.eventType)]++c.signature body

def request (url : String) (payload : WebhookPayload DateTime) : Request :=
  let body := serde.toString (payload.toJson serde)
  ⟨url,c.headers payload body,body⟩

def sendable (payload : WebhookPayload DateTime) : Bool :=
  (c.request serde "" payload).headers.all fun h => c.http.headerValue h.2

/-- `send_once` through a connection that answers with a status or fails. -/
def sendOnce (url : String) (payload : WebhookPayload DateTime)
    (post : Request → ρ → Except String UInt16 × ρ) (r : ρ) : Except String Unit × ρ :=
  if c.sendable serde payload then
    match post (c.request serde url payload) r with
    | (.ok status,r) =>
      if Stellar.isSuccess status then (.ok (),r)
      else (.error ("HTTP "++c.http.statusText status),r)
    | (.error e,r) => (.error e,r)
  else (.error c.http.builderError,r)

variable {serde} in
theorem sendOnce_unsendable {payload : WebhookPayload DateTime}
    (hbad : c.sendable serde payload = false) (url : String)
    (post : Request → ρ → Except String UInt16 × ρ) (r : ρ) :
    c.sendOnce serde url payload post r = (.error c.http.builderError,r) := by
  rw [Channel.sendOnce,hbad]
  rfl

end Channel

structure Arrival where
  request : Request
  time : Nat

def Arrival.key (a : Arrival) : String := (a.request.header "X-Idempotency-Key").getD ""

def Channel.verifies (c : Channel) (r : Request) : Bool :=
  match c.secret with
  | some secret => r.header "X-Signature-256" =
      some (computeWebhookSignature c.http secret (Hash.asBytes r.body))
  | none => true

/-- Steps 1 to 4 of the recommended receiver. -/
def Channel.protocol (c : Channel) : Idempotent.Protocol Arrival String where
  token := Arrival.key
  time := Arrival.time
  genuine a := c.verifies a.request
  lifetime := c.ttl

abbrev Receiver := Idempotent.Receiver Arrival String

/-- A key seen before is answered like a processed one. -/
def statusOf : Idempotent.Verdict → UInt16
  | .duplicate | .processed => 200
  | .refused => 401

theorem header_idempotencyKey (c : Channel) (serde : Serde DateTime) (url : String)
    (payload : WebhookPayload DateTime) :
    (c.request serde url payload).header "X-Idempotency-Key" = some payload.idempotencyKey := by
  simp [Request.header,Channel.request,Channel.headers,List.lookup_cons]

/-- The receiver computes the signature that was sent. -/
theorem request_verifies (c : Channel) (serde : Serde DateTime) (url : String)
    (payload : WebhookPayload DateTime) : c.verifies (c.request serde url payload) = true := by
  rw [Channel.verifies]
  cases hs : c.secret with
  | none => rfl
  | some secret =>
    simp [Request.header,Channel.request,Channel.headers,Channel.signature,hs,List.lookup_cons]

theorem arrival_key (c : Channel) (serde : Serde DateTime) (url : String)
    (payload : WebhookPayload DateTime) (t : Nat) :
    Arrival.key ⟨c.request serde url payload,t⟩ = payload.idempotencyKey := by
  rw [Arrival.key,header_idempotencyKey,Option.getD_some]

end ProofStell.Webhook
